import ScalarLM.Adapter.Deactivation
import ScalarLM.Lib.Collect

/-! The worker's layer over the manager: requests name adapters by ids of their
own, which map to the ids that the loaded adapters got. -/

namespace ScalarLM.Adapter

structure Worker (V : Type) where
  manager : Manager V
  adaptorMapping : Dict Nat Nat
  globalLoraId : Nat

/-- The worker after a call and what the call returned, if it did not raise. -/
abbrev WorkerOutcome (V : Type) := Worker V × Option Bool

section Worker

variable {V : Type}

def WorkerOutcome.andThen (first : WorkerOutcome V) (next : Worker V → WorkerOutcome V) :
    WorkerOutcome V :=
  match first with
  | (worker, none) => (worker, none)
  | (worker, some _) => next worker

def Worker.lift (worker : Worker V) (outcome : Outcome V) : WorkerOutcome V :=
  ({ worker with manager := outcome.1 }, outcome.2)

def reverseMapping (mapping : Dict Nat Nat) : Dict Nat Nat :=
  Dict.ofAssignments (mapping.entries.map fun entry => (entry.2, entry.1))

/-- The requests whose adapters are registered; a registered adapter that nothing
maps to raises. -/
def listAdapters (worker : Worker V) : Option (List Nat) :=
  collect (fun id => ((reverseMapping worker.adaptorMapping).get? id).map fun request => [request])
    worker.manager.registeredAdapters

variable [Zero V] (host : Host V) (adapters : Nat → Dict Key V) (capacity : Nat)

def initialWorker : Worker V where
  manager := initialManager host
  adaptorMapping := .empty
  globalLoraId := 0

def loadAdapter (request : Nat) (worker : Worker V) : Worker V :=
  { worker with
    adaptorMapping := worker.adaptorMapping.set request (worker.globalLoraId + 1)
    globalLoraId := worker.globalLoraId + 1 }

/-- `add_adapter_worker`: unless the request's adapter is there already, load it,
add it and activate it. -/
def addAdapterWorker (request : Nat) (worker : Worker V) : WorkerOutcome V :=
  match listAdapters worker with
  | none => (worker, none)
  | some existing =>
      if request ∈ existing then (worker, some false)
      else
        let worker := loadAdapter request worker
        let id := worker.globalLoraId
        WorkerOutcome.andThen (worker.lift (addAdapter host adapters capacity id worker.manager))
          fun worker =>
            let activated := worker.lift (activateAdapter host adapters id worker.manager)
            -- the value of `add_adapter`, which is always true
            (activated.1, activated.2.map fun _ => true)

def activateRequest (request : Nat) (worker : Worker V) : WorkerOutcome V :=
  match worker.adaptorMapping.get? request with
  | none => (worker, none)
  | some id => worker.lift (activateAdapter host adapters id worker.manager)

/-- The loop body of `manage_tokenformer_adapters`. -/
def serve (request : Option Nat) (worker : Worker V) : WorkerOutcome V :=
  match request with
  | some request =>
      WorkerOutcome.andThen (addAdapterWorker host adapters capacity request worker)
        (activateRequest host adapters request)
  | none => worker.lift (deactivateAllAdapters host adapters worker.manager)

def serveEach : List (Option Nat) → Worker V → WorkerOutcome V
  | [], worker => (worker, some false)
  | request :: rest, worker =>
      WorkerOutcome.andThen (serve host adapters capacity request worker) (serveEach rest)

def manageTokenformerAdapters (requests : List (Option Nat)) (worker : Worker V) :
    WorkerOutcome V :=
  if requests.length = 0 then
    worker.lift (deactivateAllAdapters host adapters worker.manager)
  else
    serveEach host adapters capacity requests worker

end Worker

end ScalarLM.Adapter
