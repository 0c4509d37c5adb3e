import ScalarLM.Lib.Transition
import Mathlib.Data.List.Nodup

/-! The tables of LoRA adapters of the chat and the completion serving objects, which the API
server updates one after the other. -/

namespace ScalarLM.Serving

open Transition

section Tables

structure LoRARequest where
  loraName : String
  loraIntId : Nat
  loraPath : String

structure LoRAModulePath where
  name : String
  path : String

structure ErrorResponse where
  message : String
  type : String
  code : Nat

/-- A serving object: its `AtomicCounter` and its table. -/
structure OpenAIServing where
  loraIdCounter : Nat
  loraRequests : List LoRARequest

/-- `__init__`; the ids of static modules do not come from the counter. -/
def OpenAIServing.init (loraModules : Option (List LoRAModulePath)) : OpenAIServing where
  loraIdCounter := 0
  loraRequests :=
    match loraModules with
    | none => []
    | some modules => (modules.zipIdx 1).map fun lora => ⟨lora.1.name, lora.2, lora.1.path⟩

def createErrorResponse (message errType : String) : ErrorResponse := ⟨message, errType, 400⟩

variable (serving : OpenAIServing)

def OpenAIServing.hasLora (loraName : String) : Bool :=
  serving.loraRequests.any fun loraRequest => decide (loraRequest.loraName = loraName)

def OpenAIServing.checkLoadLoraAdapterRequest (loraName loraPath : String) :
    Option ErrorResponse :=
  if loraName = "" ∨ loraPath = "" then
    some (createErrorResponse "Both 'lora_name' and 'lora_path' must be provided."
      "InvalidUserInput")
  else if serving.hasLora loraName then
    some (createErrorResponse
      ("The lora adapter '" ++ loraName ++ "' has already beenloaded.") "InvalidUserInput")
  else none

def OpenAIServing.checkUnloadLoraAdapterRequest (loraName : String) (loraIntId : Option Int) :
    Option ErrorResponse :=
  if loraName = "" ∧ (loraIntId = none ∨ loraIntId = some 0) then
    some (createErrorResponse "either 'lora_name' and 'lora_int_id' needs to be provided."
      "InvalidUserInput")
  else if serving.hasLora loraName then none
  else
    some (createErrorResponse ("The lora adapter '" ++ loraName ++ "' cannot be found.")
      "InvalidUserInput")

def OpenAIServing.loadLoraAdapter (loraName loraPath : String) :
    OpenAIServing × Except ErrorResponse String :=
  match serving.checkLoadLoraAdapterRequest loraName loraPath with
  | some error => (serving, .error error)
  | none =>
      let uniqueId := serving.loraIdCounter + 1
      (⟨uniqueId, serving.loraRequests ++ [⟨loraName, uniqueId, loraPath⟩]⟩,
        .ok ("Success: LoRA adapter '" ++ loraName ++ "' added successfully."))

/-- The id in the request is not looked at any further. -/
def OpenAIServing.unloadLoraAdapter (loraName : String) (loraIntId : Option Int) :
    OpenAIServing × Except ErrorResponse String :=
  match serving.checkUnloadLoraAdapterRequest loraName loraIntId with
  | some error => (serving, .error error)
  | none =>
      (⟨serving.loraIdCounter,
          serving.loraRequests.filter fun loraRequest => loraRequest.loraName ≠ loraName⟩,
        .ok ("Success: LoRA adapter '" ++ loraName ++ "' removed successfully."))

end Tables

section Server

structure ApiServer where
  chat : OpenAIServing
  completion : OpenAIServing

inductive LoraHttpRequest where
  | load (loraName loraPath : String)
  | unload (loraName : String) (loraIntId : Option Int)

/-- The state that `create_vllm` builds: its arguments have no `--lora-modules`. -/
def ApiServer.create : ApiServer := ⟨.init none, .init none⟩

/-- Both handlers: the chat object first, and the completion object if that was no error. -/
def ApiServer.update (server : ApiServer)
    (updates : OpenAIServing → OpenAIServing × Except ErrorResponse String) :
    ApiServer × Except ErrorResponse String :=
  match updates server.chat with
  | (chat, .error error) => (⟨chat, server.completion⟩, .error error)
  | (chat, .ok _) =>
      match updates server.completion with
      | (completion, response) => (⟨chat, completion⟩, response)

def ApiServer.handle (server : ApiServer) :
    LoraHttpRequest → ApiServer × Except ErrorResponse String
  | .load loraName loraPath =>
      server.update fun serving => serving.loadLoraAdapter loraName loraPath
  | .unload loraName loraIntId =>
      server.update fun serving => serving.unloadLoraAdapter loraName loraIntId

def serverStep (server : ApiServer) (request : LoraHttpRequest) : ApiServer :=
  (server.handle request).1

def Rejected (server : ApiServer) (request : LoraHttpRequest) : Prop :=
  ∃ error, (server.handle request).2 = .error error

end Server

section Invariant

structure TableInvariant (serving : OpenAIServing) : Prop where
  names : (serving.loraRequests.map LoRARequest.loraName).Nodup
  ids : (serving.loraRequests.map LoRARequest.loraIntId).Nodup
  counted : ∀ loraRequest ∈ serving.loraRequests,
    0 < loraRequest.loraIntId ∧ loraRequest.loraIntId ≤ serving.loraIdCounter

variable {serving : OpenAIServing}

theorem hasLora_iff (loraName : String) :
    serving.hasLora loraName = true ↔
      loraName ∈ serving.loraRequests.map LoRARequest.loraName := by
  rw [OpenAIServing.hasLora, List.any_eq_true, List.mem_map]
  simp only [decide_eq_true_eq]

theorem checkLoad_none (loraName loraPath : String)
    (passed : serving.checkLoadLoraAdapterRequest loraName loraPath = none) :
    loraName ∉ serving.loraRequests.map LoRARequest.loraName := by
  rw [OpenAIServing.checkLoadLoraAdapterRequest] at passed
  split at passed
  · cases passed
  · split at passed
    · cases passed
    · rename_i absent
      rwa [hasLora_iff] at absent

theorem load_cases (loraName loraPath : String) :
    (∃ error, serving.loadLoraAdapter loraName loraPath = (serving, .error error)) ∨
      loraName ∉ serving.loraRequests.map LoRARequest.loraName ∧
        ∃ message, serving.loadLoraAdapter loraName loraPath =
          (⟨serving.loraIdCounter + 1, serving.loraRequests ++
            [⟨loraName, serving.loraIdCounter + 1, loraPath⟩]⟩, .ok message) := by
  rw [OpenAIServing.loadLoraAdapter]
  split
  · rename_i error _
    exact .inl ⟨error, rfl⟩
  · rename_i passed
    exact .inr ⟨checkLoad_none loraName loraPath passed, _, rfl⟩

theorem unload_cases (loraName : String) (loraIntId : Option Int) :
    (∃ error, serving.unloadLoraAdapter loraName loraIntId = (serving, .error error)) ∨
      ∃ message, serving.unloadLoraAdapter loraName loraIntId = (⟨serving.loraIdCounter,
        serving.loraRequests.filter fun loraRequest => loraRequest.loraName ≠ loraName⟩,
          .ok message) := by
  rw [OpenAIServing.unloadLoraAdapter]
  split
  · rename_i error _
    exact .inl ⟨error, rfl⟩
  · exact .inr ⟨_, rfl⟩

theorem load_quiet (loraName loraPath : String) (error : ErrorResponse)
    (given : (serving.loadLoraAdapter loraName loraPath).2 = .error error) :
    (serving.loadLoraAdapter loraName loraPath).1 = serving := by
  rcases load_cases loraName loraPath with ⟨_, same⟩ | ⟨_, message, added⟩
  · rw [same]
  · rw [added] at given
    cases given

theorem unload_quiet (loraName : String) (loraIntId : Option Int) (error : ErrorResponse)
    (given : (serving.unloadLoraAdapter loraName loraIntId).2 = .error error) :
    (serving.unloadLoraAdapter loraName loraIntId).1 = serving := by
  rcases unload_cases loraName loraIntId with ⟨_, same⟩ | ⟨message, removed⟩
  · rw [same]
  · rw [removed] at given
    cases given

/-- What a request does to one table: nothing, or it adds the next id or takes entries away. -/
structure TableStep (before after : OpenAIServing) : Prop where
  counter : before.loraIdCounter ≤ after.loraIdCounter
  entries : ∀ loraRequest ∈ after.loraRequests, loraRequest ∈ before.loraRequests ∨
    loraRequest.loraIntId = before.loraIdCounter + 1
  invariant : TableInvariant after

theorem load_step (loraName loraPath : String) (invariant : TableInvariant serving) :
    TableStep serving (serving.loadLoraAdapter loraName loraPath).1 := by
  rcases load_cases loraName loraPath with ⟨error, same⟩ | ⟨absent, message, added⟩
  · rw [same]
    exact ⟨Nat.le_refl _, fun _ member => .inl member, invariant⟩
  · rw [added]
    have unused : serving.loraIdCounter + 1 ∉
        serving.loraRequests.map LoRARequest.loraIntId := by
      intro member
      obtain ⟨loraRequest, present, same⟩ := List.mem_map.mp member
      have counted := (invariant.counted loraRequest present).2
      omega
    refine ⟨Nat.le_succ _, ?_, ?_, ?_, ?_⟩
    · intro loraRequest member
      rcases List.mem_append.mp member with earlier | new
      · exact .inl earlier
      · rw [List.mem_singleton.mp new]
        exact .inr rfl
    · dsimp only
      rw [List.map_append, List.nodup_append_comm]
      exact List.nodup_cons.mpr ⟨absent, invariant.names⟩
    · dsimp only
      rw [List.map_append, List.nodup_append_comm]
      exact List.nodup_cons.mpr ⟨unused, invariant.ids⟩
    · intro loraRequest member
      rcases List.mem_append.mp member with earlier | new
      · obtain ⟨positive, bounded⟩ := invariant.counted loraRequest earlier
        exact ⟨positive, Nat.le_succ_of_le bounded⟩
      · rw [List.mem_singleton.mp new]
        exact ⟨Nat.succ_pos _, Nat.le_refl _⟩

theorem unload_step (loraName : String) (loraIntId : Option Int)
    (invariant : TableInvariant serving) :
    TableStep serving (serving.unloadLoraAdapter loraName loraIntId).1 := by
  rcases unload_cases loraName loraIntId with ⟨error, same⟩ | ⟨message, removed⟩
  · rw [same]
    exact ⟨Nat.le_refl _, fun _ member => .inl member, invariant⟩
  · rw [removed]
    have fewer : (serving.loraRequests.filter fun loraRequest =>
        loraRequest.loraName ≠ loraName).Sublist serving.loraRequests := List.filter_sublist
    refine ⟨Nat.le_refl _, fun _ member => .inl (fewer.subset member), ?_, ?_, ?_⟩
    · exact invariant.names.sublist (fewer.map _)
    · exact invariant.ids.sublist (fewer.map _)
    · exact fun loraRequest member => invariant.counted loraRequest (fewer.subset member)

end Invariant

section Lockstep

/-- Both serving objects are the same, and their table is in order. -/
structure ServerInvariant (server : ApiServer) : Prop where
  same : server.completion = server.chat
  table : TableInvariant server.chat

theorem update_same (serving : OpenAIServing)
    (updates : OpenAIServing → OpenAIServing × Except ErrorResponse String)
    (quiet : ∀ error, (updates serving).2 = .error error → (updates serving).1 = serving) :
    (⟨serving, serving⟩ : ApiServer).update updates =
      (⟨(updates serving).1, (updates serving).1⟩, (updates serving).2) := by
  rw [ApiServer.update]
  dsimp only
  split
  · rename_i chat error given
    have unchanged := quiet error (by rw [given])
    rw [given] at unchanged ⊢
    rw [← unchanged]
  · rename_i chat message given
    rw [given]

variable {server : ApiServer}

/-- What a request does to both objects alike. A rejected one changes nothing. -/
theorem handle_spec (request : LoraHttpRequest) (invariant : ServerInvariant server) :
    ∃ after, serverStep server request = ⟨after, after⟩ ∧ TableStep server.chat after ∧
      (Rejected server request → after = server.chat) := by
  obtain ⟨chat, completion⟩ := server
  obtain ⟨same, table⟩ := invariant
  dsimp only at same table
  subst same
  cases request with
  | load loraName loraPath =>
      have updated := update_same completion
        (fun serving => serving.loadLoraAdapter loraName loraPath) (load_quiet loraName loraPath)
      refine ⟨_, congrArg Prod.fst updated, load_step loraName loraPath table, ?_⟩
      intro rejected
      obtain ⟨error, given⟩ := rejected
      exact load_quiet _ _ error ((congrArg Prod.snd updated).symm.trans given)
  | unload loraName loraIntId =>
      have updated := update_same completion
        (fun serving => serving.unloadLoraAdapter loraName loraIntId)
        (unload_quiet loraName loraIntId)
      refine ⟨_, congrArg Prod.fst updated, unload_step loraName loraIntId table, ?_⟩
      intro rejected
      obtain ⟨error, given⟩ := rejected
      exact unload_quiet _ _ error ((congrArg Prod.snd updated).symm.trans given)

theorem serverInvariant_step (request : LoraHttpRequest) (invariant : ServerInvariant server) :
    ServerInvariant (serverStep server request) := by
  obtain ⟨after, stepped, table, _⟩ := handle_spec request invariant
  rw [stepped]
  exact ⟨rfl, table.invariant⟩

theorem serverInvariant_create : ServerInvariant .create where
  same := rfl
  table := ⟨List.nodup_nil, List.nodup_nil, fun _ member => absurd member List.not_mem_nil⟩

theorem serverInvariant_run (requests : List LoraHttpRequest)
    (invariant : ServerInvariant server) : ServerInvariant (run serverStep server requests) :=
  run_of_invariant serverStep ServerInvariant (fun _ _ => True)
    (fun _ request invariant _ => serverInvariant_step request invariant) _ _ invariant
    (allSteps_of_forall _ _ (fun _ _ => trivial) _ _)

def usedIds (server : ApiServer) : List Nat :=
  server.chat.loraRequests.map LoRARequest.loraIntId ++
    server.completion.loraRequests.map LoRARequest.loraIntId

theorem usedIds_bounded (invariant : ServerInvariant server) :
    ∀ id ∈ usedIds server, id ≤ server.chat.loraIdCounter := by
  intro id member
  rw [usedIds, invariant.same, List.mem_append, or_self, List.mem_map] at member
  obtain ⟨loraRequest, present, rfl⟩ := member
  exact (invariant.table.counted loraRequest present).2

theorem usedIds_step (request : LoraHttpRequest) (invariant : ServerInvariant server) :
    ∀ id ∈ usedIds (serverStep server request), id ∈ usedIds server ∨
      id = server.chat.loraIdCounter + 1 := by
  obtain ⟨after, stepped, table, _⟩ := handle_spec request invariant
  intro id member
  rw [usedIds, stepped, List.mem_append, or_self, List.mem_map] at member
  obtain ⟨loraRequest, present, rfl⟩ := member
  rcases table.entries loraRequest present with earlier | new
  · exact .inl (List.mem_append_left _ (List.mem_map_of_mem earlier))
  · exact .inr new

theorem counter_run (requests : List LoraHttpRequest) (invariant : ServerInvariant server) :
    server.chat.loraIdCounter ≤ (run serverStep server requests).chat.loraIdCounter := by
  induction requests generalizing server with
  | nil => exact Nat.le_refl _
  | cons request requests ih =>
      obtain ⟨after, stepped, table, _⟩ := handle_spec request invariant
      have later := ih (serverInvariant_step request invariant)
      rw [stepped] at later
      rw [show run serverStep server (request :: requests) =
        run serverStep (serverStep server request) requests from rfl, stepped]
      exact Nat.le_trans table.counter later

/-- What is visible of the tables at any time. -/
structure InLockstep (server : ApiServer) : Prop where
  same : server.completion.loraRequests = server.chat.loraRequests
  names : (server.chat.loraRequests.map LoRARequest.loraName).Nodup
  ids : (server.chat.loraRequests.map LoRARequest.loraIntId).Nodup
  positive : ∀ loraRequest ∈ server.chat.loraRequests, 0 < loraRequest.loraIntId

theorem inLockstep_of_invariant (server : ApiServer) (invariant : ServerInvariant server) :
    InLockstep server where
  same := by rw [invariant.same]
  names := invariant.table.names
  ids := invariant.table.ids
  positive := fun loraRequest member => (invariant.table.counted loraRequest member).1

/-- After each request of any sequence the tables are the same and without duplicates, a rejected
request changes neither, and an id that comes new into a table was in none before. -/
theorem lora_tables_lockstep (requests : List LoraHttpRequest) :
    Always serverStep InLockstep .create requests ∧
      AllSteps serverStep (fun server request => Rejected server request →
        (serverStep server request).chat.loraRequests = server.chat.loraRequests ∧
          (serverStep server request).completion.loraRequests = server.completion.loraRequests)
        .create requests ∧
      ∀ front middle request back, requests = front ++ middle ++ request :: back →
        ∀ id ∈ usedIds (serverStep (run serverStep .create (front ++ middle)) request),
          id ∉ usedIds (run serverStep .create (front ++ middle)) →
          id ∉ usedIds (run serverStep .create front) := by
  refine ⟨?_, ?_, ?_⟩
  · exact always_of_invariant serverStep ServerInvariant InLockstep (fun _ _ => True)
      (fun _ request invariant _ => serverInvariant_step request invariant)
      inLockstep_of_invariant _ _ serverInvariant_create
      (allSteps_of_forall _ _ (fun _ _ => trivial) _ _)
  · refine allSteps_of_invariant serverStep ServerInvariant _
      (fun _ request invariant => serverInvariant_step request invariant) ?_ _ _
      serverInvariant_create
    intro server request invariant rejected
    obtain ⟨after, stepped, _, unchanged⟩ := handle_spec request invariant
    rw [stepped, unchanged rejected, invariant.same]
    exact ⟨rfl, rfl⟩
  · intro front middle request back _ id added new earlier
    have begun := serverInvariant_run front serverInvariant_create
    have later := serverInvariant_run middle begun
    have grown := counter_run middle begun
    rw [← run_append] at later grown
    have bounded := usedIds_bounded begun id earlier
    rcases usedIds_step request later id added with present | next
    · exact new present
    · omega

/-- A name that is free again gets a new id. -/
example : (run serverStep .create [.load "a" "p", .load "a" "q", .unload "a" none,
    .load "a" "q"]).completion.loraRequests.map LoRARequest.loraIntId = [2] := by
  decide

end Lockstep

end ScalarLM.Serving
