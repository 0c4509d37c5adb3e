import ScalarLM.Scheduling.Requests

/-! Scheduling: which requests run next, and which ones have to give way. -/

namespace ScalarLM.Scheduling

open Engine Cache

variable {V : Type}

/-- A request of a batch, and how many tokens of it are computed next. -/
structure ScheduledSequenceGroup (V : Type) where
  seqGroup : Request V
  tokenChunkSize : Nat
  deriving DecidableEq, Repr

section Requests

namespace Request

variable (request : Request V)

def withSeqs (seqs : List Sequence) : Request V :=
  { request with toSequenceGroup := { request.toSequenceGroup with seqs := seqs } }

def setStatus (before after : SequenceStatus) : Request V :=
  { request with toSequenceGroup := request.toSequenceGroup.setStatus before after }

def reset : Request V :=
  request.withSeqs (request.seqs.map fun seq =>
    if seq.status = .running then
      { seq with status := .waiting, data := seq.data.resetStateForRecompute }
    else seq)

/-- All sequences of a request that can never run are ended. -/
def ignore : Request V :=
  request.withSeqs (request.seqs.map fun seq => { seq with status := .finishedIgnored })

end Request

/-- The new tokens of a request, without chunks. -/
def getNumNewTokens (request : Request V) (status : SequenceStatus) : Except ScheduleError Nat :=
  let numNewTokens := ((request.getSeqs status).map Sequence.getNumNewTokens).sum
  if 0 < numNewTokens then .ok numNewTokens else .error .assertion

def getNumLookaheadSlots (config : SchedulerConfig) (isPrefill : Bool) : Nat :=
  if isPrefill then 0 else config.numLookaheadSlots

def getPromptLimit (config : SchedulerConfig) (request : Request V) : Except ScheduleError Nat :=
  let promptLimit := min config.maxModelLen config.maxNumBatchedTokens
  match request.longLoraMaxLen with
  | none | some 0 => .ok promptLimit
  | some maxLen => if promptLimit ≤ maxLen then .ok maxLen else .error .assertion

end Requests

section Blocks

variable (config : SchedulerConfig)

def canAppendSlots (manager : BlockSpaceManagerV2) (request : Request V) :
    Except ScheduleError Bool :=
  liftCache (manager.canAppendSlots request.toSequenceGroup
    (getNumLookaheadSlots config request.isPrefill))

def appendSlots (manager : BlockSpaceManagerV2) (request : Request V) :
    Except ScheduleError (List (Nat × Nat) × BlockSpaceManagerV2) :=
  liftCache (manager.appendAll (getNumLookaheadSlots config request.isPrefill)
    (request.getSeqs .running))

def allocateAndSetRunning (manager : BlockSpaceManagerV2) (request : Request V) :
    Except ScheduleError (Request V × BlockSpaceManagerV2) := do
  let manager ← liftCache (manager.allocate request.toSequenceGroup)
  return (request.setStatus .waiting .running, manager)

def swapIn (manager : BlockSpaceManagerV2) (request : Request V) :
    Except ScheduleError (List (Nat × Nat) × Request V × BlockSpaceManagerV2) := do
  let (mapping, manager) ← liftCache (manager.swapIn request.toSequenceGroup)
  return (mapping, request.setStatus .swapped .running, manager)

def swapOut (manager : BlockSpaceManagerV2) (request : Request V) :
    Except ScheduleError (List (Nat × Nat) × Request V × BlockSpaceManagerV2) := do
  if ← liftCache (manager.canSwapOut request.toSequenceGroup) then
    let (mapping, manager) ← liftCache (manager.swapOut request.toSequenceGroup)
    return (mapping, request.setStatus .running .swapped, manager)
  else throw .noSwapSpace

def preemptByRecompute (manager : BlockSpaceManagerV2) (request : Request V) :
    Except ScheduleError (Request V × BlockSpaceManagerV2) :=
  match request.getSeqs .running with
  | [seq] => do
    let manager ← liftCache (manager.free seq.seqId)
    return (request.reset, manager)
  | _ => .error .assertion

/-- Requests of several sequences cannot be computed again, and are moved to the CPU. -/
def preemptionMode (request : Request V) : PreemptionMode :=
  match config.preemptionMode with
  | none => if request.getMaxNumRunningSeqs = 1 then .recompute else .swap
  | some mode => mode

end Blocks

section Running

structure RunningState (V : Type) where
  budget : SchedulingBudget
  currLoras : Option (List Nat)
  blockManager : BlockSpaceManagerV2
  decodeSeqGroups : List (ScheduledSequenceGroup V)
  prefillSeqGroups : List (ScheduledSequenceGroup V)
  preempted : List (Request V)
  swappedOut : List (Request V)
  blocksToSwapOut : List (Nat × Nat)
  blocksToCopy : List (Nat × Nat)

variable (config : SchedulerConfig)

def preempt (state : RunningState V) (request : Request V) :
    Except ScheduleError (RunningState V) :=
  match preemptionMode config request with
  | .recompute => do
    let (request, manager) ← preemptByRecompute state.blockManager request
    return { state with
      blockManager := manager
      preempted := state.preempted ++ [request] }
  | .swap => do
    let (mapping, request, manager) ← swapOut state.blockManager request
    return { state with
      blockManager := manager
      swappedOut := state.swappedOut ++ [request]
      blocksToSwapOut := state.blocksToSwapOut ++ mapping }

def RunningState.release (state : RunningState V) (request : Request V) (numRunningTokens : Nat) :
    RunningState V :=
  { state with
    budget := (state.budget.subtractNumBatchedTokens request.requestId
      numRunningTokens).subtractNumSeqs request.requestId request.getMaxNumRunningSeqs
    currLoras := dropLora state.currLoras request.loraIntId }

/-- The last of the other requests, given here in reverse, give way until the request has room.
When there is no other it gives way itself. -/
def makeRoom (request : Request V) (numRunningTokens : Nat) :
    List (Request V) → RunningState V →
      Except ScheduleError (Bool × List (Request V) × RunningState V)
  | [], state => do
    if ← canAppendSlots config state.blockManager request then return (true, [], state)
    else
      let state ← preempt config (state.release request numRunningTokens) request
      return (false, [], state)
  | victim :: others, state => do
    if ← canAppendSlots config state.blockManager request then
      return (true, victim :: others, state)
    else
      let state ← preempt config (state.release request numRunningTokens) victim
      makeRoom request numRunningTokens others state

def keepRunning (request : Request V) (numRunningTokens : Nat) (state : RunningState V) :
    Except ScheduleError (RunningState V) := do
  let (cows, manager) ← appendSlots config state.blockManager request
  let state := { state with
    blockManager := manager
    blocksToCopy := state.blocksToCopy ++ cows
    budget := state.budget.addNumBatchedTokens request.requestId numRunningTokens
    currLoras := useLora state.currLoras request.loraIntId }
  if request.isPrefill then
    return { state with
      prefillSeqGroups := state.prefillSeqGroups ++ [⟨request, numRunningTokens⟩] }
  else
    return { state with decodeSeqGroups := state.decodeSeqGroups ++ [⟨request, 1⟩] }

/-- Each round takes the first request off the queue, and others from its end. What is left
of the queue comes back. -/
def scheduleRunningLoop : Nat → List (Request V) → RunningState V →
    Except ScheduleError (List (Request V) × RunningState V)
  | 0, queue, state => .ok (queue, state)
  | _ + 1, [], state => .ok ([], state)
  | rounds + 1, request :: rest, state => do
    let numRunningTokens ← getNumNewTokens request .running
    let (room, left, state) ← makeRoom config request numRunningTokens rest.reverse state
    let state ← if room then keepRunning config request numRunningTokens state else pure state
    scheduleRunningLoop rounds left.reverse state

def scheduleRunning (queue : List (Request V)) (state : RunningState V) :
    Except ScheduleError (List (Request V) × RunningState V) :=
  scheduleRunningLoop config queue.length queue state

end Running

section Swapped

structure SwappedState (V : Type) where
  budget : SchedulingBudget
  currLoras : Option (List Nat)
  blockManager : BlockSpaceManagerV2
  decodeSeqGroups : List (ScheduledSequenceGroup V)
  prefillSeqGroups : List (ScheduledSequenceGroup V)
  infeasibleSeqGroups : List (Request V)
  leftover : List (Request V)
  blocksToSwapIn : List (Nat × Nat)
  blocksToCopy : List (Nat × Nat)

variable (config : SchedulerConfig)

def bringBack (request : Request V) (numNewTokens numNewSeqs : Nat) (state : SwappedState V) :
    Except ScheduleError (SwappedState V) := do
  let (mapping, request, manager) ← swapIn state.blockManager request
  let (cows, manager) ← appendSlots config manager request
  let state := { state with
    blockManager := manager
    blocksToSwapIn := state.blocksToSwapIn ++ mapping
    blocksToCopy := state.blocksToCopy ++ cows
    currLoras := useLora state.currLoras request.loraIntId
    budget := (state.budget.addNumBatchedTokens request.requestId numNewTokens).addNumSeqs
      request.requestId numNewSeqs }
  if request.isPrefill then
    return { state with
      prefillSeqGroups := state.prefillSeqGroups ++ [⟨request, numNewTokens⟩] }
  else
    return { state with decodeSeqGroups := state.decodeSeqGroups ++ [⟨request, 1⟩] }

/-- Requests that come back in, as long as there is room. Those whose adapter has no room are
passed over. -/
def scheduleSwappedLoop : List (Request V) → SwappedState V →
    Except ScheduleError (List (Request V) × SwappedState V)
  | [], state => .ok ([], state)
  | request :: rest, state => do
    match ← liftCache (state.blockManager.canSwapIn request.toSequenceGroup
        (getNumLookaheadSlots config request.isPrefill)) with
    | .later => return (request :: rest, state)
    | .never =>
      scheduleSwappedLoop rest { state with
        infeasibleSeqGroups := state.infeasibleSeqGroups ++ [request.ignore] }
    | .ok =>
      if noRoomForLora config state.currLoras request.loraIntId then
        scheduleSwappedLoop rest { state with leftover := request :: state.leftover }
      else
        let numNewSeqs := request.getMaxNumRunningSeqs
        let numNewTokens ← getNumNewTokens request .swapped
        if ← state.budget.canSchedule numNewTokens numNewSeqs then
          let state ← bringBack config request numNewTokens numNewSeqs state
          scheduleSwappedLoop rest state
        else return (request :: rest, state)

def scheduleSwapped (queue : List (Request V)) (state : SwappedState V) :
    Except ScheduleError (List (Request V) × SwappedState V) := do
  let (left, state) ← scheduleSwappedLoop config queue state
  return (state.leftover.reverse ++ left, state)

end Swapped

section Prefills

structure PrefillState (V : Type) where
  budget : SchedulingBudget
  currLoras : Option (List Nat)
  blockManager : BlockSpaceManagerV2
  seqGroups : List (ScheduledSequenceGroup V)
  ignoredSeqGroups : List (Request V)
  leftover : List (Request V)

variable (config : SchedulerConfig)

def startPrefill (request : Request V) (numNewTokens numNewSeqs : Nat) (state : PrefillState V) :
    Except ScheduleError (PrefillState V) := do
  let (request, manager) ← allocateAndSetRunning state.blockManager request
  return { state with
    blockManager := manager
    seqGroups := state.seqGroups ++ [⟨request, numNewTokens⟩]
    currLoras := useLora state.currLoras request.loraIntId
    budget := (state.budget.addNumBatchedTokens request.requestId numNewTokens).addNumSeqs
      request.requestId numNewSeqs }

/-- New requests, as long as there is room and the delay has passed, which is asked for every
number of requests that still wait. -/
def schedulePrefillsLoop (passedDelay : Nat → Bool) : List (Request V) → PrefillState V →
    Except ScheduleError (List (Request V) × PrefillState V)
  | [], state => .ok ([], state)
  | request :: rest, state => do
    if ! passedDelay (rest.length + 1) then return (request :: rest, state)
    else match request.getSeqs .waiting with
    | [seq] =>
      let numNewTokens ← getNumNewTokens request .waiting
      if numNewTokens ≠ seq.data.getLen then throw .assertion
      else if (← getPromptLimit config request) < numNewTokens then
        schedulePrefillsLoop passedDelay rest { state with
          ignoredSeqGroups := state.ignoredSeqGroups ++
            [request.setStatus .waiting .finishedIgnored] }
      else match ← liftCache (state.blockManager.canAllocate request.toSequenceGroup 0) with
      | .later => return (request :: rest, state)
      | .never =>
        schedulePrefillsLoop passedDelay rest { state with
          ignoredSeqGroups := state.ignoredSeqGroups ++
            [request.setStatus .waiting .finishedIgnored] }
      | .ok =>
        if noRoomForLora config state.currLoras request.loraIntId then
          schedulePrefillsLoop passedDelay rest { state with
            leftover := request :: state.leftover }
        else
          let numNewSeqs := request.getMaxNumRunningSeqs
          if ← state.budget.canSchedule numNewTokens numNewSeqs then
            let state ← startPrefill request numNewTokens numNewSeqs state
            schedulePrefillsLoop passedDelay rest state
          else return (request :: rest, state)
    | _ => throw .assertion

def schedulePrefills (passedDelay : Nat → Bool) (queue : List (Request V))
    (state : PrefillState V) : Except ScheduleError (List (Request V) × PrefillState V) := do
  let (left, state) ← schedulePrefillsLoop config passedDelay queue state
  return (state.leftover.reverse ++ left, state)

end Prefills

end ScalarLM.Scheduling
