import ScalarLM.Scheduling.Schedule

/-! The scheduler between two steps of the engine, and its steps. -/

namespace ScalarLM.Scheduling

open Engine Cache

variable {V : Type}

structure Scheduler (V : Type) where
  config : SchedulerConfig
  blockManager : BlockSpaceManagerV2
  waiting : List (Request V)
  running : List (Request V)
  swapped : List (Request V)
  finishedRequestsIds : List Nat

structure SchedulerOutputs (V : Type) where
  scheduledSeqGroups : List (ScheduledSequenceGroup V)
  numPrefillGroups : Nat
  numBatchedTokens : Int
  blocksToSwapIn : List (Nat × Nat)
  blocksToSwapOut : List (Nat × Nat)
  blocksToCopy : List (Nat × Nat)
  ignoredSeqGroups : List (Request V)
  numLookaheadSlots : Nat
  runningQueueSize : Nat
  preempted : Nat

namespace SchedulerOutputs

/-- Requests of one adapter stand together in the batch. -/
def loraLe (left right : ScheduledSequenceGroup V) : Bool :=
  left.seqGroup.loraIntId < right.seqGroup.loraIntId ∨
    (left.seqGroup.loraIntId = right.seqGroup.loraIntId ∧
      left.seqGroup.requestId ≤ right.seqGroup.requestId)

def sortByLoraIds (groups : List (ScheduledSequenceGroup V)) : List (ScheduledSequenceGroup V) :=
  if groups.any fun scheduled => 0 < scheduled.seqGroup.loraIntId then groups.mergeSort loraLe
  else groups

/-- Blocks are never swapped in and out in one step. -/
def make (outputs : SchedulerOutputs V) : Except ScheduleError (SchedulerOutputs V) :=
  if outputs.blocksToSwapIn ≠ [] ∧ outputs.blocksToSwapOut ≠ [] then .error .assertion
  else .ok { outputs with scheduledSeqGroups := sortByLoraIds outputs.scheduledSeqGroups }

end SchedulerOutputs

namespace Scheduler

variable (scheduler : Scheduler V)

def addSeqGroup (request : Request V) : Scheduler V :=
  { scheduler with waiting := scheduler.waiting ++ [request] }

def hasUnfinishedSeqs : Bool :=
  ! (scheduler.waiting.isEmpty && scheduler.running.isEmpty && scheduler.swapped.isEmpty)

section Batch

/-- The running requests count before any other is let in. -/
def startBudget : SchedulingBudget :=
  scheduler.running.foldl
    (fun budget request => budget.addNumSeqs request.requestId request.getMaxNumRunningSeqs)
    (.init scheduler.config.maxNumBatchedTokens scheduler.config.maxNumSeqs)

def startLoras : Option (List Nat) :=
  scheduler.config.maxLoras.map fun _ =>
    ((scheduler.running.map Request.loraIntId).filter (0 < ·)).dedup

def startPrefillState : PrefillState V where
  budget := scheduler.startBudget
  currLoras := scheduler.startLoras
  blockManager := scheduler.blockManager
  seqGroups := []
  ignoredSeqGroups := []
  leftover := []

/-- Swapped requests come before new ones. -/
def schedulePrefillsFirst (passedDelay : Nat → Bool) :
    Except ScheduleError (List (Request V) × PrefillState V) :=
  if scheduler.swapped.isEmpty then
    schedulePrefills scheduler.config passedDelay scheduler.waiting scheduler.startPrefillState
  else .ok (scheduler.waiting, scheduler.startPrefillState)

/-- When requests start there is nothing else in the batch. -/
def prefillBatch (waiting : List (Request V)) (prefills : PrefillState V) :
    Except ScheduleError (SchedulerOutputs V × Scheduler V) := do
  if prefills.budget.numBatchedTokens ≤ scheduler.config.maxNumBatchedTokens ∧
      prefills.budget.numCurrSeqs ≤ scheduler.config.maxNumSeqs then
    let running := scheduler.running ++ prefills.seqGroups.map ScheduledSequenceGroup.seqGroup
    let outputs ← SchedulerOutputs.make {
      scheduledSeqGroups := prefills.seqGroups
      numPrefillGroups := prefills.seqGroups.length
      numBatchedTokens := prefills.budget.numBatchedTokens
      blocksToSwapIn := []
      blocksToSwapOut := []
      blocksToCopy := []
      ignoredSeqGroups := prefills.ignoredSeqGroups
      numLookaheadSlots := 0
      runningQueueSize := running.length
      preempted := 0 }
    return (outputs, { scheduler with
      blockManager := prefills.blockManager
      waiting := waiting
      running := running })
  else throw .assertion

/-- Otherwise the running requests go on, and others come back when none of them had to give
way. -/
def decodeBatch (waiting : List (Request V)) (prefills : PrefillState V) :
    Except ScheduleError (SchedulerOutputs V × Scheduler V) := do
  let (left, state) ← scheduleRunning scheduler.config scheduler.running
    { budget := prefills.budget
      currLoras := prefills.currLoras
      blockManager := prefills.blockManager
      decodeSeqGroups := []
      prefillSeqGroups := []
      preempted := []
      swappedOut := []
      blocksToSwapOut := []
      blocksToCopy := [] }
  let start : SwappedState V :=
    { budget := state.budget
      currLoras := state.currLoras
      blockManager := state.blockManager
      decodeSeqGroups := []
      prefillSeqGroups := []
      infeasibleSeqGroups := []
      leftover := []
      blocksToSwapIn := []
      blocksToCopy := [] }
  let (swapped, back) ←
    if state.preempted.isEmpty && state.swappedOut.isEmpty then
      scheduleSwapped scheduler.config scheduler.swapped start
    else pure (scheduler.swapped, start)
  if back.budget.numBatchedTokens ≤ scheduler.config.maxNumBatchedTokens ∧
      back.budget.numCurrSeqs ≤ scheduler.config.maxNumSeqs ∧
      state.prefillSeqGroups.length = 0 ∧ back.prefillSeqGroups.length = 0 then
    let scheduled := state.decodeSeqGroups ++ back.decodeSeqGroups
    let running := left ++ scheduled.map ScheduledSequenceGroup.seqGroup
    let outputs ← SchedulerOutputs.make {
      scheduledSeqGroups := scheduled
      numPrefillGroups := 0
      numBatchedTokens := back.budget.numBatchedTokens
      blocksToSwapIn := back.blocksToSwapIn
      blocksToSwapOut := state.blocksToSwapOut
      blocksToCopy := state.blocksToCopy ++ back.blocksToCopy
      ignoredSeqGroups := prefills.ignoredSeqGroups ++ back.infeasibleSeqGroups
      numLookaheadSlots := getNumLookaheadSlots scheduler.config false
      runningQueueSize := running.length
      preempted := state.preempted.length + state.swappedOut.length }
    return (outputs, { scheduler with
      blockManager := back.blockManager
      waiting := state.preempted.reverse ++ waiting
      running := running
      swapped := swapped ++ state.swappedOut })
  else throw .assertion

def scheduleDefault (passedDelay : Nat → Bool) :
    Except ScheduleError (SchedulerOutputs V × Scheduler V) := do
  let (waiting, prefills) ← scheduler.schedulePrefillsFirst passedDelay
  if prefills.seqGroups.isEmpty then scheduler.decodeBatch waiting prefills
  else scheduler.prefillBatch waiting prefills

end Batch

section Metadata

structure BatchMetadata extends SequenceGroupMetadata where
  requestId : Nat
  loraIntId : Nat
  blockTables : List (Nat × List BlockId)
  deriving DecidableEq, Repr

def getBlockTable (manager : BlockSpaceManagerV2) (seq : Sequence) :
    Except CacheError (Nat × List BlockId) := do
  let table ← manager.tableOf seq.seqId
  return (seq.seqId, table.physicalBlockIds)

def metadata (manager : BlockSpaceManagerV2) (scheduled : ScheduledSequenceGroup V) :
    Except ScheduleError BatchMetadata := do
  let blockTables ← liftCache ((scheduled.seqGroup.getSeqs .running).mapM (getBlockTable manager))
  if scheduled.seqGroup.isPrefill ∧ scheduled.seqGroup.seqs.length ≠ 1 then throw .assertion
  else return {
    toSequenceGroupMetadata :=
      scheduled.seqGroup.toSequenceGroup.metadata scheduled.tokenChunkSize
    requestId := scheduled.seqGroup.requestId
    loraIntId := scheduled.seqGroup.loraIntId
    blockTables := blockTables }

def schedule (passedDelay : Nat → Bool) :
    Except ScheduleError (List BatchMetadata × SchedulerOutputs V × Scheduler V) := do
  let (outputs, scheduler) ← scheduler.scheduleDefault passedDelay
  let batch ← outputs.scheduledSeqGroups.mapM (metadata scheduler.blockManager)
  return (batch, outputs, scheduler)

end Metadata

section Ends

def freeSeqs (manager : BlockSpaceManagerV2) (seqs : List Sequence) :
    Except CacheError BlockSpaceManagerV2 :=
  seqs.foldlM (fun manager seq => manager.free seq.seqId) manager

/-- Aborted requests leave all queues, and their sequences are freed. An id belongs to one request,
so that it need not be crossed off where it is found. -/
def abortSeqGroup (requestIds : List Nat) : Except CacheError (Scheduler V) := do
  let aborted := (scheduler.waiting ++ scheduler.running ++ scheduler.swapped).filter
    fun request => request.requestId ∈ requestIds
  let manager ← freeSeqs scheduler.blockManager
    (aborted.flatMap fun request => request.seqs.filter fun seq => ! seq.status.isFinished)
  let kept := fun request : Request V => request.requestId ∉ requestIds
  return { scheduler with
    blockManager := manager
    waiting := scheduler.waiting.filter kept
    running := scheduler.running.filter kept
    swapped := scheduler.swapped.filter kept
    finishedRequestsIds := scheduler.finishedRequestsIds ++ aborted.map Request.requestId }

def freeFinishedSeqGroups : Except CacheError (Scheduler V) := do
  let manager ← freeSeqs scheduler.blockManager
    (scheduler.running.flatMap fun request => request.seqs.filter fun seq =>
      seq.status.isFinished)
  let finished := scheduler.running.filter fun request => request.isFinished
  return { scheduler with
    blockManager := manager
    running := scheduler.running.filter fun request => ! request.isFinished
    finishedRequestsIds := scheduler.finishedRequestsIds ++ finished.map Request.requestId }

end Ends

end Scheduler

end ScalarLM.Scheduling
