import Mathlib.Data.List.Dedup
import ScalarLM.Cache.ManagerRuns

/-! The requests in the scheduler's queues, and what a batch may hold. -/

namespace ScalarLM.Engine

namespace SequenceGroup

variable {V : Type} (group : SequenceGroup V)

def numUnfinishedSeqs : Nat :=
  (group.seqs.filter fun seq => ! seq.status.isFinished).length

/-- A group that is not filled up yet will have as many sequences as it is to have. -/
def getMaxNumRunningSeqs : Nat :=
  match group.samplingParams with
  | none => group.numUnfinishedSeqs
  | some params =>
    if group.seqs.length < params.bestOf then params.bestOf else group.numUnfinishedSeqs

def setStatus (before after : SequenceStatus) : SequenceGroup V :=
  { group with seqs := group.seqs.map fun seq =>
      if seq.status = before then { seq with status := after } else seq }

end SequenceGroup

def SequenceData.resetStateForRecompute (data : SequenceData) : SequenceData :=
  { data with numComputedTokens := 0, stage := .prefill }

/-- A sequence that is decoded needs one token, another one what is left of its prompt. -/
def Sequence.getNumNewTokens (seq : Sequence) : Nat :=
  if seq.data.stage = .decode then 1 else seq.data.getLen - seq.data.numComputedTokens

end ScalarLM.Engine

namespace ScalarLM.Scheduling

open Engine Cache

inductive PreemptionMode where
  | swap
  | recompute
  deriving DecidableEq, Repr

/-- A configuration that was verified, for the policy `fcfs`, outputs that are processed before
the next step and no artificial preemption, which is for tests only. There are adapters when a
number of them is given. -/
structure SchedulerConfig where
  maxNumBatchedTokens : Nat
  maxNumSeqs : Nat
  maxModelLen : Nat
  numLookaheadSlots : Nat
  preemptionMode : Option PreemptionMode
  maxLoras : Option Nat
  modelLen_le : maxModelLen ≤ maxNumBatchedTokens
  numSeqs_le : maxNumSeqs ≤ maxNumBatchedTokens

/-- A group with the request it belongs to. No adapter has the number 0. -/
structure Request (V : Type) extends SequenceGroup V where
  requestId : Nat
  loraIntId : Nat
  deriving DecidableEq, Repr

inductive ScheduleError where
  | cache (failure : CacheError)
  | assertion
  | noSwapSpace
  deriving DecidableEq, Repr

def liftCache {α : Type} : Except CacheError α → Except ScheduleError α
  | .ok value => .ok value
  | .error failure => .error (.cache failure)

section Budget

structure SchedulingBudget where
  tokenBudget : Nat
  maxNumSeqs : Nat
  requestIdsNumBatchedTokens : List Nat
  requestIdsNumCurrSeqs : List Nat
  numBatchedTokens : Int
  numCurrSeqs : Int
  deriving DecidableEq, Repr

namespace SchedulingBudget

def init (tokenBudget maxNumSeqs : Nat) : SchedulingBudget :=
  ⟨tokenBudget, maxNumSeqs, [], [], 0, 0⟩

variable (budget : SchedulingBudget)

def canSchedule (numNewTokens numNewSeqs : Nat) : Except ScheduleError Bool :=
  if numNewTokens = 0 ∨ numNewSeqs = 0 then .error .assertion
  else .ok (budget.numBatchedTokens + numNewTokens ≤ budget.tokenBudget ∧
    budget.numCurrSeqs + numNewSeqs ≤ budget.maxNumSeqs)

def addNumBatchedTokens (requestId count : Nat) : SchedulingBudget :=
  if requestId ∈ budget.requestIdsNumBatchedTokens then budget
  else { budget with
    requestIdsNumBatchedTokens := requestId :: budget.requestIdsNumBatchedTokens
    numBatchedTokens := budget.numBatchedTokens + count }

def subtractNumBatchedTokens (requestId count : Nat) : SchedulingBudget :=
  if requestId ∈ budget.requestIdsNumBatchedTokens then { budget with
    requestIdsNumBatchedTokens := budget.requestIdsNumBatchedTokens.erase requestId
    numBatchedTokens := budget.numBatchedTokens - count }
  else budget

def addNumSeqs (requestId count : Nat) : SchedulingBudget :=
  if requestId ∈ budget.requestIdsNumCurrSeqs then budget
  else { budget with
    requestIdsNumCurrSeqs := requestId :: budget.requestIdsNumCurrSeqs
    numCurrSeqs := budget.numCurrSeqs + count }

def subtractNumSeqs (requestId count : Nat) : SchedulingBudget :=
  if requestId ∈ budget.requestIdsNumCurrSeqs then { budget with
    requestIdsNumCurrSeqs := budget.requestIdsNumCurrSeqs.erase requestId
    numCurrSeqs := budget.numCurrSeqs - count }
  else budget

end SchedulingBudget

end Budget

section Loras

def addLora (loras : List Nat) (lora : Nat) : List Nat :=
  if lora ∈ loras then loras else lora :: loras

def noRoomForLora (config : SchedulerConfig) (currLoras : Option (List Nat)) (lora : Nat) : Bool :=
  match config.maxLoras, currLoras with
  | some maxLoras, some loras => 0 < lora ∧ lora ∉ loras ∧ maxLoras ≤ loras.length
  | _, _ => false

def useLora (currLoras : Option (List Nat)) (lora : Nat) : Option (List Nat) :=
  currLoras.map fun loras => if 0 < lora then addLora loras lora else loras

def dropLora (currLoras : Option (List Nat)) (lora : Nat) : Option (List Nat) :=
  currLoras.map fun loras => if 0 < lora then loras.erase lora else loras

end Loras

end ScalarLM.Scheduling
