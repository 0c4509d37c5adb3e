import Mathlib.Algebra.Group.Defs
import Mathlib.Tactic.Common

/-! The in-memory counters of the API server. -/

namespace ScalarLM.Queue

/-- `Metrics`; `queue_depth` is lowered without a look at its value. -/
structure Metrics (Time : Type) where
  queueDepth : Int
  epochTime : Option Time
  totalCompletedRequests : Nat
  totalCompletedTokens : Int
  totalCompletedFlops : Int
  totalCompletedResponseTime : Time

namespace Metrics

variable {Time : Type}

def fresh [Zero Time] : Metrics Time where
  queueDepth := 0
  epochTime := none
  totalCompletedRequests := 0
  totalCompletedTokens := 0
  totalCompletedFlops := 0
  totalCompletedResponseTime := 0

def recordNewRequest (currentTime : Time) (metrics : Metrics Time) : Metrics Time :=
  { metrics with
    epochTime := if metrics.queueDepth = 0 then some currentTime else metrics.epochTime
    queueDepth := metrics.queueDepth + 1 }

/-- What a completed request counts before the times are looked at. -/
def countCompleted (tokenCount flopCount : Option Int) (metrics : Metrics Time) : Metrics Time :=
  { metrics with
    totalCompletedRequests := metrics.totalCompletedRequests + 1
    totalCompletedFlops := metrics.totalCompletedFlops + flopCount.getD 0
    totalCompletedTokens := metrics.totalCompletedTokens + tokenCount.getD 0
    queueDepth := metrics.queueDepth - 1 }

/-- Whether the call returns, and the counters it leaves behind. The difference to an
`epoch_time` that is still `None` raises, after the counting. -/
def recordCompletedRequest [Add Time] [Sub Time] (tokenCount flopCount : Option Int)
    (currentTime : Time) (metrics : Metrics Time) : Bool × Metrics Time :=
  let counted := metrics.countCompleted tokenCount flopCount
  match counted.epochTime with
  | none => (false, counted)
  | some epochTime =>
      (true, { counted with
        totalCompletedResponseTime :=
          counted.totalCompletedResponseTime + (currentTime - epochTime)
        epochTime := some currentTime })

variable [Add Time] [Sub Time] (tokenCount flopCount : Option Int) (currentTime : Time)
  (metrics : Metrics Time)

theorem recordCompletedRequest_returns :
    (metrics.recordCompletedRequest tokenCount flopCount currentTime).1 =
      metrics.epochTime.isSome := by
  unfold recordCompletedRequest
  cases known : metrics.epochTime with
  | none => simp [countCompleted, known]
  | some epochTime => simp [countCompleted, known]

theorem recordCompletedRequest_epochTime :
    (metrics.recordCompletedRequest tokenCount flopCount currentTime).2.epochTime.isSome =
      metrics.epochTime.isSome := by
  unfold recordCompletedRequest
  cases known : metrics.epochTime with
  | none => simp [countCompleted, known]
  | some epochTime => simp [countCompleted, known]

end Metrics

end ScalarLM.Queue
