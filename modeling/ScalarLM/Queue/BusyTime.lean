import Mathlib.MeasureTheory.Measure.Lebesgue.Basic
import ScalarLM.Lib.Level
import ScalarLM.Queue.Metrics

/-! What the counters of the API server say about the calls that were recorded: the requests
that are outstanding, the totals, and the time during which there were any. -/

namespace ScalarLM.Queue

open Level MeasureTheory

section Calls

/-- What is recorded of a request, with the counts of `record_completed_request`. -/
inductive MetricsCall where
  | new
  | completed (tokenCount flopCount : Option Int)

namespace MetricsCall

def isCompleted : MetricsCall → Bool
  | .new => false
  | .completed _ _ => true

def change : MetricsCall → Int
  | .new => 1
  | .completed _ _ => -1

def tokens : MetricsCall → Int
  | .new => 0
  | .completed tokenCount _ => tokenCount.getD 0

def flops : MetricsCall → Int
  | .new => 0
  | .completed _ flopCount => flopCount.getD 0

end MetricsCall

variable {Time : Type}

/-- A call with the time that `time.time()` gives in it. It may raise. -/
def Metrics.record [Add Time] [Sub Time] (metrics : Metrics Time) (call : Time × MetricsCall) :
    Option (Metrics Time) :=
  match call.2 with
  | .new => some (metrics.recordNewRequest call.1)
  | .completed tokenCount flopCount =>
      let recorded := metrics.recordCompletedRequest tokenCount flopCount call.1
      if recorded.1 then some recorded.2 else none

def changes (calls : List (Time × MetricsCall)) : List (Time × Int) :=
  calls.map fun call => (call.1, call.2.change)

theorem changes_concat (calls : List (Time × MetricsCall)) (call : Time × MetricsCall) :
    changes (calls ++ [call]) = changes calls ++ [(call.1, call.2.change)] := by
  simp [changes]

theorem level_changes (calls : List (Time × MetricsCall)) :
    level (changes calls) = (calls.countP fun call => !call.2.isCompleted : Nat) -
      (calls.countP fun call => call.2.isCompleted : Nat) := by
  induction calls with
  | nil => rfl
  | cons call rest ih =>
      have step : level (changes (call :: rest)) = call.2.change + level (changes rest) := by
        simp [changes, level]
      rw [step, ih, List.countP_cons, List.countP_cons]
      cases call.2 with
      | new =>
          simp [MetricsCall.change, MetricsCall.isCompleted]
          omega
      | completed _ _ =>
          simp [MetricsCall.change, MetricsCall.isCompleted]
          omega

/-- The clock never goes back, and no more requests are completed than there are. -/
structure Plausible [LinearOrder Time] (calls : List (Time × MetricsCall)) : Prop where
  ordered : (calls.map Prod.fst).Pairwise (· ≤ ·)
  covered : ∀ front, front <+: calls → 0 ≤ level (changes front)

def BeforeCompletion [LinearOrder Time] (calls : List (Time × MetricsCall)) (now : Time) : Prop :=
  ∃ call ∈ calls, call.2.isCompleted = true ∧ now < call.1

/-- The times up to the last completion at which requests are outstanding. -/
def busyTimes [LinearOrder Time] (calls : List (Time × MetricsCall)) : Set Time :=
  {now | 0 < levelAt (changes calls) now ∧ BeforeCompletion calls now}

end Calls

section Steps

variable {Time : Type} [LinearOrder Time] {calls : List (Time × MetricsCall)}

theorem Plausible.front {call : Time × MetricsCall} (credible : Plausible (calls ++ [call])) :
    Plausible calls where
  ordered := by
    have ordered := credible.ordered
    rw [List.map_append, List.pairwise_append] at ordered
    exact ordered.1
  covered := fun front first => credible.covered front (first.trans (List.prefix_append _ _))

theorem Plausible.past {call : Time × MetricsCall} (credible : Plausible (calls ++ [call])) :
    ∀ earlier ∈ calls, earlier.1 ≤ call.1 := by
  have ordered := credible.ordered
  rw [List.map_append, List.pairwise_append] at ordered
  intro earlier member
  exact ordered.2.2 _ (List.mem_map_of_mem member) _ List.mem_cons_self

theorem changes_past {call : Time × MetricsCall} (past : ∀ earlier ∈ calls, earlier.1 ≤ call.1) :
    ∀ change ∈ changes calls, change.1 ≤ call.1 := by
  intro change member
  obtain ⟨earlier, there, rfl⟩ := List.mem_map.mp member
  exact past earlier there

theorem beforeCompletion_concat (calls : List (Time × MetricsCall)) (call : Time × MetricsCall)
    (now : Time) : BeforeCompletion (calls ++ [call]) now ↔
      BeforeCompletion calls now ∨ (call.2.isCompleted = true ∧ now < call.1) := by
  simp [BeforeCompletion, or_and_right, exists_or]

end Steps

section Busy

variable {Time : Type} [LinearOrder Time] {calls : List (Time × MetricsCall)}
  {call : Time × MetricsCall} {epoch : Time}

structure BusySince (calls : List (Time × MetricsCall)) (epoch : Time) : Prop where
  reached : ∃ call ∈ calls, call.1 = epoch
  since : ∀ now, epoch ≤ now → 0 < levelAt (changes calls) now
  before : ∀ now, now < epoch → 0 < levelAt (changes calls) now → BeforeCompletion calls now
  completions : ∀ call ∈ calls, call.2.isCompleted = true → call.1 ≤ epoch

/-- Whenever requests were outstanding, one was completed later. -/
def Idle (calls : List (Time × MetricsCall)) : Prop :=
  ∀ now, 0 < levelAt (changes calls) now → BeforeCompletion calls now

theorem levelAt_changes (past : ∀ earlier ∈ calls, earlier.1 ≤ call.1) (now : Time) :
    levelAt (changes (calls ++ [call])) now =
      if now < call.1 then levelAt (changes calls) now
      else level (changes calls) + call.2.change := by
  rw [changes_concat]
  split
  · rename_i before
    exact levelAt_concat_of_lt _ _ _ before
  · rename_i after
    exact levelAt_concat_of_le _ _ _ (changes_past past) (not_lt.mp after)

theorem lt_of_beforeCompletion (past : ∀ earlier ∈ calls, earlier.1 ≤ call.1) {now : Time}
    (before : BeforeCompletion calls now) : now < call.1 := by
  obtain ⟨earlier, there, _, less⟩ := before
  exact less.trans_le (past earlier there)

theorem busyTimes_new (past : ∀ earlier ∈ calls, earlier.1 ≤ call.1)
    (arriving : call.2.isCompleted = false) : busyTimes (calls ++ [call]) = busyTimes calls := by
  ext now
  have same : BeforeCompletion (calls ++ [call]) now ↔ BeforeCompletion calls now := by
    simp [beforeCompletion_concat, arriving]
  simp only [busyTimes, Set.mem_ofPred_eq, same, and_congr_left_iff]
  intro before
  rw [levelAt_changes past, if_pos (lt_of_beforeCompletion past before)]

theorem busyTimes_completed (past : ∀ earlier ∈ calls, earlier.1 ≤ call.1)
    (completed : call.2.isCompleted = true) (busy : BusySince calls epoch) :
    busyTimes (calls ++ [call]) = busyTimes calls ∪ Set.Ico epoch call.1 := by
  ext now
  simp only [busyTimes, Set.mem_ofPred_eq, Set.mem_union, Set.mem_Ico, beforeCompletion_concat,
    completed, true_and]
  constructor
  · intro given
    rcases given with ⟨positive, before⟩
    have less : now < call.1 := before.elim (lt_of_beforeCompletion past) id
    rw [levelAt_changes past, if_pos less] at positive
    rcases le_or_gt epoch now with after | early
    · exact Or.inr ⟨after, less⟩
    · exact Or.inl ⟨positive, busy.before now early positive⟩
  · intro either
    rcases either with ⟨positive, before⟩ | ⟨after, less⟩
    · rw [levelAt_changes past, if_pos (lt_of_beforeCompletion past before)]
      exact ⟨positive, Or.inl before⟩
    · rw [levelAt_changes past, if_pos less]
      exact ⟨busy.since now after, Or.inr less⟩

theorem BusySince.counted_before (busy : BusySince calls epoch) {now : Time}
    (counted : now ∈ busyTimes calls) : now < epoch := by
  obtain ⟨earlier, there, completed, less⟩ := counted.2
  exact less.trans_le (busy.completions earlier there completed)

theorem Idle.new (idle : Idle calls) (empty : level (changes calls) = 0)
    (past : ∀ earlier ∈ calls, earlier.1 ≤ call.1) (opens : call.2 = .new) :
    BusySince (calls ++ [call]) call.1 where
  reached := ⟨call, List.mem_append_right _ List.mem_cons_self, rfl⟩
  since := by
    intro now after
    rw [levelAt_changes past, if_neg (not_lt.mpr after), empty, opens]
    decide
  before := by
    intro now early positive
    rw [levelAt_changes past, if_pos early] at positive
    exact (beforeCompletion_concat _ _ _).mpr (Or.inl (idle now positive))
  completions := by
    intro other member _
    rcases List.mem_append.mp member with old | last
    · exact past other old
    · exact (congrArg Prod.fst (List.mem_singleton.mp last)).le

theorem BusySince.new (busy : BusySince calls epoch) (outstanding : 0 < level (changes calls))
    (past : ∀ earlier ∈ calls, earlier.1 ≤ call.1) (opens : call.2 = .new) :
    BusySince (calls ++ [call]) epoch where
  reached := by
    obtain ⟨earlier, there, same⟩ := busy.reached
    exact ⟨earlier, List.mem_append_left _ there, same⟩
  since := by
    intro now after
    rw [levelAt_changes past, opens]
    split
    · exact busy.since now after
    · exact Int.lt_add_one_of_le outstanding.le
  before := by
    intro now early positive
    obtain ⟨earlier, there, same⟩ := busy.reached
    have less : now < call.1 := early.trans_le (same ▸ past earlier there)
    rw [levelAt_changes past, if_pos less] at positive
    exact (beforeCompletion_concat _ _ _).mpr (Or.inl (busy.before now early positive))
  completions := by
    intro other member completed
    rcases List.mem_append.mp member with old | last
    · exact busy.completions other old completed
    · rw [List.mem_singleton.mp last, opens] at completed
      cases completed

theorem before_of_completed
    (completed : call.2.isCompleted = true) (now : Time) (early : now < call.1) :
    BeforeCompletion (calls ++ [call]) now :=
  (beforeCompletion_concat _ _ _).mpr (Or.inr ⟨completed, early⟩)

theorem busySince_completed (past : ∀ earlier ∈ calls, earlier.1 ≤ call.1)
    (completed : call.2.isCompleted = true) (left : 0 < level (changes (calls ++ [call]))) :
    BusySince (calls ++ [call]) call.1 where
  reached := ⟨call, List.mem_append_right _ List.mem_cons_self, rfl⟩
  since := by
    intro now later
    rw [levelAt_changes past, if_neg (not_lt.mpr later), ← level_concat _ (call.1, _),
      ← changes_concat]
    exact left
  before := fun now early _ => before_of_completed completed now early
  completions := by
    intro other member _
    rcases List.mem_append.mp member with old | last
    · exact past other old
    · exact (congrArg Prod.fst (List.mem_singleton.mp last)).le

theorem idle_completed (past : ∀ earlier ∈ calls, earlier.1 ≤ call.1)
    (completed : call.2.isCompleted = true) (zero : level (changes (calls ++ [call])) = 0) :
    Idle (calls ++ [call]) := by
  intro now positive
  rw [levelAt_changes past] at positive
  split at positive
  · rename_i early
    exact before_of_completed completed now early
  · rw [← level_concat _ (call.1, _), ← changes_concat, zero] at positive
    exact absurd positive (lt_irrefl 0)

end Busy

section Counters

variable {calls : List (ℝ × MetricsCall)} {call : ℝ × MetricsCall} {metrics : Metrics ℝ}

structure Recorded (calls : List (ℝ × MetricsCall)) (metrics : Metrics ℝ) : Prop where
  depth : metrics.queueDepth = level (changes calls)
  requests : metrics.totalCompletedRequests = calls.countP fun call => call.2.isCompleted
  tokens : metrics.totalCompletedTokens = (calls.map fun call => call.2.tokens).sum
  flops : metrics.totalCompletedFlops = (calls.map fun call => call.2.flops).sum
  nonnegative : 0 ≤ metrics.totalCompletedResponseTime
  time : volume (busyTimes calls) = ENNReal.ofReal metrics.totalCompletedResponseTime
  busy : 0 < level (changes calls) → ∃ epoch, metrics.epochTime = some epoch ∧
    BusySince calls epoch
  idle : level (changes calls) = 0 → Idle calls

theorem recorded_fresh : Recorded [] Metrics.fresh where
  depth := rfl
  requests := rfl
  tokens := rfl
  flops := rfl
  nonnegative := le_rfl
  time := by
    have none : busyTimes ([] : List (ℝ × MetricsCall)) = ∅ := by
      apply Set.eq_empty_of_forall_notMem
      intro now counted
      exact absurd counted.1 (by simp [changes, levelAt, level])
    rw [none, measure_empty]
    exact ENNReal.ofReal_zero.symm
  busy := fun positive => absurd positive (by simp [changes, level])
  idle := fun _ now positive => absurd positive (by simp [changes, levelAt, level])

theorem Recorded.new (recorded : Recorded calls metrics)
    (credible : Plausible (calls ++ [call])) (opens : call.2 = .new) :
    ∃ after, metrics.record call = some after ∧ Recorded (calls ++ [call]) after := by
  have past := credible.past
  have nonneg := credible.covered calls (List.prefix_append _ _)
  have after : level (changes (calls ++ [call])) = level (changes calls) + 1 := by
    rw [changes_concat, level_concat, opens]
    rfl
  refine ⟨metrics.recordNewRequest call.1, by rw [Metrics.record, opens], ?_⟩
  constructor
  · rw [after, ← recorded.depth]
    rfl
  · simpa [Metrics.recordNewRequest, opens, MetricsCall.isCompleted] using recorded.requests
  · simpa [Metrics.recordNewRequest, opens, MetricsCall.tokens] using recorded.tokens
  · simpa [Metrics.recordNewRequest, opens, MetricsCall.flops] using recorded.flops
  · exact recorded.nonnegative
  · rw [busyTimes_new past (by rw [opens]; rfl)]
    exact recorded.time
  · intro _
    rw [Metrics.recordNewRequest]
    rcases nonneg.eq_or_lt with zero | positive
    · refine ⟨call.1, if_pos ?_, (recorded.idle zero.symm).new zero.symm past opens⟩
      rw [recorded.depth, ← zero]
    · obtain ⟨epoch, known, busy⟩ := recorded.busy positive
      refine ⟨epoch, ?_, busy.new positive past opens⟩
      rw [← known]
      refine if_neg ?_
      rw [recorded.depth]
      exact positive.ne'
  · intro zero
    omega

theorem Recorded.completed (recorded : Recorded calls metrics)
    (credible : Plausible (calls ++ [call])) (tokenCount flopCount : Option Int)
    (closes : call.2 = .completed tokenCount flopCount) :
    ∃ after, metrics.record call = some after ∧ Recorded (calls ++ [call]) after := by
  have past := credible.past
  have ends : call.2.isCompleted = true := by
    rw [closes]
    rfl
  have after : level (changes (calls ++ [call])) = level (changes calls) - 1 := by
    rw [changes_concat, level_concat, closes]
    rfl
  have outstanding : 0 < level (changes calls) := by
    have left := credible.covered _ (List.prefix_refl _)
    omega
  obtain ⟨epoch, known, busy⟩ := recorded.busy outstanding
  have earlier : epoch ≤ call.1 := by
    obtain ⟨other, there, same⟩ := busy.reached
    exact same ▸ past other there
  refine ⟨(metrics.recordCompletedRequest tokenCount flopCount call.1).2, ?_, ?_⟩
  · rw [Metrics.record, closes]
    simp only [Metrics.recordCompletedRequest_returns, known, Option.isSome_some, if_true]
  simp only [Metrics.recordCompletedRequest, Metrics.countCompleted, known]
  constructor
  · rw [after, ← recorded.depth]
  · simpa [ends] using recorded.requests
  · simpa [closes, MetricsCall.tokens] using recorded.tokens
  · simpa [closes, MetricsCall.flops] using recorded.flops
  · exact add_nonneg recorded.nonnegative (sub_nonneg.mpr earlier)
  · have disjoint : Disjoint (busyTimes calls) (Set.Ico epoch call.1) := by
      apply Set.disjoint_left.mpr
      intro now counted later
      exact absurd (busy.counted_before counted) (not_lt.mpr later.1)
    rw [busyTimes_completed past ends busy, measure_union disjoint measurableSet_Ico,
      recorded.time, Real.volume_Ico,
      ENNReal.ofReal_add recorded.nonnegative (sub_nonneg.mpr earlier)]
  · intro positive
    exact ⟨call.1, rfl, busySince_completed past ends positive⟩
  · exact idle_completed past ends

/-- All calls return, and the counters hold what they amount to. -/
theorem recorded_calls (calls : List (ℝ × MetricsCall)) (credible : Plausible calls) :
    ∃ metrics, calls.foldlM Metrics.record Metrics.fresh = some metrics ∧
      Recorded calls metrics := by
  induction calls using List.reverseRecOn with
  | nil => exact ⟨Metrics.fresh, rfl, recorded_fresh⟩
  | append_singleton calls call ih =>
      obtain ⟨metrics, before, recorded⟩ := ih credible.front
      have next : ∃ after, metrics.record call = some after ∧
          Recorded (calls ++ [call]) after := by
        cases kind : call.2 with
        | new => exact recorded.new credible kind
        | completed tokenCount flopCount =>
            exact recorded.completed credible tokenCount flopCount kind
      obtain ⟨after, last, holds⟩ := next
      refine ⟨after, ?_, holds⟩
      rw [List.foldlM_append, before]
      simp only [Option.bind_eq_bind, Option.bind_some, List.foldlM_cons, last, List.foldlM_nil]
      rfl

/-- The counters after any credible calls: the requests outstanding, the sums over the
completions, and the length of the time during which requests were outstanding. -/
theorem busy_time_counted (calls : List (ℝ × MetricsCall)) (credible : Plausible calls) :
    ∃ metrics, calls.foldlM Metrics.record Metrics.fresh = some metrics ∧
      metrics.queueDepth = (calls.countP fun call => !call.2.isCompleted : Nat) -
        (calls.countP fun call => call.2.isCompleted : Nat) ∧
      metrics.totalCompletedRequests = (calls.countP fun call => call.2.isCompleted) ∧
      metrics.totalCompletedTokens = (calls.map fun call => call.2.tokens).sum ∧
      metrics.totalCompletedFlops = (calls.map fun call => call.2.flops).sum ∧
      metrics.totalCompletedResponseTime = (volume (busyTimes calls)).toReal := by
  obtain ⟨metrics, all, recorded⟩ := recorded_calls calls credible
  refine ⟨metrics, all, recorded.depth.trans (level_changes calls), recorded.requests,
    recorded.tokens, recorded.flops, ?_⟩
  rw [recorded.time, ENNReal.toReal_ofReal recorded.nonnegative]

def overlapping : List (ℝ × MetricsCall) :=
  [(0, .new), (1, .new), (3, .completed (some 5) none), (4, .completed none (some 7)),
    (9, .new), (10, .completed (some 2) (some 1))]

theorem overlapping_counted :
    ∃ metrics, overlapping.foldlM Metrics.record Metrics.fresh = some metrics ∧
      metrics.queueDepth = 0 ∧ metrics.totalCompletedRequests = 3 ∧
      metrics.totalCompletedTokens = 7 ∧ metrics.totalCompletedFlops = 8 ∧
      metrics.totalCompletedResponseTime = (volume (busyTimes overlapping)).toReal := by
  have credible : Plausible overlapping := by
    constructor
    · simp [overlapping]
      norm_num
    · intro front first
      have listed := (List.mem_inits front overlapping).mpr first
      simp only [overlapping, List.inits, List.map_cons, List.map_nil, List.mem_cons,
        List.not_mem_nil, or_false] at listed
      rcases listed with rfl | rfl | rfl | rfl | rfl | rfl | rfl <;>
        simp [changes, level, MetricsCall.change]
  exact busy_time_counted overlapping credible

end Counters

end ScalarLM.Queue
