import Mathlib.Algebra.BigOperators.Group.Finset.Basic
import Mathlib.Algebra.Group.Action.Defs
import Mathlib.Algebra.Order.BigOperators.Group.Finset
import Mathlib.Data.Finset.Max
import ScalarLM.Mpi.AllgatherSteps

/-! Every run of `mpi_allgather` on all ranks ends, with all buffers gathered. -/

namespace ScalarLM.Mpi

open Transition

section Runs

variable {α : Type} (calls : Calls α)

def totalProgress (mesh : Mesh α) : Nat :=
  ∑ rank ∈ Finset.range calls.worldSize, (mesh.processes rank).progress calls.worldSize

/-- A message that is received belongs to the receiver's current call. -/
def ReceivesOwnCall (mesh : Mesh α) (event : Event) : Prop :=
  ∀ source first rest, (mesh.processes event.rank).phase = .waiting source →
    mesh.channels source event.rank = first :: rest →
      first.call = (mesh.processes event.rank).call

/-- The library completes no send before its message is received. -/
def unbuffered (rank : Nat) : Event := ⟨rank, fun _ => false⟩

variable {calls} {mesh : Mesh α}

theorem totalProgress_step (ready : Ready calls) (ok : MeshOk calls mesh) (event : Event)
    (enabled : Enabled calls mesh event) :
    totalProgress calls mesh < totalProgress calls (step calls mesh event) := by
  obtain ⟨next, _, further, effect⟩ := step_advances ready ok event enabled
  rw [totalProgress, totalProgress, effect.processes]
  refine Finset.sum_lt_sum ?_ ⟨event.rank, Finset.mem_range.mpr enabled.1, ?_⟩
  · intro rank _
    by_cases own : rank = event.rank
    · rw [own, setProcess_self]
      exact Nat.le_of_lt further
    · rw [setProcess_other next own]
  · rw [setProcess_self]
    exact further

theorem ProcessOk.progress_le {rank : Nat} {process : Process α}
    (ok : ProcessOk calls rank process) :
    process.progress calls.worldSize ≤ calls.calls * callSteps calls.worldSize := by
  have placed := ok.placed
  have inside (below : process.call < calls.calls)
      (index : process.phase.index calls.worldSize ≤ callSteps calls.worldSize) :
      process.progress calls.worldSize ≤ calls.calls * callSteps calls.worldSize := by
    have room : (process.call + 1) * callSteps calls.worldSize ≤
        calls.calls * callSteps calls.worldSize := Nat.mul_le_mul_right _ below
    rw [Nat.succ_mul] at room
    rw [Process.progress]
    omega
  cases phase : process.phase with
  | outside =>
      rw [phase] at placed
      rw [Process.progress, phase]
      exact Nat.mul_le_mul_right _ placed
  | sending next =>
      rw [phase] at placed
      refine inside placed.2 ?_
      have bound := placed.1
      rw [phase, Phase.index, callSteps]
      omega
  | posting next =>
      rw [phase] at placed
      refine inside placed.2 ?_
      have bound := placed.1
      rw [phase, Phase.index, callSteps]
      omega
  | waiting source =>
      rw [phase] at placed
      refine inside placed.2.2 ?_
      have bound := placed.1
      rw [phase, Phase.index, callSteps]
      omega
  | waitall =>
      rw [phase] at placed
      refine inside placed ?_
      rw [phase, Phase.index, callSteps]
      omega
  | raised =>
      rw [phase] at placed
      exact absurd placed id

theorem totalProgress_le (ok : MeshOk calls mesh) :
    totalProgress calls mesh ≤
      calls.worldSize * (calls.calls * callSteps calls.worldSize) := by
  have bound := Finset.sum_le_card_nsmul (Finset.range calls.worldSize)
    (fun rank => (mesh.processes rank).progress calls.worldSize)
    (calls.calls * callSteps calls.worldSize)
    fun rank member => (ok.process rank (Finset.mem_range.mp member)).progress_le
  rw [Finset.card_range, smul_eq_mul] at bound
  exact bound

theorem receivesOwnCall (ok : MeshOk calls mesh) (event : Event)
    (enabled : Enabled calls mesh event) : ReceivesOwnCall mesh event := by
  intro source first rest phase channel
  have placed := (ok.process event.rank enabled.1).placed
  rw [phase] at placed
  obtain ⟨_, isMessage, _⟩ :=
    (ok.pair source placed.1 event.rank enabled.1 placed.2.1).first channel
  rw [isMessage, message]
  simp only [Process.got, phase]
  rw [if_neg (Nat.lt_irrefl _)]

theorem stuck_cases (ok : MeshOk calls mesh) {rank : Nat} (below : rank < calls.worldSize)
    (stuck : ¬ Enabled calls mesh (unbuffered rank)) :
    ((mesh.processes rank).phase = .outside ∧ (mesh.processes rank).call = calls.calls) ∨
    (∃ source, (mesh.processes rank).phase = .waiting source ∧
      mesh.channels source rank = []) ∨
    ((mesh.processes rank).phase = .waitall ∧
      ¬ SendsComplete calls mesh rank fun _ => false) := by
  have placed := (ok.process rank below).placed
  have blocked : ¬ Goes calls mesh rank (fun _ => false) (mesh.processes rank).phase :=
    fun goes => stuck ⟨below, goes⟩
  cases phase : (mesh.processes rank).phase with
  | outside =>
      rw [phase] at placed blocked
      exact .inl ⟨rfl, Nat.le_antisymm placed (Nat.not_lt.mp blocked)⟩
  | sending next =>
      rw [phase] at blocked
      exact absurd trivial blocked
  | posting next =>
      rw [phase] at blocked
      exact absurd trivial blocked
  | waiting source =>
      rw [phase] at blocked
      rw [Goes, Bool.not_eq_false, List.isEmpty_iff] at blocked
      exact .inr (.inl ⟨source, rfl, blocked⟩)
  | waitall =>
      rw [phase] at blocked
      exact .inr (.inr ⟨rfl, blocked⟩)
  | raised =>
      rw [phase] at placed
      exact absurd placed id

/-- A rank that is not behind has sent the message of the other's call, unless it is still
in the loop that posts the sends. -/
theorem sent_of_ahead {process : Process α} {call : Nat} (destination : Nat)
    (ahead : call ≤ process.call)
    (busy : call < process.call ∨ (∃ source, process.phase = .waiting source) ∨
      process.phase = .waitall) : call < process.sent destination := by
  have least : process.call ≤ process.sent destination := by
    rw [Process.sent]
    cases process.phase <;> (dsimp only; first | omega | (split <;> omega))
  rcases busy with further | ⟨source, phase⟩ | phase
  · exact Nat.lt_of_lt_of_le further least
  · simp only [Process.sent, phase]
    omega
  · simp only [Process.sent, phase]
    omega

theorem call_le_got (process : Process α) (source : Nat) :
    process.call ≤ process.got source := by
  rw [Process.got]
  cases process.phase <;> (dsimp only; first | omega | (split <;> omega))

/-- As long as a rank has not finished, some rank can go on, even if the library buffers
nothing: among the ranks in the earliest call one finds what it waits for. -/
theorem not_stuck (ok : MeshOk calls mesh) {late : Nat} (below : late < calls.worldSize)
    (unfinished : (mesh.processes late).call < calls.calls) :
    ∃ rank, Enabled calls mesh (unbuffered rank) := by
  by_contra none
  have stuck (rank : Nat) : ¬ Enabled calls mesh (unbuffered rank) :=
    fun enabled => none ⟨rank, enabled⟩
  obtain ⟨rank, member, least⟩ := Finset.exists_min_image (Finset.range calls.worldSize)
    (fun rank => (mesh.processes rank).call) ⟨late, Finset.mem_range.mpr below⟩
  rw [Finset.mem_range] at member
  have least (other : Nat) (within : other < calls.worldSize) :
      (mesh.processes rank).call ≤ (mesh.processes other).call :=
    least other (Finset.mem_range.mpr within)
  have early : (mesh.processes rank).call < calls.calls :=
    Nat.lt_of_le_of_lt (least late below) unfinished
  -- All other ranks are further on, or wait in the same call.
  have busy (other : Nat) (within : other < calls.worldSize) :
      (mesh.processes rank).call < (mesh.processes other).call ∨
        (∃ source, (mesh.processes other).phase = .waiting source) ∨
        (mesh.processes other).phase = .waitall := by
    rcases stuck_cases ok within (stuck other) with ⟨_, finished⟩ | ⟨source, phase, _⟩ | ⟨phase, _⟩
    · exact .inl (by omega)
    · exact .inr (.inl ⟨source, phase⟩)
    · exact .inr (.inr phase)
  -- So no rank of that call waits for a message.
  have received (other : Nat) (within : other < calls.worldSize)
      (same : (mesh.processes other).call = (mesh.processes rank).call) :
      (mesh.processes other).phase = .waitall ∧
        ¬ SendsComplete calls mesh other fun _ => false := by
    rcases stuck_cases ok within (stuck other) with
      ⟨_, finished⟩ | ⟨source, phase, empty⟩ | waits
    · omega
    · have placed := (ok.process other within).placed
      rw [phase] at placed
      have pair := ok.pair source placed.1 other within placed.2.1
      have sent := sent_of_ahead other (least source placed.1) (busy source placed.1)
      have got : (mesh.processes other).got source = (mesh.processes other).call := by
        simp only [Process.got, phase]
        rw [if_neg (Nat.lt_irrefl _)]
      have length := congrArg List.length pair.channel
      rw [empty, List.length_map, List.length_range', got, same, List.length_nil] at length
      omega
    · exact waits
  refine (received rank member rfl).2 ?_
  intro other within apart
  refine .inr ?_
  rw [(ok.pair rank member other within apart.symm).received]
  by_cases same : (mesh.processes other).call = (mesh.processes rank).call
  · simp only [Process.got, (received other within same).1]
    omega
  · have ahead := least other within
    have got := call_le_got (mesh.processes other) rank
    omega

variable (calls) in
/-- What a run of any interleaving of the ranks is to come to. It is finite, every message is
received in the call that it was sent in, no rank raises, each call that has returned leaves all
buffers of that call in the order of the ranks, and a run that cannot go on has returned from
all calls on all ranks. -/
structure Gathers (events : List Event) : Prop where
  finite : events.length ≤ calls.worldSize * (calls.calls * callSteps calls.worldSize)
  own : AllSteps (step calls) ReceivesOwnCall start events
  quiet : ∀ rank < calls.worldSize,
    ((run (step calls) start events).processes rank).phase ≠ .raised
  returned : ∀ rank < calls.worldSize,
    ((run (step calls) start events).processes rank).returned =
      (List.range ((run (step calls) start events).processes rank).call).map (gathered calls)
  complete : (∀ rank, ¬ Enabled calls (run (step calls) start events) (unbuffered rank)) →
    ∀ rank < calls.worldSize, ((run (step calls) start events).processes rank).returned =
      (List.range calls.calls).map (gathered calls)

theorem gathers_of_ready (ready : Ready calls) (events : List Event)
    (enabled : AllSteps (step calls) (Enabled calls) start events) : Gathers calls events := by
  have ok := run_of_invariant (step calls) (MeshOk calls) (Enabled calls)
    (fun _ event good goes => good.step ready event goes) start events meshOk_start enabled
  refine ⟨?_, ?_, ?_, fun rank below => (ok.process rank below).returned, ?_⟩
  · have steps := length_le_progress (step calls) (MeshOk calls) (Enabled calls)
      (totalProgress calls) (fun _ event good goes => good.step ready event goes)
      (fun _ event good goes => totalProgress_step ready good event goes) start events meshOk_start
      enabled
    have bound := totalProgress_le ok
    omega
  · refine (allSteps_iff (step calls) (MeshOk calls) (Enabled calls) ReceivesOwnCall
      (fun _ _ => True) ?_ ?_ start events meshOk_start enabled).mpr
      (allSteps_of_forall _ _ (fun _ _ => trivial) start events)
    · exact fun _ event good goes => iff_of_true (receivesOwnCall good event goes) trivial
    · exact fun _ event good goes _ => good.step ready event goes
  · intro rank below raised
    have placed := (ok.process rank below).placed
    rw [raised] at placed
    exact placed
  · intro stuck rank below
    have finished : ((run (step calls) start events).processes rank).call = calls.calls := by
      by_contra more
      obtain ⟨other, goes⟩ := not_stuck ok below
        (Nat.lt_of_le_of_ne (ok.process rank below).call_le more)
      exact stuck other goes
    rw [(ok.process rank below).returned, finished]

/-- A call that a rank is in or has returned from did not raise at its entry. -/
def Entered (calls : Calls α) (mesh : Mesh α) : Prop :=
  ∀ rank, (∀ call < (mesh.processes rank).call,
      calls.cuda rank call = true ∧ calls.scalarType call ≠ .other) ∧
    ((mesh.processes rank).phase ≠ .outside → (mesh.processes rank).phase ≠ .raised →
      calls.cuda rank (mesh.processes rank).call = true ∧
        calls.scalarType (mesh.processes rank).call ≠ .other)

theorem Entered.setProcess (entered : Entered calls mesh) {rank : Nat} (next : Process α)
    (before : ∀ call < next.call,
      calls.cuda rank call = true ∧ calls.scalarType call ≠ .other)
    (now : next.phase ≠ .outside → next.phase ≠ .raised →
      calls.cuda rank next.call = true ∧ calls.scalarType next.call ≠ .other) :
    Entered calls (mesh.setProcess rank next) := by
  intro other
  by_cases same : other = rank
  · subst same
    rw [setProcess_self]
    exact ⟨before, now⟩
  · rw [setProcess_other next same]
    exact entered other

theorem Entered.goTo (entered : Entered calls mesh) {rank : Nat} (phase : Phase)
    (inside : (mesh.processes rank).phase ≠ .outside)
    (quiet : (mesh.processes rank).phase ≠ .raised) : Entered calls (mesh.goTo rank phase) :=
  entered.setProcess _ (entered rank).1 fun _ _ => (entered rank).2 inside quiet

theorem Entered.step (entered : Entered calls mesh) (event : Event) :
    Entered calls (step calls mesh event) := by
  have own := entered event.rank
  rw [Mpi.step]
  cases phase : (mesh.processes event.rank).phase with
  | outside =>
      dsimp only
      rw [enter]
      split
      · split
        · rename_i cuda
          split
          · rename_i found
            refine entered.setProcess _ own.1 fun _ _ => ⟨cuda, fun other => ?_⟩
            rw [other] at found
            cases found
          · exact entered.setProcess _ own.1 fun _ quiet => absurd rfl quiet
        · exact entered.setProcess _ own.1 fun _ quiet => absurd rfl quiet
      · exact entered
  | sending destination =>
      have inside : (mesh.processes event.rank).phase ≠ .outside := by simp [phase]
      have quiet : (mesh.processes event.rank).phase ≠ .raised := by simp [phase]
      dsimp only
      rw [send]
      split
      · split
        · exact entered.goTo _ inside quiet
        · exact entered.goTo (.sending (destination + 1)) inside quiet
      · exact entered.goTo _ inside quiet
  | posting source =>
      have inside : (mesh.processes event.rank).phase ≠ .outside := by simp [phase]
      have quiet : (mesh.processes event.rank).phase ≠ .raised := by simp [phase]
      dsimp only
      rw [post]
      split
      · split
        · exact entered.goTo _ inside quiet
        · exact entered.goTo _ inside quiet
      · exact entered.goTo _ inside quiet
  | waiting source =>
      have inside : (mesh.processes event.rank).phase ≠ .outside := by simp [phase]
      have quiet : (mesh.processes event.rank).phase ≠ .raised := by simp [phase]
      dsimp only
      rw [receive]
      split
      · exact entered
      · dsimp only
        split
        · exact entered.setProcess _ own.1 fun _ _ => own.2 inside quiet
        · exact entered.goTo _ inside quiet
  | waitall =>
      have now := own.2 (by simp [phase]) (by simp [phase])
      dsimp only
      rw [finish]
      split
      · refine entered.setProcess _ ?_ fun inside _ => absurd rfl inside
        intro call below
        rcases Nat.lt_succ_iff_lt_or_eq.mp below with earlier | rfl
        · exact own.1 call earlier
        · exact now
      · exact entered
  | raised => exact entered

theorem entered_start : Entered calls start :=
  fun _ => ⟨fun _ below => absurd below (Nat.not_lt_zero _), fun inside => absurd rfl inside⟩

variable (calls) in
/-- The calls gather in every run exactly when no rank raises at the entry of a call: each has a
GPU to synchronize with, and `get_typesize` knows what is sent. -/
theorem allgather_runs_iff :
    (∀ events, AllSteps (step calls) (Enabled calls) start events → Gathers calls events) ↔
      ∀ rank < calls.worldSize, ∀ call < calls.calls, calls.cuda rank call = true ∧
        calls.scalarType call ≠ .other := by
  refine ⟨?_, fun ready events enabled => gathers_of_ready ready events enabled⟩
  intro gathers rank below call early
  obtain ⟨events, enabled, stuck⟩ := exists_stuck (step calls) (Enabled calls) start _
    fun events enabled => (gathers events enabled).finite
  have ended := gathers events enabled
  have entered := run_of_invariant (step calls) (Entered calls) (fun _ _ => True)
    (fun _ event good _ => good.step event) start events entered_start
    (allSteps_of_forall _ _ (fun _ _ => trivial) start events)
  have all := ended.complete (fun rank => stuck _) rank below
  rw [ended.returned rank below] at all
  have length := congrArg List.length all
  rw [List.length_map, List.length_map, List.length_range, List.length_range] at length
  exact (entered rank).1 call (by rw [length]; exact early)

end Runs

section Pair

def twoRanks : Calls Nat where
  worldSize := 2
  calls := 1
  cuda := fun _ _ => true
  scalarType := fun _ => .int64
  count := fun _ => 2
  sendbuf := fun rank call => [10 * rank + call, 10 * rank + call + 1]
  recvbuf := fun _ _ => [0, 0, 0, 0]
  sent := fun _ _ => rfl
  room := fun _ _ => rfl

def twoRanksEvents : List Event :=
  List.replicate 6 (unbuffered 0) ++ List.replicate 6 (unbuffered 1) ++
    List.replicate 3 (unbuffered 0) ++ List.replicate 3 (unbuffered 1)

example : ((run (step twoRanks) start twoRanksEvents).processes 1).returned = [[0, 1, 10, 11]] :=
  by decide

/-- The same calls on a machine without a GPU raise. -/
theorem allgather_raises_without_gpu :
    ¬ ∀ (calls : Calls Nat) (events : List Event),
      AllSteps (step calls) (Enabled calls) start events → Gathers calls events := by
  intro claimed
  have gathers := claimed { twoRanks with cuda := fun _ _ => false } [unbuffered 0] (by decide)
  exact gathers.quiet 0 (by decide) rfl

end Pair

end ScalarLM.Mpi
