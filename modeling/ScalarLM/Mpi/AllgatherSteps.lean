import ScalarLM.Mpi.Allgather

/-! What one step of `mpi_allgather` does: how far the process gets with each other rank,
and that its buffer fills up with the data of its own call. -/

namespace ScalarLM.Mpi

open Blocks

section Progress

variable {α : Type}

def Process.sent (process : Process α) (destination : Nat) : Nat :=
  match process.phase with
  | .sending next => if destination < next then process.call + 1 else process.call
  | .posting _ => process.call + 1
  | .waiting _ => process.call + 1
  | .waitall => process.call + 1
  | .outside => process.call
  | .raised => process.call

def Process.got (process : Process α) (source : Nat) : Nat :=
  match process.phase with
  | .posting next => if source < next then process.call + 1 else process.call
  | .waiting next => if source < next then process.call + 1 else process.call
  | .waitall => process.call + 1
  | .sending _ => process.call
  | .outside => process.call
  | .raised => process.call

def Phase.index (worldSize : Nat) : Phase → Nat
  | .outside => 0
  | .sending next => next + 1
  | .posting next => worldSize + 2 + 2 * next
  | .waiting next => worldSize + 3 + 2 * next
  | .waitall => 3 * worldSize + 3
  | .raised => 0

def callSteps (worldSize : Nat) : Nat := 3 * worldSize + 4

def Process.progress (worldSize : Nat) (process : Process α) : Nat :=
  process.call * callSteps worldSize + process.phase.index worldSize

end Progress

section Local

variable {α : Type} (calls : Calls α)

def Placed (rank call : Nat) : Phase → Prop
  | .outside => call ≤ calls.calls
  | .sending next => next ≤ calls.worldSize ∧ call < calls.calls
  | .posting next => next ≤ calls.worldSize ∧ call < calls.calls
  | .waiting source => source < calls.worldSize ∧ source ≠ rank ∧ call < calls.calls
  | .waitall => call < calls.calls
  | .raised => False

structure ProcessOk (rank : Nat) (process : Process α) : Prop where
  placed : Placed calls rank process.call process.phase
  length : process.phase ≠ .outside →
    process.recvbuf.length = calls.worldSize * calls.count process.call
  slices : process.phase ≠ .outside → ∀ source < calls.worldSize,
    source = rank ∨ process.call < process.got source →
      block (calls.count process.call) process.recvbuf source =
        calls.sendbuf source process.call
  returned : process.returned = (List.range process.call).map (gathered calls)

def message (source call : Nat) : Message α := ⟨call, calls.sendbuf source call⟩

/-- Between two ranks the messages that were sent and not yet received are under way, in
their order. -/
structure PairOk (mesh : Mesh α) (source destination : Nat) : Prop where
  ordered : (mesh.processes destination).got source ≤ (mesh.processes source).sent destination
  channel : mesh.channels source destination =
    (List.range' ((mesh.processes destination).got source)
      ((mesh.processes source).sent destination -
        (mesh.processes destination).got source)).map (message calls source)
  received : mesh.received source destination = (mesh.processes destination).got source

structure MeshOk (mesh : Mesh α) : Prop where
  process : ∀ rank < calls.worldSize, ProcessOk calls rank (mesh.processes rank)
  pair : ∀ source < calls.worldSize, ∀ destination < calls.worldSize, source ≠ destination →
    PairOk calls mesh source destination

inductive Effect (mesh : Mesh α) (rank : Nat) (next : Process α) : Mesh α → Prop where
  | quiet
      (sent : ∀ other < calls.worldSize, other ≠ rank →
        next.sent other = (mesh.processes rank).sent other)
      (got : ∀ other < calls.worldSize, other ≠ rank →
        next.got other = (mesh.processes rank).got other) :
      Effect mesh rank next (mesh.setProcess rank next)
  | sends (destination : Nat) (below : destination < calls.worldSize)
      (apart : destination ≠ rank)
      (sent : ∀ other < calls.worldSize, other ≠ rank →
        next.sent other = (mesh.processes rank).sent other +
          if other = destination then 1 else 0)
      (got : ∀ other < calls.worldSize, other ≠ rank →
        next.got other = (mesh.processes rank).got other) :
      Effect mesh rank next
        { mesh.setProcess rank next with
          channels := Function.update mesh.channels rank
            (Function.update (mesh.channels rank) destination
              (mesh.channels rank destination ++
                [message calls rank ((mesh.processes rank).sent destination)])) }
  | receives (source : Nat) (first : Message α) (rest : List (Message α))
      (below : source < calls.worldSize) (apart : source ≠ rank)
      (channel : mesh.channels source rank = first :: rest)
      (sent : ∀ other < calls.worldSize, other ≠ rank →
        next.sent other = (mesh.processes rank).sent other)
      (got : ∀ other < calls.worldSize, other ≠ rank →
        next.got other = (mesh.processes rank).got other + if other = source then 1 else 0) :
      Effect mesh rank next
        { mesh.setProcess rank next with
          channels := Function.update mesh.channels source
            (Function.update (mesh.channels source) rank rest)
          received := Function.update mesh.received source
            (Function.update (mesh.received source) rank (mesh.received source rank + 1)) }

def Advances (mesh : Mesh α) (rank : Nat) (after : Mesh α) : Prop :=
  ∃ next : Process α, ProcessOk calls rank next ∧
    (mesh.processes rank).progress calls.worldSize < next.progress calls.worldSize ∧
    Effect calls mesh rank next after

variable {calls} {mesh : Mesh α} {rank : Nat}

theorem Calls.numel_eq (call : Nat) : calls.numel rank call = calls.count call :=
  calls.sent rank call

theorem ProcessOk.call_le {process : Process α} (ok : ProcessOk calls rank process) :
    process.call ≤ calls.calls := by
  have placed := ok.placed
  cases phase : process.phase with
  | outside =>
      rw [phase] at placed
      exact placed
  | sending next =>
      rw [phase] at placed
      exact Nat.le_of_lt placed.2
  | posting next =>
      rw [phase] at placed
      exact Nat.le_of_lt placed.2
  | waiting source =>
      rw [phase] at placed
      exact Nat.le_of_lt placed.2.2
  | waitall =>
      rw [phase] at placed
      exact Nat.le_of_lt placed
  | raised =>
      rw [phase] at placed
      exact absurd placed id

theorem advances_quiet (next : Process α) (ok : ProcessOk calls rank next)
    (further : (mesh.processes rank).progress calls.worldSize < next.progress calls.worldSize)
    (sent : ∀ other < calls.worldSize, other ≠ rank →
      next.sent other = (mesh.processes rank).sent other)
    (got : ∀ other < calls.worldSize, other ≠ rank →
      next.got other = (mesh.processes rank).got other) :
    Advances calls mesh rank (mesh.setProcess rank next) :=
  ⟨next, ok, further, .quiet sent got⟩

def Ready (calls : Calls α) : Prop :=
  ∀ rank < calls.worldSize, ∀ call < calls.calls, calls.cuda rank call = true ∧
    calls.scalarType call ≠ .other

theorem enter_of_ready (more : (mesh.processes rank).call < calls.calls)
    (cuda : calls.cuda rank (mesh.processes rank).call = true)
    (known : calls.scalarType (mesh.processes rank).call ≠ .other) :
    enter calls mesh rank = mesh.setProcess rank { mesh.processes rank with
      recvbuf := calls.copied rank (mesh.processes rank).call
      phase := .sending 0 } := by
  rw [enter, if_pos more, if_pos cuda]
  cases scalarType : calls.scalarType (mesh.processes rank).call with
  | other => exact absurd scalarType known
  | _ => rfl

theorem enter_advances (ready : Ready calls) (below : rank < calls.worldSize)
    (ok : ProcessOk calls rank (mesh.processes rank))
    (phase : (mesh.processes rank).phase = .outside)
    (more : (mesh.processes rank).call < calls.calls) :
    Advances calls mesh rank (enter calls mesh rank) := by
  have room := calls.room rank (mesh.processes rank).call
  have inside : (rank + 1) * calls.count (mesh.processes rank).call ≤
      (calls.recvbuf rank (mesh.processes rank).call).length := by
    rw [room]
    exact Nat.mul_le_mul_right _ below
  obtain ⟨cuda, known⟩ := ready rank below _ more
  rw [enter_of_ready more cuda known, Calls.copied, Calls.numel_eq]
  refine advances_quiet _ ⟨⟨Nat.zero_le _, more⟩, ?_, ?_, ok.returned⟩ ?_ ?_ ?_
  · intro _
    rw [Nat.succ_mul] at inside
    dsimp only
    rw [overwrite_length _ _ _ (by rw [calls.sent]; exact inside), room]
  · intro _ source within given
    have own : source = rank := given.resolve_right (Nat.lt_irrefl _)
    dsimp only
    rw [block_overwrite _ _ _ _ _ (calls.sent _ _) inside, if_pos own, own]
  · rw [Process.progress, Process.progress, phase]
    exact Nat.lt_succ_self _
  · intro other _ _
    simp only [Process.sent, phase]
    rw [if_neg (Nat.not_lt_zero other)]
  · intro other _ _
    simp only [Process.got, phase]

theorem ProcessOk.goTo (ok : ProcessOk calls rank (mesh.processes rank)) (phase : Phase)
    (inCall : (mesh.processes rank).phase ≠ .outside)
    (placed : Placed calls rank (mesh.processes rank).call phase)
    (got : ∀ source < calls.worldSize, source ≠ rank →
      ({ mesh.processes rank with phase := phase } : Process α).got source =
        (mesh.processes rank).got source) :
    ProcessOk calls rank { mesh.processes rank with phase := phase } where
  placed := placed
  length := fun _ => ok.length inCall
  slices := by
    intro _ source below given
    refine ok.slices inCall source below ?_
    by_cases own : source = rank
    · exact .inl own
    · rw [got source below own] at given
      exact given
  returned := ok.returned

theorem progress_goTo {phase next : Phase} (here : (mesh.processes rank).phase = phase)
    (index : phase.index calls.worldSize < next.index calls.worldSize) :
    (mesh.processes rank).progress calls.worldSize <
      ({ mesh.processes rank with phase := next } : Process α).progress calls.worldSize := by
  rw [Process.progress, Process.progress, here]
  exact Nat.add_lt_add_left index _

theorem send_advances (ok : ProcessOk calls rank (mesh.processes rank)) (destination : Nat)
    (phase : (mesh.processes rank).phase = .sending destination) :
    Advances calls mesh rank (send calls mesh rank destination) := by
  have inCall : (mesh.processes rank).phase ≠ .outside := by simp [phase]
  have placed := ok.placed
  rw [phase] at placed
  -- Nothing is received in the loop that posts the sends.
  have got (next : Nat) (other : Nat) :
      ({ mesh.processes rank with phase := .sending next } : Process α).got other =
        (mesh.processes rank).got other := by
    simp only [Process.got, phase]
  have further : (mesh.processes rank).progress calls.worldSize <
      ({ mesh.processes rank with phase := .sending (destination + 1) } :
        Process α).progress calls.worldSize :=
    progress_goTo phase (Nat.lt_succ_self _)
  rw [send]
  split
  · rename_i below
    have ok' := ok.goTo (.sending (destination + 1)) inCall ⟨below, placed.2⟩
      fun other _ _ => got (destination + 1) other
    split
    · rename_i own
      refine advances_quiet _ ok' further ?_ fun other _ _ => got (destination + 1) other
      intro other _ apart
      simp only [Process.sent, phase]
      congr 1
      rw [eq_iff_iff]
      omega
    · rename_i apart
      have now : (mesh.processes rank).call = (mesh.processes rank).sent destination := by
        simp only [Process.sent, phase]
        rw [if_neg (Nat.lt_irrefl _)]
      dsimp only
      rw [show (⟨(mesh.processes rank).call, calls.sendbuf rank (mesh.processes rank).call⟩ :
        Message α) = message calls rank ((mesh.processes rank).sent destination) by
          rw [← now]
          rfl]
      refine ⟨_, ok', further, .sends destination below apart ?_
        fun other _ _ => got (destination + 1) other⟩
      intro other _ _
      simp only [Process.sent, phase]
      split <;> split <;> split <;> omega
  · rename_i beyond
    have last := placed.1
    refine advances_quiet _ (ok.goTo (.posting 0) inCall ⟨Nat.zero_le _, placed.2⟩ ?_)
      (progress_goTo phase ?_) ?_ ?_
    · intro source _ _
      simp only [Process.got, phase]
      rw [if_neg (Nat.not_lt_zero source)]
    · rw [Phase.index, Phase.index]
      omega
    · intro other below _
      simp only [Process.sent, phase]
      rw [if_pos (by omega)]
    · intro other _ _
      simp only [Process.got, phase]
      rw [if_neg (Nat.not_lt_zero other)]

theorem post_advances (ok : ProcessOk calls rank (mesh.processes rank)) (source : Nat)
    (phase : (mesh.processes rank).phase = .posting source) :
    Advances calls mesh rank (post calls mesh rank source) := by
  have inCall : (mesh.processes rank).phase ≠ .outside := by simp [phase]
  have placed := ok.placed
  rw [phase] at placed
  -- None of the three ways on changes what was sent or received.
  have goes (next : Phase) (nextPlaced : Placed calls rank (mesh.processes rank).call next)
      (index : (Phase.posting source).index calls.worldSize < next.index calls.worldSize)
      (sent : ∀ other < calls.worldSize, other ≠ rank →
        ({ mesh.processes rank with phase := next } : Process α).sent other =
          (mesh.processes rank).call + 1)
      (got : ∀ other < calls.worldSize, other ≠ rank →
        ({ mesh.processes rank with phase := next } : Process α).got other =
          (mesh.processes rank).got other) :
      Advances calls mesh rank (mesh.goTo rank next) := by
    refine advances_quiet _ (ok.goTo next inCall nextPlaced got) (progress_goTo phase index) ?_ got
    intro other below apart
    rw [sent other below apart]
    simp only [Process.sent, phase]
  rw [post]
  split
  · rename_i below
    split
    · rename_i own
      refine goes _ ⟨below, placed.2⟩ ?_ (fun _ _ _ => rfl) ?_
      · rw [Phase.index, Phase.index]
        omega
      · intro other _ apart
        simp only [Process.got, phase]
        congr 1
        rw [eq_iff_iff]
        omega
    · rename_i apart
      refine goes _ ⟨below, apart, placed.2⟩ ?_ (fun _ _ _ => rfl) ?_
      · rw [Phase.index, Phase.index]
        omega
      · intro other _ _
        simp only [Process.got, phase]
  · rename_i beyond
    have last := placed.1
    refine goes _ placed.2 ?_ (fun _ _ _ => rfl) ?_
    · rw [Phase.index, Phase.index]
      omega
    · intro other below _
      simp only [Process.got, phase]
      rw [if_pos (by omega)]

theorem finish_advances (ok : ProcessOk calls rank (mesh.processes rank))
    (phase : (mesh.processes rank).phase = .waitall) (buffered : Nat → Bool)
    (complete : SendsComplete calls mesh rank buffered) :
    Advances calls mesh rank (finish calls mesh rank buffered) := by
  have inCall : (mesh.processes rank).phase ≠ .outside := by simp [phase]
  have placed := ok.placed
  rw [phase] at placed
  have whole : (mesh.processes rank).recvbuf =
      gathered calls (mesh.processes rank).call := by
    refine eq_join_of_blocks _ _ _ _ (ok.length inCall) fun source below => ?_
    refine ok.slices inCall source below (.inr ?_)
    simp only [Process.got, phase]
    exact Nat.lt_succ_self _
  rw [finish, if_pos complete]
  refine advances_quiet _ ⟨placed, by simp, by simp, ?_⟩ ?_ ?_ ?_
  · dsimp only
    rw [whole, ok.returned, List.range_succ, List.map_append]
    rfl
  · simp only [Process.progress, phase, Phase.index, callSteps, Nat.succ_mul]
    omega
  · intro other _ _
    simp only [Process.sent, phase]
  · intro other _ _
    simp only [Process.got, phase]

theorem PairOk.first {source destination : Nat} (pair : PairOk calls mesh source destination)
    {first : Message α} {rest : List (Message α)}
    (channel : mesh.channels source destination = first :: rest) :
    (mesh.processes destination).got source < (mesh.processes source).sent destination ∧
      first = message calls source ((mesh.processes destination).got source) ∧
      rest = (List.range' ((mesh.processes destination).got source + 1)
        ((mesh.processes source).sent destination -
          ((mesh.processes destination).got source + 1))).map (message calls source) := by
  have contents := pair.channel
  rw [channel] at contents
  cases gap : (mesh.processes source).sent destination -
      (mesh.processes destination).got source with
  | zero =>
      rw [gap] at contents
      cases contents
  | succ more =>
      rw [gap, List.range'_succ, List.map_cons, List.cons.injEq] at contents
      refine ⟨by omega, contents.1, ?_⟩
      rw [contents.2]
      congr 2
      omega

theorem receive_advances (ok : ProcessOk calls rank (mesh.processes rank)) (source : Nat)
    (phase : (mesh.processes rank).phase = .waiting source)
    (pair : PairOk calls mesh source rank)
    (arrived : (mesh.channels source rank).isEmpty = false) :
    Advances calls mesh rank (receive calls mesh rank source) := by
  have inCall : (mesh.processes rank).phase ≠ .outside := by simp [phase]
  have placed := ok.placed
  rw [phase] at placed
  have length := ok.length inCall
  have now : (mesh.processes rank).got source = (mesh.processes rank).call := by
    simp only [Process.got, phase]
    rw [if_neg (Nat.lt_irrefl _)]
  obtain ⟨first, rest, channel⟩ := List.exists_cons_of_ne_nil
    (List.isEmpty_eq_false_iff.mp arrived)
  obtain ⟨_, isMessage, _⟩ := pair.first channel
  have data : first.data = calls.sendbuf source (mesh.processes rank).call := by
    rw [isMessage, now]
    rfl
  have inside : (source + 1) * calls.count (mesh.processes rank).call ≤
      (mesh.processes rank).recvbuf.length := by
    rw [length]
    exact Nat.mul_le_mul_right _ placed.1
  have got (other : Nat) (apart : other ≠ rank) :
      ((mesh.processes rank).takes source (calls.count (mesh.processes rank).call)
          (calls.sendbuf source (mesh.processes rank).call)).got other =
        (mesh.processes rank).got other + if other = source then 1 else 0 := by
    simp only [Process.got, Process.takes, phase]
    split <;> split <;> split <;> omega
  rw [receive, channel]
  dsimp only
  rw [Calls.numel_eq, data, if_pos (calls.sent source _)]
  refine ⟨(mesh.processes rank).takes source (calls.count (mesh.processes rank).call)
      (calls.sendbuf source (mesh.processes rank).call),
    ⟨⟨placed.1, placed.2.2⟩, ?_, ?_, ok.returned⟩, ?_,
    .receives source first rest placed.1 placed.2.1 channel ?_ fun other _ apart => got other apart⟩
  · intro _
    rw [Nat.succ_mul] at inside
    rw [Process.takes]
    dsimp only
    rw [overwrite_length _ _ _ (by rw [calls.sent]; exact inside), length]
  · intro _ other below given
    rw [Process.takes]
    dsimp only
    rw [block_overwrite _ _ _ _ _ (calls.sent _ _) inside]
    by_cases same : other = source
    · rw [if_pos same, same]
    · rw [if_neg same]
      refine ok.slices inCall other below ?_
      by_cases own : other = rank
      · exact .inl own
      · rw [got other own, if_neg same] at given
        exact given
  · rw [Process.progress, Process.progress, phase]
    refine Nat.add_lt_add_left ?_ _
    show calls.worldSize + 3 + 2 * source < calls.worldSize + 2 + 2 * (source + 1)
    omega
  · intro other _ _
    simp only [Process.sent, Process.takes, phase]

theorem step_advances (ready : Ready calls) (ok : MeshOk calls mesh) (event : Event)
    (enabled : Enabled calls mesh event) :
    Advances calls mesh event.rank (step calls mesh event) := by
  rcases enabled with ⟨below, given⟩
  have process := ok.process event.rank below
  rw [step]
  cases phase : (mesh.processes event.rank).phase with
  | outside =>
      rw [phase] at given
      exact enter_advances ready below process phase given
  | sending destination => exact send_advances process destination phase
  | posting source => exact post_advances process source phase
  | waiting source =>
      rw [phase] at given
      have placed := process.placed
      rw [phase] at placed
      exact receive_advances process source phase
        (ok.pair source placed.1 event.rank below placed.2.1) given
  | waitall =>
      rw [phase] at given
      exact finish_advances process phase event.buffered given
  | raised =>
      rw [phase] at given
      exact absurd given id

theorem setProcess_self (next : Process α) :
    (mesh.setProcess rank next).processes rank = next :=
  Function.update_self _ _ _

theorem setProcess_other (next : Process α) {other : Nat} (apart : other ≠ rank) :
    (mesh.setProcess rank next).processes other = mesh.processes other :=
  Function.update_of_ne apart _ _

theorem Effect.processes {next : Process α} {after : Mesh α}
    (effect : Effect calls mesh rank next after) :
    after.processes = (mesh.setProcess rank next).processes := by
  cases effect <;> rfl

theorem setProcess_count (next : Process α) (measure : Process α → Nat → Nat)
    (added : Nat → Nat)
    (changed : ∀ other < calls.worldSize, other ≠ rank →
      measure next other = measure (mesh.processes rank) other + added other)
    (owner other : Nat) (below : other < calls.worldSize) (apart : other ≠ owner) :
    measure ((mesh.setProcess rank next).processes owner) other =
      measure (mesh.processes owner) other + if owner = rank then added other else 0 := by
  by_cases own : owner = rank
  · subst own
    rw [setProcess_self, changed other below apart, if_pos rfl]
  · rw [setProcess_other next own, if_neg own, Nat.add_zero]

theorem update_twice {β : Type} (table : Nat → Nat → β) (row column : Nat) (value : β)
    (left right : Nat) :
    Function.update table row (Function.update (table row) column value) left right =
      if left = row ∧ right = column then value else table left right := by
  by_cases sameRow : left = row
  · subst sameRow
    by_cases sameColumn : right = column
    · subst sameColumn
      rw [Function.update_self, Function.update_self, if_pos ⟨rfl, rfl⟩]
    · rw [Function.update_self, Function.update_of_ne sameColumn,
        if_neg fun both => sameColumn both.2]
  · rw [Function.update_of_ne sameRow, if_neg fun both => sameRow both.1]

theorem Effect.pair {next : Process α} {after : Mesh α}
    (effect : Effect calls mesh rank next after)
    (pairs : ∀ source < calls.worldSize, ∀ destination < calls.worldSize,
      source ≠ destination → PairOk calls mesh source destination)
    (source : Nat) (within : source < calls.worldSize) (destination : Nat)
    (below : destination < calls.worldSize) (apart : source ≠ destination) :
    PairOk calls after source destination := by
  have pair := pairs source within destination below apart
  cases effect with
  | quiet sent got =>
      have sentSame := setProcess_count next Process.sent (fun _ => 0) sent source destination
        below apart.symm
      have gotSame := setProcess_count next Process.got (fun _ => 0) got destination source
        within apart
      rw [ite_self, Nat.add_zero] at sentSame gotSame
      refine ⟨?_, ?_, ?_⟩
      · rw [sentSame, gotSame]
        exact pair.ordered
      · rw [sentSame, gotSame]
        exact pair.channel
      · rw [gotSame]
        exact pair.received
  | sends target targetBelow targetApart sent got =>
      have sentNow := setProcess_count next Process.sent _ sent source destination below apart.symm
      have gotSame := setProcess_count next Process.got (fun _ => 0) got destination source
        within apart
      rw [ite_self, Nat.add_zero] at gotSame
      refine ⟨?_, ?_, ?_⟩
      · dsimp only
        rw [sentNow, gotSame]
        exact Nat.le_add_right_of_le pair.ordered
      · dsimp only
        rw [update_twice, sentNow, gotSame]
        by_cases here : source = rank ∧ destination = target
        · obtain ⟨rfl, rfl⟩ := here
          have ordered := pair.ordered
          rw [if_pos ⟨rfl, rfl⟩, if_pos rfl, if_pos rfl, pair.channel,
            Nat.sub_add_comm ordered, List.range'_concat, List.map_append, Nat.one_mul,
            Nat.add_sub_cancel' ordered]
          rfl
        · rw [if_neg here, pair.channel]
          by_cases own : source = rank
          · rw [if_pos own, if_neg fun same => here ⟨own, same⟩, Nat.add_zero]
          · rw [if_neg own, Nat.add_zero]
      · dsimp only
        rw [gotSame]
        exact pair.received
  | receives sender first rest senderBelow senderApart channel sent got =>
      have sentSame := setProcess_count next Process.sent (fun _ => 0) sent source destination
        below apart.symm
      have gotNow := setProcess_count next Process.got _ got destination source within apart
      rw [ite_self, Nat.add_zero] at sentSame
      by_cases here : source = sender ∧ destination = rank
      · obtain ⟨rfl, rfl⟩ := here
        obtain ⟨more, _, left⟩ := pair.first channel
        rw [if_pos rfl, if_pos rfl] at gotNow
        refine ⟨?_, ?_, ?_⟩
        · dsimp only
          rw [sentSame, gotNow]
          exact more
        · dsimp only
          rw [update_twice, sentSame, gotNow, if_pos ⟨rfl, rfl⟩, left]
        · dsimp only
          rw [update_twice, gotNow, if_pos ⟨rfl, rfl⟩, pair.received]
      · have gotSame : ((mesh.setProcess rank next).processes destination).got source =
            (mesh.processes destination).got source := by
          rw [gotNow]
          by_cases own : destination = rank
          · rw [if_pos own, if_neg fun same => here ⟨same, own⟩, Nat.add_zero]
          · rw [if_neg own, Nat.add_zero]
        refine ⟨?_, ?_, ?_⟩
        · dsimp only
          rw [sentSame, gotSame]
          exact pair.ordered
        · dsimp only
          rw [update_twice, sentSame, gotSame, if_neg here]
          exact pair.channel
        · dsimp only
          rw [update_twice, gotSame, if_neg here]
          exact pair.received

/-- An enabled step keeps the mesh good. -/
theorem MeshOk.step (ready : Ready calls) (ok : MeshOk calls mesh) (event : Event)
    (enabled : Enabled calls mesh event) : MeshOk calls (step calls mesh event) := by
  obtain ⟨next, nextOk, _, effect⟩ := step_advances ready ok event enabled
  refine ⟨?_, effect.pair ok.pair⟩
  intro rank below
  rw [effect.processes]
  by_cases own : rank = event.rank
  · rw [own, setProcess_self]
    exact nextOk
  · rw [setProcess_other next own]
    exact ok.process rank below

theorem meshOk_start : MeshOk calls start where
  process := by
    intro rank _
    exact ⟨Nat.zero_le _, by simp [start], by simp [start], rfl⟩
  pair := by
    intro source _ destination _ _
    exact ⟨Nat.le_refl _, rfl, rfl⟩

end Local

end ScalarLM.Mpi
