import ScalarLM.Scheduling.Served

/-! What the scheduler does with one request: the blocks are there, and everyone else stays
as they were. -/

namespace ScalarLM.Scheduling

open Engine Cache BlockSpaceManagerV2

section Desk

variable {V ν : Type}

def Among (touched : List Nat) (all : List (Place × Request V)) : Prop :=
  ∀ group ∈ touched, ∃ entry ∈ all, entry.1 = .scheduled ∧ entry.2.requestId = group

/-- In the middle of a step. The requests are at their places, and what was asked of the
manager since the step's first state is allowed. -/
structure Desk (groupOf : Nat → Nat) (config : SchedulerConfig) (direction : Device)
    (first : BlockSpaceManagerV2) (before : Nat → List ν) (manager : BlockSpaceManagerV2)
    (all : List (Place × Request V)) (transfers : Transfers) (stored : Nat → List ν) :
    Prop where
  served : Served groupOf config manager all
  made : ∃ touched, Cache.Scheduled V groupOf direction first before manager transfers touched
    stored ∧ Among touched all

variable {groupOf : Nat → Nat} {config : SchedulerConfig} {direction : Device}
  {first manager after : BlockSpaceManagerV2} {before stored : Nat → List ν}
  {all more : List (Place × Request V)} {transfers transfers' : Transfers}
  {place target : Place} {request changed : Request V} {touched : List Nat}

theorem Among.tail (among : Among touched ((place, request) :: all)) (other : place ≠ .scheduled) :
    Among touched all := by
  intro group member
  obtain ⟨entry, listed, scheduled, requestId⟩ := among group member
  rcases List.mem_cons.mp listed with rfl | later
  · exact absurd scheduled other
  · exact ⟨entry, later, scheduled, requestId⟩

theorem Among.cons (among : Among touched all) (entry : Place × Request V) :
    Among touched (entry :: all) := by
  intro group member
  obtain ⟨other, listed, scheduled⟩ := among group member
  exact ⟨other, List.mem_cons_of_mem _ listed, scheduled⟩

/-- The sequences of a request that is not scheduled belong to no group appended to. -/
theorem Served.untouched (served : Served groupOf config manager ((place, request) :: all))
    (among : Among touched all) : ∀ seq ∈ request.seqs, groupOf seq.seqId ∉ touched := by
  intro seq member listed
  obtain ⟨entry, inside, _, requestId⟩ := among _ listed
  have own := served.grouped (place, request) List.mem_cons_self seq.seqId
    (List.mem_map_of_mem member)
  have apart := (List.nodup_cons.mp served.apart).1
  exact apart (List.mem_map.mpr ⟨entry, inside, by rw [requestId, own]⟩)

namespace Desk

theorem start (served : Served groupOf config manager all) (direction : Device)
    (stored : Nat → List ν) :
    Desk groupOf config direction manager stored manager all .none stored where
  served := served
  made := ⟨[], .begin, fun _ absent => absurd absent List.not_mem_nil⟩

theorem perm (desk : Desk groupOf config direction first before manager all transfers stored)
    (same : all.Perm more) :
    Desk groupOf config direction first before manager more transfers stored := by
  obtain ⟨touched, made, among⟩ := desk.made
  refine ⟨desk.served.perm same, touched, made, fun group member => ?_⟩
  obtain ⟨entry, listed, scheduled⟩ := among group member
  exact ⟨entry, same.mem_iff.mp listed, scheduled⟩

theorem tail (desk : Desk groupOf config direction first before manager
      ((place, request) :: all) transfers stored) (other : place ≠ .scheduled) :
    Desk groupOf config direction first before manager all transfers stored := by
  obtain ⟨touched, made, among⟩ := desk.made
  exact ⟨desk.served.tail, touched, made, among.tail other⟩

theorem op (desk : Desk groupOf config direction first before manager
      ((place, request) :: all) transfers stored) (other : place ≠ .scheduled)
    (op : ScheduleOp V) (nothing : op.touches groupOf = [])
    (allowed : ∀ touched, (∀ seq ∈ request.seqs, groupOf seq.seqId ∉ touched) →
      op.Allowed groupOf direction manager touched)
    (run : op.perform manager transfers = .ok (transfers', after))
    (served : Served groupOf config after ((target, changed) :: all)) :
    Desk groupOf config direction first before after ((target, changed) :: all) transfers'
      (op.store stored) := by
  obtain ⟨touched, made, among⟩ := desk.made
  have among' := among.tail other
  refine ⟨served, touched, ?_, among'.cons _⟩
  have step := Scheduled.op op made (allowed touched (desk.served.untouched among')) run
  rwa [nothing] at step

end Desk

end Desk

section Decoding

variable {V : Type} {config : SchedulerConfig} {manager : BlockSpaceManagerV2}
  {request : Request V} {device : Device} {status : SequenceStatus}

theorem keys_mem : ∀ key ∈ (request.getSeqs status).map Sequence.seqId, key ∈ request.ids := by
  intro key member
  obtain ⟨seq, listed, rfl⟩ := List.mem_map.mp member
  exact List.mem_map_of_mem (mem_getSeqs.mp listed).1

theorem Request.Only.unfinished (only : request.Only status)
    (unfinished : status.isFinished = false) :
    (request.seqs.filter fun seq => ! seq.status.isFinished) = request.getSeqs status := by
  refine List.filter_congr fun seq member => ?_
  rcases only seq member with same | ended
  · simp [same, unfinished]
  · have different : seq.status ≠ status := by
      intro same
      rw [same, unfinished] at ended
      cases ended
    simp [ended, different]

theorem numUnfinishedSeqs_le (group : SequenceGroup V) :
    group.numUnfinishedSeqs ≤ group.getMaxNumRunningSeqs := by
  rw [SequenceGroup.getMaxNumRunningSeqs]
  split
  · exact Nat.le_refl _
  · split
    · rename_i more
      exact (List.length_filter_le _ _).trans (Nat.le_of_lt more)
    · exact Nat.le_refl _

theorem Request.Only.length_le (only : request.Only status)
    (unfinished : status.isFinished = false) :
    (request.getSeqs status).length ≤ request.getMaxNumRunningSeqs := by
  rw [← only.unfinished unfinished]
  exact numUnfinishedSeqs_le request.toSequenceGroup

theorem Decodes.isPrefill_eq (decodes : Decodes manager device status request) :
    request.isPrefill = false := by
  rw [SequenceGroup.isPrefill]
  cases found : request.seqs.head? with
  | none => rfl
  | some seq =>
      have stage := decodes.decode seq (List.mem_of_mem_head? found)
      simp [stage]

theorem Decodes.lookahead (decodes : Decodes manager device status request) :
    getNumLookaheadSlots config request.isPrefill = config.numLookaheadSlots := by
  rw [decodes.isPrefill_eq]
  rfl

theorem Decodes.located (decodes : Decodes manager device status request) :
    ∀ seq ∈ request.getSeqs status, manager.Located device seq.seqId := by
  intro seq member
  obtain ⟨tokens, has, _⟩ := decodes.started seq member
  exact has.located

theorem Decodes.getNumNewTokens_eq (decodes : Decodes manager device status request) :
    getNumNewTokens request status = .ok (request.getSeqs status).length := by
  have one : (request.getSeqs status).map Sequence.getNumNewTokens =
      (request.getSeqs status).map fun _ => 1 := by
    refine List.map_congr_left fun seq member => ?_
    rw [Sequence.getNumNewTokens, if_pos (decodes.decode seq (mem_getSeqs.mp member).1)]
  have total : ((request.getSeqs status).map Sequence.getNumNewTokens).sum =
      (request.getSeqs status).length := by
    rw [one, List.map_const', List.sum_replicate_nat, Nat.mul_one]
  rw [getNumNewTokens]
  simp only [total]
  exact if_pos (List.length_pos_iff.mpr decodes.some)

theorem Decodes.of_setStatus {after : SequenceStatus} {manager' : BlockSpaceManagerV2}
    {device' : Device} (decodes : Decodes manager device status request)
    (unfinished : after.isFinished = false)
    (started : ∀ seq ∈ request.getSeqs status, manager'.Started device' seq) :
    Decodes manager' device' after (request.setStatus status after) := by
  have kept : ∀ seq ∈ (request.setStatus status after).seqs,
      ∃ old ∈ request.seqs, seq.data = old.data := by
    intro seq member
    obtain ⟨old, inside, same⟩ := List.mem_map.mp member
    refine ⟨old, inside, ?_⟩
    rw [← same]
    split <;> rfl
  refine ⟨only_setStatus decodes.only, ?_, ?_, ?_, ?_⟩
  · rw [getSeqs_setStatus decodes.only unfinished]
    exact fun none => decodes.some (List.map_eq_nil_iff.mp none)
  · intro seq member
    obtain ⟨old, inside, same⟩ := kept seq member
    rw [same]
    exact decodes.decode old inside
  · intro seq member
    obtain ⟨old, inside, same⟩ := kept seq member
    rw [same]
    exact decodes.filled old inside
  · intro seq member
    rw [getSeqs_setStatus decodes.only unfinished] at member
    obtain ⟨old, inside, same⟩ := List.mem_map.mp member
    rw [← same]
    exact started old inside

end Decoding

section Running

variable {V ν : Type} {groupOf : Nat → Nat} {config : SchedulerConfig} {direction : Device}
  {first manager after : BlockSpaceManagerV2} {before stored : Nat → List ν}
  {all : List (Place × Request V)} {transfers : Transfers} {request : Request V}

namespace Desk

theorem running (desk : Desk groupOf config direction first before manager
      ((.running, request) :: all) transfers stored) :
    Decodes manager .gpu .running request :=
  desk.served.holds (.running, request) List.mem_cons_self

theorem canAppendSlots_returns (desk : Desk groupOf config direction first before manager
      ((.running, request) :: all) transfers stored) :
    ∃ answer, canAppendSlots config manager request = .ok answer := by
  obtain ⟨answer, returned⟩ := desk.served.accounted.canAppendSlots_returns desk.running.started
    (getNumLookaheadSlots config request.isPrefill)
  exact ⟨answer, by rw [canAppendSlots, returned]; rfl⟩

theorem appended (desk : Desk groupOf config direction first before manager
      ((.running, request) :: all) transfers stored) {cows : List (BlockId × BlockId)}
    (run : manager.appendAll config.numLookaheadSlots (request.getSeqs .running) =
      .ok (cows, after))
    (changes : Changes manager after ((request.getSeqs .running).map Sequence.seqId))
    (tight : after.Tight config.numLookaheadSlots)
    (has : ∀ seq ∈ request.getSeqs .running, after.Has .gpu seq.seqId seq.data.getTokenIds) :
    appendSlots config manager request = .ok (cows, after) ∧
      Desk groupOf config direction first before after ((.scheduled, request) :: all)
        (transfers.copy cows) stored := by
  have decodes := desk.running
  obtain ⟨touched, made, among⟩ := desk.made
  obtain ⟨more, made', among'⟩ := made.appendAll (request.getSeqs .running)
    desk.served.accounted (desk.served.getSeqs_nodup .running) decodes.located run
  have batched : Place.scheduled.Holds after request := ⟨decodes.only, decodes.some, has⟩
  refine ⟨by rw [appendSlots, decodes.lookahead, run]; rfl,
    desk.served.move changes keys_mem tight rfl rfl rfl batched, more, made', ?_⟩
  intro group member
  rcases among' group member with earlier | own
  · exact (among.tail (by decide)).cons _ group earlier
  · obtain ⟨seq, inside, same⟩ := own
    refine ⟨(.scheduled, request), List.mem_cons_self, rfl, ?_⟩
    rw [same]
    exact (desk.served.grouped (.running, request) List.mem_cons_self seq.seqId
      (List.mem_map_of_mem (mem_getSeqs.mp inside).1)).symm

theorem append (desk : Desk groupOf config direction first before manager
      ((.running, request) :: all) transfers stored)
    (check : canAppendSlots config manager request = .ok true) :
    ∃ cows after, appendSlots config manager request = .ok (cows, after) ∧
      Desk groupOf config direction first before after ((.scheduled, request) :: all)
        (transfers.copy cows) stored := by
  have decodes := desk.running
  have passed : manager.canAppendSlots request.toSequenceGroup config.numLookaheadSlots =
      .ok true := by
    rw [canAppendSlots, decodes.lookahead] at check
    cases answer : manager.canAppendSlots request.toSequenceGroup config.numLookaheadSlots with
    | error failure =>
        rw [answer] at check
        cases check
    | ok value =>
        rw [answer] at check
        rw [Except.ok.inj check]
  obtain ⟨cows, after, run, changes, tight, has⟩ := desk.served.accounted.append_checked
    desk.served.tight (desk.served.getSeqs_nodup .running) decodes.started passed
  exact ⟨cows, after, desk.appended run changes tight has⟩

theorem preemptByRecompute (desk : Desk groupOf config direction first before manager
      ((.running, request) :: all) transfers stored) {seq : Sequence}
    (single : request.getSeqs .running = [seq]) :
    ∃ after, Scheduling.preemptByRecompute manager request = .ok (request.reset, after) ∧
      Desk groupOf config direction first before after ((.waiting, request.reset) :: all)
        transfers stored := by
  have decodes := desk.running
  have runs : seq ∈ request.getSeqs .running := single ▸ List.mem_singleton.mpr rfl
  have inside : seq ∈ request.seqs := (mem_getSeqs.mp runs).1
  have located : manager.Located .gpu seq.seqId := decodes.located seq runs
  obtain ⟨after, run, changes, tight, absent⟩ :=
    desk.served.accounted.free_changes located desk.served.tight
  have waits : Place.waiting.Holds after request.reset := by
    refine ⟨only_reset decodes.only, { seq with
      status := .waiting, data := seq.data.resetStateForRecompute }, ?_,
      decodes.filled seq inside, rfl, rfl, absent⟩
    rw [getSeqs_reset decodes.only, single]
    rfl
  have served : Served groupOf config after ((.waiting, request.reset) :: all) :=
    desk.served.move changes
      (fun key member => List.mem_singleton.mp member ▸ List.mem_map_of_mem inside) tight
      request.ids_reset rfl rfl waits
  refine ⟨after, ?_, desk.op (by decide) (.free seq.seqId) rfl ?_ ?_ served⟩
  · rw [Scheduling.preemptByRecompute, single]
    simp only [run]
    rfl
  · exact fun touched untouched => ⟨located, untouched seq inside⟩
  · rw [ScheduleOp.perform, run]
    rfl

theorem swapOut (desk : Desk groupOf config .cpu first before manager
      ((.running, request) :: all) transfers stored) (none : config.numLookaheadSlots = 0) :
    (∃ moves after, Scheduling.swapOut manager request =
        .ok (moves, request.setStatus .running .swapped, after) ∧
      Desk groupOf config .cpu first before after
        ((.swapped, request.setStatus .running .swapped) :: all) (transfers.swap .cpu moves)
        stored) ∨
      Scheduling.swapOut manager request = .error .noSwapSpace := by
  have decodes := desk.running
  have tight : manager.Tight 0 := none ▸ desk.served.tight
  have once := desk.served.getSeqs_nodup .running
  obtain ⟨status, returned⟩ := desk.served.accounted.canSwap_returns decodes.started .cpu 0
  have asked : liftCache (manager.canSwapOut request.toSequenceGroup) =
      .ok (decide (status = .ok)) := by
    rw [canSwapOut, returned]
    rfl
  by_cases okay : status = .ok
  · have check : manager.canSwapOut request.toSequenceGroup = .ok true := by
      rw [canSwapOut, returned, okay]
      rfl
    obtain ⟨moves, after, run, changes, tight', started⟩ :=
      desk.served.accounted.swapOut_checked tight once decodes.started check
    have swapped : Place.swapped.Holds after (request.setStatus .running .swapped) :=
      decodes.of_setStatus rfl started
    have served : Served groupOf config after
        ((.swapped, request.setStatus .running .swapped) :: all) :=
      desk.served.move changes keys_mem (none ▸ tight') (request.ids_setStatus _ _) rfl rfl
        swapped
    refine .inl ⟨moves, after, ?_, desk.op (by decide)
      (.swapOut request.toSequenceGroup) rfl ?_ ?_ served⟩
    · rw [Scheduling.swapOut, asked, okay]
      simp only [bind, Except.bind, run]
      rfl
    · intro touched untouched
      exact ⟨rfl, ⟨once, decodes.located⟩, fun seq member =>
        untouched seq (mem_getSeqs.mp member).1⟩
    · rw [ScheduleOp.perform, run]
      rfl
  · refine .inr ?_
    rw [Scheduling.swapOut, asked, decide_eq_false okay]
    rfl

end Desk

end Running

section Entering

variable {V ν : Type} {groupOf : Nat → Nat} {config : SchedulerConfig} {direction : Device}
  {first manager : BlockSpaceManagerV2} {before stored : Nat → List ν}
  {all : List (Place × Request V)} {transfers : Transfers} {request : Request V}

namespace Desk

theorem bringBack (desk : Desk groupOf config .gpu first before manager
      ((.swapped, request) :: all) transfers stored)
    (check : manager.canSwapIn request.toSequenceGroup config.numLookaheadSlots = .ok .ok) :
    ∃ moves middle cows after,
      Scheduling.swapIn manager request =
        .ok (moves, request.setStatus .swapped .running, middle) ∧
      appendSlots config middle (request.setStatus .swapped .running) = .ok (cows, after) ∧
      Desk groupOf config .gpu first before after
        ((.scheduled, request.setStatus .swapped .running) :: all)
        ((transfers.swap .gpu moves).copy cows) stored := by
  have decodes : Decodes manager .cpu .swapped request :=
    desk.served.holds (.swapped, request) List.mem_cons_self
  have once := desk.served.getSeqs_nodup .swapped
  obtain ⟨moves, middle, cows, after, run, run', changes, changes', tight, tight', started, has⟩ :=
    desk.served.accounted.swapIn_checked desk.served.tight once decodes.started check
  have running : Place.running.Holds middle (request.setStatus .swapped .running) :=
    decodes.of_setStatus rfl started
  have served : Served groupOf config middle
      ((.running, request.setStatus .swapped .running) :: all) :=
    desk.served.move changes keys_mem tight (request.ids_setStatus _ _) rfl rfl running
  have back : Desk groupOf config .gpu first before middle
      ((.running, request.setStatus .swapped .running) :: all) (transfers.swap .gpu moves)
      stored := by
    refine desk.op (by decide) (.swapIn request.toSequenceGroup) rfl ?_ ?_ served
    · intro touched untouched
      exact ⟨rfl, ⟨once, decodes.located⟩, fun seq member =>
        untouched seq (mem_getSeqs.mp member).1⟩
    · rw [ScheduleOp.perform, run]
      rfl
  have seqs := getSeqs_setStatus decodes.only (rfl : SequenceStatus.running.isFinished = false)
  have ids : ((request.setStatus .swapped .running).getSeqs .running).map Sequence.seqId =
      (request.getSeqs .swapped).map Sequence.seqId := by
    rw [seqs, List.map_map]
    rfl
  rw [← seqs] at run'
  have swapped : Scheduling.swapIn manager request =
      .ok (moves, request.setStatus .swapped .running, middle) := by
    rw [Scheduling.swapIn, run]
    rfl
  refine ⟨moves, middle, cows, after, swapped, back.appended run' (ids ▸ changes') tight' ?_⟩
  intro seq member
  rw [seqs] at member
  obtain ⟨old, inside, same⟩ := List.mem_map.mp member
  rw [← same]
  exact has old inside

theorem allocate (desk : Desk groupOf config direction first before manager
      ((.waiting, request) :: all) transfers stored)
    (check : manager.canAllocate request.toSequenceGroup 0 = .ok .ok) :
    ∃ after, allocateAndSetRunning manager request =
        .ok (request.setStatus .waiting .running, after) ∧
      Desk groupOf config direction first before after
        ((.scheduled, request.setStatus .waiting .running) :: all) transfers
        ((ScheduleOp.allocate request.toSequenceGroup).store stored) := by
  have waits : Waits manager request :=
    desk.served.holds (.waiting, request) List.mem_cons_self
  obtain ⟨seq, waiting, prompt, _, _, absent⟩ := waits.single
  obtain ⟨after, run, changes, tight, has⟩ := desk.served.accounted.allocate_checked
    desk.served.tight waiting prompt absent check
  have seqs := getSeqs_setStatus waits.only (rfl : SequenceStatus.running.isFinished = false)
  rw [waiting] at seqs
  have batched : Place.scheduled.Holds after (request.setStatus .waiting .running) := by
    refine ⟨only_setStatus waits.only, ?_, ?_⟩
    · rw [seqs]
      exact List.cons_ne_nil _ _
    · intro other member
      rw [seqs] at member
      rw [List.mem_singleton.mp member]
      exact has
  have own : ∀ key ∈ [seq.seqId], key ∈ request.ids := by
    intro key member
    have inside : seq ∈ request.getSeqs .waiting := waiting ▸ List.mem_singleton.mpr rfl
    rw [List.mem_singleton.mp member]
    exact List.mem_map_of_mem (mem_getSeqs.mp inside).1
  have served : Served groupOf config after
      ((.scheduled, request.setStatus .waiting .running) :: all) :=
    desk.served.move changes own tight (request.ids_setStatus _ _) rfl rfl batched
  refine ⟨after, ?_, desk.op (by decide) (.allocate request.toSequenceGroup) rfl
    (fun touched _ => ⟨seq, waiting, prompt⟩) ?_ served⟩
  · rw [allocateAndSetRunning, run]
    rfl
  · rw [ScheduleOp.perform, run]
    rfl

end Desk

end Entering

end ScalarLM.Scheduling
