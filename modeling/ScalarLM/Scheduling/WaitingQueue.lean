import ScalarLM.Scheduling.SwappedQueue

/-! New requests start as long as there is room. -/

namespace ScalarLM.Scheduling

open Engine Cache BlockSpaceManagerV2

section Waiting

variable {V ν : Type} {config : SchedulerConfig} {manager : BlockSpaceManagerV2}
  {request : Request V}

def newTokens (request : Request V) : Nat :=
  ((request.getSeqs .waiting).map Sequence.getNumNewTokens).sum

theorem Waits.newTokens_eq (waits : Waits manager request) {seq : Sequence}
    (waiting : request.getSeqs .waiting = [seq]) : newTokens request = seq.data.getLen ∧
      0 < seq.data.getLen := by
  obtain ⟨same, waiting', prompt, stage, computed, _⟩ := waits.single
  rw [waiting] at waiting'
  obtain rfl := (List.cons.inj waiting').1
  constructor
  · rw [newTokens, waiting, List.map_singleton, List.sum_singleton, Sequence.getNumNewTokens,
      if_neg (by rw [stage]; decide), computed, Nat.sub_zero]
  · rw [← SequenceData.length_getTokenIds]
    exact List.length_pos_iff.mpr prompt

theorem Waits.getNumNewTokens_eq (waits : Waits manager request) :
    getNumNewTokens request .waiting = .ok (newTokens request) := by
  obtain ⟨seq, waiting, _⟩ := waits.single
  obtain ⟨same, positive⟩ := waits.newTokens_eq waiting
  rw [← same] at positive
  exact if_pos positive

theorem Waits.canAllocate_returns (waits : Waits manager request) (lookahead : Nat) :
    ∃ answer, manager.canAllocate request.toSequenceGroup lookahead = .ok answer := by
  obtain ⟨seq, waiting, _⟩ := waits.single
  rw [canAllocate, waiting]
  simp only
  split
  · exact ⟨_, rfl⟩
  · split
    · exact ⟨_, rfl⟩
    · exact ⟨_, rfl⟩

theorem Request.Limited.getPromptLimit_returns (limited : request.Limited config) :
    ∃ limit, getPromptLimit config request = .ok limit := by
  rw [getPromptLimit]
  split
  · exact ⟨_, rfl⟩
  · exact ⟨_, rfl⟩
  · rename_i maxLen strange given
    have enough := (limited maxLen given).resolve_left strange
    exact ⟨_, if_pos enough⟩

def cleared (stored : Nat → List ν) (requests : List (Request V)) : Nat → List ν := fun key =>
  if key ∈ requests.flatMap fun request => (request.getSeqs .waiting).map Sequence.seqId then []
  else stored key

theorem cleared_nil (stored : Nat → List ν) :
    cleared stored ([] : List (Request V)) = stored :=
  funext fun _ => if_neg List.not_mem_nil

theorem cleared_cons (stored : Nat → List ν) (request : Request V) (rest : List (Request V)) :
    cleared ((ScheduleOp.allocate request.toSequenceGroup).store stored) rest =
      cleared stored (request :: rest) := by
  funext key
  rw [cleared, cleared, ScheduleOp.store, List.flatMap_cons]
  beta_reduce
  by_cases later : key ∈ rest.flatMap fun request => (request.getSeqs .waiting).map Sequence.seqId
  · rw [if_pos later, if_pos (List.mem_append_right _ later)]
  · by_cases own : key ∈ (request.getSeqs .waiting).map Sequence.seqId
    · rw [if_neg later, if_pos own, if_pos (List.mem_append_left _ own)]
    · rw [if_neg later, if_neg own, if_neg]
      rw [List.mem_append, not_or]
      exact ⟨own, later⟩

end Waiting

section Charged

variable {V : Type} {budget : SchedulingBudget} {groups : List (ScheduledSequenceGroup V)}

structure Charged (budget : SchedulingBudget) (groups : List (ScheduledSequenceGroup V)) :
    Prop where
  tokens : budget.numBatchedTokens =
    ((groups.map ScheduledSequenceGroup.tokenChunkSize).sum : Nat)
  listed : ∀ id ∈ budget.requestIdsNumBatchedTokens,
    id ∈ groups.map fun scheduled => scheduled.seqGroup.requestId

theorem addNumSeqs_tokens (budget : SchedulingBudget) (requestId count : Nat) :
    (budget.addNumSeqs requestId count).numBatchedTokens = budget.numBatchedTokens ∧
      (budget.addNumSeqs requestId count).requestIdsNumBatchedTokens =
        budget.requestIdsNumBatchedTokens := by
  rw [SchedulingBudget.addNumSeqs]
  split <;> exact ⟨rfl, rfl⟩

theorem Charged.add (charged : Charged budget groups) (request : Request V)
    (fresh : request.requestId ∉ groups.map fun scheduled => scheduled.seqGroup.requestId)
    (tokens seqs : Nat) :
    Charged ((budget.addNumBatchedTokens request.requestId tokens).addNumSeqs request.requestId
      seqs) (groups ++ [⟨request, tokens⟩]) := by
  have absent : request.requestId ∉ budget.requestIdsNumBatchedTokens :=
    fun listed => fresh (charged.listed _ listed)
  obtain ⟨kept, ids⟩ := addNumSeqs_tokens (budget.addNumBatchedTokens request.requestId tokens)
    request.requestId seqs
  rw [SchedulingBudget.addNumBatchedTokens, if_neg absent] at kept ids
  rw [SchedulingBudget.addNumBatchedTokens, if_neg absent]
  refine ⟨?_, ?_⟩
  · rw [kept, charged.tokens]
    simp
  · intro id listed
    rw [ids] at listed
    rw [List.map_append, List.mem_append]
    rcases List.mem_cons.mp listed with rfl | earlier
    · exact .inr (List.mem_singleton.mpr rfl)
    · exact .inl (charged.listed id earlier)

end Charged

section Outcome

variable {V ν : Type} {groupOf : Nat → Nat} {config : SchedulerConfig}
  {first : BlockSpaceManagerV2} {before stored : Nat → List ν}
  {others : List (Place × Request V)} {queue members : List (Request V)} {request : Request V}
  {state : PrefillState V}

/-- The requests that started have their whole prompts in the batch. When none did, nothing was
given away. -/
structure PrefillState.Went (state after : PrefillState V)
    (taken dropped skipped : List (Request V)) : Prop where
  started : after.seqGroups = state.seqGroups ++
    taken.map fun request => ⟨request.setStatus .waiting .running, newTokens request⟩
  ignored : after.ignoredSeqGroups = state.ignoredSeqGroups ++
    dropped.map fun request => request.setStatus .waiting .finishedIgnored
  leftover : after.leftover = skipped.reverse ++ state.leftover
  quiet : taken = [] → after.blockManager = state.blockManager ∧ after.budget = state.budget ∧
    after.currLoras = state.currLoras

def PrefillState.entries (state : PrefillState V) : List (Place × Request V) :=
  (state.seqGroups.map fun scheduled => (.scheduled, scheduled.seqGroup)) ++
    state.leftover.map (Prod.mk .waiting)

def PrefillState.Desk (groupOf : Nat → Nat) (config : SchedulerConfig)
    (first : BlockSpaceManagerV2) (before : Nat → List ν) (queue : List (Request V))
    (others : List (Place × Request V)) (stored : Nat → List ν) (state : PrefillState V) : Prop :=
  Scheduling.Desk groupOf config .gpu first before state.blockManager
    (queue.map (Prod.mk .waiting) ++ (state.entries ++ others)) .none stored

theorem startPrefill_outcome (tokens seqs : Nat)
    (desk : state.Desk groupOf config first before (request :: queue) others stored)
    (check : state.blockManager.canAllocate request.toSequenceGroup 0 = .ok .ok) :
    ∃ after, startPrefill request tokens seqs state = .ok after ∧
      after.budget = (state.budget.addNumBatchedTokens request.requestId tokens).addNumSeqs
        request.requestId seqs ∧
      after.currLoras = useLora state.currLoras request.loraIntId ∧
      after.seqGroups = state.seqGroups ++ [⟨request.setStatus .waiting .running, tokens⟩] ∧
      after.ignoredSeqGroups = state.ignoredSeqGroups ∧ after.leftover = state.leftover ∧
      after.Desk groupOf config first before queue others
        ((ScheduleOp.allocate request.toSequenceGroup).store stored) := by
  have front : Scheduling.Desk groupOf config .gpu first before state.blockManager
      ((.waiting, request) :: (queue.map (Prod.mk .waiting) ++ (state.entries ++ others)))
      .none stored := desk
  obtain ⟨after, run, desk'⟩ := front.allocate check
  refine ⟨{ state with
    blockManager := after
    seqGroups := state.seqGroups ++ [⟨request.setStatus .waiting .running, tokens⟩]
    currLoras := useLora state.currLoras request.loraIntId
    budget := (state.budget.addNumBatchedTokens request.requestId tokens).addNumSeqs
      request.requestId seqs }, ?_, rfl, rfl, rfl, rfl, rfl, ?_⟩
  · rw [startPrefill]
    simp only [bind, Except.bind, run]
    rfl
  · refine desk'.perm (Multiset.coe_eq_coe.mp ?_)
    simp only [PrefillState.entries, List.map_append, List.map_cons, List.map_nil,
      ← Multiset.coe_add, ← Multiset.cons_coe, ← Multiset.singleton_add, Multiset.coe_nil,
      add_zero]
    ac_rfl

/-- What a walk over the queue comes to: some requests started, others were ignored or passed
over, and the rest was left. -/
def PrefillState.Deals (groupOf : Nat → Nat) (config : SchedulerConfig)
    (first : BlockSpaceManagerV2) (before : Nat → List ν) (others : List (Place × Request V))
    (members queue : List (Request V)) (stored : Nat → List ν) (state : PrefillState V)
    (result : Except ScheduleError (List (Request V) × PrefillState V)) : Prop :=
  ∃ left after passed taken dropped skipped, result = .ok (left, after) ∧
    queue = passed ++ left ∧ Dealt passed taken dropped skipped ∧
    PrefillState.Went state after taken dropped skipped ∧
    Ledger config after.budget after.currLoras
      (members ++ taken.map fun request => request.setStatus .waiting .running) ∧
    Charged after.budget after.seqGroups ∧ (config.maxLoras = none → skipped = []) ∧
    after.Desk groupOf config first before left others (cleared stored taken)

namespace PrefillState.Deals

variable {result : Except ScheduleError (List (Request V) × PrefillState V)}

theorem stop (desk : state.Desk groupOf config first before queue others stored)
    (ledger : Ledger config state.budget state.currLoras members)
    (charged : Charged state.budget state.seqGroups) :
    state.Deals groupOf config first before others members queue stored (.ok (queue, state)) := by
  refine ⟨queue, state, [], [], [], [], rfl, rfl, .nil,
    ⟨?_, ?_, rfl, fun _ => ⟨rfl, rfl, rfl⟩⟩, ?_, charged, fun _ => rfl, ?_⟩
  · exact (List.append_nil _).symm
  · exact (List.append_nil _).symm
  · rw [List.map_nil, List.append_nil]
    exact ledger
  · rw [cleared_nil]
    exact desk

theorem drop (deals : PrefillState.Deals groupOf config first before others members queue stored
      { state with ignoredSeqGroups := state.ignoredSeqGroups ++
          [request.setStatus .waiting .finishedIgnored] } result) :
    state.Deals groupOf config first before others members (request :: queue) stored result := by
  obtain ⟨left, after, passed, taken, dropped, skipped, run, split, dealt, went, ledger, charged,
    none, desk⟩ := deals
  refine ⟨left, after, request :: passed, taken, request :: dropped, skipped, run, ?_,
    dealt.drop request, ⟨went.started, ?_, went.leftover, went.quiet⟩, ledger, charged, none, desk⟩
  · rw [split, List.cons_append]
  · rw [went.ignored, List.append_assoc]
    rfl

theorem skip (full : noRoomForLora config state.currLoras request.loraIntId = true)
    (deals : PrefillState.Deals groupOf config first before others members queue stored
      { state with leftover := request :: state.leftover } result) :
    state.Deals groupOf config first before others members (request :: queue) stored result := by
  obtain ⟨left, after, passed, taken, dropped, skipped, run, split, dealt, went, ledger, charged,
    none, desk⟩ := deals
  refine ⟨left, after, request :: passed, taken, dropped, request :: skipped, run, ?_,
    dealt.skip request, ⟨went.started, went.ignored, ?_, went.quiet⟩, ledger, charged, ?_, desk⟩
  · rw [split, List.cons_append]
  · rw [went.leftover, List.reverse_cons, List.append_assoc]
    rfl
  · intro given
    rw [Ledger.noRoomForLora_none given] at full
    cases full

theorem take {middle : PrefillState V}
    (groups : middle.seqGroups = state.seqGroups ++
      [⟨request.setStatus .waiting .running, newTokens request⟩])
    (ignored : middle.ignoredSeqGroups = state.ignoredSeqGroups)
    (leftover : middle.leftover = state.leftover)
    (deals : middle.Deals groupOf config first before others
      (members ++ [request.setStatus .waiting .running]) queue
      ((ScheduleOp.allocate request.toSequenceGroup).store stored) result) :
    state.Deals groupOf config first before others members (request :: queue) stored result := by
  obtain ⟨left, after, passed, taken, dropped, skipped, run, split, dealt, went, ledger, charged,
    none, desk⟩ := deals
  refine ⟨left, after, request :: passed, request :: taken, dropped, skipped, run, ?_,
    dealt.take request, ⟨?_, ?_, ?_, fun none => absurd none (List.cons_ne_nil _ _)⟩, ?_, charged,
    none, ?_⟩
  · rw [split, List.cons_append]
  · rw [went.started, groups, List.append_assoc]
    rfl
  · rw [went.ignored, ignored]
  · rw [went.leftover, leftover]
  · rw [List.map_cons]
    rw [List.append_assoc] at ledger
    exact ledger
  · rw [← cleared_cons]
    exact desk

end PrefillState.Deals

theorem PrefillState.Desk.fresh
    (desk : state.Desk groupOf config first before (request :: queue) others stored)
    (fresh : ∀ other ∈ queue, other.requestId ∉ members.map Request.requestId)
    (changed : Request V) (same : changed.requestId = request.requestId) :
    (∀ other ∈ queue, other.requestId ∉ (members ++ [changed]).map Request.requestId) ∧
      changed.requestId ∉ state.seqGroups.map fun scheduled => scheduled.seqGroup.requestId := by
  have front : Scheduling.Desk groupOf config .gpu first before state.blockManager
      ((.waiting, request) :: (queue.map (Prod.mk .waiting) ++ (state.entries ++ others)))
      .none stored := desk
  have apart := (List.nodup_cons.mp front.served.apart).1
  simp only [List.map_append, List.map_map, List.mem_append, not_or, PrefillState.entries] at apart
  refine ⟨fun other member listed => ?_, same ▸ apart.2.1.1⟩
  rw [List.map_append, List.mem_append] at listed
  rcases listed with earlier | own
  · exact fresh other member earlier
  · refine apart.1 (List.mem_map.mpr ⟨other, member, ?_⟩)
    exact (List.mem_singleton.mp own).trans same

/-- Nothing can go wrong. The requests that there is room for start in order, and nothing else
changes. -/
theorem schedulePrefillsLoop_outcome (passedDelay : Nat → Bool)
    (desk : state.Desk groupOf config first before queue others stored)
    (ledger : Ledger config state.budget state.currLoras members)
    (fresh : ∀ request ∈ queue, request.requestId ∉ members.map Request.requestId)
    (charged : Charged state.budget state.seqGroups) :
    state.Deals groupOf config first before others members queue stored
      (schedulePrefillsLoop config passedDelay queue state) := by
  induction queue generalizing state members stored with
  | nil => exact .stop desk ledger charged
  | cons request rest ih =>
      have front : Scheduling.Desk groupOf config .gpu first before state.blockManager
          ((.waiting, request) :: (rest.map (Prod.mk .waiting) ++ (state.entries ++ others)))
          .none stored := desk
      have waits : Waits state.blockManager request :=
        front.served.holds (.waiting, request) List.mem_cons_self
      have fresh' : ∀ other ∈ rest, other.requestId ∉ members.map Request.requestId :=
        fun other member => fresh other (List.mem_cons_of_mem _ member)
      obtain ⟨seq, waiting, _⟩ := waits.single
      obtain ⟨length, positive⟩ := waits.newTokens_eq waiting
      obtain ⟨limit, limited⟩ :=
        (front.served.limited (.waiting, request) List.mem_cons_self).getPromptLimit_returns
      obtain ⟨answer, asked⟩ := waits.canAllocate_returns 0
      have gone : PrefillState.Desk groupOf config first before rest others stored { state with
          ignoredSeqGroups := state.ignoredSeqGroups ++
            [request.setStatus .waiting .finishedIgnored] } :=
        front.tail (by decide)
      rw [schedulePrefillsLoop]
      by_cases due : passedDelay (rest.length + 1) = true
      swap
      · simp only [due]
        exact .stop desk ledger charged
      simp only [due, Bool.not_true, Bool.false_eq_true, if_false, waiting,
        waits.getNumNewTokens_eq, bind, Except.bind, length, ne_eq, not_true_eq_false, limited]
      by_cases long : limit < seq.data.getLen
      · rw [if_pos long]
        exact (ih gone ledger fresh' charged).drop
      rw [if_neg long]
      simp only [asked, liftCache]
      cases answer with
      | later => exact .stop desk ledger charged
      | never => exact (ih gone ledger fresh' charged).drop
      | ok =>
          by_cases room : noRoomForLora config state.currLoras request.loraIntId = true
          · have aside : PrefillState.Desk groupOf config first before rest others stored
                { state with leftover := request :: state.leftover } := by
              refine desk.perm (Multiset.coe_eq_coe.mp ?_)
              simp only [PrefillState.entries, List.map_cons, ← Multiset.coe_add,
                ← Multiset.cons_coe, ← Multiset.singleton_add]
              ac_rfl
            simp only [room, if_true]
            exact (ih aside ledger fresh' charged).skip room
          · have some : 0 < (request.getSeqs .waiting).length := by
              rw [waiting]
              exact Nat.one_pos
            have least := some.trans_le (waits.only.length_le rfl)
            obtain ⟨answer, passed⟩ := canSchedule_returns state.budget positive least
            simp only [room, Bool.false_eq_true, if_false, passed]
            cases answer with
            | false => exact .stop desk ledger charged
            | true =>
                obtain ⟨middle, run, budget, loras, groups, same, same', desk'⟩ :=
                  startPrefill_outcome seq.data.getLen request.getMaxNumRunningSeqs desk asked
                have ledger' := ledger.take (request.setStatus .waiting .running)
                  (fresh request List.mem_cons_self) passed (Bool.eq_false_iff.mpr room)
                  (getMaxNumRunningSeqs_setStatus request rfl) rfl rfl
                rw [← budget, ← loras] at ledger'
                obtain ⟨later, absent⟩ :=
                  desk.fresh fresh' (request.setStatus .waiting .running) rfl
                have charged' := charged.add (request.setStatus .waiting .running) absent
                  seq.data.getLen request.getMaxNumRunningSeqs
                have whole : Charged middle.budget middle.seqGroups := by
                  rw [budget, groups]
                  exact charged'
                simp only [if_true, run]
                exact (ih desk' ledger' later whole).take (length ▸ groups) same same'

end Outcome

end ScalarLM.Scheduling
