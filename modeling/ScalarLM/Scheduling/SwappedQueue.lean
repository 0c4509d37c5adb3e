import ScalarLM.Lib.Dealt
import ScalarLM.Scheduling.Ledger

/-! Swapped requests come back as long as there is room. -/

namespace ScalarLM.Scheduling

open Engine Cache BlockSpaceManagerV2

section Counts

variable {V : Type}

theorem numUnfinishedSeqs_setStatus (group : SequenceGroup V) {before after : SequenceStatus}
    (same : before.isFinished = after.isFinished) :
    (group.setStatus before after).numUnfinishedSeqs = group.numUnfinishedSeqs := by
  rw [SequenceGroup.numUnfinishedSeqs, SequenceGroup.setStatus, List.filter_map, List.length_map,
    SequenceGroup.numUnfinishedSeqs]
  refine congrArg List.length (List.filter_congr fun seq _ => ?_)
  simp only [Function.comp]
  split
  · rename_i here
    rw [here, same]
  · rfl

theorem getMaxNumRunningSeqs_setStatus (request : Request V) {before after : SequenceStatus}
    (same : before.isFinished = after.isFinished) :
    (request.setStatus before after).getMaxNumRunningSeqs = request.getMaxNumRunningSeqs := by
  have count := numUnfinishedSeqs_setStatus request.toSequenceGroup same
  have length : (request.setStatus before after).seqs.length = request.seqs.length :=
    List.length_map _
  have params : (request.setStatus before after).samplingParams = request.samplingParams := rfl
  rw [SequenceGroup.getMaxNumRunningSeqs, SequenceGroup.getMaxNumRunningSeqs, length, params]
  cases request.samplingParams with
  | none => exact count
  | some given =>
      exact congrArg (fun unfinished =>
        if request.seqs.length < given.bestOf then given.bestOf else unfinished) count

theorem isPrefill_setStatus (request : Request V) (before after : SequenceStatus) :
    (request.setStatus before after).isPrefill = request.isPrefill := by
  rw [SequenceGroup.isPrefill, SequenceGroup.isPrefill, Request.setStatus,
    SequenceGroup.setStatus]
  cases request.seqs with
  | nil => rfl
  | cons seq rest =>
      simp only [List.map_cons, List.head?_cons, Option.any_some]
      split <;> rfl

theorem canSchedule_returns (budget : SchedulingBudget) {tokens seqs : Nat} (some : 0 < tokens)
    (least : 0 < seqs) : ∃ answer, budget.canSchedule tokens seqs = .ok answer := by
  refine ⟨_, if_neg ?_⟩
  omega

end Counts

section Outcome

variable {V ν : Type} {groupOf : Nat → Nat} {config : SchedulerConfig}
  {first : BlockSpaceManagerV2} {before stored : Nat → List ν} {copies : List (Nat × Nat)}
  {others : List (Place × Request V)} {queue members : List (Request V)} {request : Request V}
  {state : SwappedState V}

structure SwappedState.Went (state after : SwappedState V)
    (taken dropped skipped : List (Request V)) : Prop where
  decode : after.decodeSeqGroups = state.decodeSeqGroups ++
    taken.map fun request => ⟨request.setStatus .swapped .running, 1⟩
  prefill : after.prefillSeqGroups = state.prefillSeqGroups
  infeasible : after.infeasibleSeqGroups = state.infeasibleSeqGroups ++ dropped.map Request.ignore
  leftover : after.leftover = skipped.reverse ++ state.leftover

def SwappedState.entries (state : SwappedState V) : List (Place × Request V) :=
  (state.decodeSeqGroups.map fun scheduled => (.scheduled, scheduled.seqGroup)) ++
    state.leftover.map (Prod.mk .swapped)

def SwappedState.transfers (copies : List (Nat × Nat)) (state : SwappedState V) : Transfers where
  blocksToSwapIn := state.blocksToSwapIn
  blocksToSwapOut := []
  blocksToCopy := copies ++ state.blocksToCopy

def SwappedState.Desk (groupOf : Nat → Nat) (config : SchedulerConfig)
    (first : BlockSpaceManagerV2) (before : Nat → List ν) (copies : List (Nat × Nat))
    (queue : List (Request V)) (others : List (Place × Request V)) (stored : Nat → List ν)
    (state : SwappedState V) : Prop :=
  Scheduling.Desk groupOf config .gpu first before state.blockManager
    (queue.map (Prod.mk .swapped) ++ (state.entries ++ others)) (state.transfers copies) stored

theorem bringBack_outcome (tokens seqs : Nat)
    (desk : state.Desk groupOf config first before copies (request :: queue) others stored)
    (check : state.blockManager.canSwapIn request.toSequenceGroup config.numLookaheadSlots =
      .ok .ok) :
    ∃ after, bringBack config request tokens seqs state = .ok after ∧
      after.budget = (state.budget.addNumBatchedTokens request.requestId tokens).addNumSeqs
        request.requestId seqs ∧
      after.currLoras = useLora state.currLoras request.loraIntId ∧
      SwappedState.Went state after [request] [] [] ∧
      after.Desk groupOf config first before copies queue others stored := by
  have front : Scheduling.Desk groupOf config .gpu first before state.blockManager
      ((.swapped, request) :: (queue.map (Prod.mk .swapped) ++ (state.entries ++ others)))
      (state.transfers copies) stored := desk
  obtain ⟨moves, middle, cows, after, run, run', desk'⟩ := front.bringBack check
  have decodes : Decodes state.blockManager .cpu .swapped request :=
    front.served.holds (.swapped, request) List.mem_cons_self
  have decoding : (request.setStatus .swapped .running).isPrefill = false :=
    (isPrefill_setStatus request _ _).trans decodes.isPrefill_eq
  refine ⟨{ state with
    blockManager := after
    blocksToSwapIn := state.blocksToSwapIn ++ moves
    blocksToCopy := state.blocksToCopy ++ cows
    currLoras := useLora state.currLoras request.loraIntId
    budget := (state.budget.addNumBatchedTokens request.requestId tokens).addNumSeqs
      request.requestId seqs
    decodeSeqGroups := state.decodeSeqGroups ++ [⟨request.setStatus .swapped .running, 1⟩] },
    ?_, rfl, rfl, ⟨rfl, rfl, (List.append_nil _).symm, rfl⟩, ?_⟩
  · rw [bringBack]
    simp only [bind, Except.bind, run, run', decoding]
    rfl
  · have same : ((state.transfers copies).swap .gpu moves).copy cows =
        ⟨state.blocksToSwapIn ++ moves, [], copies ++ (state.blocksToCopy ++ cows)⟩ := by
      rw [← List.append_assoc]
      rfl
    rw [same] at desk'
    refine desk'.perm (Multiset.coe_eq_coe.mp ?_)
    simp only [SwappedState.entries, List.map_append, List.map_cons, List.map_nil,
      ← Multiset.coe_add, ← Multiset.cons_coe, ← Multiset.singleton_add, Multiset.coe_nil,
      add_zero]
    ac_rfl

/-- What a walk over the queue comes to: some requests came back, others can never come back or
were passed over, and the rest was left. -/
def SwappedState.Deals (groupOf : Nat → Nat) (config : SchedulerConfig)
    (first : BlockSpaceManagerV2) (before : Nat → List ν) (copies : List (Nat × Nat))
    (others : List (Place × Request V)) (members queue : List (Request V))
    (stored : Nat → List ν) (state : SwappedState V)
    (result : Except ScheduleError (List (Request V) × SwappedState V)) : Prop :=
  ∃ left after passed taken dropped skipped, result = .ok (left, after) ∧
    queue = passed ++ left ∧ Dealt passed taken dropped skipped ∧
    SwappedState.Went state after taken dropped skipped ∧
    Ledger config after.budget after.currLoras
      (members ++ taken.map fun request => request.setStatus .swapped .running) ∧
    (config.maxLoras = none → skipped = []) ∧
    after.Desk groupOf config first before copies left others stored

namespace SwappedState.Deals

variable {result : Except ScheduleError (List (Request V) × SwappedState V)}

theorem stop (desk : state.Desk groupOf config first before copies queue others stored)
    (ledger : Ledger config state.budget state.currLoras members) :
    state.Deals groupOf config first before copies others members queue stored
      (.ok (queue, state)) := by
  refine ⟨queue, state, [], [], [], [], rfl, rfl, .nil, ⟨?_, rfl, ?_, rfl⟩, ?_, fun _ => rfl, desk⟩
  · exact (List.append_nil _).symm
  · exact (List.append_nil _).symm
  · rw [List.map_nil, List.append_nil]
    exact ledger

theorem drop (deals : SwappedState.Deals groupOf config first before copies others members queue
      stored { state with infeasibleSeqGroups := state.infeasibleSeqGroups ++ [request.ignore] }
      result) :
    state.Deals groupOf config first before copies others members (request :: queue) stored
      result := by
  obtain ⟨left, after, passed, taken, dropped, skipped, run, split, dealt, went, ledger, none,
    desk⟩ := deals
  refine ⟨left, after, request :: passed, taken, request :: dropped, skipped, run, ?_,
    dealt.drop request, ⟨went.decode, went.prefill, ?_, went.leftover⟩, ledger, none, desk⟩
  · rw [split, List.cons_append]
  · rw [went.infeasible, List.append_assoc]
    rfl

theorem skip (full : noRoomForLora config state.currLoras request.loraIntId = true)
    (deals : SwappedState.Deals groupOf config first before copies others members queue stored
      { state with leftover := request :: state.leftover } result) :
    state.Deals groupOf config first before copies others members (request :: queue) stored
      result := by
  obtain ⟨left, after, passed, taken, dropped, skipped, run, split, dealt, went, ledger, none,
    desk⟩ := deals
  refine ⟨left, after, request :: passed, taken, dropped, request :: skipped, run, ?_,
    dealt.skip request, ⟨went.decode, went.prefill, went.infeasible, ?_⟩, ledger, ?_, desk⟩
  · rw [split, List.cons_append]
  · rw [went.leftover, List.reverse_cons, List.append_assoc]
    rfl
  · intro given
    rw [Ledger.noRoomForLora_none given] at full
    cases full

theorem take {middle : SwappedState V} (came : SwappedState.Went state middle [request] [] [])
    (deals : middle.Deals groupOf config first before copies others
      (members ++ [request.setStatus .swapped .running]) queue stored result) :
    state.Deals groupOf config first before copies others members (request :: queue) stored
      result := by
  obtain ⟨left, after, passed, taken, dropped, skipped, run, split, dealt, went, ledger, none,
    desk⟩ := deals
  refine ⟨left, after, request :: passed, request :: taken, dropped, skipped, run, ?_,
    dealt.take request, ⟨?_, went.prefill.trans came.prefill, ?_, ?_⟩, ?_, none, desk⟩
  · rw [split, List.cons_append]
  · rw [went.decode, came.decode, List.append_assoc]
    rfl
  · rw [went.infeasible, came.infeasible, List.map_nil, List.append_nil]
  · rw [went.leftover, came.leftover]
    rfl
  · rw [List.map_cons]
    rw [List.append_assoc] at ledger
    exact ledger

end SwappedState.Deals

/-- Nothing can go wrong. The requests that there is room for come back in order. -/
theorem scheduleSwappedLoop_outcome
    (desk : state.Desk groupOf config first before copies queue others stored)
    (ledger : Ledger config state.budget state.currLoras members)
    (fresh : ∀ request ∈ queue, request.requestId ∉ members.map Request.requestId) :
    state.Deals groupOf config first before copies others members queue stored
      (scheduleSwappedLoop config queue state) := by
  induction queue generalizing state members with
  | nil => exact .stop desk ledger
  | cons request rest ih =>
      have front : Scheduling.Desk groupOf config .gpu first before state.blockManager
          ((.swapped, request) :: (rest.map (Prod.mk .swapped) ++ (state.entries ++ others)))
          (state.transfers copies) stored := desk
      have decodes : Decodes state.blockManager .cpu .swapped request :=
        front.served.holds (.swapped, request) List.mem_cons_self
      have fresh' : ∀ other ∈ rest, other.requestId ∉ members.map Request.requestId :=
        fun other member => fresh other (List.mem_cons_of_mem _ member)
      obtain ⟨answer, asked⟩ := front.served.accounted.canSwap_returns decodes.started .gpu
        config.numLookaheadSlots
      have check : state.blockManager.canSwapIn request.toSequenceGroup
          config.numLookaheadSlots = .ok answer := asked
      rw [scheduleSwappedLoop, decodes.lookahead, check]
      simp only [liftCache, bind, Except.bind]
      cases answer with
      | later => exact .stop desk ledger
      | never =>
          have gone : SwappedState.Desk groupOf config first before copies rest others stored
              { state with infeasibleSeqGroups := state.infeasibleSeqGroups ++ [request.ignore] } :=
            front.tail (by decide)
          exact (ih gone ledger fresh').drop
      | ok =>
          by_cases room : noRoomForLora config state.currLoras request.loraIntId = true
          · have aside : SwappedState.Desk groupOf config first before copies rest others stored
                { state with leftover := request :: state.leftover } := by
              refine desk.perm (Multiset.coe_eq_coe.mp ?_)
              simp only [SwappedState.entries, List.map_cons, ← Multiset.coe_add,
                ← Multiset.cons_coe, ← Multiset.singleton_add]
              ac_rfl
            rw [if_pos room]
            exact (ih aside ledger fresh').skip room
          · have some : 0 < (request.getSeqs .swapped).length :=
              List.length_pos_iff.mpr decodes.some
            have least := some.trans_le (decodes.only.length_le rfl)
            obtain ⟨answer, passed⟩ := canSchedule_returns state.budget some least
            rw [if_neg room]
            simp only [decodes.getNumNewTokens_eq, passed]
            cases answer with
            | false => exact .stop desk ledger
            | true =>
                obtain ⟨middle, run, budget, loras, went, desk'⟩ :=
                  bringBack_outcome (request.getSeqs .swapped).length
                    request.getMaxNumRunningSeqs desk check
                have ledger' := ledger.take (request.setStatus .swapped .running)
                  (fresh request List.mem_cons_self) passed (Bool.eq_false_iff.mpr room)
                  (getMaxNumRunningSeqs_setStatus request rfl) rfl rfl
                rw [← budget, ← loras] at ledger'
                have later : ∀ other ∈ rest, other.requestId ∉
                    (members ++ [request.setStatus .swapped .running]).map Request.requestId := by
                  intro other member listed
                  rw [List.map_append, List.mem_append] at listed
                  rcases listed with earlier | same
                  · exact fresh' other member earlier
                  · have apart := (List.nodup_cons.mp front.served.apart).1
                    rw [List.map_append] at apart
                    refine apart (List.mem_append_left _ (List.mem_map.mpr
                      ⟨(.swapped, other), List.mem_map_of_mem member, ?_⟩))
                    exact List.mem_singleton.mp same
                simp only [if_true, run]
                exact (ih desk' ledger' later).take went

end Outcome

end ScalarLM.Scheduling
