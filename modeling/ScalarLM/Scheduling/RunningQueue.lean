import Mathlib.Algebra.Order.Group.Multiset
import ScalarLM.Scheduling.Moves

/-! The running requests go on as long as there are blocks, and the last ones give way. -/

namespace ScalarLM.Scheduling

open Engine Cache BlockSpaceManagerV2

/-- There is no lookahead, and it is left open which requests are computed again. -/
structure SchedulerConfig.Plain (config : SchedulerConfig) : Prop where
  lookahead : config.numLookaheadSlots = 0
  mode : config.preemptionMode ≠ some .recompute

section Victims

variable {V : Type} (config : SchedulerConfig)

def recomputed (victims : List (Request V)) : List (Request V) :=
  (victims.filter fun victim => preemptionMode config victim = .recompute).map Request.reset

def moved (victims : List (Request V)) : List (Request V) :=
  (victims.filter fun victim => preemptionMode config victim = .swap).map fun victim =>
    victim.setStatus .running .swapped

theorem recomputed_append (left right : List (Request V)) :
    recomputed config (left ++ right) = recomputed config left ++ recomputed config right := by
  simp [recomputed]

theorem moved_append (left right : List (Request V)) :
    moved config (left ++ right) = moved config left ++ moved config right := by
  simp [moved]

def tokensOf (requests : List (Request V)) : Nat :=
  (requests.map fun request => (request.getSeqs .running).length).sum

theorem tokensOf_append (left right : List (Request V)) :
    tokensOf (left ++ right) = tokensOf left + tokensOf right := by
  simp [tokensOf]

end Victims

section Budget

variable (budget : SchedulingBudget) (requestId count : Nat)

theorem subtractNumBatchedTokens_le :
    (budget.subtractNumBatchedTokens requestId count).numBatchedTokens ≤
      budget.numBatchedTokens := by
  rw [SchedulingBudget.subtractNumBatchedTokens]
  split
  · exact Int.sub_le_self _ (Int.natCast_nonneg _)
  · exact Int.le_refl _

@[simp] theorem subtractNumBatchedTokens_numCurrSeqs :
    (budget.subtractNumBatchedTokens requestId count).numCurrSeqs = budget.numCurrSeqs := by
  rw [SchedulingBudget.subtractNumBatchedTokens]
  split <;> rfl

theorem subtractNumSeqs_le :
    (budget.subtractNumSeqs requestId count).numCurrSeqs ≤ budget.numCurrSeqs := by
  rw [SchedulingBudget.subtractNumSeqs]
  split
  · exact Int.sub_le_self _ (Int.natCast_nonneg _)
  · exact Int.le_refl _

@[simp] theorem subtractNumSeqs_numBatchedTokens :
    (budget.subtractNumSeqs requestId count).numBatchedTokens = budget.numBatchedTokens := by
  rw [SchedulingBudget.subtractNumSeqs]
  split <;> rfl

theorem addNumBatchedTokens_le :
    (budget.addNumBatchedTokens requestId count).numBatchedTokens ≤
      budget.numBatchedTokens + count := by
  rw [SchedulingBudget.addNumBatchedTokens]
  split
  · exact Int.le_add_of_nonneg_right (Int.natCast_nonneg _)
  · exact Int.le_refl _

@[simp] theorem addNumBatchedTokens_seqs :
    (budget.addNumBatchedTokens requestId count).numCurrSeqs = budget.numCurrSeqs ∧
      (budget.addNumBatchedTokens requestId count).requestIdsNumCurrSeqs =
        budget.requestIdsNumCurrSeqs := by
  rw [SchedulingBudget.addNumBatchedTokens]
  split <;> exact ⟨rfl, rfl⟩

def SchedulingBudget.limits : Nat × Nat := (budget.tokenBudget, budget.maxNumSeqs)

@[simp] theorem limits_subtractNumBatchedTokens :
    (budget.subtractNumBatchedTokens requestId count).limits = budget.limits := by
  rw [SchedulingBudget.subtractNumBatchedTokens]
  split <;> rfl

@[simp] theorem limits_subtractNumSeqs :
    (budget.subtractNumSeqs requestId count).limits = budget.limits := by
  rw [SchedulingBudget.subtractNumSeqs]
  split <;> rfl

@[simp] theorem limits_addNumBatchedTokens :
    (budget.addNumBatchedTokens requestId count).limits = budget.limits := by
  rw [SchedulingBudget.addNumBatchedTokens]
  split <;> rfl

end Budget

section Shape

variable {V : Type} {config : SchedulerConfig}

/-- Some requests were kept, and others gave way in this order. When none gave way the
sequences are counted as before, and so are the adapters but for those of the kept. -/
structure RunningState.Went (config : SchedulerConfig) (state after : RunningState V)
    (kept victims : List (Request V)) : Prop where
  decode : after.decodeSeqGroups = state.decodeSeqGroups ++ kept.map fun request => ⟨request, 1⟩
  prefill : after.prefillSeqGroups = state.prefillSeqGroups
  preempted : after.preempted = state.preempted ++ recomputed config victims
  swappedOut : after.swappedOut = state.swappedOut ++ moved config victims
  transfers : moved config victims = [] → after.blocksToSwapOut = state.blocksToSwapOut
  limits : after.budget.limits = state.budget.limits
  numSeqs : after.budget.numCurrSeqs ≤ state.budget.numCurrSeqs
  numTokens : after.budget.numBatchedTokens ≤ state.budget.numBatchedTokens + tokensOf kept
  quiet : victims = [] → after.budget.numCurrSeqs = state.budget.numCurrSeqs ∧
    after.budget.requestIdsNumCurrSeqs = state.budget.requestIdsNumCurrSeqs ∧
    after.currLoras = kept.foldl (fun loras request => useLora loras request.loraIntId)
      state.currLoras

namespace RunningState.Went

variable {state middle after : RunningState V} {kept kept' victims victims' : List (Request V)}

theorem refl (state : RunningState V) : Went config state state [] [] where
  decode := (List.append_nil _).symm
  prefill := rfl
  preempted := (List.append_nil _).symm
  swappedOut := (List.append_nil _).symm
  transfers _ := rfl
  limits := rfl
  numSeqs := Int.le_refl _
  numTokens := Int.le_of_eq (Int.add_zero _).symm
  quiet _ := ⟨rfl, rfl, rfl⟩

theorem trans (first : Went config state middle kept victims)
    (second : Went config middle after kept' victims') :
    Went config state after (kept ++ kept') (victims ++ victims') where
  decode := by rw [second.decode, first.decode, List.map_append, List.append_assoc]
  prefill := second.prefill.trans first.prefill
  preempted := by rw [second.preempted, first.preempted, recomputed_append, List.append_assoc]
  swappedOut := by rw [second.swappedOut, first.swappedOut, moved_append, List.append_assoc]
  transfers none := by
    rw [moved_append, List.append_eq_nil_iff] at none
    exact (second.transfers none.2).trans (first.transfers none.1)
  limits := second.limits.trans first.limits
  numSeqs := second.numSeqs.trans first.numSeqs
  numTokens := by
    have before := first.numTokens
    have later := second.numTokens
    rw [tokensOf_append]
    omega
  quiet none := by
    rw [List.append_eq_nil_iff] at none
    obtain ⟨seqs, ids, loras⟩ := first.quiet none.1
    obtain ⟨seqs', ids', loras'⟩ := second.quiet none.2
    refine ⟨seqs'.trans seqs, ids'.trans ids, ?_⟩
    rw [loras', loras, List.foldl_append]

end RunningState.Went

end Shape

section Outcome

variable {V ν : Type} {groupOf : Nat → Nat} {config : SchedulerConfig}
  {first : BlockSpaceManagerV2} {before stored : Nat → List ν}
  {others : List (Place × Request V)} {queue : List (Request V)} {request : Request V}
  {state : RunningState V}

def RunningState.entries (state : RunningState V) : List (Place × Request V) :=
  (state.decodeSeqGroups.map fun scheduled => (.scheduled, scheduled.seqGroup)) ++
    state.preempted.map (Prod.mk .waiting) ++ state.swappedOut.map (Prod.mk .swapped)

def RunningState.transfers (state : RunningState V) : Transfers where
  blocksToSwapIn := []
  blocksToSwapOut := state.blocksToSwapOut
  blocksToCopy := state.blocksToCopy

/-- As long as nothing was moved to the CPU, blocks may still be moved the other way. -/
def RunningState.Desks (groupOf : Nat → Nat) (config : SchedulerConfig)
    (first : BlockSpaceManagerV2) (before : Nat → List ν) (queue : List (Request V))
    (others : List (Place × Request V)) (stored : Nat → List ν) (state : RunningState V) : Prop :=
  ∀ direction, (state.swappedOut ≠ [] → direction = .cpu) →
    Desk groupOf config direction first before state.blockManager
      (queue.map (Prod.mk .running) ++ (state.entries ++ others)) state.transfers stored

theorem preemptionMode_recompute (plain : config.Plain)
    (again : preemptionMode config request = .recompute) : request.getMaxNumRunningSeqs = 1 := by
  rw [preemptionMode] at again
  split at again
  · split at again
    · rename_i one
      exact one
    · cases again
  · rename_i mode given
    exact absurd (again ▸ given) plain.mode

theorem RunningState.perm_last (state : RunningState V) (queue : List (Request V))
    (request : Request V) (others : List (Place × Request V)) :
    ((queue ++ [request]).map (Prod.mk Place.running) ++ (state.entries ++ others)).Perm
      ((.running, request) :: (queue.map (Prod.mk .running) ++ (state.entries ++ others))) := by
  rw [List.map_append, List.append_assoc]
  exact List.perm_middle

theorem preempt_outcome (plain : config.Plain)
    (desks : state.Desks groupOf config first before (queue ++ [request]) others stored) :
    (∃ after, preempt config state request = .ok after ∧
      RunningState.Went config state after [] [request] ∧
      after.Desks groupOf config first before queue others stored) ∨
    preempt config state request = .error .noSwapSpace ∧
      preemptionMode config request = .swap := by
  have front : ∀ direction, (state.swappedOut ≠ [] → direction = .cpu) →
      Desk groupOf config direction first before state.blockManager
        ((.running, request) :: (queue.map (Prod.mk .running) ++ (state.entries ++ others)))
        state.transfers stored :=
    fun direction given => (desks direction given).perm (state.perm_last queue request others)
  have desk := front .cpu fun _ => rfl
  rw [preempt]
  cases mode : preemptionMode config request with
  | recompute =>
      have one := preemptionMode_recompute plain mode
      have few := desk.running.only.length_le rfl
      have some := List.length_pos_iff.mpr desk.running.some
      obtain ⟨seq, single⟩ := List.length_eq_one_iff.mp
        (Nat.le_antisymm (one ▸ few) some)
      obtain ⟨after, run, _⟩ := desk.preemptByRecompute single
      refine .inl ⟨{ state with
        blockManager := after, preempted := state.preempted ++ [request.reset] }, ?_, ?_, ?_⟩
      · simp only [run]
        rfl
      · refine ⟨(List.append_nil _).symm, rfl, ?_, ?_, fun _ => rfl, rfl, Int.le_refl _,
          Int.le_of_eq (Int.add_zero _).symm, fun none => absurd none (List.cons_ne_nil _ _)⟩
        · simp [recomputed, mode]
        · simp [moved, mode]
      · intro direction given
        obtain ⟨after', run', desk'⟩ := (front direction given).preemptByRecompute single
        have same : after = after' :=
          congrArg Prod.snd (Except.ok.inj (run.symm.trans run'))
        rw [← same] at desk'
        refine desk'.perm (Multiset.coe_eq_coe.mp ?_)
        simp only [RunningState.entries, List.map_append, List.map_cons, List.map_nil,
          ← Multiset.coe_add, ← Multiset.cons_coe, ← Multiset.singleton_add, Multiset.coe_nil,
          add_zero]
        ac_rfl
  | swap =>
      rcases desk.swapOut plain.lookahead with ⟨moves, after, run, desk'⟩ | full
      · refine .inl ⟨{ state with
          blockManager := after
          swappedOut := state.swappedOut ++ [request.setStatus .running .swapped]
          blocksToSwapOut := state.blocksToSwapOut ++ moves }, ?_, ?_, ?_⟩
        · simp only [run]
          rfl
        · refine ⟨(List.append_nil _).symm, rfl, ?_, ?_, ?_, rfl, Int.le_refl _,
            Int.le_of_eq (Int.add_zero _).symm, fun none => absurd none (List.cons_ne_nil _ _)⟩
          · simp [recomputed, mode]
          · simp [moved, mode]
          · intro none
            simp [moved, mode] at none
        · intro direction given
          have cpu : direction = .cpu := given (by simp)
          rw [cpu]
          refine desk'.perm (Multiset.coe_eq_coe.mp ?_)
          simp only [RunningState.entries, List.map_append, List.map_cons, List.map_nil,
            ← Multiset.coe_add, ← Multiset.cons_coe, ← Multiset.singleton_add, Multiset.coe_nil,
            add_zero]
          ac_rfl
      · refine .inr ⟨?_, rfl⟩
        simp only [full]
        rfl

theorem RunningState.Desks.release
    (desks : state.Desks groupOf config first before queue others stored) (request : Request V)
    (count : Nat) :
    (state.release request count).Desks groupOf config first before queue others stored :=
  desks

theorem RunningState.Went.release {after : RunningState V} {count : Nat} {other : Request V}
    (went : Went config (state.release request count) after [] [other]) :
    Went config state after [] [other] where
  decode := went.decode
  prefill := went.prefill
  preempted := went.preempted
  swappedOut := went.swappedOut
  transfers := went.transfers
  limits := by
    rw [went.limits]
    simp [RunningState.release]
  numSeqs := by
    refine went.numSeqs.trans ((subtractNumSeqs_le _ _ _).trans ?_)
    exact Int.le_of_eq (subtractNumBatchedTokens_numCurrSeqs _ _ _)
  numTokens := by
    refine went.numTokens.trans (Int.add_le_add_right ?_ _)
    rw [RunningState.release, subtractNumSeqs_numBatchedTokens]
    exact subtractNumBatchedTokens_le _ _ _
  quiet none := absurd none (List.cons_ne_nil _ _)

/-- Others give way from the end of the queue, until the first request has room or has given
way itself. -/
theorem makeRoom_outcome (plain : config.Plain) (count : Nat) (last : List (Request V))
    (desks : state.Desks groupOf config first before (request :: last.reverse) others stored) :
    (∃ left after victims, makeRoom config request count last state = .ok (true, left, after) ∧
      last = victims ++ left ∧ RunningState.Went config state after [] victims ∧
      after.Desks groupOf config first before (request :: left.reverse) others stored ∧
      canAppendSlots config after.blockManager request = .ok true) ∨
    (∃ after, makeRoom config request count last state = .ok (false, [], after) ∧
      RunningState.Went config state after [] (last ++ [request]) ∧
      after.Desks groupOf config first before [] others stored) ∨
    makeRoom config request count last state = .error .noSwapSpace ∧
      ∃ victim ∈ last ++ [request], preemptionMode config victim = .swap := by
  induction last generalizing state with
  | nil =>
      obtain ⟨answer, check⟩ := (desks .cpu fun _ => rfl).canAppendSlots_returns
      rw [makeRoom, check]
      cases answer with
      | true => exact .inl ⟨[], state, [], rfl, rfl, .refl state, desks, check⟩
      | false =>
          have alone : (state.release request count).Desks groupOf config first before
            ([] ++ [request]) others stored := desks
          rcases preempt_outcome plain alone with ⟨after, run, went, desks'⟩ | ⟨full, mode⟩
          · refine .inr (.inl ⟨after, ?_, went.release, desks'⟩)
            simp only [bind, Except.bind, run]
            rfl
          · refine .inr (.inr ⟨?_, request, by simp, mode⟩)
            simp only [bind, Except.bind, full]
            rfl
  | cons victim rest ih =>
      obtain ⟨answer, check⟩ := (desks .cpu fun _ => rfl).canAppendSlots_returns
      rw [makeRoom, check]
      cases answer with
      | true => exact .inl ⟨victim :: rest, state, [], rfl, rfl, .refl state, desks, check⟩
      | false =>
          have before' : (state.release request count).Desks groupOf config first before
              ((request :: rest.reverse) ++ [victim]) others stored := by
            rw [List.reverse_cons] at desks
            exact desks.release request count
          rcases preempt_outcome plain before' with ⟨middle, run, went, desks'⟩ | ⟨full, mode⟩
          · have step : makeRoom config request count rest middle = (do
                if ← (pure false : Except ScheduleError Bool) then
                  return (true, victim :: rest, state)
                else
                  let state ← preempt config (state.release request count) victim
                  makeRoom config request count rest state) := by
              simp only [pure, Except.pure, bind, Except.bind, run]
              rfl
            rcases ih desks' with
              ⟨left, after, victims, run', split, went', desks'', room⟩ |
              ⟨after, run', went', desks''⟩ | ⟨full, other, member, mode⟩
            · refine .inl ⟨left, after, victim :: victims, step.symm.trans run', ?_,
                went.release.trans went', desks'', room⟩
              rw [split, List.cons_append]
            · exact .inr (.inl ⟨after, step.symm.trans run', went.release.trans went', desks''⟩)
            · exact .inr (.inr ⟨step.symm.trans full, other, List.mem_cons_of_mem _ member, mode⟩)
          · refine .inr (.inr ⟨?_, victim, List.mem_cons_self, mode⟩)
            simp only [bind, Except.bind, full]
            rfl

theorem keepRunning_outcome
    (desks : state.Desks groupOf config first before (request :: queue) others stored)
    (check : canAppendSlots config state.blockManager request = .ok true) :
    ∃ after, keepRunning config request (request.getSeqs .running).length state = .ok after ∧
      RunningState.Went config state after [request] [] ∧
      after.Desks groupOf config first before queue others stored := by
  have front : ∀ direction, (state.swappedOut ≠ [] → direction = .cpu) →
      Desk groupOf config direction first before state.blockManager
        ((.running, request) :: (queue.map (Prod.mk .running) ++ (state.entries ++ others)))
        state.transfers stored := desks
  have desk := front .cpu fun _ => rfl
  have running := desk.running
  obtain ⟨cows, manager, run, _⟩ := desk.append check
  refine ⟨{ state with
    blockManager := manager
    blocksToCopy := state.blocksToCopy ++ cows
    budget := state.budget.addNumBatchedTokens request.requestId
      (request.getSeqs .running).length
    currLoras := useLora state.currLoras request.loraIntId
    decodeSeqGroups := state.decodeSeqGroups ++ [⟨request, 1⟩] }, ?_, ?_, ?_⟩
  · rw [keepRunning]
    simp only [bind, Except.bind, run, running.isPrefill_eq]
    rfl
  · refine ⟨rfl, rfl, (List.append_nil _).symm, (List.append_nil _).symm, fun _ => rfl, ?_, ?_, ?_,
      fun _ => ?_⟩
    · exact limits_addNumBatchedTokens _ _ _
    · exact Int.le_of_eq (addNumBatchedTokens_seqs _ _ _).1
    · exact addNumBatchedTokens_le _ _ _
    · exact ⟨(addNumBatchedTokens_seqs _ _ _).1, (addNumBatchedTokens_seqs _ _ _).2, rfl⟩
  · intro direction given
    obtain ⟨cows', manager', run', desk'⟩ := (front direction given).append check
    obtain ⟨equal, equal'⟩ := Prod.mk.inj (Except.ok.inj (run.symm.trans run'))
    rw [← equal, ← equal'] at desk'
    refine desk'.perm (Multiset.coe_eq_coe.mp ?_)
    simp only [RunningState.entries, List.map_append, List.map_cons, List.map_nil,
      ← Multiset.coe_add, ← Multiset.cons_coe, ← Multiset.singleton_add, Multiset.coe_nil,
      add_zero]
    ac_rfl

/-- The front of the queue stays and its end gives way. Nothing is left over, and nothing can
go wrong but that there is no room on the CPU for a request that has to go there. -/
theorem scheduleRunningLoop_outcome (plain : config.Plain) (rounds : Nat)
    (enough : queue.length ≤ rounds)
    (desks : state.Desks groupOf config first before queue others stored) :
    (∃ after kept victims, scheduleRunningLoop config rounds queue state = .ok ([], after) ∧
      queue = kept ++ victims.reverse ∧ RunningState.Went config state after kept victims ∧
      after.Desks groupOf config first before [] others stored) ∨
    scheduleRunningLoop config rounds queue state = .error .noSwapSpace ∧
      ∃ victim ∈ queue, preemptionMode config victim = .swap := by
  induction rounds generalizing queue state with
  | zero =>
      obtain rfl := List.length_eq_zero_iff.mp (Nat.le_zero.mp enough)
      exact .inl ⟨state, [], [], rfl, rfl, .refl state, desks⟩
  | succ rounds ih =>
      cases queue with
      | nil => exact .inl ⟨state, [], [], rfl, rfl, .refl state, desks⟩
      | cons request rest =>
          have tokens := (desks .cpu fun _ => rfl).running.getNumNewTokens_eq
          have last : state.Desks groupOf config first before (request :: rest.reverse.reverse)
              others stored := by
            rw [List.reverse_reverse]
            exact desks
          rw [scheduleRunningLoop]
          simp only [bind, Except.bind, tokens]
          rcases makeRoom_outcome plain (request.getSeqs .running).length rest.reverse last with
            ⟨left, middle, victims, run, split, went, desks', room⟩ |
            ⟨after, run, went, desks'⟩ | ⟨full, victim, member, mode⟩
          · obtain ⟨after, kept, went', desks''⟩ := keepRunning_outcome desks' room
            have shorter : left.reverse.length ≤ rounds := by
              have count := congrArg List.length split
              rw [List.length_reverse, List.length_append] at count
              rw [List.length_cons] at enough
              rw [List.length_reverse]
              omega
            have whole : rest = left.reverse ++ victims.reverse := by
              rw [← List.reverse_append, ← split, List.reverse_reverse]
            simp only [run, kept, if_true]
            rcases ih shorter desks'' with
              ⟨final, stay, more, run', queued, went'', desks'''⟩ | ⟨full, victim, member, mode⟩
            · have together := (went.trans went').trans went''
              rw [List.append_nil] at together
              refine .inl ⟨final, request :: stay, victims ++ more, run', ?_, together, desks'''⟩
              rw [whole, queued, List.reverse_append, List.cons_append, List.append_assoc]
            · refine .inr ⟨full, victim, List.mem_cons_of_mem _ ?_, mode⟩
              rw [whole]
              exact List.mem_append_left _ member
          · simp only [run]
            refine .inl ⟨after, [], rest.reverse ++ [request], ?_, ?_, went, desks'⟩
            · cases rounds <;> rfl
            · simp
          · simp only [full]
            refine .inr ⟨trivial, victim, ?_, mode⟩
            simpa [or_comm] using member

end Outcome

end ScalarLM.Scheduling
