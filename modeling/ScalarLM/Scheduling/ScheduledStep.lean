import ScalarLM.Scheduling.WaitingQueue

/-! Whole scheduling steps. -/

namespace ScalarLM.Scheduling

open Engine Cache BlockSpaceManagerV2

section Start

variable {V : Type} {config : SchedulerConfig}

theorem foldl_addNumSeqs (requests : List (Request V)) (budget : SchedulingBudget)
    (once : (requests.map Request.requestId).Nodup)
    (fresh : ∀ request ∈ requests, request.requestId ∉ budget.requestIdsNumCurrSeqs) :
    ∃ ids, requests.foldl
        (fun budget request => budget.addNumSeqs request.requestId request.getMaxNumRunningSeqs)
        budget =
      { budget with
        requestIdsNumCurrSeqs := ids
        numCurrSeqs := budget.numCurrSeqs + seqsOf requests } ∧
      ∀ id ∈ ids, id ∈ budget.requestIdsNumCurrSeqs ∨ id ∈ requests.map Request.requestId := by
  induction requests generalizing budget with
  | nil =>
      refine ⟨budget.requestIdsNumCurrSeqs, ?_, fun id member => .inl member⟩
      simp [seqsOf]
  | cons request rest ih =>
      rw [List.map_cons, List.nodup_cons] at once
      rw [List.foldl_cons, SchedulingBudget.addNumSeqs,
        if_neg (fresh request List.mem_cons_self)]
      have later : ∀ other ∈ rest,
          other.requestId ∉ request.requestId :: budget.requestIdsNumCurrSeqs := by
        intro other member listed
        rcases List.mem_cons.mp listed with equal | earlier
        · exact once.1 (equal ▸ List.mem_map_of_mem member)
        · exact fresh other (List.mem_cons_of_mem _ member) earlier
      obtain ⟨ids, same, among⟩ := ih { budget with
        requestIdsNumCurrSeqs := request.requestId :: budget.requestIdsNumCurrSeqs
        numCurrSeqs := budget.numCurrSeqs + request.getMaxNumRunningSeqs } once.2 later
      refine ⟨ids, ?_, fun id member => ?_⟩
      · rw [same, seqsOf, seqsOf, List.map_cons, List.sum_cons, Int.natCast_add, Int.add_assoc]
      · rcases among id member with listed | later
        · rcases List.mem_cons.mp listed with rfl | earlier
          · exact .inr List.mem_cons_self
          · exact .inl earlier
        · exact .inr (List.mem_cons_of_mem _ later)

theorem Scheduler.startLedger {scheduler : Scheduler V}
    (once : (scheduler.running.map Request.requestId).Nodup)
    (fits : Fits scheduler.config scheduler.running) :
    Ledger scheduler.config scheduler.startBudget scheduler.startLoras scheduler.running ∧
      Charged scheduler.startBudget ([] : List (ScheduledSequenceGroup V)) := by
  obtain ⟨ids, same, among⟩ := foldl_addNumSeqs scheduler.running
    (.init scheduler.config.maxNumBatchedTokens scheduler.config.maxNumSeqs) once
    (fun _ _ => List.not_mem_nil)
  rw [Scheduler.startBudget, same]
  refine ⟨⟨rfl, ?_, ?_, ?_, ?_, ?_⟩, rfl, fun id absent => absurd absent List.not_mem_nil⟩
  · exact Int.zero_add _
  · intro id member
    exact (among id member).resolve_left List.not_mem_nil
  · rw [SchedulingBudget.init, Int.zero_add]
    exact Int.ofNat_le.mpr fits.seqs
  · exact Int.natCast_nonneg _
  · intro maxLoras given
    refine ⟨lorasOf scheduler.running, ?_, fits.loras maxLoras given, fun _ member => member⟩
    rw [Scheduler.startLoras, given]
    rfl

theorem foldl_useLora {loras : List Nat} (kept : List (Request V))
    (listed : ∀ lora ∈ lorasOf kept, lora ∈ loras) :
    kept.foldl (fun loras request => useLora loras request.loraIntId) (some loras) =
      some loras := by
  induction kept with
  | nil => rfl
  | cons request rest ih =>
      have same : useLora (some loras) request.loraIntId = some loras := by
        rw [useLora, Option.map_some]
        split
        · rename_i positive
          rw [addLora, if_pos (listed _ (mem_lorasOf.mpr
            ⟨positive, request, List.mem_cons_self, rfl⟩))]
        · rfl
      rw [List.foldl_cons, same]
      refine ih fun lora member => listed lora ?_
      obtain ⟨positive, other, inside, equal⟩ := mem_lorasOf.mp member
      exact mem_lorasOf.mpr ⟨positive, other, List.mem_cons_of_mem _ inside, equal⟩

/-- When nobody gave way, those that were kept are still the members of the batch. -/
theorem Ledger.quiet {state after : RunningState V} {kept : List (Request V)}
    (ledger : Ledger config state.budget state.currLoras kept)
    (went : RunningState.Went config state after kept [])
    (few : after.budget.numBatchedTokens ≤ config.maxNumBatchedTokens) :
    Ledger config after.budget after.currLoras kept := by
  obtain ⟨seqs, ids, loras⟩ := went.quiet rfl
  refine ⟨went.limits.trans ledger.limits, seqs.trans ledger.seqs, ?_, ?_, few, ?_⟩
  · rw [ids]
    exact ledger.listed
  · rw [seqs]
    exact ledger.numSeqs
  · intro maxLoras given
    obtain ⟨list, some, least, listed⟩ := ledger.lodged maxLoras given
    rw [some, foldl_useLora kept listed] at loras
    exact ⟨list, loras, least, listed⟩

end Start

section Content

variable {V : Type}

/-- A sequence without what scheduling changes in it. -/
def Sequence.idle (seq : Sequence) : Sequence :=
  { seq with
    status := .waiting
    data := { seq.data with numComputedTokens := 0, stage := .prefill } }

/-- What a request is, wherever it stands: its prompt, and all that was generated for it. -/
def Request.content (request : Request V) : Request V :=
  request.withSeqs (request.seqs.map Sequence.idle)

theorem content_withSeqs (request : Request V) (change : Sequence → Sequence)
    (same : ∀ seq, Sequence.idle (change seq) = Sequence.idle seq) :
    (request.withSeqs (request.seqs.map change)).content = request.content := by
  have seqs : (request.withSeqs (request.seqs.map change)).seqs.map Sequence.idle =
      request.seqs.map Sequence.idle := by
    rw [Request.withSeqs, List.map_map]
    exact List.map_congr_left fun seq _ => same seq
  rw [Request.content, seqs]
  rfl

@[simp] theorem content_setStatus (request : Request V) (before after : SequenceStatus) :
    (request.setStatus before after).content = request.content := by
  refine content_withSeqs request _ fun seq => ?_
  split <;> rfl

@[simp] theorem content_reset (request : Request V) : request.reset.content = request.content := by
  refine content_withSeqs request _ fun seq => ?_
  split <;> rfl

@[simp] theorem content_ignore (request : Request V) :
    request.ignore.content = request.content :=
  content_withSeqs request _ fun _ => rfl

theorem map_content_setStatus (requests : List (Request V)) (before after : SequenceStatus) :
    (requests.map fun request => request.setStatus before after).map Request.content =
      requests.map Request.content := by
  rw [List.map_map]
  exact List.map_congr_left fun request _ => content_setStatus request before after

theorem map_content_ignore (requests : List (Request V)) :
    (requests.map Request.ignore).map Request.content = requests.map Request.content := by
  rw [List.map_map]
  exact List.map_congr_left fun request _ => content_ignore request

theorem victims_perm (config : SchedulerConfig) (victims : List (Request V)) :
    ((recomputed config victims ++ moved config victims).map Request.content).Perm
      (victims.map Request.content) := by
  have modes : (victims.filter fun victim => preemptionMode config victim = .swap) =
      victims.filter fun victim => ! decide (preemptionMode config victim = .recompute) := by
    refine List.filter_congr fun victim _ => ?_
    cases preemptionMode config victim <;> rfl
  have whole := (List.filter_append_perm
    (fun victim => decide (preemptionMode config victim = .recompute)) victims).map Request.content
  rw [recomputed, moved, modes, List.map_append, List.map_map, List.map_map]
  rw [List.map_append] at whole
  simpa only [Function.comp_def, content_reset, content_setStatus] using whole

theorem recomputed_of_none_moved {config : SchedulerConfig} {victims : List (Request V)}
    (none : moved config victims = []) : recomputed config victims = victims.map Request.reset := by
  rw [moved, List.map_eq_nil_iff, List.filter_eq_nil_iff] at none
  rw [recomputed, List.filter_eq_self.mpr]
  intro victim member
  have other := none victim member
  cases mode : preemptionMode config victim with
  | recompute => rfl
  | swap => exact absurd (decide_eq_true mode) other

theorem requestId_reset (requests : List (Request V)) :
    (requests.map Request.reset).map Request.requestId = requests.map Request.requestId := by
  rw [List.map_map]
  rfl

end Content

section Tokens

variable {V : Type}

/-- The tokens of a batch that are computed: each running sequence has a chunk of its own. -/
def batchTokens (groups : List (ScheduledSequenceGroup V)) : Nat :=
  (groups.map fun scheduled =>
    scheduled.tokenChunkSize * (scheduled.seqGroup.getSeqs .running).length).sum

theorem batchTokens_perm {groups more : List (ScheduledSequenceGroup V)}
    (same : groups.Perm more) : batchTokens groups = batchTokens more :=
  (same.map _).sum_eq

theorem tokensOf_le {kept : List (Request V)}
    (only : ∀ request ∈ kept, request.Only .running) : tokensOf kept ≤ seqsOf kept :=
  List.sum_le_sum fun request member => (only request member).length_le rfl

theorem batchTokens_decode (kept : List (Request V)) :
    batchTokens (kept.map fun request => ⟨request, 1⟩) = tokensOf kept := by
  simp only [batchTokens, tokensOf, List.map_map, Function.comp_def, Nat.one_mul]

theorem batchTokens_single {groups : List (ScheduledSequenceGroup V)}
    (single : ∀ scheduled ∈ groups, (scheduled.seqGroup.getSeqs .running).length = 1) :
    batchTokens groups = (groups.map ScheduledSequenceGroup.tokenChunkSize).sum := by
  rw [batchTokens]
  refine congrArg List.sum (List.map_congr_left fun scheduled member => ?_)
  rw [single scheduled member, Nat.mul_one]

end Tokens

section Step

variable {V ν : Type} {groupOf : Nat → Nat} {scheduler : Scheduler V}

def Scheduler.entries (scheduler : Scheduler V) : List (Place × Request V) :=
  scheduler.waiting.map (Prod.mk .waiting) ++ scheduler.running.map (Prod.mk .running) ++
    scheduler.swapped.map (Prod.mk .swapped)

/-- All requests are served, and those that run fit together. No slots are set aside for
lookahead, and computing again is not forced on requests that it cannot be done for. -/
structure Scheduler.Sound (groupOf : Nat → Nat) (scheduler : Scheduler V) : Prop where
  plain : scheduler.config.Plain
  served : Served groupOf scheduler.config scheduler.blockManager scheduler.entries
  fits : Fits scheduler.config scheduler.running

theorem Scheduler.Sound.apart (sound : scheduler.Sound groupOf) :
    (scheduler.running.map Request.requestId).Nodup ∧
      (∀ request ∈ scheduler.waiting,
        request.requestId ∉ scheduler.running.map Request.requestId) ∧
      ∀ request ∈ scheduler.swapped,
        request.requestId ∉ scheduler.running.map Request.requestId := by
  have apart := sound.served.apart
  simp only [Scheduler.entries, List.map_append, List.map_map] at apart
  obtain ⟨front, _, behind⟩ := List.nodup_append.mp apart
  obtain ⟨_, once, between⟩ := List.nodup_append.mp front
  refine ⟨once, fun request member listed => ?_, fun request member listed => ?_⟩
  · exact between _ (List.mem_map_of_mem member) _ listed rfl
  · exact behind _ (List.mem_append_right _ listed) _ (List.mem_map_of_mem member) rfl

theorem Scheduler.Sound.schedulePrefillsFirst (sound : scheduler.Sound groupOf)
    (passedDelay : Nat → Bool) (stored : Nat → List ν) :
    ∃ prefills passed left taken dropped skipped,
      scheduler.schedulePrefillsFirst passedDelay = .ok (skipped ++ left, prefills) ∧
      scheduler.waiting = passed ++ left ∧ Dealt passed taken dropped skipped ∧
      (scheduler.swapped ≠ [] → taken = []) ∧
      PrefillState.Went scheduler.startPrefillState prefills taken dropped skipped ∧
      Ledger scheduler.config prefills.budget prefills.currLoras
        (scheduler.running ++ taken.map fun request => request.setStatus .waiting .running) ∧
      Charged prefills.budget prefills.seqGroups ∧
      (scheduler.config.maxLoras = none → skipped = []) ∧
      prefills.Desk groupOf scheduler.config scheduler.blockManager stored left
        (scheduler.running.map (Prod.mk .running) ++ scheduler.swapped.map (Prod.mk .swapped))
        (cleared stored taken) := by
  obtain ⟨once, fresh, _⟩ := sound.apart
  obtain ⟨ledger, charged⟩ := Scheduler.startLedger once sound.fits
  have desk : scheduler.startPrefillState.Desk groupOf scheduler.config scheduler.blockManager
      stored scheduler.waiting
      (scheduler.running.map (Prod.mk .running) ++ scheduler.swapped.map (Prod.mk .swapped))
      stored := by
    refine (Desk.start sound.served .gpu stored).perm ?_
    rw [Scheduler.entries, List.append_assoc]
    exact List.Perm.refl _
  rw [Scheduler.schedulePrefillsFirst]
  by_cases none : scheduler.swapped = []
  · obtain ⟨left, after, passed, taken, dropped, skipped, run, split, dealt, went, ledger',
      charged', nobody, desk'⟩ := schedulePrefillsLoop_outcome passedDelay desk ledger fresh charged
    refine ⟨after, passed, left, taken, dropped, skipped, ?_, split, dealt,
      fun some => absurd none some, went, ledger', charged', nobody, desk'⟩
    rw [none, List.isEmpty_nil, if_pos rfl, schedulePrefills, run]
    have leftover : after.leftover.reverse = skipped := by
      rw [went.leftover]
      simp [Scheduler.startPrefillState]
    simp only [bind, Except.bind, leftover]
    rfl
  · refine ⟨scheduler.startPrefillState, [], scheduler.waiting, [], [], [], ?_, rfl, .nil,
      fun _ => rfl, ⟨rfl, rfl, rfl, fun _ => ⟨rfl, rfl, rfl⟩⟩, ?_, charged, fun _ => rfl, ?_⟩
    · rw [if_neg (by rw [List.isEmpty_iff]; exact none)]
      rfl
    · rw [List.map_nil, List.append_nil]
      exact ledger
    · rw [cleared_nil]
      exact desk

/-- What a step makes of the queues. Everybody is at their place, and the memory's operations
are allowed. Nothing is lost and nothing is there twice. Without adapters and swapping nobody
overtakes anybody. -/
structure Scheduler.Stepped (groupOf : Nat → Nat) (scheduler : Scheduler V)
    (stored : Nat → List ν) (outputs : SchedulerOutputs V) (after : Scheduler V) : Prop where
  config : after.config = scheduler.config
  desk : ∃ direction idle stored', after.running.Perm
      (idle ++ outputs.scheduledSeqGroups.map ScheduledSequenceGroup.seqGroup) ∧
    (∀ key, stored' key = stored key ∨ scheduler.blockManager.blockTables.get? key = none) ∧
    Desk groupOf scheduler.config direction scheduler.blockManager stored after.blockManager
      (outputs.scheduledSeqGroups.map (fun scheduled => (.scheduled, scheduled.seqGroup)) ++
        idle.map (Prod.mk .running) ++ after.waiting.map (Prod.mk .waiting) ++
          after.swapped.map (Prod.mk .swapped))
      ⟨outputs.blocksToSwapIn, outputs.blocksToSwapOut, outputs.blocksToCopy⟩ stored'
  fits : Fits scheduler.config after.running
  kept : ((after.waiting ++ after.running ++ after.swapped ++ outputs.ignoredSeqGroups).map
    Request.content).Perm ((scheduler.waiting ++ scheduler.running ++ scheduler.swapped).map
      Request.content)
  exclusive : outputs.blocksToSwapIn = [] ∨ outputs.blocksToSwapOut = []
  numTokens : outputs.numBatchedTokens ≤ scheduler.config.maxNumBatchedTokens
  computed : batchTokens outputs.scheduledSeqGroups ≤ scheduler.config.maxNumBatchedTokens
  ordered : scheduler.config.maxLoras = none → scheduler.swapped = [] → after.swapped = [] →
    ((after.running ++ after.waiting).map Request.requestId).Sublist
      ((scheduler.running ++ scheduler.waiting).map Request.requestId)

theorem sortByLoraIds_perm (groups : List (ScheduledSequenceGroup V)) :
    (SchedulerOutputs.sortByLoraIds groups).Perm groups := by
  rw [SchedulerOutputs.sortByLoraIds]
  split
  · exact List.mergeSort_perm _ _
  · exact .refl _

theorem make_eq (outputs : SchedulerOutputs V)
    (exclusive : outputs.blocksToSwapIn = [] ∨ outputs.blocksToSwapOut = []) :
    outputs.make = .ok { outputs with
      scheduledSeqGroups := SchedulerOutputs.sortByLoraIds outputs.scheduledSeqGroups } := by
  refine if_neg fun both => ?_
  rcases exclusive with none | none
  · exact both.1 none
  · exact both.2 none

theorem map_reverse_coe {α β : Type} (f : α → β) (list : List α) :
    (list.reverse.map f : Multiset β) = (list.map f : Multiset β) :=
  Multiset.coe_eq_coe.mpr ((List.reverse_perm list).map f)

theorem Scheduler.Sound.prefillBatch (sound : scheduler.Sound groupOf) {stored : Nat → List ν}
    {prefills : PrefillState V}
    {passed left taken dropped skipped : List (Request V)}
    (split : scheduler.waiting = passed ++ left) (dealt : Dealt passed taken dropped skipped)
    (went : PrefillState.Went scheduler.startPrefillState prefills taken dropped skipped)
    (ledger : Ledger scheduler.config prefills.budget prefills.currLoras
      (scheduler.running ++ taken.map fun request => request.setStatus .waiting .running))
    (charged : Charged prefills.budget prefills.seqGroups)
    (nobody : scheduler.config.maxLoras = none → skipped = [])
    (desk : prefills.Desk groupOf scheduler.config scheduler.blockManager stored left
      (scheduler.running.map (Prod.mk .running) ++ scheduler.swapped.map (Prod.mk .swapped))
      (cleared stored taken)) :
    ∃ outputs after, scheduler.prefillBatch (skipped ++ left) prefills = .ok (outputs, after) ∧
      scheduler.Stepped groupOf stored outputs after := by
  have groups : prefills.seqGroups.map ScheduledSequenceGroup.seqGroup =
      taken.map fun request => request.setStatus .waiting .running := by
    rw [went.started]
    simp [Scheduler.startPrefillState, Function.comp_def]
  have ignored : prefills.ignoredSeqGroups =
      dropped.map fun request => request.setStatus .waiting .finishedIgnored := by
    rw [went.ignored]
    rfl
  have leftover : prefills.leftover = skipped.reverse := by
    rw [went.leftover]
    exact List.append_nil _
  have sorted := sortByLoraIds_perm prefills.seqGroups
  have waits : ∀ request ∈ taken, Waits scheduler.blockManager request := by
    intro request member
    have waiting : request ∈ scheduler.waiting := by
      rw [split]
      exact List.mem_append_left _ (dealt.taken_sublist.subset member)
    exact sound.served.holds (.waiting, request) (List.mem_append_left _ (List.mem_append_left _
      (List.mem_map_of_mem waiting)))
  refine ⟨{
    scheduledSeqGroups := SchedulerOutputs.sortByLoraIds prefills.seqGroups
    numPrefillGroups := prefills.seqGroups.length
    numBatchedTokens := prefills.budget.numBatchedTokens
    blocksToSwapIn := []
    blocksToSwapOut := []
    blocksToCopy := []
    ignoredSeqGroups := prefills.ignoredSeqGroups
    numLookaheadSlots := 0
    runningQueueSize :=
      (scheduler.running ++ prefills.seqGroups.map ScheduledSequenceGroup.seqGroup).length
    preempted := 0 }, { scheduler with
      blockManager := prefills.blockManager
      waiting := skipped ++ left
      running := scheduler.running ++ prefills.seqGroups.map ScheduledSequenceGroup.seqGroup },
    ?_, ?_⟩
  · rw [Scheduler.prefillBatch, if_pos ⟨ledger.numTokens, ledger.numSeqs⟩]
    rfl
  refine ⟨rfl, ⟨.gpu, scheduler.running, cleared stored taken, ?_, ?_, ?_⟩, ?_, ?_, .inl rfl,
    ledger.numTokens, ?_, ?_⟩
  · exact ((sorted.map _).append_left _).symm
  · intro key
    rw [cleared]
    split
    · rename_i listed
      obtain ⟨request, member, inside⟩ := List.mem_flatMap.mp listed
      obtain ⟨seq, single, _, _, _, absent⟩ := (waits request member).single
      rw [single, List.map_singleton, List.mem_singleton] at inside
      exact .inr (inside ▸ absent)
    · exact .inl rfl
  · refine desk.perm (Multiset.coe_eq_coe.mp ?_)
    have same := Multiset.coe_eq_coe.mpr (sorted.map fun scheduled =>
      (Place.scheduled, scheduled.seqGroup))
    simp only [PrefillState.entries, leftover, List.map_append, ← Multiset.coe_add,
      map_reverse_coe, same]
    ac_rfl
  · have fits := ledger.fits
    rw [← groups] at fits
    exact fits
  · refine Multiset.coe_eq_coe.mp ?_
    have whole := Multiset.coe_eq_coe.mpr (dealt.perm.map Request.content)
    simp only [List.map_append, ← Multiset.coe_add] at whole
    simp only [groups, ignored, split, List.map_append, map_content_setStatus,
      ← Multiset.coe_add, whole]
    ac_rfl
  · have single : ∀ scheduled ∈ prefills.seqGroups,
        (scheduled.seqGroup.getSeqs .running).length = 1 := by
      intro scheduled listed
      have member : scheduled.seqGroup ∈ taken.map fun request =>
          request.setStatus .waiting .running := groups ▸ List.mem_map_of_mem listed
      obtain ⟨request, inside, same⟩ := List.mem_map.mp member
      obtain ⟨seq, waiting, _⟩ := (waits request inside).single
      rw [← same, getSeqs_setStatus (waits request inside).only rfl, waiting]
      rfl
    have most := ledger.numTokens
    rw [charged.tokens, ← batchTokens_single single] at most
    rw [batchTokens_perm sorted]
    exact Int.ofNat_le.mp most
  · intro none _ _
    have ids : (taken.map fun request => request.setStatus .waiting .running).map
        Request.requestId = taken.map Request.requestId := by
      rw [List.map_map]
      rfl
    simp only [groups, nobody none, split, List.nil_append, List.map_append, ids,
      List.append_assoc]
    exact ((dealt.taken_sublist.map _).append (List.Sublist.refl _)).append_left _

end Step

section Decode

variable {V ν : Type} {groupOf : Nat → Nat} {scheduler : Scheduler V}

def RunningState.back (state : RunningState V) : SwappedState V where
  budget := state.budget
  currLoras := state.currLoras
  blockManager := state.blockManager
  decodeSeqGroups := []
  prefillSeqGroups := []
  infeasibleSeqGroups := []
  leftover := []
  blocksToSwapIn := []
  blocksToCopy := []

def Scheduler.decoded (scheduler : Scheduler V) (waiting swapped : List (Request V))
    (state : RunningState V) (back : SwappedState V) : Scheduler V :=
  { scheduler with
    blockManager := back.blockManager
    waiting := state.preempted.reverse ++ waiting
    running := (state.decodeSeqGroups ++ back.decodeSeqGroups).map
      ScheduledSequenceGroup.seqGroup
    swapped := swapped ++ state.swappedOut }

/-- A step of the running requests, when the swapped ones were looked at or passed over. -/
theorem Scheduler.decodeBatch_eq (waiting : List (Request V)) {swapped : List (Request V)}
    {prefills : PrefillState V} {state : RunningState V} {back : SwappedState V}
    (run : scheduleRunning scheduler.config scheduler.running
      { budget := prefills.budget
        currLoras := prefills.currLoras
        blockManager := prefills.blockManager
        decodeSeqGroups := []
        prefillSeqGroups := []
        preempted := []
        swappedOut := []
        blocksToSwapOut := []
        blocksToCopy := [] } = .ok ([], state))
    (next : (if state.preempted.isEmpty && state.swappedOut.isEmpty then
        scheduleSwapped scheduler.config scheduler.swapped state.back
      else pure (scheduler.swapped, state.back)) = .ok (swapped, back))
    (numTokens : back.budget.numBatchedTokens ≤ scheduler.config.maxNumBatchedTokens)
    (numSeqs : back.budget.numCurrSeqs ≤ scheduler.config.maxNumSeqs)
    (prefill : state.prefillSeqGroups = [] ∧ back.prefillSeqGroups = [])
    (exclusive : back.blocksToSwapIn = [] ∨ state.blocksToSwapOut = []) :
    ∃ outputs, scheduler.decodeBatch waiting prefills =
        .ok (outputs, scheduler.decoded waiting swapped state back) ∧
      outputs.scheduledSeqGroups.Perm (state.decodeSeqGroups ++ back.decodeSeqGroups) ∧
      outputs.numBatchedTokens = back.budget.numBatchedTokens ∧
      outputs.ignoredSeqGroups = prefills.ignoredSeqGroups ++ back.infeasibleSeqGroups ∧
      outputs.blocksToSwapIn = back.blocksToSwapIn ∧
      outputs.blocksToSwapOut = state.blocksToSwapOut ∧
      outputs.blocksToCopy = state.blocksToCopy ++ back.blocksToCopy := by
  have within : back.budget.numBatchedTokens ≤ scheduler.config.maxNumBatchedTokens ∧
      back.budget.numCurrSeqs ≤ scheduler.config.maxNumSeqs ∧
      state.prefillSeqGroups.length = 0 ∧ back.prefillSeqGroups.length = 0 := by
    rw [prefill.1, prefill.2]
    exact ⟨numTokens, numSeqs, rfl, rfl⟩
  have made := make_eq
    { scheduledSeqGroups := state.decodeSeqGroups ++ back.decodeSeqGroups
      numPrefillGroups := 0
      numBatchedTokens := back.budget.numBatchedTokens
      blocksToSwapIn := back.blocksToSwapIn
      blocksToSwapOut := state.blocksToSwapOut
      blocksToCopy := state.blocksToCopy ++ back.blocksToCopy
      ignoredSeqGroups := prefills.ignoredSeqGroups ++ back.infeasibleSeqGroups
      numLookaheadSlots := getNumLookaheadSlots scheduler.config false
      runningQueueSize := ((state.decodeSeqGroups ++ back.decodeSeqGroups).map
        ScheduledSequenceGroup.seqGroup).length
      preempted := state.preempted.length + state.swappedOut.length } exclusive
  rw [Scheduler.decodeBatch]
  simp only [run, bind, Except.bind, pure, Except.pure]
  by_cases quiet : (state.preempted.isEmpty && state.swappedOut.isEmpty) = true
  · rw [if_pos quiet] at next
    have looked : scheduleSwapped scheduler.config scheduler.swapped
        { budget := state.budget
          currLoras := state.currLoras
          blockManager := state.blockManager
          decodeSeqGroups := []
          prefillSeqGroups := []
          infeasibleSeqGroups := []
          leftover := []
          blocksToSwapIn := []
          blocksToCopy := [] } = .ok (swapped, back) := next
    simp only [if_pos quiet, looked, if_pos within, List.nil_append, made]
    exact ⟨_, rfl, sortByLoraIds_perm _, rfl, rfl, rfl, rfl, rfl⟩
  · rw [if_neg quiet] at next
    obtain ⟨rfl, rfl⟩ := Prod.mk.inj (Except.ok.inj next)
    simp only [RunningState.back] at within made
    simp only [if_neg quiet, if_pos within, List.nil_append, made]
    exact ⟨_, rfl, sortByLoraIds_perm _, rfl, rfl, rfl, rfl, rfl⟩

theorem Scheduler.stepped_decode {stored : Nat → List ν} {direction : Device}
    {waiting swapped passed left dropped skipped kept victims taken dropped' : List (Request V)}
    {state start : RunningState V} {back : SwappedState V} {outputs : SchedulerOutputs V}
    (split : scheduler.waiting = passed ++ left)
    (dealt : Dealt passed [] dropped skipped) (given : waiting = skipped ++ left)
    (nobody : scheduler.config.maxLoras = none → skipped = [])
    (queue : scheduler.running = kept ++ victims.reverse)
    (empty : start.decodeSeqGroups = [] ∧ start.preempted = [] ∧ start.swappedOut = [])
    (went : RunningState.Went scheduler.config start state kept victims)
    (came : back.decodeSeqGroups =
      taken.map fun request => ⟨request.setStatus .swapped .running, 1⟩)
    (others : ((taken ++ dropped' ++ swapped).map Request.content).Perm
      (scheduler.swapped.map Request.content))
    (fits : Fits scheduler.config
      (kept ++ taken.map fun request => request.setStatus .swapped .running))
    (numTokens : back.budget.numBatchedTokens ≤ scheduler.config.maxNumBatchedTokens)
    (exclusive : back.blocksToSwapIn = [] ∨ state.blocksToSwapOut = [])
    (scheduled : outputs.scheduledSeqGroups.Perm (state.decodeSeqGroups ++ back.decodeSeqGroups))
    (tokens : outputs.numBatchedTokens = back.budget.numBatchedTokens)
    (ignored : outputs.ignoredSeqGroups = (dropped.map fun request =>
      request.setStatus .waiting .finishedIgnored) ++ dropped'.map Request.ignore)
    (swapIn : outputs.blocksToSwapIn = back.blocksToSwapIn)
    (swapOut : outputs.blocksToSwapOut = state.blocksToSwapOut)
    (copied : outputs.blocksToCopy = state.blocksToCopy ++ back.blocksToCopy)
    (desk : Desk groupOf scheduler.config direction scheduler.blockManager stored
      back.blockManager
      ((state.decodeSeqGroups ++ back.decodeSeqGroups).map
          (fun scheduled => (.scheduled, scheduled.seqGroup)) ++
        (state.preempted.reverse ++ waiting).map (Prod.mk .waiting) ++
          (swapped ++ state.swappedOut).map (Prod.mk .swapped))
      ⟨back.blocksToSwapIn, state.blocksToSwapOut, state.blocksToCopy ++ back.blocksToCopy⟩
      stored) :
    scheduler.Stepped groupOf stored outputs (scheduler.decoded waiting swapped state back) := by
  have groups : state.decodeSeqGroups ++ back.decodeSeqGroups =
      (kept ++ taken.map fun request => request.setStatus .swapped .running).map
        fun request => ⟨request, 1⟩ := by
    rw [went.decode, empty.1, came, List.nil_append, List.map_append, List.map_map]
    rfl
  have preempted : state.preempted = recomputed scheduler.config victims := by
    rw [went.preempted, empty.2.1, List.nil_append]
  have out : state.swappedOut = moved scheduler.config victims := by
    rw [went.swappedOut, empty.2.2, List.nil_append]
  have running : (scheduler.decoded waiting swapped state back).running =
      kept ++ taken.map fun request => request.setStatus .swapped .running := by
    rw [Scheduler.decoded, groups, List.map_map]
    exact List.map_id _
  refine ⟨rfl, ⟨direction, [], stored, ?_, fun _ => .inl rfl, ?_⟩, ?_, ?_, ?_, ?_, ?_, ?_⟩
  · exact (scheduled.map _).symm
  · rw [swapIn, swapOut, copied]
    refine desk.perm (Multiset.coe_eq_coe.mp ?_)
    have same := Multiset.coe_eq_coe.mpr (scheduled.map fun scheduled =>
      (Place.scheduled, scheduled.seqGroup))
    simp only [Scheduler.decoded, List.map_append, List.map_nil, ← Multiset.coe_add,
      Multiset.coe_nil, add_zero] at same ⊢
    rw [same]
  · rw [running]
    exact fits
  · refine Multiset.coe_eq_coe.mp ?_
    have whole := Multiset.coe_eq_coe.mpr (dealt.perm.map Request.content)
    have gave := Multiset.coe_eq_coe.mpr (victims_perm scheduler.config victims)
    have back' := Multiset.coe_eq_coe.mpr others
    rw [running]
    simp only [List.map_append, ← Multiset.coe_add, List.map_nil, Multiset.coe_nil,
      zero_add] at whole gave back'
    simp only [Scheduler.decoded, given, split, queue, ignored, preempted, out, List.map_append,
      map_reverse_coe, map_content_setStatus, map_content_ignore, ← Multiset.coe_add, whole,
      ← gave, ← back']
    ac_rfl
  · rw [swapIn, swapOut]
    exact exclusive
  · rw [tokens]
    exact numTokens
  · have only : ∀ request ∈ kept ++ taken.map fun request => request.setStatus .swapped .running,
        request.Only .running := by
      intro request member
      have batched : Batched back.blockManager request := by
        refine desk.served.holds (.scheduled, request) (List.mem_append_left _
          (List.mem_append_left _ ?_))
        rw [groups, List.map_map]
        exact List.mem_map_of_mem member
      exact batched.only
    rw [batchTokens_perm scheduled, groups, batchTokens_decode]
    exact (tokensOf_le only).trans (fits.seqs.trans scheduler.config.numSeqs_le)
  · intro none nothing stays
    have gone : moved scheduler.config victims = [] := by
      rw [← out]
      exact (List.append_eq_nil_iff.mp stays).2
    have nobody' : taken = [] := by
      rw [nothing, List.map_nil, List.perm_nil, List.map_eq_nil_iff] at others
      exact (List.append_eq_nil_iff.mp (List.append_eq_nil_iff.mp others).1).1
    rw [running, nobody', List.map_nil, List.append_nil, queue, split, Scheduler.decoded]
    simp only [preempted, recomputed_of_none_moved gone, given, nobody none, List.nil_append,
      List.map_append, ← List.map_reverse, requestId_reset, List.append_assoc]
    exact ((List.sublist_append_right _ _).append_left _).append_left _

def PrefillState.begin (prefills : PrefillState V) : RunningState V where
  budget := prefills.budget
  currLoras := prefills.currLoras
  blockManager := prefills.blockManager
  decodeSeqGroups := []
  prefillSeqGroups := []
  preempted := []
  swappedOut := []
  blocksToSwapOut := []
  blocksToCopy := []

structure Scheduler.Unstarted (groupOf : Nat → Nat) (scheduler : Scheduler V)
    (stored : Nat → List ν) (prefills : PrefillState V)
    (passed left dropped skipped : List (Request V)) : Prop where
  split : scheduler.waiting = passed ++ left
  dealt : Dealt passed [] dropped skipped
  went : PrefillState.Went scheduler.startPrefillState prefills [] dropped skipped
  ledger : Ledger scheduler.config prefills.budget prefills.currLoras scheduler.running
  charged : Charged prefills.budget prefills.seqGroups
  nobody : scheduler.config.maxLoras = none → skipped = []
  desk : prefills.Desk groupOf scheduler.config scheduler.blockManager stored left
    (scheduler.running.map (Prod.mk .running) ++ scheduler.swapped.map (Prod.mk .swapped)) stored

structure Scheduler.Ran (groupOf : Nat → Nat) (scheduler : Scheduler V) (stored : Nat → List ν)
    (prefills : PrefillState V) (waiting : List (Request V)) (state : RunningState V)
    (kept victims : List (Request V)) : Prop where
  run : scheduleRunning scheduler.config scheduler.running prefills.begin = .ok ([], state)
  queue : scheduler.running = kept ++ victims.reverse
  went : RunningState.Went scheduler.config prefills.begin state kept victims
  desks : state.Desks groupOf scheduler.config scheduler.blockManager stored []
    (waiting.map (Prod.mk .waiting) ++ scheduler.swapped.map (Prod.mk .swapped)) stored

section Outcomes

variable {stored : Nat → List ν} {prefills : PrefillState V}
  {passed left dropped skipped : List (Request V)} {state : RunningState V}
  {kept victims : List (Request V)}

theorem Scheduler.Unstarted.ignored
    (unstarted : scheduler.Unstarted groupOf stored prefills passed left dropped skipped) :
    prefills.ignoredSeqGroups =
      dropped.map fun request => request.setStatus .waiting .finishedIgnored := by
  rw [unstarted.went.ignored]
  rfl

theorem Scheduler.Unstarted.desks
    (unstarted : scheduler.Unstarted groupOf stored prefills passed left dropped skipped) :
    prefills.begin.Desks groupOf scheduler.config scheduler.blockManager stored
      scheduler.running ((skipped ++ left).map (Prod.mk .waiting) ++
        scheduler.swapped.map (Prod.mk .swapped)) stored := by
  have groups : prefills.seqGroups = [] := unstarted.went.started
  have leftover : prefills.leftover = skipped.reverse := by
    rw [unstarted.went.leftover]
    exact List.append_nil _
  have served : Served groupOf scheduler.config prefills.blockManager
      (scheduler.running.map (Prod.mk .running) ++ (prefills.begin.entries ++
        ((skipped ++ left).map (Prod.mk .waiting) ++
          scheduler.swapped.map (Prod.mk .swapped)))) := by
    refine unstarted.desk.served.perm (Multiset.coe_eq_coe.mp ?_)
    simp only [PrefillState.entries, PrefillState.begin, RunningState.entries, groups, leftover,
      List.map_append, List.map_nil, List.nil_append, ← Multiset.coe_add, map_reverse_coe]
    ac_rfl
  intro direction _
  have same : prefills.blockManager = scheduler.blockManager := (unstarted.went.quiet rfl).1
  have start := Desk.start served direction stored
  change Desk groupOf scheduler.config direction scheduler.blockManager stored
    prefills.blockManager _ _ _
  rw [same] at start ⊢
  exact start

theorem Scheduler.Ran.sublist
    (ran : scheduler.Ran groupOf stored prefills (skipped ++ left) state kept victims) :
    kept.Sublist scheduler.running := by
  rw [ran.queue]
  exact List.sublist_append_left _ _

theorem Scheduler.Ran.few (sound : scheduler.Sound groupOf)
    (unstarted : scheduler.Unstarted groupOf stored prefills passed left dropped skipped)
    (ran : scheduler.Ran groupOf stored prefills (skipped ++ left) state kept victims) :
    state.budget.numBatchedTokens ≤ scheduler.config.maxNumBatchedTokens ∧
      state.budget.numCurrSeqs ≤ scheduler.config.maxNumSeqs := by
  have only : ∀ request ∈ kept, request.Only .running := by
    intro request member
    have holds : Decodes scheduler.blockManager .gpu .running request :=
      sound.served.holds (.running, request) (List.mem_append_left _ (List.mem_append_right _
        (List.mem_map_of_mem (ran.sublist.subset member))))
    exact holds.only
  have begun : prefills.begin.budget.numBatchedTokens = 0 := by
    have groups : prefills.seqGroups = [] := unstarted.went.started
    have counted := unstarted.charged.tokens
    rw [groups] at counted
    exact counted
  have seqs := (tokensOf_le only).trans ((sound.fits.sublist ran.sublist).seqs.trans
    scheduler.config.numSeqs_le)
  have most := ran.went.numTokens
  rw [begun] at most
  exact ⟨by omega, ran.went.numSeqs.trans unstarted.ledger.numSeqs⟩

/-- When all running requests go on, the swapped ones are looked at. -/
theorem Scheduler.Sound.decodeBatch_quiet (sound : scheduler.Sound groupOf)
    (unstarted : scheduler.Unstarted groupOf stored prefills passed left dropped skipped)
    (ran : scheduler.Ran groupOf stored prefills (skipped ++ left) state kept []) :
    ∃ outputs after, scheduler.decodeBatch (skipped ++ left) prefills = .ok (outputs, after) ∧
      scheduler.Stepped groupOf stored outputs after := by
  have all : scheduler.running = kept := ran.queue.trans (List.append_nil kept)
  have preempted : state.preempted = [] := ran.went.preempted
  have out : state.swappedOut = [] := ran.went.swappedOut
  have swaps : state.blocksToSwapOut = [] := ran.went.transfers rfl
  have counted : Ledger scheduler.config prefills.begin.budget prefills.begin.currLoras kept :=
    all ▸ unstarted.ledger
  have same : state.transfers = state.back.transfers state.blocksToCopy := by
    simp [RunningState.transfers, SwappedState.transfers, RunningState.back, swaps]
  have desk : state.back.Desk groupOf scheduler.config scheduler.blockManager stored
      state.blocksToCopy scheduler.swapped
      (state.decodeSeqGroups.map (fun scheduled => (.scheduled, scheduled.seqGroup)) ++
        (skipped ++ left).map (Prod.mk .waiting)) stored := by
    have start := ran.desks .gpu fun some => absurd out some
    rw [same] at start
    refine start.perm (Multiset.coe_eq_coe.mp ?_)
    simp only [RunningState.entries, SwappedState.entries, RunningState.back, preempted, out,
      List.map_nil, List.nil_append, List.append_nil, ← Multiset.coe_add]
    ac_rfl
  obtain ⟨_, _, fresh⟩ := sound.apart
  rw [all] at fresh
  obtain ⟨left', back, passed', taken, dropped', skipped', run, split, dealt, went, ledger, _,
    desk'⟩ := scheduleSwappedLoop_outcome desk
      (Ledger.quiet counted ran.went (ran.few sound unstarted).1) fresh
  have leftover : back.leftover = skipped'.reverse := by
    rw [went.leftover]
    exact List.append_nil _
  have looked : scheduleSwapped scheduler.config scheduler.swapped state.back =
      .ok (skipped' ++ left', back) := by
    rw [scheduleSwapped, run]
    simp only [bind, Except.bind, leftover, List.reverse_reverse]
    rfl
  obtain ⟨outputs, made, scheduled, tokens, ignored, swapIn, swapOut, copied⟩ :=
    Scheduler.decodeBatch_eq (skipped ++ left) ran.run
      (by rw [preempted, out]; exact looked) ledger.numTokens ledger.numSeqs
      ⟨ran.went.prefill, went.prefill⟩ (.inr swaps)
  have others : ((taken ++ dropped' ++ (skipped' ++ left')).map Request.content).Perm
      (scheduler.swapped.map Request.content) := by
    rw [split, ← List.append_assoc]
    exact ((dealt.perm.append_right left').map _).symm
  rw [unstarted.ignored, went.infeasible] at ignored
  have places : Desk groupOf scheduler.config .gpu scheduler.blockManager stored
      back.blockManager
      ((state.decodeSeqGroups ++ back.decodeSeqGroups).map
          (fun scheduled => (.scheduled, scheduled.seqGroup)) ++
        (state.preempted.reverse ++ (skipped ++ left)).map (Prod.mk .waiting) ++
          ((skipped' ++ left') ++ state.swappedOut).map (Prod.mk .swapped))
      ⟨back.blocksToSwapIn, state.blocksToSwapOut, state.blocksToCopy ++ back.blocksToCopy⟩
      stored := by
    have start : Desk groupOf scheduler.config .gpu scheduler.blockManager stored
        back.blockManager _ (back.transfers state.blocksToCopy) stored := desk'
    rw [swaps]
    refine start.perm (Multiset.coe_eq_coe.mp ?_)
    simp only [SwappedState.entries, leftover, preempted, out, List.map_append,
      List.reverse_nil, List.append_nil, List.nil_append, ← Multiset.coe_add, map_reverse_coe]
    ac_rfl
  exact ⟨outputs, _, made, Scheduler.stepped_decode unstarted.split unstarted.dealt rfl
    unstarted.nobody ran.queue ⟨rfl, rfl, rfl⟩ ran.went went.decode others ledger.fits
    ledger.numTokens (.inr swaps) scheduled tokens ignored swapIn swapOut copied places⟩

/-- When some running requests had to give way, the swapped ones are passed over. -/
theorem Scheduler.Sound.decodeBatch_loud (sound : scheduler.Sound groupOf)
    (unstarted : scheduler.Unstarted groupOf stored prefills passed left dropped skipped)
    (ran : scheduler.Ran groupOf stored prefills (skipped ++ left) state kept victims)
    (gave : victims ≠ []) :
    ∃ outputs after, scheduler.decodeBatch (skipped ++ left) prefills = .ok (outputs, after) ∧
      scheduler.Stepped groupOf stored outputs after := by
  have loud : ¬ (state.preempted.isEmpty && state.swappedOut.isEmpty) = true := by
    intro both
    rw [Bool.and_eq_true, List.isEmpty_iff, List.isEmpty_iff] at both
    have whole := (victims_perm scheduler.config victims).length_eq
    have preempted : recomputed scheduler.config victims = [] := by
      rw [← both.1, ran.went.preempted]
      rfl
    have out : moved scheduler.config victims = [] := by
      rw [← both.2, ran.went.swappedOut]
      rfl
    rw [preempted, out, List.length_map, List.length_map] at whole
    exact gave (List.eq_nil_of_length_eq_zero whole.symm)
  obtain ⟨few, fewSeqs⟩ := ran.few sound unstarted
  obtain ⟨outputs, made, scheduled, tokens, ignored, swapIn, swapOut, copied⟩ :=
    Scheduler.decodeBatch_eq (skipped ++ left) ran.run (if_neg loud) few fewSeqs
      ⟨ran.went.prefill, rfl⟩ (.inl rfl)
  have dropped' : outputs.ignoredSeqGroups = (dropped.map fun request =>
      request.setStatus .waiting .finishedIgnored) ++
        ([] : List (Request V)).map Request.ignore := by
    rw [ignored, unstarted.ignored]
    rfl
  have others : ((([] : List (Request V)) ++ [] ++ scheduler.swapped).map
      Request.content).Perm (scheduler.swapped.map Request.content) := .refl _
  have places : Desk groupOf scheduler.config .cpu scheduler.blockManager stored
      state.back.blockManager
      ((state.decodeSeqGroups ++ state.back.decodeSeqGroups).map
          (fun scheduled => (.scheduled, scheduled.seqGroup)) ++
        (state.preempted.reverse ++ (skipped ++ left)).map (Prod.mk .waiting) ++
          (scheduler.swapped ++ state.swappedOut).map (Prod.mk .swapped))
      ⟨[], state.blocksToSwapOut, state.blocksToCopy ++ []⟩ stored := by
    have all := ran.desks .cpu fun _ => rfl
    rw [List.append_nil]
    refine all.perm (Multiset.coe_eq_coe.mp ?_)
    simp only [RunningState.entries, RunningState.back, List.map_append, List.map_nil,
      List.append_nil, List.nil_append, ← Multiset.coe_add, map_reverse_coe]
    ac_rfl
  have fits : Fits scheduler.config (kept ++ ([] : List (Request V)).map fun request =>
      request.setStatus .swapped .running) := by
    rw [List.map_nil, List.append_nil]
    exact sound.fits.sublist ran.sublist
  exact ⟨outputs, _, made, Scheduler.stepped_decode unstarted.split unstarted.dealt rfl
    unstarted.nobody ran.queue ⟨rfl, rfl, rfl⟩ ran.went rfl others fits few (.inl rfl) scheduled
    tokens dropped' swapIn swapOut copied places⟩

/-- A step of the running requests. It can fail only when a request has to be moved to the CPU
and there is no room for it. -/
theorem Scheduler.Sound.decodeBatch (sound : scheduler.Sound groupOf)
    (unstarted : scheduler.Unstarted groupOf stored prefills passed left dropped skipped) :
    (∃ outputs after, scheduler.decodeBatch (skipped ++ left) prefills = .ok (outputs, after) ∧
      scheduler.Stepped groupOf stored outputs after) ∨
    scheduler.decodeBatch (skipped ++ left) prefills = .error .noSwapSpace ∧
      ∃ victim ∈ scheduler.running, preemptionMode scheduler.config victim = .swap := by
  rcases scheduleRunningLoop_outcome sound.plain scheduler.running.length (Nat.le_refl _)
    unstarted.desks with ⟨state, kept, victims, run, queue, went, desks⟩ | ⟨full, victim⟩
  · refine .inl ?_
    have ran : scheduler.Ran groupOf stored prefills (skipped ++ left) state kept victims :=
      ⟨run, queue, went, desks⟩
    by_cases quiet : victims = []
    · exact sound.decodeBatch_quiet unstarted (quiet ▸ ran)
    · exact sound.decodeBatch_loud unstarted ran quiet
  · refine .inr ⟨?_, victim⟩
    have stopped : scheduleRunning scheduler.config scheduler.running
      { budget := prefills.budget
        currLoras := prefills.currLoras
        blockManager := prefills.blockManager
        decodeSeqGroups := []
        prefillSeqGroups := []
        preempted := []
        swappedOut := []
        blocksToSwapOut := []
        blocksToCopy := [] } = .error .noSwapSpace := full
    rw [Scheduler.decodeBatch]
    simp only [stopped, bind, Except.bind]

end Outcomes

/-- Whatever the queues hold, a step goes through, unless a request has to be moved to the CPU
and there is no room for it. -/
theorem Scheduler.Sound.scheduleDefault (sound : scheduler.Sound groupOf)
    (passedDelay : Nat → Bool) (stored : Nat → List ν) :
    (∃ outputs after, scheduler.scheduleDefault passedDelay = .ok (outputs, after) ∧
      scheduler.Stepped groupOf stored outputs after) ∨
    scheduler.scheduleDefault passedDelay = .error .noSwapSpace ∧
      ∃ victim ∈ scheduler.running, preemptionMode scheduler.config victim = .swap := by
  obtain ⟨prefills, passed, left, taken, dropped, skipped, run, split, dealt, _, went, ledger,
    charged, nobody, desk⟩ := sound.schedulePrefillsFirst passedDelay stored
  have groups : prefills.seqGroups =
      taken.map fun request => ⟨request.setStatus .waiting .running, newTokens request⟩ :=
    went.started
  rw [Scheduler.scheduleDefault]
  simp only [run, bind, Except.bind]
  cases taken with
  | nil =>
      rw [List.map_nil] at groups
      rw [List.map_nil, List.append_nil] at ledger
      rw [cleared_nil] at desk
      rw [groups, List.isEmpty_nil, if_pos rfl]
      exact sound.decodeBatch ⟨split, dealt, went, ledger, charged, nobody, desk⟩
  | cons request rest =>
      rw [if_neg (by rw [groups]; exact Bool.false_ne_true)]
      exact .inl (sound.prefillBatch split dealt went ledger charged nobody desk)

end Decode

end ScalarLM.Scheduling
