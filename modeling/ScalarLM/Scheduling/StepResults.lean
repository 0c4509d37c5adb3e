import Mathlib.Data.List.Flatten
import ScalarLM.Scheduling.ScheduledStep

/-! What holds of every scheduling step, whatever is in the queues. -/

namespace ScalarLM.Scheduling

open Engine Cache Paging BlockSpaceManagerV2

section Example

def servedRequest : Request Unit where
  seqs := [{ promptSequence 7 [1, 2, 3] .running with data := ⟨[1, 2, 3], [4], 3, .decode⟩ }]
  samplingParams := none
  longLoraMaxLen := none
  embeddings := none
  requestId := 7
  loraIntId := 0

def newRequest : Request Unit where
  seqs := [promptSequence 9 [5, 6] .waiting]
  samplingParams := none
  longLoraMaxLen := none
  embeddings := none
  requestId := 9
  loraIntId := 0

def twoRequests : Scheduler Unit where
  config := ⟨8, 2, 8, 0, none, none, by decide, by decide⟩
  blockManager := promptAllocated
  waiting := [newRequest]
  running := [servedRequest]
  swapped := []
  finishedRequestsIds := []

theorem reached_promptAllocated : Reached Unit 2 4 3 0 0 promptAllocated
    fun key => if key ∈ [7] then [1, 2, 3] else [] :=
  .allocate (promptGroup [promptSequence 7 [1, 2, 3] .waiting])
    (promptSequence 7 [1, 2, 3] .waiting) [] .start rfl (by decide) (by decide) rfl

theorem sound_twoRequests : twoRequests.Sound id := by
  have given := reached_promptAllocated.consistent (by decide)
  have waits : Place.waiting.Holds promptAllocated newRequest := by
    refine ⟨?_, promptSequence 9 [5, 6] .waiting, rfl, by decide, rfl, rfl, rfl⟩
    intro seq member
    rw [List.mem_singleton.mp member]
    exact .inl rfl
  have decodes : Place.running.Holds promptAllocated servedRequest := by
    refine ⟨?_, by decide, ?_, ?_, ?_⟩
    · intro seq member
      rw [List.mem_singleton.mp member]
      exact .inl rfl
    · intro seq member
      rw [List.mem_singleton.mp member]
    · intro seq member
      rw [List.mem_singleton.mp member]
      decide
    · intro seq member
      rw [List.mem_singleton.mp member]
      exact given.started_of_grown ⟨rfl, located_promptAllocated, ⟨[4], rfl⟩⟩
  refine ⟨⟨rfl, by decide⟩, ⟨given.accounted, given.tight, by decide, by decide, ?_, ?_, ?_⟩,
    by decide, ?_⟩
  · intro entry member
    rcases List.mem_cons.mp member with rfl | other
    · decide
    · rw [List.mem_singleton.mp other]
      decide
  · intro entry member maxLen limit
    rcases List.mem_cons.mp member with rfl | other
    · cases limit
    · rw [List.mem_singleton.mp other] at limit
      cases limit
  · intro entry member
    rcases List.mem_cons.mp member with rfl | other
    · exact waits
    · rw [List.mem_singleton.mp other]
      exact decodes
  · intro maxLoras limit
    cases limit

/-- Two sequences of one request have the blocks of their prompt together, and each has a token
drawn for it. -/
def sharingRequest : Request Unit where
  seqs := [{ promptSequence 7 [1, 2, 3] .running with data := ⟨[1, 2, 3], [4], 3, .decode⟩ },
    { promptSequence 8 [1, 2, 3] .running with data := ⟨[1, 2, 3], [5], 3, .decode⟩ }]
  samplingParams := none
  longLoraMaxLen := none
  embeddings := none
  requestId := 0
  loraIntId := 0

def sharing : Scheduler Unit where
  config := ⟨8, 2, 8, 0, none, none, by decide, by decide⟩
  blockManager := promptForked
  waiting := []
  running := [sharingRequest]
  swapped := []
  finishedRequestsIds := []

def sharingStep : SchedulerOutputs Unit × Scheduler Unit :=
  match sharing.scheduleDefault fun _ => true with
  | .ok result => result
  | .error _ => (⟨[], 0, 0, [], [], [], [], 0, 0, 0⟩, sharing)

theorem sound_sharing : sharing.Sound fun _ => 0 := by
  have given := reached_promptForked.consistent (by decide)
  have decodes : Place.running.Holds promptForked sharingRequest := by
    refine ⟨?_, by decide, ?_, ?_, ?_⟩
    · intro seq member
      rcases List.mem_cons.mp member with rfl | other
      · exact .inl rfl
      · rw [List.mem_singleton.mp other]
        exact .inl rfl
    · decide
    · decide
    · intro seq member
      rcases List.mem_cons.mp member with rfl | other
      · exact given.started_of_grown ⟨rfl, (grown_promptForked (.inl rfl) 4).2.1, ⟨[4], rfl⟩⟩
      · rw [List.mem_singleton.mp other]
        exact given.started_of_grown ⟨rfl, (grown_promptForked (.inr rfl) 5).2.1, ⟨[5], rfl⟩⟩
  refine ⟨⟨rfl, by decide⟩, ⟨given.accounted, given.tight, by decide, by decide, ?_, ?_, ?_⟩,
    by decide, ?_⟩
  · intro entry member
    rw [List.mem_singleton.mp member]
    decide
  · intro entry member maxLen limit
    rw [List.mem_singleton.mp member] at limit
    cases limit
  · intro entry member
    rw [List.mem_singleton.mp member]
    exact decodes
  · intro maxLoras limit
    cases limit

end Example

section Results

variable {V ν : Type} {groupOf : Nat → Nat} {scheduler after : Scheduler V}
  {outputs : SchedulerOutputs V} {passedDelay : Nat → Bool}

theorem Scheduler.Sound.stepped (sound : scheduler.Sound groupOf)
    (run : scheduler.scheduleDefault passedDelay = .ok (outputs, after))
    (stored : Nat → List ν) : scheduler.Stepped groupOf stored outputs after := by
  rcases sound.scheduleDefault passedDelay stored with
    ⟨outputs', after', returned, stepped⟩ | ⟨stopped, _⟩
  · obtain ⟨rfl, rfl⟩ := Prod.mk.inj (Except.ok.inj (returned.symm.trans run))
    exact stepped
  · rw [run] at stopped
    cases stopped

/-- A step only ever stops for want of room on the CPU, and only for a request of those that
run which is to be moved there. -/
theorem Scheduler.step_returns (sound : scheduler.Sound groupOf) (passedDelay : Nat → Bool) :
    (∃ outputs after, scheduler.scheduleDefault passedDelay = .ok (outputs, after)) ∨
    scheduler.scheduleDefault passedDelay = .error .noSwapSpace ∧
      ∃ victim ∈ scheduler.running, preemptionMode scheduler.config victim = .swap := by
  rcases sound.scheduleDefault passedDelay (fun _ => ([] : List Unit)) with
    ⟨outputs, after, run, _⟩ | stopped
  · exact .inl ⟨outputs, after, run⟩
  · exact .inr stopped

theorem returns_twoRequests :
    (∃ outputs after, twoRequests.scheduleDefault (fun _ => true) = .ok (outputs, after)) ∨
    twoRequests.scheduleDefault (fun _ => true) = .error .noSwapSpace ∧
      ∃ victim ∈ twoRequests.running, preemptionMode twoRequests.config victim = .swap :=
  Scheduler.step_returns sound_twoRequests _

/-- No request is lost in a step or there twice, and none changes what it asks for or what was
drawn for it. -/
theorem Scheduler.step_conserves (sound : scheduler.Sound groupOf)
    (run : scheduler.scheduleDefault passedDelay = .ok (outputs, after)) :
    ((after.waiting ++ after.running ++ after.swapped ++ outputs.ignoredSeqGroups).map
      Request.content).Perm ((scheduler.waiting ++ scheduler.running ++ scheduler.swapped).map
        Request.content) :=
  (sound.stepped run fun _ => ([] : List Unit)).kept

theorem conserves_twoRequests : ∃ outputs after,
    twoRequests.scheduleDefault (fun _ => true) = .ok (outputs, after) ∧
    ((after.waiting ++ after.running ++ after.swapped ++ outputs.ignoredSeqGroups).map
      Request.content).Perm ((twoRequests.waiting ++ twoRequests.running ++
        twoRequests.swapped).map Request.content) :=
  ⟨_, _, rfl, Scheduler.step_conserves sound_twoRequests
    (rfl : twoRequests.scheduleDefault (fun _ => true) = _)⟩

/-- Without adapters and swapping no request overtakes another one. -/
theorem Scheduler.step_first_come (sound : scheduler.Sound groupOf)
    (run : scheduler.scheduleDefault passedDelay = .ok (outputs, after))
    (plain : scheduler.config.maxLoras = none) (before : scheduler.swapped = [])
    (none : after.swapped = []) :
    ((after.running ++ after.waiting).map Request.requestId).Sublist
      ((scheduler.running ++ scheduler.waiting).map Request.requestId) :=
  (sound.stepped run fun _ => ([] : List Unit)).ordered plain before none

theorem first_come_twoRequests : ∃ outputs after,
    twoRequests.scheduleDefault (fun _ => true) = .ok (outputs, after) ∧
    ((after.running ++ after.waiting).map Request.requestId).Sublist [7, 9] :=
  ⟨_, _, rfl, Scheduler.step_first_come sound_twoRequests
    (rfl : twoRequests.scheduleDefault (fun _ => true) = _) rfl rfl rfl⟩

/-- The requests that run fit together, no more tokens are computed than may be, as the batch says
as well, and blocks are swapped in one direction only. -/
theorem Scheduler.step_within_limits (sound : scheduler.Sound groupOf)
    (run : scheduler.scheduleDefault passedDelay = .ok (outputs, after)) :
    Fits scheduler.config after.running ∧
      outputs.numBatchedTokens ≤ scheduler.config.maxNumBatchedTokens ∧
      batchTokens outputs.scheduledSeqGroups ≤ scheduler.config.maxNumBatchedTokens ∧
      (outputs.blocksToSwapIn = [] ∨ outputs.blocksToSwapOut = []) := by
  have stepped := sound.stepped run fun _ => ([] : List Unit)
  exact ⟨stepped.fits, stepped.numTokens, stepped.computed, stepped.exclusive⟩

theorem within_limits_twoRequests : ∃ outputs after,
    twoRequests.scheduleDefault (fun _ => true) = .ok (outputs, after) ∧
    Fits twoRequests.config after.running ∧ outputs.numBatchedTokens ≤ 8 ∧
      batchTokens outputs.scheduledSeqGroups ≤ 8 ∧
      (outputs.blocksToSwapIn = [] ∨ outputs.blocksToSwapOut = []) :=
  ⟨_, _, rfl, Scheduler.step_within_limits sound_twoRequests
    (rfl : twoRequests.scheduleDefault (fun _ => true) = _)⟩

/-- A sequence that is in the batch has blocks on the GPU, for its tokens and no others. -/
theorem Scheduler.step_blocks (sound : scheduler.Sound groupOf)
    (run : scheduler.scheduleDefault passedDelay = .ok (outputs, after)) :
    ∀ scheduled ∈ outputs.scheduledSeqGroups, ∀ seq ∈ scheduled.seqGroup.getSeqs .running,
      after.blockManager.Has .gpu seq.seqId seq.data.getTokenIds := by
  intro scheduled member seq running
  obtain ⟨_, idle, _, _, _, desk⟩ := (sound.stepped run fun _ => ([] : List Unit)).desk
  have batched : Batched after.blockManager scheduled.seqGroup := by
    refine desk.served.holds (.scheduled, scheduled.seqGroup) ?_
    simp only [List.mem_append]
    exact .inl (.inl (.inl (List.mem_map_of_mem member)))
  exact batched.has seq running

theorem blocks_twoRequests : ∃ outputs after,
    twoRequests.scheduleDefault (fun _ => true) = .ok (outputs, after) ∧
    ∀ scheduled ∈ outputs.scheduledSeqGroups, ∀ seq ∈ scheduled.seqGroup.getSeqs .running,
      after.blockManager.Has .gpu seq.seqId seq.data.getTokenIds :=
  ⟨_, _, rfl, Scheduler.step_blocks sound_twoRequests
    (rfl : twoRequests.scheduleDefault (fun _ => true) = _)⟩

/-- What was computed for a sequence is still found after a step that leaves it on the GPU, once
the worker has made the copies, in whatever order. -/
theorem Scheduler.step_keeps_memory (sound : scheduler.Sound groupOf)
    (run : scheduler.scheduleDefault passedDelay = .ok (outputs, after))
    {blockSize numGpuBlocks numCpuBlocks watermarkBlocks : Nat} (positive : 0 < blockSize)
    {engine : CacheEngine ν} {stored : Nat → List ν}
    (execution : Execution V groupOf blockSize numGpuBlocks numCpuBlocks watermarkBlocks
      scheduler.blockManager engine stored)
    {order : List (Nat × Nat)} (any : outputs.blocksToCopy.Perm order) {key : Nat}
    (had : scheduler.blockManager.blockTables.get? key ≠ none) {table : BlockTable}
    (found : after.blockManager.blockTables.get? key = some table)
    (located : after.blockManager.Located .gpu key) {position : Nat} {value : ν}
    (computed : (stored key)[position]? = some value) :
    entry after.blockManager.blockSize
      (engine.executeWorker outputs.blocksToSwapIn outputs.blocksToSwapOut order).gpuCache
      table.physicalBlockIds position = some value := by
  obtain ⟨direction, _, stored', _, same, desk⟩ := (sound.stepped run stored).desk
  obtain ⟨touched, scheduled, _⟩ := desk.made
  have stepped := Execution.step direction order execution scheduled any
  have kept : stored' key = stored key := (same key).resolve_right had
  exact (stepped.holds positive).reads_gpu found located (by rw [kept]; exact computed)

/-- The step has a block copied for the first sequence, which reads from the copy. -/
theorem keeps_memory_sharing : ∃ table,
    sharing.scheduleDefault (fun _ => true) = .ok sharingStep ∧
    sharingStep.1.blocksToCopy = [(1, 2)] ∧
    sharingStep.2.blockManager.blockTables.get? 7 = some table ∧
    table.physicalBlockIds = [0, 2] ∧
    entry 2 (promptEngine.executeWorker sharingStep.1.blocksToSwapIn
      sharingStep.1.blocksToSwapOut [(1, 2)]).gpuCache table.physicalBlockIds 2 = some 13 := by
  obtain ⟨table, found, listed⟩ := Option.map_eq_some_iff.mp
    (rfl : (sharingStep.2.blockManager.blockTables.get? 7).map BlockTable.physicalBlockIds =
      some [0, 2])
  have run : sharing.scheduleDefault (fun _ => true) = .ok (sharingStep.1, sharingStep.2) := rfl
  have copied : sharingStep.1.blocksToCopy = [(1, 2)] := rfl
  have had : sharing.blockManager.blockTables.get? 7 ≠ none := by decide
  have located : sharingStep.2.blockManager.Located .gpu 7 := by
    intro other found'
    rw [found] at found'
    rw [← Option.some.inj found', listed]
    decide
  exact ⟨table, run, copied, found, listed,
    Scheduler.step_keeps_memory sound_sharing run (by decide) execution_promptForked
      (copied ▸ List.Perm.refl _) had found located rfl⟩

end Results

section Aborts

variable {V : Type} {groupOf : Nat → Nat} {scheduler : Scheduler V}

theorem freeSeqs_changes (seqs : List Sequence) {manager : BlockSpaceManagerV2} {lookahead : Nat}
    (accounted : manager.Accounted) (tight : manager.Tight lookahead)
    (located : ∀ seq ∈ seqs, manager.Located .gpu seq.seqId) :
    ∃ after, Scheduler.freeSeqs manager seqs = .ok after ∧
      Changes manager after (seqs.map Sequence.seqId) ∧ after.Tight lookahead ∧
      ∀ seq ∈ seqs, after.blockTables.get? seq.seqId = none := by
  induction seqs generalizing manager with
  | nil =>
      exact ⟨manager, rfl, .refl accounted _, tight, fun _ absent => absurd absent List.not_mem_nil⟩
  | cons seq rest ih =>
      rw [List.forall_mem_cons] at located
      obtain ⟨middle, run, changes, tight', none⟩ := accounted.free_changes located.1 tight
      obtain ⟨after, run', changes', tight'', gone⟩ := ih changes.accounted tight'
        fun other member => changes.located (located.2 other member) fun key freed => by
          rw [List.mem_singleton.mp freed, none]
      refine ⟨after, ?_, changes.trans changes', tight'', ?_⟩
      · rw [Scheduler.freeSeqs, List.foldlM_cons, run]
        exact run'
      · intro other member
        rcases List.mem_cons.mp member with rfl | later
        · by_cases again : other.seqId ∈ rest.map Sequence.seqId
          · obtain ⟨twin, listed, same⟩ := List.mem_map.mp again
            rw [← same]
            exact gone twin listed
          · rw [changes'.others _ again]
            exact none
        · exact gone other later

theorem Served.leave {config : SchedulerConfig} {manager after : BlockSpaceManagerV2}
    {all fewer : List (Place × Request V)} (served : Served groupOf config manager all)
    (some : fewer.Sublist all) {keys : List Nat} (changes : Changes manager after keys)
    (tight : after.Tight config.numLookaheadSlots)
    (strange : ∀ entry ∈ fewer, ∀ id ∈ entry.2.ids, id ∉ keys) :
    Served groupOf config after fewer where
  accounted := changes.accounted
  tight := tight
  once := served.once.sublist (some.flatMap _)
  apart := served.apart.sublist (some.map _)
  grouped entry member := served.grouped entry (some.subset member)
  limited entry member := served.limited entry (some.subset member)
  holds entry member :=
    (served.holds entry (some.subset member)).changes changes (strange entry member)

theorem Scheduler.standing {request : Request V}
    (member : request ∈ scheduler.waiting ++ scheduler.running ++ scheduler.swapped) :
    ∃ place, (place, request) ∈ scheduler.entries := by
  rcases List.mem_append.mp member with front | swapped
  · rcases List.mem_append.mp front with waits | runs
    · exact ⟨.waiting, by simp [entries, waits]⟩
    · exact ⟨.running, by simp [entries, runs]⟩
  · exact ⟨.swapped, by simp [entries, swapped]⟩

theorem Scheduler.Sound.located (sound : scheduler.Sound groupOf) {request : Request V}
    (queued : request ∈ scheduler.waiting ++ scheduler.running) {seq : Sequence}
    (member : seq ∈ request.seqs) (unfinished : seq.status.isFinished = false) :
    scheduler.blockManager.Located .gpu seq.seqId := by
  rcases List.mem_append.mp queued with waits | runs
  · have waits : Waits scheduler.blockManager request :=
      sound.served.holds (.waiting, request) (by simp [entries, waits])
    obtain ⟨first, single, _, _, _, absent⟩ := waits.single
    have status := (waits.only seq member).resolve_right (by rw [unfinished]; decide)
    have listed : seq ∈ request.getSeqs .waiting := mem_getSeqs.mpr ⟨member, status⟩
    rw [single, List.mem_singleton] at listed
    intro table found
    rw [listed, absent] at found
    cases found
  · have decodes : Decodes scheduler.blockManager .gpu .running request :=
      sound.served.holds (.running, request) (by simp [entries, runs])
    have status := (decodes.only seq member).resolve_right (by rw [unfinished]; decide)
    exact decodes.located seq (mem_getSeqs.mpr ⟨member, status⟩)

/-- Requests that are not swapped out can be aborted at any time between two steps. They are
gone with their blocks, and all others stay where they are, as sound as before. -/
theorem Scheduler.abort_sound (sound : scheduler.Sound groupOf) (requestIds : List Nat)
    (inside : ∀ request ∈ scheduler.swapped, request.requestId ∉ requestIds) :
    ∃ after, scheduler.abortSeqGroup requestIds = .ok after ∧ after.Sound groupOf ∧
      after.entries = scheduler.entries.filter (fun entry => entry.2.requestId ∉ requestIds) ∧
      ∀ request ∈ scheduler.waiting ++ scheduler.running ++ scheduler.swapped,
        request.requestId ∈ requestIds → ∀ seq ∈ request.seqs, seq.status.isFinished = false →
          after.blockManager.blockTables.get? seq.seqId = none := by
  obtain ⟨manager, run, changes, tight, gone⟩ := freeSeqs_changes
    (((scheduler.waiting ++ scheduler.running ++ scheduler.swapped).filter
      fun request => request.requestId ∈ requestIds).flatMap
        fun request => request.seqs.filter fun seq => ! seq.status.isFinished)
    sound.served.accounted sound.served.tight (by
      intro seq aborted
      obtain ⟨request, there, own⟩ := List.mem_flatMap.mp aborted
      obtain ⟨queued, named⟩ := List.mem_filter.mp there
      obtain ⟨member, unfinished⟩ := List.mem_filter.mp own
      rcases List.mem_append.mp queued with front | swapped
      · exact sound.located front member (Bool.not_eq_true' _ ▸ unfinished)
      · exact absurd (of_decide_eq_true named) (inside request swapped))
  have split : scheduler.entries.filter (fun entry => entry.2.requestId ∉ requestIds) =
      (scheduler.waiting.filter fun request => request.requestId ∉ requestIds).map
          (Prod.mk .waiting) ++
        (scheduler.running.filter fun request => request.requestId ∉ requestIds).map
          (Prod.mk .running) ++
        (scheduler.swapped.filter fun request => request.requestId ∉ requestIds).map
          (Prod.mk .swapped) := by
    simp only [entries, List.filter_append, List.filter_map, Function.comp_def]
  have served : Served groupOf scheduler.config manager
      (scheduler.entries.filter fun entry => entry.2.requestId ∉ requestIds) := by
    refine sound.served.leave List.filter_sublist changes tight ?_
    intro entry member id own' freed
    obtain ⟨listed, stays⟩ := List.mem_filter.mp member
    obtain ⟨seq, aborted, rfl⟩ := List.mem_map.mp freed
    obtain ⟨request, there, own⟩ := List.mem_flatMap.mp aborted
    obtain ⟨queued, named⟩ := List.mem_filter.mp there
    obtain ⟨place, standing⟩ := Scheduler.standing queued
    -- a sequence belongs to one request only
    have one := sound.served.grouped (place, request) standing seq.seqId
      (List.mem_map_of_mem (List.mem_filter.mp own).1)
    have other := sound.served.grouped entry listed seq.seqId own'
    rw [← other, one] at stays
    exact of_decide_eq_true stays (of_decide_eq_true named)
  have returned : scheduler.abortSeqGroup requestIds = .ok { scheduler with
      blockManager := manager
      waiting := scheduler.waiting.filter fun request => request.requestId ∉ requestIds
      running := scheduler.running.filter fun request => request.requestId ∉ requestIds
      swapped := scheduler.swapped.filter fun request => request.requestId ∉ requestIds
      finishedRequestsIds := scheduler.finishedRequestsIds ++
        ((scheduler.waiting ++ scheduler.running ++ scheduler.swapped).filter
          fun request => request.requestId ∈ requestIds).map Request.requestId } := by
    rw [abortSeqGroup, run]
    rfl
  refine ⟨_, returned, ⟨sound.plain, ?_, ?_⟩, split.symm, ?_⟩
  · rw [split] at served
    exact served
  · exact sound.fits.sublist List.filter_sublist
  · intro request queued named seq member unfinished
    refine gone seq (List.mem_flatMap.mpr ⟨request, ?_, ?_⟩)
    · exact List.mem_filter.mpr ⟨queued, decide_eq_true named⟩
    · exact List.mem_filter.mpr ⟨member, by rw [unfinished]; rfl⟩

theorem abort_twoRequests : ∃ after, twoRequests.abortSeqGroup [7] = .ok after ∧
    after.Sound id ∧ after.blockManager.blockTables.get? 7 = none := by
  obtain ⟨after, run, sound, _, gone⟩ := Scheduler.abort_sound sound_twoRequests [7]
    (fun request absent => absurd absent List.not_mem_nil)
  exact ⟨after, run, sound,
    gone servedRequest (by simp [twoRequests]) (by decide) _ List.mem_cons_self rfl⟩

end Aborts

end ScalarLM.Scheduling
