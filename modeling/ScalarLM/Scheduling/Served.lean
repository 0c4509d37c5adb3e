import ScalarLM.Cache.Checks
import ScalarLM.Cache.CacheRuns
import ScalarLM.Scheduling.Scheduler

/-! What the queues promise the block manager: where the sequences of a request have their
tables, and that no two requests have a sequence in common. -/

namespace ScalarLM.Scheduling

open Engine Cache BlockSpaceManagerV2

section Statuses

variable {V : Type}

def Request.ids (request : Request V) : List Nat := request.seqs.map Sequence.seqId

@[simp] theorem Request.ids_setStatus (request : Request V) (before after : SequenceStatus) :
    (request.setStatus before after).ids = request.ids := by
  simp only [Request.ids, Request.setStatus, SequenceGroup.setStatus, List.map_map]
  refine List.map_congr_left fun seq _ => ?_
  simp only [Function.comp]
  split <;> rfl

@[simp] theorem Request.ids_reset (request : Request V) : request.reset.ids = request.ids := by
  simp only [Request.ids, Request.reset, Request.withSeqs, List.map_map]
  refine List.map_congr_left fun seq _ => ?_
  simp only [Function.comp]
  split <;> rfl

def Request.Only (request : Request V) (status : SequenceStatus) : Prop :=
  ∀ seq ∈ request.seqs, seq.status = status ∨ seq.status.isFinished = true

theorem mem_getSeqs {group : SequenceGroup V} {status : SequenceStatus} {seq : Sequence} :
    seq ∈ group.getSeqs status ↔ seq ∈ group.seqs ∧ seq.status = status := by
  rw [SequenceGroup.getSeqs, List.mem_filter, decide_eq_true_eq]

/-- When all sequences that can change do, those with the new status are the ones that had
the old one. -/
theorem filter_change (seqs : List Sequence) {before after : SequenceStatus}
    (change : Sequence → Sequence) (changed : ∀ seq, (change seq).status = after)
    (unfinished : after.isFinished = false)
    (only : ∀ seq ∈ seqs, seq.status = before ∨ seq.status.isFinished = true) :
    ((seqs.map fun seq => if seq.status = before then change seq else seq).filter
      fun seq => seq.status = after) =
        (seqs.filter fun seq => seq.status = before).map change := by
  induction seqs with
  | nil => rfl
  | cons seq rest ih =>
      have later := ih fun other member => only other (List.mem_cons_of_mem _ member)
      rw [List.map_cons, List.filter_cons, List.filter_cons, later]
      by_cases here : seq.status = before
      · simp [here, changed]
      · have ended := (only seq List.mem_cons_self).resolve_left here
        have different : seq.status ≠ after := by
          intro same
          rw [same, unfinished] at ended
          cases ended
        simp [here, different]

theorem getSeqs_setStatus {request : Request V} {before after : SequenceStatus}
    (only : request.Only before) (unfinished : after.isFinished = false) :
    (request.setStatus before after).getSeqs after =
      (request.getSeqs before).map fun seq => { seq with status := after } :=
  filter_change request.seqs (fun seq => { seq with status := after }) (fun _ => rfl) unfinished
    only

theorem only_setStatus {request : Request V} {before after : SequenceStatus}
    (only : request.Only before) : (request.setStatus before after).Only after := by
  intro seq member
  obtain ⟨old, inside, same⟩ := List.mem_map.mp member
  rw [← same]
  split
  · exact .inl rfl
  · rename_i different
    exact .inr ((only old inside).resolve_left different)

theorem getSeqs_reset {request : Request V} (only : request.Only .running) :
    request.reset.getSeqs .waiting = (request.getSeqs .running).map fun seq =>
      { seq with status := .waiting, data := seq.data.resetStateForRecompute } :=
  filter_change request.seqs
    (fun seq => { seq with status := .waiting, data := seq.data.resetStateForRecompute })
    (fun _ => rfl) rfl only

theorem only_reset {request : Request V} (only : request.Only .running) :
    request.reset.Only .waiting := by
  intro seq member
  obtain ⟨old, inside, same⟩ := List.mem_map.mp member
  rw [← same]
  split
  · exact .inl rfl
  · rename_i different
    exact .inr ((only old inside).resolve_left different)

end Statuses

section Queues

variable {V : Type} {manager after : BlockSpaceManagerV2} {request : Request V}

structure Waits (manager : BlockSpaceManagerV2) (request : Request V) : Prop where
  only : request.Only .waiting
  single : ∃ seq, request.getSeqs .waiting = [seq] ∧ seq.data.getTokenIds ≠ [] ∧
    seq.data.stage = .prefill ∧ seq.data.numComputedTokens = 0 ∧
      manager.blockTables.get? seq.seqId = none

structure Decodes (manager : BlockSpaceManagerV2) (device : Device) (status : SequenceStatus)
    (request : Request V) : Prop where
  only : request.Only status
  some : request.getSeqs status ≠ []
  decode : ∀ seq ∈ request.seqs, seq.data.stage = .decode
  filled : ∀ seq ∈ request.seqs, seq.data.getTokenIds ≠ []
  started : ∀ seq ∈ request.getSeqs status, manager.Started device seq

structure Batched (manager : BlockSpaceManagerV2) (request : Request V) : Prop where
  only : request.Only .running
  some : request.getSeqs .running ≠ []
  has : ∀ seq ∈ request.getSeqs .running, manager.Has .gpu seq.seqId seq.data.getTokenIds

/-- Where a request is while a step is scheduled. -/
inductive Place where
  | waiting
  | running
  | swapped
  | scheduled
  deriving DecidableEq

def Place.Holds (manager : BlockSpaceManagerV2) (request : Request V) : Place → Prop
  | .waiting => Waits manager request
  | .running => Decodes manager .gpu .running request
  | .swapped => Decodes manager .cpu .swapped request
  | .scheduled => Batched manager request

theorem Changes.started {keys : List Nat} (changes : Changes manager after keys)
    {device : Device} {seq : Sequence} (absent : seq.seqId ∉ keys)
    (started : manager.Started device seq) : after.Started device seq := by
  obtain ⟨tokens, has, before⟩ := started
  exact ⟨tokens, changes.has absent has, before⟩

theorem Place.Holds.changes {place : Place} (holds : place.Holds manager request)
    {keys : List Nat} (changes : Changes manager after keys)
    (strange : ∀ id ∈ request.ids, id ∉ keys) : place.Holds after request := by
  have absent : ∀ {status seq}, seq ∈ request.getSeqs status → seq.seqId ∉ keys := by
    intro status seq member
    exact strange _ (List.mem_map_of_mem (mem_getSeqs.mp member).1)
  cases place with
  | waiting =>
      obtain ⟨seq, waiting, some, stage, computed, none⟩ := holds.single
      refine ⟨holds.only, seq, waiting, some, stage, computed, ?_⟩
      have member : seq ∈ request.getSeqs .waiting := waiting ▸ List.mem_singleton.mpr rfl
      rw [changes.others _ (absent member), none]
  | running =>
      exact ⟨holds.only, holds.some, holds.decode, holds.filled, fun seq member =>
        Changes.started changes (absent member) (holds.started seq member)⟩
  | swapped =>
      exact ⟨holds.only, holds.some, holds.decode, holds.filled, fun seq member =>
        Changes.started changes (absent member) (holds.started seq member)⟩
  | scheduled =>
      exact ⟨holds.only, holds.some, fun seq member =>
        changes.has (absent member) (holds.has seq member)⟩

end Queues

section Served

variable {V : Type}

/-- The limit of the prompt for a long adapter is not below that of the model. -/
def Request.Limited (config : SchedulerConfig) (request : Request V) : Prop :=
  ∀ maxLen, request.longLoraMaxLen = some maxLen → maxLen = 0 ∨
    min config.maxModelLen config.maxNumBatchedTokens ≤ maxLen

/-- All requests are where they are said to be, and have their sequences for themselves. -/
structure Served (groupOf : Nat → Nat) (config : SchedulerConfig) (manager : BlockSpaceManagerV2)
    (all : List (Place × Request V)) : Prop where
  accounted : manager.Accounted
  tight : manager.Tight config.numLookaheadSlots
  once : (all.flatMap fun entry => entry.2.ids).Nodup
  apart : (all.map fun entry => entry.2.requestId).Nodup
  grouped : ∀ entry ∈ all, ∀ id ∈ entry.2.ids, groupOf id = entry.2.requestId
  limited : ∀ entry ∈ all, entry.2.Limited config
  holds : ∀ entry ∈ all, entry.1.Holds manager entry.2

namespace Served

variable {groupOf : Nat → Nat} {config : SchedulerConfig} {manager after : BlockSpaceManagerV2}
  {all more : List (Place × Request V)} {place : Place} {request changed : Request V}

theorem perm (served : Served groupOf config manager all) (same : all.Perm more) :
    Served groupOf config manager more where
  accounted := served.accounted
  tight := served.tight
  once := (same.flatMap_right _).nodup_iff.mp served.once
  apart := (same.map _).nodup_iff.mp served.apart
  grouped entry member := served.grouped entry (same.mem_iff.mpr member)
  limited entry member := served.limited entry (same.mem_iff.mpr member)
  holds entry member := served.holds entry (same.mem_iff.mpr member)

theorem tail {entry : Place × Request V} (served : Served groupOf config manager (entry :: all)) :
    Served groupOf config manager all where
  accounted := served.accounted
  tight := served.tight
  once := by
    have once := served.once
    rw [List.flatMap_cons, List.nodup_append] at once
    exact once.2.1
  apart := (List.nodup_cons.mp served.apart).2
  grouped other member := served.grouped other (List.mem_cons_of_mem _ member)
  limited other member := served.limited other (List.mem_cons_of_mem _ member)
  holds other member := served.holds other (List.mem_cons_of_mem _ member)

theorem strange (served : Served groupOf config manager ((place, request) :: all))
    {entry : Place × Request V} (member : entry ∈ all) {id : Nat} (inside : id ∈ entry.2.ids) :
    id ∉ request.ids := by
  have once := served.once
  rw [List.flatMap_cons, List.nodup_append] at once
  exact fun here => once.2.2 id here id (List.mem_flatMap.mpr ⟨entry, member, inside⟩) rfl

theorem ids_nodup (served : Served groupOf config manager ((place, request) :: all)) :
    request.ids.Nodup := by
  have once := served.once
  rw [List.flatMap_cons, List.nodup_append] at once
  exact once.1

theorem getSeqs_nodup (served : Served groupOf config manager ((place, request) :: all))
    (status : SequenceStatus) : ((request.getSeqs status).map Sequence.seqId).Nodup :=
  served.ids_nodup.sublist (List.filter_sublist.map _)

theorem move (served : Served groupOf config manager ((place, request) :: all))
    {keys : List Nat} (changes : Changes manager after keys)
    (own : ∀ key ∈ keys, key ∈ request.ids) (tight : after.Tight config.numLookaheadSlots)
    (ids : changed.ids = request.ids) (requestId : changed.requestId = request.requestId)
    (limit : changed.longLoraMaxLen = request.longLoraMaxLen) {target : Place}
    (holds : target.Holds after changed) :
    Served groupOf config after ((target, changed) :: all) where
  accounted := changes.accounted
  tight := tight
  once := by
    rw [List.flatMap_cons, ids]
    exact served.once
  apart := by
    rw [List.map_cons, requestId]
    exact served.apart
  grouped entry member := by
    rcases List.mem_cons.mp member with rfl | other
    · rw [ids, requestId]
      exact served.grouped (place, request) List.mem_cons_self
    · exact served.grouped entry (List.mem_cons_of_mem _ other)
  limited entry member := by
    rcases List.mem_cons.mp member with rfl | other
    · rw [Request.Limited, limit]
      exact served.limited (place, request) List.mem_cons_self
    · exact served.limited entry (List.mem_cons_of_mem _ other)
  holds entry member := by
    rcases List.mem_cons.mp member with rfl | other
    · exact holds
    · exact (served.holds entry (List.mem_cons_of_mem _ other)).changes changes
        fun id inside listed => served.strange other inside (own id listed)

end Served

end Served

end ScalarLM.Scheduling
