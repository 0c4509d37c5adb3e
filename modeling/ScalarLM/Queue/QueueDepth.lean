import Mathlib.Algebra.Ring.Int.Defs
import Mathlib.Data.List.Perm.Subperm
import ScalarLM.Queue.Metrics
import ScalarLM.Queue.StoreSteps

/-! The inference service with the counters of the API server, and what its queue depth
counts. -/

namespace ScalarLM.Queue

open Transition

structure MeteredCluster (Store R Time : Type) where
  cluster : Cluster Store R
  metrics : Metrics Time

/-- An event, with the time at which it happens and the counts of a request that it
completes. -/
structure MeteredEvent (R Time : Type) where
  event : Event R
  currentTime : Time
  tokenCount : Option Int
  flopCount : Option Int

section Steps

variable {Store R Time : Type} [Zero Time] [Add Time] [Sub Time]
  (queue : AckQueue Store (Item R))

/-- `generate` records each prompt that it has put on the queue, and `embed` records none. -/
def recordNew (call : Call R) (currentTime : Time) (metrics : Metrics Time) : Metrics Time :=
  match call.handler, call.requestType with
  | .enqueuing (_ :: _), .generate => metrics.recordNewRequest currentTime
  | _, _ => metrics

/-- `update_and_ack` and `record_completed_request`, after which the handler may be gone. -/
def finishRecorded (state : MeteredCluster Store R Time) (handler : Nat)
    (event : MeteredEvent R Time) : MeteredCluster Store R Time :=
  match state.cluster.finishWorks handler with
  | .fetched _ _ _ =>
      let recorded := state.metrics.recordCompletedRequest event.tokenCount event.flopCount
        event.currentTime
      let updated := finishUpdate queue state.cluster handler
      ⟨if recorded.1 then updated else finishRaises updated handler, recorded.2⟩
  | _ => state

def meteredStep (state : MeteredCluster Store R Time) (event : MeteredEvent R Time) :
    MeteredCluster Store R Time :=
  match event.event with
  | .enqueue call =>
      ⟨enqueue queue state.cluster call,
        recordNew (state.cluster.calls call) event.currentTime state.metrics⟩
  | .finishUpdate handler => finishRecorded queue state handler event
  | .restartServer => ⟨restartServer queue state.cluster, .fresh⟩
  | other => ⟨step queue state.cluster other, state.metrics⟩

/-- A server that has just started. Its queue may hold requests from before. -/
def startServer (store : Store) : MeteredCluster Store R Time where
  cluster := { initial queue with store := store }
  metrics := .fresh

end Steps

section Properties

variable {Store R Time : Type}

/-- The depth is the number of requests that were accepted and are not completed yet. -/
structure DepthCounts (state : MeteredCluster Store R Time) : Prop where
  counts : state.metrics.queueDepth =
    (state.cluster.accepted.length : Int) - state.cluster.acked.length
  nonneg : 0 ≤ state.metrics.queueDepth

def completedId (state : MeteredCluster Store R Time) (event : Event R) : Option Nat :=
  match event with
  | .finishUpdate handler =>
      match state.cluster.finishWorks handler with
      | .fetched request _ _ => some request.requestId
      | _ => none
  | _ => none

def embedsPrompt (state : MeteredCluster Store R Time) (event : Event R) : Bool :=
  match event with
  | .enqueue call =>
      match (state.cluster.calls call).handler, (state.cluster.calls call).requestType with
      | .enqueuing (_ :: _), .embed => true
      | _, _ => false
  | _ => false

def restartsServer : Event R → Bool
  | .restartServer => true
  | _ => false

/-- The server keeps running, and `finish_work` completes accepted requests only, each
once. -/
def CompletesOnce (state : MeteredCluster Store R Time) (event : MeteredEvent R Time) : Prop :=
  restartsServer event.event = false ∧
    ∀ id ∈ completedId state event.event,
      id ∈ state.cluster.accepted.map Accepted.id ∧ id ∉ state.cluster.acked

def NotEmbedded (state : MeteredCluster Store R Time) (event : MeteredEvent R Time) : Prop :=
  embedsPrompt state event.event = false

end Properties

section Runs

variable {Store R Time : Type} [Zero Time] [Add Time] [Sub Time]
  (queue : AckQueue Store (Item R)) {state : MeteredCluster Store R Time}

structure DepthInvariant (state : MeteredCluster Store R Time) : Prop where
  counts : state.metrics.queueDepth =
    (state.cluster.accepted.length : Int) - state.cluster.acked.length
  distinct : state.cluster.acked.Nodup
  accepted : ∀ id ∈ state.cluster.acked, id ∈ state.cluster.accepted.map Accepted.id

omit [Zero Time] [Add Time] [Sub Time] in
theorem DepthInvariant.depthCounts (invariant : DepthInvariant state) : DepthCounts state where
  counts := invariant.counts
  nonneg := by
    have fewer := (List.subperm_of_subset invariant.distinct invariant.accepted).length_le
    rw [List.length_map] at fewer
    rw [invariant.counts]
    omega

omit [Zero Time] [Add Time] [Sub Time] in
theorem DepthInvariant.of_same {after : MeteredCluster Store R Time}
    (invariant : DepthInvariant state) (depth : after.metrics.queueDepth = state.metrics.queueDepth)
    (accepted : after.cluster.accepted = state.cluster.accepted)
    (acked : after.cluster.acked = state.cluster.acked) : DepthInvariant after where
  counts := by rw [depth, accepted, acked, invariant.counts]
  distinct := by
    rw [acked]
    exact invariant.distinct
  accepted := by
    rw [acked, accepted]
    exact invariant.accepted

omit [Zero Time] [Add Time] [Sub Time] in
theorem DepthInvariant.accept {after : MeteredCluster Store R Time} {entry : Accepted}
    (invariant : DepthInvariant state)
    (depth : after.metrics.queueDepth = state.metrics.queueDepth + 1)
    (accepted : after.cluster.accepted = state.cluster.accepted ++ [entry])
    (acked : after.cluster.acked = state.cluster.acked) : DepthInvariant after where
  counts := by
    rw [depth, accepted, acked, invariant.counts, List.length_append, List.length_singleton]
    omega
  distinct := by
    rw [acked]
    exact invariant.distinct
  accepted := by
    rw [acked, accepted, List.map_append]
    exact fun id member => List.mem_append_left _ (invariant.accepted id member)

omit [Zero Time] [Add Time] [Sub Time] in
theorem DepthInvariant.complete {after : MeteredCluster Store R Time} {id : Nat}
    (invariant : DepthInvariant state)
    (depth : after.metrics.queueDepth = state.metrics.queueDepth - 1)
    (accepted : after.cluster.accepted = state.cluster.accepted)
    (acked : after.cluster.acked = state.cluster.acked ++ [id])
    (known : id ∈ state.cluster.accepted.map Accepted.id) (fresh : id ∉ state.cluster.acked) :
    DepthInvariant after where
  counts := by
    rw [depth, accepted, acked, invariant.counts, List.length_append, List.length_singleton]
    omega
  distinct := by
    rw [acked]
    exact List.nodup_append.mpr ⟨invariant.distinct, List.nodup_singleton id,
      fun one member other single same =>
        fresh (List.mem_singleton.mp single ▸ same ▸ member)⟩
  accepted := by
    rw [acked, accepted]
    intro other member
    rcases List.mem_append.mp member with old | new
    · exact invariant.accepted other old
    · rw [List.mem_singleton.mp new]
      exact known

omit [Zero Time] in
/-- A completed request lowers the depth by one, whether the rest of the call raises or
not. -/
theorem Metrics.recordCompletedRequest_queueDepth (tokenCount flopCount : Option Int)
    (currentTime : Time) (metrics : Metrics Time) :
    (metrics.recordCompletedRequest tokenCount flopCount currentTime).2.queueDepth =
      metrics.queueDepth - 1 := by
  unfold Metrics.recordCompletedRequest
  cases known : metrics.epochTime with
  | none => simp [Metrics.countCompleted, known]
  | some epochTime => simp [Metrics.countCompleted, known]

omit [Zero Time] in
theorem finishRecorded_invariant (handler : Nat) (event : MeteredEvent R Time)
    (invariant : DepthInvariant state)
    (once : ∀ request item rest, state.cluster.finishWorks handler = .fetched request item rest →
      request.requestId ∈ state.cluster.accepted.map Accepted.id ∧
        request.requestId ∉ state.cluster.acked) :
    DepthInvariant (finishRecorded queue state handler event) := by
  unfold finishRecorded
  split
  · rename_i request item rest phase
    obtain ⟨known, fresh⟩ := once request item rest phase
    have lowered := Metrics.recordCompletedRequest_queueDepth event.tokenCount event.flopCount
      event.currentTime state.metrics
    have updated : (finishUpdate queue state.cluster handler).accepted = state.cluster.accepted ∧
        (finishUpdate queue state.cluster handler).acked =
          state.cluster.acked ++ [request.requestId] := by
      simp [finishUpdate, phase]
    dsimp only
    split
    · exact invariant.complete lowered updated.1 updated.2 known fresh
    · have quiet := step_histories queue (finishUpdate queue state.cluster handler)
        (.finishRaises handler) id
      exact invariant.complete lowered (quiet.1.trans updated.1) (quiet.2.trans updated.2) known
        fresh
  · exact invariant

omit [Zero Time] [Add Time] [Sub Time] in
theorem enqueue_histories (cluster : Cluster Store R) (call : Nat) :
    (enqueue queue cluster call).acked = cluster.acked ∧
      ((∃ prompt rest entry, (cluster.calls call).handler = .enqueuing (prompt :: rest) ∧
          (enqueue queue cluster call).accepted = cluster.accepted ++ [entry]) ∨
        ((∀ prompt rest, (cluster.calls call).handler ≠ .enqueuing (prompt :: rest)) ∧
          (enqueue queue cluster call).accepted = cluster.accepted)) := by
  cases phase : (cluster.calls call).handler with
  | enqueuing prompts =>
      cases prompts with
      | nil => simp [enqueue, phase, Cluster.setCall]
      | cons prompt rest =>
          refine ⟨by simp [enqueue, phase], Or.inl ⟨prompt, rest, ⟨call, prompt,
            (queue.put ((cluster.calls call).item prompt) cluster.store).1⟩, rfl, ?_⟩⟩
          simp only [enqueue, phase]
  | _ => simp [enqueue, phase]

theorem metered_exactly (event : MeteredEvent R Time) (invariant : DepthInvariant state)
    (once : CompletesOnce state event) :
    (NotEmbedded state event → DepthInvariant (meteredStep queue state event)) ∧
      (DepthCounts (meteredStep queue state event) → NotEmbedded state event) := by
  rcases event with ⟨event, currentTime, tokenCount, flopCount⟩
  by_cases records : event.Records
  · cases event with
    | enqueue call =>
        obtain ⟨acked, accepted⟩ := enqueue_histories queue state.cluster call
        rcases accepted with ⟨prompt, rest, entry, phase, accepted⟩ | ⟨other, accepted⟩
        · cases kind : (state.cluster.calls call).requestType with
          | generate =>
              refine ⟨fun _ => invariant.accept ?_ accepted acked, fun _ => ?_⟩
              · simp only [meteredStep, recordNew, phase, kind, Metrics.recordNewRequest]
              · simp only [NotEmbedded, embedsPrompt, phase, kind]
          | embed =>
              refine ⟨fun quiet => ?_, fun counts => ?_⟩
              · simp [NotEmbedded, embedsPrompt, phase, kind] at quiet
              · have depth := counts.counts
                simp only [meteredStep, recordNew, phase, kind, accepted, acked,
                  invariant.counts, List.length_append, List.length_singleton] at depth
                omega
        · refine ⟨fun _ => invariant.of_same ?_ accepted acked, fun _ => ?_⟩
          · simp only [meteredStep, recordNew]
            split
            · rename_i prompt rest phase _
              exact absurd phase (other prompt rest)
            · rfl
          · simp only [NotEmbedded, embedsPrompt]
            split
            · rename_i prompt rest phase _
              exact absurd phase (other prompt rest)
            · rfl
    | finishUpdate handler =>
        refine ⟨fun _ => finishRecorded_invariant queue handler _ invariant ?_, fun _ => rfl⟩
        intro request item rest phase
        refine once.2 request.requestId ?_
        simp only [completedId, phase]
        rfl
    | _ => exact records.elim
  · obtain ⟨accepted, acked⟩ := step_histories queue state.cluster event records
    cases event with
    | enqueue call => exact absurd trivial records
    | finishUpdate handler => exact absurd trivial records
    | restartServer => cases once.1
    | _ => exact ⟨fun _ => invariant.of_same rfl accepted acked, fun _ => rfl⟩

/-- In a run of the server the queue depth counts the outstanding requests at every point
exactly when `embed` accepts none. -/
theorem queue_depth_counts_iff (store : Store) (events : List (MeteredEvent R Time))
    (once : AllSteps (meteredStep queue) CompletesOnce (startServer queue store) events) :
    Always (meteredStep queue) DepthCounts (startServer queue store) events ↔
      AllSteps (meteredStep queue) NotEmbedded (startServer queue store) events := by
  have first : DepthInvariant (startServer queue store : MeteredCluster Store R Time) :=
    ⟨rfl, List.nodup_nil, List.forall_mem_nil _⟩
  rw [always_iff_allSteps, and_iff_right first.depthCounts]
  refine allSteps_iff _ DepthInvariant CompletesOnce _ _ ?_ ?_ _ _ first once
  · intro state event invariant once
    obtain ⟨keeps, shows⟩ := metered_exactly queue event invariant once
    exact ⟨shows, fun quiet => (keeps quiet).depthCounts⟩
  · intro state event invariant once counts
    obtain ⟨keeps, shows⟩ := metered_exactly queue event invariant once
    exact keeps (shows counts)

end Runs

section Sample

instance {Store R Time : Type} (state : MeteredCluster Store R Time)
    (event : MeteredEvent R Time) : Decidable (CompletesOnce state event) :=
  inferInstanceAs (Decidable (_ ∧ _))

instance {Store R Time : Type} (state : MeteredCluster Store R Time)
    (event : MeteredEvent R Time) : Decidable (NotEmbedded state event) :=
  inferInstanceAs (Decidable (_ = _))

def oneRequest (requestType : RequestType) : List (MeteredEvent String Int) :=
  [⟨.submit 0 requestType ["prompt"] (some "model") none, 1, none, none⟩,
    ⟨.enqueue 0, 2, none, none⟩, ⟨.postFinish 0 [⟨1, some "response", none⟩], 3, none, none⟩,
    ⟨.finishGet 0, 4, none, none⟩, ⟨.finishUpdate 0, 5, some 7, none⟩]

theorem queue_depth_generate :
    Always (meteredStep (tableQueue (Item String))) DepthCounts
      (startServer (tableQueue (Item String)) (tableQueue (Item String)).empty)
      (oneRequest .generate) :=
  (queue_depth_counts_iff (tableQueue (Item String)) _ (oneRequest .generate) (by decide)).mpr
    (by decide)

/-- The depth stays at zero while a request of `embed` is outstanding. -/
theorem queue_depth_not_embed :
    ¬ ∀ (store : Table (Item String)) (events : List (MeteredEvent String Int)),
      AllSteps (meteredStep (tableQueue (Item String))) CompletesOnce
        (startServer (tableQueue (Item String)) store) events →
      Always (meteredStep (tableQueue (Item String))) DepthCounts
        (startServer (tableQueue (Item String)) store) events := by
  intro claimed
  have counts := claimed (tableQueue (Item String)).empty (oneRequest .embed) (by decide)
  have depth := counts.2.2.1.counts
  exact absurd depth (by decide)

end Sample

end ScalarLM.Queue
