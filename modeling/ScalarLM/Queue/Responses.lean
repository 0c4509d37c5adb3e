import ScalarLM.Lib.Transition
import ScalarLM.Queue.Cluster

/-! Every SDK call gets the responses to its own prompts, in their order. -/

namespace ScalarLM.Queue

open Transition

section Poll

variable {R : Type}

/-- A poll for the given ids: what it has collected so far belongs to different ones of
them. -/
structure PollFor (requestIds : List Nat) (poll : Poll R) : Prop where
  asked : poll.requestIds = requestIds
  distinct : (poll.results.map Result.requestId).Nodup
  within : ∀ result ∈ poll.results, result.requestId ∈ requestIds
  ahead : ∀ id ∈ poll.pending, id ∈ requestIds

theorem PollFor.start (requestIds : List Nat) :
    PollFor requestIds (Poll.start requestIds : Poll R) where
  asked := rfl
  distinct := List.nodup_nil
  within := List.forall_mem_nil _
  ahead := List.forall_mem_nil _

theorem PollFor.again {requestIds : List Nat} {poll : Poll R} (same : PollFor requestIds poll) :
    PollFor requestIds { poll with pending := poll.requestIds } where
  asked := same.asked
  distinct := same.distinct
  within := same.within
  ahead := fun _ member => same.asked ▸ member

theorem PollFor.next {requestIds : List Nat} {poll : Poll R} (same : PollFor requestIds poll)
    (lookup : Nat → Option (Item R)) : PollFor requestIds (poll.next lookup) := by
  unfold Poll.next
  split
  · exact same
  · rename_i id rest pending
    have ahead : ∀ other ∈ rest, other ∈ requestIds := fun other member =>
      same.ahead other (by rw [pending]; exact List.mem_cons_of_mem _ member)
    have here : id ∈ requestIds := same.ahead id (by rw [pending]; exact List.mem_cons_self)
    split
    · exact ⟨same.asked, same.distinct, same.within, ahead⟩
    · rename_i unseen
      split
      · exact ⟨same.asked, same.distinct, same.within, ahead⟩
      · refine ⟨same.asked, ?_, ?_, ahead⟩
        · rw [List.map_append]
          refine List.Nodup.append same.distinct (List.nodup_singleton _) ?_
          simpa [Poll.responsesSoFar] using unseen
        · intro result member
          rcases List.mem_append.mp member with old | new
          · exact same.within result old
          · rw [List.mem_singleton.mp new]
            exact here

theorem emptyResult_ids (requestIds : List Nat) :
    (requestIds.map emptyResult : List (Result R)).map Result.requestId = requestIds := by
  rw [List.map_map]
  exact List.map_id _

theorem Poll.finish_perm (poll : Poll R) : (poll.finish.map Result.requestId).Perm
    (poll.responsesSoFar ++ poll.requestIds.filter (· ∉ poll.responsesSoFar)) := by
  rw [Poll.finish]
  refine ((List.perm_insertionSort _ _).map _).trans ?_
  rw [List.map_append, emptyResult_ids, Poll.responsesSoFar]

theorem Poll.finish_sorted (poll : Poll R) :
    (poll.finish.map Result.requestId).Pairwise (· ≤ ·) := by
  rw [Poll.finish, List.map_insertionSort _ (· ≤ ·) Result.requestId _ (fun _ _ _ _ => Iff.rfl)]
  exact List.pairwise_insertionSort _ _

theorem PollFor.finish_ids {requestIds : List Nat} {poll : Poll R} (same : PollFor requestIds poll)
    (increasing : requestIds.Pairwise (· < ·)) : poll.finish.map Result.requestId = requestIds := by
  have permuted : (poll.results.map Result.requestId ++
      requestIds.filter (· ∉ poll.responsesSoFar)).Perm requestIds := by
    have unique : requestIds.Nodup := increasing.imp Nat.ne_of_lt
    rw [List.perm_ext_iff_of_nodup _ unique]
    · intro id
      rw [List.mem_append, List.mem_filter, decide_eq_true_iff, Poll.responsesSoFar]
      constructor
      · intro either
        rcases either with found | ⟨asked, _⟩
        · obtain ⟨result, member, rfl⟩ := List.mem_map.mp found
          exact same.within result member
        · exact asked
      · intro asked
        by_cases found : id ∈ poll.results.map Result.requestId
        · exact Or.inl found
        · exact Or.inr ⟨asked, found⟩
    · refine List.Nodup.append same.distinct (unique.filter _) ?_
      intro id found lacking
      have absent := (List.mem_filter.mp lacking).2
      rw [decide_eq_true_iff] at absent
      exact absent found
  have sorted : (requestIds.Pairwise (· ≤ ·)) := increasing.imp Nat.le_of_lt
  have ids := poll.finish_perm
  rw [same.asked] at ids
  exact (ids.trans permuted).eq_of_pairwise' poll.finish_sorted sorted

theorem Poll.mem_finish {poll : Poll R} {result : Result R} (member : result ∈ poll.finish) :
    result ∈ poll.results ∨ result.requestId ∉ poll.responsesSoFar ∧
      result.response = none ∧ result.error = none := by
  rw [Poll.finish, List.mem_insertionSort, List.mem_append] at member
  rcases member with found | empty
  · exact Or.inl found
  · obtain ⟨id, lacking, rfl⟩ := List.mem_map.mp empty
    have absent := (List.mem_filter.mp lacking).2
    rw [decide_eq_true_iff] at absent
    exact Or.inr ⟨absent, rfl, rfl⟩

theorem Poll.mem_next (poll : Poll R) (lookup : Nat → Option (Item R)) (result : Result R)
    (member : result ∈ (poll.next lookup).results) :
    result ∈ poll.results ∨
      ∃ item, lookup result.requestId = some item ∧ result.response = item.response := by
  unfold Poll.next at member
  split at member
  · exact Or.inl member
  · split at member
    · exact Or.inl member
    · split at member
      · exact Or.inl member
      · rename_i id _ _ _ item found
        rcases List.mem_append.mp member with old | new
        · exact Or.inl old
        · obtain rfl := List.mem_singleton.mp new
          exact Or.inr ⟨item, found, rfl⟩

end Poll

section Supply

variable {Store R : Type} (queue : AckQueue Store (Item R)) (state : Cluster Store R)

/-- Some call of `finish_work` gave this response for this id. -/
def Supplied (id : Nat) (response : R) : Prop :=
  ∃ request ∈ state.posted, request.requestId = id ∧ request.response = some response

/-- All responses on the queue and in the hands of a `finish_work` were supplied for the
id they are under. -/
structure Answered : Prop where
  rows : ∀ row ∈ queue.queue state.store, ∀ response, row.data.response = some response →
    Supplied state row.id response
  posted : ∀ handler, ∀ request ∈ (state.finishWorks handler).remaining, request ∈ state.posted
  fetched : ∀ handler request item rest, state.finishWorks handler = .fetched request item rest →
    ∀ response, item.response = some response → Supplied state request.requestId response

variable {queue state}

theorem Supplied.mono {after : Cluster Store R} {id : Nat} {response : R}
    (supplied : Supplied state id response)
    (posted : ∀ request ∈ state.posted, request ∈ after.posted) : Supplied after id response := by
  obtain ⟨request, member, same⟩ := supplied
  exact ⟨request, posted request member, same⟩

theorem initial_answered : Answered queue (initial queue) where
  rows := by
    intro row member
    rw [initial, queue.queue_empty] at member
    cases member
  posted := fun _ _ member => (List.not_mem_nil member).elim
  fetched := nofun

theorem rows_of_data (answered : Answered queue state) (store : Store)
    (data : ∀ row ∈ queue.queue store, ∃ old ∈ queue.queue state.store,
      old.id = row.id ∧ old.data.response = row.data.response) :
    ∀ row ∈ queue.queue store, ∀ response, row.data.response = some response →
      Supplied state row.id response := by
  intro row member response given
  obtain ⟨old, before, same, kept⟩ := data row member
  rw [← same]
  exact answered.rows old before response (by rw [kept, given])

theorem data_of_dequeued {id : Nat} {before after : Store}
    (edits : Edits queue.queue queue.lastId (Row.marked id .unack) before after) :
    ∀ row ∈ queue.queue after, ∃ old ∈ queue.queue before,
      old.id = row.id ∧ old.data.response = row.data.response := by
  intro row member
  obtain ⟨old, present, rfl⟩ := (edits.1 row).mp member
  exact ⟨old, present, (Row.marked_id _ _ _).symm, by rw [Row.marked_data]⟩

theorem Call.item_response (call : Call R) (prompt : String) :
    (call.item prompt).response = none := by
  unfold Call.item
  split <;> rfl

theorem answered_of_same (answered : Answered queue state) (after : Cluster Store R)
    (posted : ∀ request ∈ state.posted, request ∈ after.posted)
    (rows : ∀ row ∈ queue.queue after.store, ∀ response, row.data.response = some response →
      Supplied after row.id response)
    (finishWorks : after.finishWorks = state.finishWorks) : Answered queue after where
  rows := rows
  posted := by
    intro handler request member
    rw [finishWorks] at member
    exact posted request (answered.posted handler request member)
  fetched := by
    intro handler request item rest phase response given
    rw [finishWorks] at phase
    exact (answered.fetched handler request item rest phase response given).mono posted

theorem answered_of_update (answered : Answered queue state) (after : Cluster Store R)
    (handler : Nat) (phase : FinishWork R)
    (outcome : after.finishWorks = Function.update state.finishWorks handler phase)
    (posted : ∀ request ∈ state.posted, request ∈ after.posted)
    (rows : ∀ row ∈ queue.queue after.store, ∀ response, row.data.response = some response →
      Supplied after row.id response)
    (remaining : ∀ request ∈ phase.remaining, request ∈ after.posted)
    (fetched : ∀ request item rest, phase = .fetched request item rest →
      ∀ response, item.response = some response → Supplied after request.requestId response) :
    Answered queue after where
  rows := rows
  posted := by
    intro number request member
    by_cases hit : number = handler
    · subst hit
      rw [outcome, Function.update_self] at member
      exact remaining request member
    · rw [outcome, Function.update_of_ne hit] at member
      exact posted request (answered.posted number request member)
  fetched := by
    intro number request item rest now response given
    by_cases hit : number = handler
    · subst hit
      rw [outcome, Function.update_self] at now
      exact fetched request item rest now response given
    · rw [outcome, Function.update_of_ne hit] at now
      exact (answered.fetched number request item rest now response given).mono posted

/-- What `finish_work` writes back holds the response of its request or the one the
item had. -/
theorem finishItem_response (request : FinishRequest R) (item : Item R) (response : R)
    (given : (finishItem request item).response = some response) :
    request.response = some response ∨ item.response = some response := by
  simp only [finishItem] at given
  cases own : request.response with
  | none =>
      rw [own, Option.none_or] at given
      exact Or.inr given
  | some value =>
      rw [own, Option.some_or] at given
      exact Or.inl given

theorem mem_updateAndAck_cases (id : Nat) (item : Item R) (store : Store) (row : Row (Item R))
    (member : row ∈ queue.queue (updateAndAck queue id item store)) :
    ∃ old ∈ queue.queue store, old.id = row.id ∧
      (row.data = old.data ∨ row.id = id ∧ row.data = item) := by
  obtain ⟨between, first, rfl⟩ := ((queue.ack_edits id _).1 row).mp member
  obtain ⟨old, present, rfl⟩ := ((queue.update_edits id item store).1 between).mp first
  refine ⟨old, present, by rw [Row.marked_id, Row.updated_id], ?_⟩
  rw [Row.marked_id, Row.updated_id, Row.marked_data]
  by_cases hit : old.id = id
  · exact Or.inr ⟨hit, by rw [Row.updated, if_pos hit]⟩
  · exact Or.inl (by rw [Row.updated, if_neg hit])

theorem getIfFinished_supplied (answered : Answered queue state) (id : Nat) (item : Item R)
    (found : getIfFinished queue id state.store = some item) (response : R)
    (given : item.response = some response) : Supplied state id response := by
  obtain ⟨row, hit, rfl⟩ := Option.map_eq_some_iff.mp found
  have both := List.find?_some hit
  rw [decide_eq_true_iff] at both
  have same : row.id = id := both.1
  rw [← same]
  exact answered.rows row (List.mem_of_find?_eq_some hit) response given

end Supply

section Calls

variable {Store R : Type} (queue : AckQueue Store (Item R)) (state : Cluster Store R) (number : Nat)

def enqueued : List Accepted := state.accepted.filter fun entry => entry.call = number

/-- One result for each of the ids, in their order, and supplied responses only. -/
def ResultsFor (requestIds : List Nat) (results : List (Result R)) : Prop :=
  results.map Result.requestId = requestIds ∧
    ∀ result ∈ results, ∀ response, result.response = some response →
      Supplied state result.requestId response

def Complete (prompts : List String) : Prop :=
  (enqueued state number).map Accepted.prompt = prompts

def HandlerOk (prompts : List String) (requestIds : List Nat) : CallHandler R → Prop
  | .enqueuing rest => (enqueued state number).map Accepted.prompt ++ rest = prompts
  | .polling poll _ => Complete state number prompts ∧ PollFor requestIds poll ∧
      ∀ result ∈ poll.results, ∀ response, result.response = some response →
        Supplied state result.requestId response
  | .replied results => Complete state number prompts ∧ ResultsFor state requestIds results
  | .failed => True

def ClientOk (prompts : List String) (requestIds : List Nat) : Client R → Prop
  | .received results => Complete state number prompts ∧ ResultsFor state requestIds results
  | .returned responses => Complete state number prompts ∧
      ∃ results, ResultsFor state requestIds results ∧ responses = results.map Result.response ∧
        ∀ result ∈ results, ∃ response, result.response = some response
  | _ => True

structure CallOk (call : Call R) : Prop where
  handler : HandlerOk state number call.prompts call.requestIds call.handler
  client : ClientOk state number call.prompts call.requestIds call.client
  unstarted : call.client = .unstarted → enqueued state number = [] ∧ call.handler = .failed
  ids : call.client ≠ .unstarted → call.requestIds = (enqueued state number).map Accepted.id
  increasing : ((enqueued state number).map Accepted.id).Pairwise (· < ·)
  issued : ∀ entry ∈ enqueued state number, entry.id ≤ queue.lastId state.store

structure Sound : Prop where
  answered : Answered queue state
  calls : ∀ number, CallOk queue state number (state.calls number)

variable {queue state number}

section Frame

variable {after : Cluster Store R} (accepted : enqueued after number = enqueued state number)
  (posted : ∀ request ∈ state.posted, request ∈ after.posted)

include posted in
theorem ResultsFor.mono {requestIds : List Nat} {results : List (Result R)}
    (same : ResultsFor state requestIds results) : ResultsFor after requestIds results :=
  ⟨same.1, fun result member response given => (same.2 result member response given).mono posted⟩

include accepted posted

theorem HandlerOk.mono {prompts : List String} {requestIds : List Nat} {handler : CallHandler R}
    (ok : HandlerOk state number prompts requestIds handler) :
    HandlerOk after number prompts requestIds handler := by
  cases handler with
  | enqueuing rest =>
      simp only [HandlerOk, accepted]
      exact ok
  | polling poll answers =>
      obtain ⟨complete, same, supplied⟩ := ok
      refine ⟨?_, same, fun result member response given =>
        (supplied result member response given).mono posted⟩
      rw [Complete, accepted]
      exact complete
  | replied results =>
      refine ⟨?_, ok.2.mono posted⟩
      rw [Complete, accepted]
      exact ok.1
  | failed => trivial

theorem ClientOk.mono {prompts : List String} {requestIds : List Nat} {client : Client R}
    (ok : ClientOk state number prompts requestIds client) :
    ClientOk after number prompts requestIds client := by
  cases client with
  | received results =>
      refine ⟨?_, ok.2.mono posted⟩
      rw [Complete, accepted]
      exact ok.1
  | returned responses =>
      obtain ⟨complete, results, same, rest⟩ := ok
      refine ⟨?_, results, same.mono posted, rest⟩
      rw [Complete, accepted]
      exact complete
  | _ => trivial

theorem CallOk.mono {call : Call R} (ok : CallOk queue state number call)
    (lastId : queue.lastId state.store ≤ queue.lastId after.store) :
    CallOk queue after number call where
  handler := ok.handler.mono accepted posted
  client := ok.client.mono accepted posted
  unstarted := by
    rw [accepted]
    exact ok.unstarted
  ids := by
    rw [accepted]
    exact ok.ids
  increasing := by
    rw [accepted]
    exact ok.increasing
  issued := by
    rw [accepted]
    exact fun entry member => Nat.le_trans (ok.issued entry member) lastId

end Frame

theorem initial_sound : Sound queue (initial queue) where
  answered := initial_answered
  calls := fun _ => {
    handler := trivial
    client := trivial
    unstarted := fun _ => ⟨rfl, rfl⟩
    ids := fun started => absurd rfl started
    increasing := List.Pairwise.nil
    issued := List.forall_mem_nil _ }

/-- A step of one call that leaves everything else as it is. -/
theorem Sound.setCall (sound : Sound queue state) (number : Nat) (call : Call R)
    (ok : CallOk queue state number call) : Sound queue (state.setCall number call) where
  answered := ⟨sound.answered.rows, sound.answered.posted, sound.answered.fetched⟩
  calls := by
    intro other
    have kept : CallOk queue state other (Function.update state.calls number call other) := by
      by_cases hit : other = number
      · subst hit
        rw [Function.update_self]
        exact ok
      · rw [Function.update_of_ne hit]
        exact sound.calls other
    exact ⟨kept.handler, kept.client, kept.unstarted, kept.ids, kept.increasing, kept.issued⟩

/-- A step of the workers or of the queue leaves the calls as they are. -/
theorem Sound.of_frame (sound : Sound queue state) (after : Cluster Store R)
    (answered : Answered queue after) (calls : after.calls = state.calls)
    (accepted : after.accepted = state.accepted)
    (posted : ∀ request ∈ state.posted, request ∈ after.posted)
    (lastId : queue.lastId after.store = queue.lastId state.store) : Sound queue after where
  answered := answered
  calls := by
    intro number
    rw [calls]
    exact (sound.calls number).mono (by rw [enqueued, enqueued, accepted]) posted
      (Nat.le_of_eq lastId.symm)

section Call

variable {call : Call R} (ok : CallOk queue state number call)

include ok

theorem CallOk.started (alive : call.handler ≠ .failed) : call.client ≠ .unstarted :=
  fun unstarted => alive (ok.unstarted unstarted).2

theorem CallOk.setHandler (handler : CallHandler R) (started : call.client ≠ .unstarted)
    (fine : HandlerOk state number call.prompts call.requestIds handler) :
    CallOk queue state number { call with handler := handler } where
  handler := fine
  client := ok.client
  unstarted := fun unstarted => absurd unstarted started
  ids := ok.ids
  increasing := ok.increasing
  issued := ok.issued

theorem CallOk.setClient (client : Client R) (started : call.client ≠ .unstarted)
    (goesOn : client ≠ .unstarted)
    (fine : ClientOk state number call.prompts call.requestIds client) :
    CallOk queue state number { call with client := client } where
  handler := ok.handler
  client := fine
  unstarted := fun unstarted => absurd unstarted goesOn
  ids := fun _ => ok.ids started
  increasing := ok.increasing
  issued := ok.issued

theorem CallOk.requestIds_increasing (started : call.client ≠ .unstarted) :
    call.requestIds.Pairwise (· < ·) := by
  rw [ok.ids started]
  exact ok.increasing

theorem CallOk.enqueuedNext {after : Cluster Store R} (prompt : String) (rest : List String)
    (id : Nat) (phase : call.handler = .enqueuing (prompt :: rest))
    (grown : enqueued after number = enqueued state number ++ [⟨number, prompt, id⟩])
    (newer : queue.lastId state.store < id) (last : queue.lastId after.store = id) :
    CallOk queue after number { call with
      handler := .enqueuing rest
      requestIds := call.requestIds ++ [id] } := by
  have fine : (enqueued state number).map Accepted.prompt ++ prompt :: rest = call.prompts := by
    have handler := ok.handler
    rwa [phase] at handler
  have started := ok.started (by rw [phase]; nofun)
  constructor
  · simp only [HandlerOk, grown, List.map_append, List.append_assoc]
    exact fine
  · -- a client that has a result has all its prompts on the queue
    have incomplete : ¬ Complete state number call.prompts := by
      intro complete
      rw [Complete] at complete
      rw [← complete] at fine
      exact absurd (List.append_right_eq_self.mp fine) (List.cons_ne_nil _ _)
    have client := ok.client
    cases held : call.client with
    | received results =>
        rw [held] at client
        exact absurd client.1 incomplete
    | returned responses =>
        rw [held] at client
        exact absurd client.1 incomplete
    | _ => trivial
  · exact fun unstarted => absurd unstarted started
  · intro _
    rw [grown, List.map_append, ok.ids started]
    rfl
  · rw [grown, List.map_append, List.pairwise_append]
    refine ⟨ok.increasing, List.pairwise_singleton _ _, ?_⟩
    intro earlier member new fresh
    obtain ⟨entry, old, rfl⟩ := List.mem_map.mp member
    rw [List.mem_singleton.mp fresh]
    exact Nat.lt_of_le_of_lt (ok.issued entry old) newer
  · intro entry member
    rw [grown] at member
    rw [last]
    rcases List.mem_append.mp member with old | new
    · exact Nat.le_of_lt (Nat.lt_of_le_of_lt (ok.issued entry old) newer)
    · rw [List.mem_singleton.mp new]

omit ok in
theorem emptyResults (requestIds : List Nat) :
    ResultsFor state requestIds (requestIds.map emptyResult) := by
  refine ⟨emptyResult_ids requestIds, ?_⟩
  intro result member response given
  obtain ⟨id, _, rfl⟩ := List.mem_map.mp member
  cases given

end Call

section CallSteps

variable (sound : Sound queue state) (number : Nat)

include sound

theorem submit_sound (requestType : RequestType) (prompts : List String) (model : Option String)
    (maxTokens : Option Int) :
    Sound queue (submit state number requestType prompts model maxTokens) := by
  have ok := sound.calls number
  unfold submit
  split
  · rename_i unstarted
    have empty := (ok.unstarted unstarted).1
    apply sound.setCall
    exact {
      handler := by
        cases model with
        | some model => simp [HandlerOk, empty]
        | none => trivial
      client := trivial
      unstarted := nofun
      ids := fun _ => by rw [empty]; rfl
      increasing := ok.increasing
      issued := ok.issued }
  · exact sound

theorem enqueueRaises_sound : Sound queue (enqueueRaises state number) := by
  have ok := sound.calls number
  unfold enqueueRaises
  dsimp only
  split
  · rename_i rest phase
    exact sound.setCall number _
      (ok.setHandler .failed (ok.started (by rw [phase]; nofun)) trivial)
  · exact sound

theorem pollPass_sound (timedOut : Bool) : Sound queue (pollPass state number timedOut) := by
  have ok := sound.calls number
  unfold pollPass
  dsimp only
  split
  · rename_i poll answers phase
    have started := ok.started (by rw [phase]; nofun)
    have fine := ok.handler
    rw [phase] at fine
    obtain ⟨complete, same, supplied⟩ := fine
    split
    · apply sound.setCall
      apply ok.setHandler _ started
      split
      · exact ⟨complete, same.again, supplied⟩
      · refine ⟨complete, same.finish_ids (ok.requestIds_increasing started), ?_⟩
        intro result member response given
        rcases Poll.mem_finish member with old | ⟨-, missing, -⟩
        · exact supplied result old response given
        · rw [missing] at given
          cases given
    · exact sound
  · exact sound

theorem pollNext_sound : Sound queue (pollNext queue state number) := by
  have ok := sound.calls number
  unfold pollNext
  dsimp only
  split
  · rename_i poll answers phase
    have fine := ok.handler
    rw [phase] at fine
    obtain ⟨complete, same, supplied⟩ := fine
    apply sound.setCall
    apply ok.setHandler _ (ok.started (by rw [phase]; nofun))
    refine ⟨complete, same.next _, ?_⟩
    intro result member response given
    rcases poll.mem_next _ result member with old | ⟨item, found, answer⟩
    · exact supplied result old response given
    · exact getIfFinished_supplied sound.answered _ item found response (answer ▸ given)
  · exact sound

theorem pollRaises_sound : Sound queue (pollRaises state number) := by
  have ok := sound.calls number
  unfold pollRaises
  dsimp only
  split
  · rename_i poll phase
    have fine := ok.handler
    rw [phase] at fine
    exact sound.setCall number _ (ok.setHandler _ (ok.started (by rw [phase]; nofun))
      ⟨fine.1, emptyResults _⟩)
  · rename_i poll phase
    exact sound.setCall number _ (ok.setHandler .failed (ok.started (by rw [phase]; nofun)) trivial)
  · exact sound

theorem receive_sound : Sound queue (receive state number) := by
  have ok := sound.calls number
  unfold receive
  dsimp only
  split
  · rename_i results waiting phase
    have fine := ok.handler
    rw [phase] at fine
    exact sound.setCall number _ (ok.setClient _ (by rw [waiting]; nofun) nofun fine)
  · exact sound

theorem check_sound : Sound queue (check state number) := by
  have ok := sound.calls number
  unfold check
  dsimp only
  split
  · rename_i results received
    have started : (state.calls number).client ≠ .unstarted := by
      rw [received]
      nofun
    have fine := ok.client
    rw [received] at fine
    obtain ⟨complete, same⟩ := fine
    split
    · exact sound.setCall number _ (ok.setClient .raised started nofun trivial)
    · rename_i finished
      exact sound.setCall number _ (ok.setClient _ started nofun
        ⟨complete, results, same, rfl, isFinished_responses results finished⟩)
    · apply sound.setCall
      refine (ok.setClient .waiting started nofun trivial).setHandler _ nofun ?_
      refine ⟨complete, ?_, List.forall_mem_nil _⟩
      rw [same.1]
      exact PollFor.start _
  · exact sound

theorem clientRaises_sound : Sound queue (clientRaises state number) := by
  have ok := sound.calls number
  unfold clientRaises
  dsimp only
  split
  · rename_i phase
    exact sound.setCall number _ (ok.setClient .raised (by rw [phase]; nofun) nofun trivial)
  · rename_i results phase
    exact sound.setCall number _ (ok.setClient .raised (by rw [phase]; nofun) nofun trivial)
  · exact sound

omit sound in
theorem enqueued_append (entry : Accepted) (after : Cluster Store R)
    (accepted : after.accepted = state.accepted ++ [entry]) (other : Nat) :
    enqueued after other =
      enqueued state other ++ if entry.call = other then [entry] else [] := by
  rw [enqueued, enqueued, accepted, List.filter_append]
  congr 1
  by_cases hit : entry.call = other <;> simp [hit]

theorem enqueue_sound : Sound queue (enqueue queue state number) := by
  have ok := sound.calls number
  unfold enqueue
  dsimp only
  split
  · rename_i phase
    have fine := ok.handler
    rw [phase] at fine
    have complete : Complete state number (state.calls number).prompts :=
      (List.append_nil _).symm.trans fine
    exact sound.setCall number _ (ok.setHandler _ (ok.started (by rw [phase]; nofun))
      ⟨complete, PollFor.start _, List.forall_mem_nil _⟩)
  · rename_i prompt rest phase
    have newer := queue.put_id ((state.calls number).item prompt) state.store
    have last := queue.put_lastId ((state.calls number).item prompt) state.store
    let after : Cluster Store R := { state with
      store := (queue.put ((state.calls number).item prompt) state.store).2
      accepted := state.accepted ++
        [⟨number, prompt, (queue.put ((state.calls number).item prompt) state.store).1⟩]
      calls := Function.update state.calls number { state.calls number with
        handler := .enqueuing rest
        requestIds := (state.calls number).requestIds ++
          [(queue.put ((state.calls number).item prompt) state.store).1] } }
    have grown : ∀ other, enqueued after other = enqueued state other ++
        if number = other then
          [⟨number, prompt, (queue.put ((state.calls number).item prompt) state.store).1⟩]
        else [] := enqueued_append _ after rfl
    change Sound queue after
    constructor
    · refine answered_of_same sound.answered _ (fun _ member => member) ?_ rfl
      intro row member response given
      rcases (queue.put_queue _ _ row).mp member with old | rfl
      · exact sound.answered.rows row old response given
      · rw [Call.item_response] at given
        cases given
    · intro other
      by_cases hit : other = number
      · subst hit
        have here := grown other
        rw [if_pos rfl] at here
        have now : after.calls other = { state.calls other with
            handler := .enqueuing rest
            requestIds := (state.calls other).requestIds ++
              [(queue.put ((state.calls other).item prompt) state.store).1] } :=
          Function.update_self _ _ _
        rw [now]
        exact ok.enqueuedNext prompt rest _ phase here newer last
      · have same := grown other
        rw [if_neg (fun equal => hit equal.symm), List.append_nil] at same
        have now : after.calls other = state.calls other := Function.update_of_ne hit _ _
        rw [now]
        exact (sound.calls other).mono same (fun _ member => member)
          (Nat.le_of_lt (Nat.lt_of_lt_of_eq newer last.symm))
  · exact sound

end CallSteps

section WorkSteps

variable (sound : Sound queue state)

include sound

theorem onlyLoops_sound (event : Event R) (only : event.OnlyLoops) :
    Sound queue (step queue state event) := by
  obtain ⟨workers, getWorks, outcome⟩ := step_onlyLoops queue state event only
  rw [outcome]
  exact sound.of_frame _ (answered_of_same sound.answered _ (fun _ member => member)
    sound.answered.rows rfl) rfl rfl (fun _ member => member) rfl

theorem dequeue_sound (handler : Nat) : Sound queue (dequeue queue state handler) := by
  rcases dequeue_cases queue state handler with
    ⟨id, item, phase, _, found, outcome, _⟩ | ⟨_, phase, outcome, _⟩
  · have edits := (queue.get_some state.store id item found).2.2
    rw [outcome]
    refine sound.of_frame _ ?_ rfl rfl (fun _ member => member) edits.2
    exact answered_of_same sound.answered _ (fun _ member => member)
      (rows_of_data sound.answered _ (data_of_dequeued edits)) rfl
  · rw [outcome]
    exact sound.of_frame _ (answered_of_same sound.answered _ (fun _ member => member)
      sound.answered.rows rfl) rfl rfl (fun _ member => member) rfl

theorem post_sound (handler : Nat) (requests : List (FinishRequest R)) (workers : Nat → Worker) :
    Sound queue { state with
      workers := workers
      finishWorks := Function.update state.finishWorks handler (.next requests)
      posted := state.posted ++ requests } := by
  have grows : ∀ request ∈ state.posted, request ∈ state.posted ++ requests :=
    fun _ member => List.mem_append_left _ member
  refine sound.of_frame _ ?_ rfl rfl grows rfl
  refine answered_of_update sound.answered _ handler (.next requests) rfl grows ?_ ?_ nofun
  · intro row member response given
    exact (sound.answered.rows row member response given).mono grows
  · exact fun _ member => List.mem_append_right _ member

theorem postResults_sound (worker handler : Nat) (results : List (Option R × Option String)) :
    Sound queue (postResults state worker handler results) := by
  unfold postResults
  split
  · split
    · exact post_sound sound handler _ _
    · exact sound
  · exact sound

theorem postFinish_sound (handler : Nat) (requests : List (FinishRequest R)) :
    Sound queue (postFinish state handler requests) := by
  unfold postFinish
  split
  · exact post_sound sound handler requests state.workers
  · exact sound

theorem failed_sound (handler : Nat) : Sound queue (state.setFinish handler .failed) :=
  sound.of_frame _ (answered_of_update sound.answered _ handler .failed rfl (fun _ member => member)
    sound.answered.rows (List.forall_mem_nil _) nofun) rfl rfl (fun _ member => member) rfl

theorem finishRaises_sound (handler : Nat) : Sound queue (finishRaises state handler) := by
  unfold finishRaises
  split
  · exact sound
  · exact failed_sound sound handler

theorem finishGet_sound (handler : Nat) : Sound queue (finishGet queue state handler) := by
  unfold finishGet
  split
  · rename_i request rest phase
    split
    · rename_i item store found
      obtain ⟨⟨row, member, same, data⟩, edits⟩ :=
        queue.getId_some request.requestId state.store item (by rw [found])
      rw [found] at edits
      refine sound.of_frame _ ?_ rfl rfl (fun _ member => member) edits.2
      refine answered_of_update sound.answered _ handler (.fetched request item rest) rfl
        (fun _ member => member) ?_ ?_ ?_
      · exact rows_of_data sound.answered store (data_of_dequeued edits)
      · intro other remains
        exact sound.answered.posted handler other (by rw [phase]; exact remains)
      · intro _ _ _ equal response given
        rcases equal with ⟨rfl, rfl, rfl⟩
        rw [← same]
        exact sound.answered.rows row member response (by rw [data, given])
    · exact failed_sound sound handler
  · exact sound

theorem finishUpdate_sound (handler : Nat) : Sound queue (finishUpdate queue state handler) := by
  unfold finishUpdate
  split
  · rename_i request item rest phase
    have lastId : queue.lastId (updateAndAck queue request.requestId (finishItem request item)
        state.store) = queue.lastId state.store :=
      (queue.ack_edits _ _).2.trans (queue.update_edits _ _ _).2
    have posted := sound.answered.posted handler
    rw [phase] at posted
    refine sound.of_frame _ ?_ rfl rfl (fun _ member => member) lastId
    refine answered_of_update sound.answered _ handler (.next rest) rfl
      (fun _ member => member) ?_ ?_ nofun
    · intro row member response given
      obtain ⟨old, before, same, kept | ⟨hit, written⟩⟩ := mem_updateAndAck_cases _ _ _ row member
      · rw [← same]
        exact sound.answered.rows old before response (by rw [← kept, given])
      · rw [written] at given
        rw [hit]
        rcases finishItem_response request item response given with own | fetched
        · exact ⟨request, posted request List.mem_cons_self, rfl, own⟩
        · exact sound.answered.fetched handler request item rest phase response fetched
    · exact fun other member => posted other (List.mem_cons_of_mem _ member)
  · exact sound

theorem clearAcked_sound : Sound queue (step queue state .clearAcked) := by
  refine sound.of_frame _ ?_ rfl rfl (fun _ member => member) (queue.clear_lastId state.store)
  refine answered_of_same sound.answered _ (fun _ member => member) ?_ rfl
  exact fun row member => sound.answered.rows row (queue.clear_queue state.store row member)

theorem restartServer_sound : Sound queue (restartServer queue state) := by
  have edits := queue.resume_edits state.store
  constructor
  · refine ⟨?_, ?_, ?_⟩
    · refine rows_of_data sound.answered _ ?_
      intro row member
      obtain ⟨old, present, rfl⟩ := (edits.1 row).mp member
      exact ⟨old, present, (Row.resumed_id old).symm, by rw [Row.resumed_data]⟩
    · intro handler request member
      simp only [restartServer] at member
      cases phase : state.finishWorks handler <;> rw [phase] at member <;> cases member
    · intro handler request item rest now
      simp only [restartServer] at now
      cases phase : state.finishWorks handler <;> rw [phase] at now <;> cases now
  · intro number
    have ok := sound.calls number
    have kept : CallOk queue state number { state.calls number with handler := .failed } := {
      handler := trivial
      client := ok.client
      unstarted := fun unstarted => ⟨(ok.unstarted unstarted).1, rfl⟩
      ids := ok.ids
      increasing := ok.increasing
      issued := ok.issued }
    have same : enqueued (restartServer queue state) number = enqueued state number := rfl
    exact kept.mono same (fun _ member => member) (Nat.le_of_eq edits.2.symm)

theorem step_sound (event : Event R) : Sound queue (step queue state event) := by
  cases event with
  | submit call requestType prompts model maxTokens =>
      exact submit_sound sound call requestType prompts model maxTokens
  | enqueue call => exact enqueue_sound sound call
  | enqueueRaises call => exact enqueueRaises_sound sound call
  | pollPass call timedOut => exact pollPass_sound sound call timedOut
  | pollNext call => exact pollNext_sound sound call
  | pollRaises call => exact pollRaises_sound sound call
  | receive call => exact receive_sound sound call
  | check call => exact check_sound sound call
  | clientRaises call => exact clientRaises_sound sound call
  | dequeue handler => exact dequeue_sound sound handler
  | postResults worker handler results => exact postResults_sound sound worker handler results
  | postFinish handler requests => exact postFinish_sound sound handler requests
  | finishGet handler => exact finishGet_sound sound handler
  | finishUpdate handler => exact finishUpdate_sound sound handler
  | finishRaises handler => exact finishRaises_sound sound handler
  | clearAcked => exact clearAcked_sound sound
  | restartServer => exact restartServer_sound sound
  | _ => exact onlyLoops_sound sound _ trivial

end WorkSteps

end Calls

section Runs

variable {Store R : Type} (queue : AckQueue Store (Item R))

theorem run_sound (events : List (Event R)) :
    Sound queue (run (step queue) (initial queue) events) :=
  run_of_invariant _ (Sound queue) (fun _ _ => True) (fun _ event sound _ => step_sound sound event)
    _ _ initial_sound (allSteps_of_forall _ _ (fun _ _ => trivial) _ _)

/-- One response for each prompt of the call, in their order, and each was supplied for
the id that the prompt was enqueued under. -/
structure Corresponds (state : Cluster Store R) (number : Nat) (responses : List (Option R)) :
    Prop where
  length : responses.length = (state.calls number).prompts.length
  answered : ∀ (index : Nat) (prompt : String),
    (state.calls number).prompts[index]? = some prompt →
      ∃ (entry : Accepted) (response : R), (enqueued state number)[index]? = some entry ∧
        entry.prompt = prompt ∧ responses[index]? = some (some response) ∧
        Supplied state entry.id response

/-- Whatever an SDK call returns corresponds to its prompts. -/
theorem responses_correspond (events : List (Event R)) (number : Nat)
    (responses : List (Option R))
    (returned : ((run (step queue) (initial queue) events).calls number).client =
      .returned responses) :
    Corresponds (run (step queue) (initial queue) events) number responses := by
  have ok := (run_sound queue events).calls number
  have client := ok.client
  rw [returned] at client
  obtain ⟨complete, results, ⟨same, supplied⟩, rfl, answered⟩ := client
  rw [ok.ids (by rw [returned]; nofun)] at same
  rw [Complete] at complete
  have sameLength := congrArg List.length same
  rw [List.length_map, List.length_map] at sameLength
  constructor
  · rw [← complete, List.length_map, List.length_map, sameLength]
  · intro index prompt asked
    rw [← complete, List.getElem?_map] at asked
    obtain ⟨entry, position, rfl⟩ := Option.map_eq_some_iff.mp asked
    have ids : (results.map Result.requestId)[index]? = some entry.id := by
      rw [same, List.getElem?_map, position]
      rfl
    rw [List.getElem?_map] at ids
    obtain ⟨result, place, own⟩ := Option.map_eq_some_iff.mp ids
    have member := List.mem_of_getElem? place
    obtain ⟨response, given⟩ := answered result member
    refine ⟨entry, response, position, rfl, ?_, ?_⟩
    · rw [List.getElem?_map, place, Option.map_some, given]
    · rw [← own]
      exact supplied result member response given

end Runs

/-- Two calls whose puts interleave; the first one polls again before its second
prompt is answered. -/
def interleavedCalls : List (Event String) := [
  .submit 0 .generate ["first", "second"] (some "model") (some 16),
  .submit 1 .generate ["other"] (some "model") (some 16),
  .enqueue 0, .enqueue 1, .enqueue 0, .enqueue 0,
  .startStep 0 0 2, .dequeue 0, .dequeue 0, .dequeue 0, .receiveWork 0,
  .postResults 0 0 [(some "one", none), (some "two", none)],
  .finishGet 0, .finishUpdate 0, .finishGet 0, .finishUpdate 0, .finishStep 0,
  .pollPass 0 false, .pollNext 0, .pollNext 0, .pollPass 0 true, .receive 0, .check 0,
  .startStep 0 1 1, .dequeue 1, .dequeue 1, .receiveWork 0,
  .postResults 0 1 [(some "three", none)], .finishGet 1, .finishUpdate 1, .finishStep 0,
  .pollPass 0 false, .pollNext 0, .pollNext 0, .pollPass 0 false, .receive 0, .check 0]

theorem interleaved_correspond :
    Corresponds (run (step (tableQueue (Item String))) (initial (tableQueue (Item String)))
      interleavedCalls) 0 [some "one", some "three"] :=
  responses_correspond (tableQueue (Item String)) interleavedCalls 0 _ rfl

end ScalarLM.Queue
