import ScalarLM.Queue.Cluster

/-! What the steps of the inference service do to one SDK call. -/

namespace ScalarLM.Queue

section Calls

variable {R : Type}

def Call.poll (call : Call R) : Option (Poll R) :=
  match call.handler with
  | .polling poll _ => some poll
  | _ => none

def Call.Awaits (call : Call R) : Prop :=
  call.client = .waiting ∨ ∃ results, call.client = .received results

end Calls

section Other

variable {Store R : Type} (queue : AckQueue Store (Item R))

def Event.call : Event R → Option Nat
  | .submit number _ _ _ _ => some number
  | .enqueue number => some number
  | .enqueueRaises number => some number
  | .pollPass number _ => some number
  | .pollNext number => some number
  | .pollRaises number => some number
  | .receive number => some number
  | .check number => some number
  | .clientRaises number => some number
  | _ => none

theorem setCall_self (state : Cluster Store R) (call : Call R) (number : Nat) :
    (state.setCall number call).calls number = call :=
  Function.update_self _ _ _

theorem setCall_other (state : Cluster Store R) (call : Call R) (number other : Nat)
    (apart : other ≠ number) :
    (state.setCall number call).calls other = state.calls other :=
  Function.update_of_ne apart _ _

theorem step_call_other (state : Cluster Store R) (event : Event R) (other : Nat)
    (apart : event.call ≠ some other) (running : event ≠ .restartServer) :
    (step queue state event).calls other = state.calls other := by
  have away (number : Nat) (about : event.call = some number) : other ≠ number := by
    intro same
    rw [same] at apart
    exact apart about
  have loops (only : event.OnlyLoops) : (step queue state event).calls = state.calls := by
    obtain ⟨workers, getWorks, outcome⟩ := step_onlyLoops queue state event only
    rw [outcome]
  have posts (only : event.OnlyPosts) : (step queue state event).calls = state.calls := by
    obtain ⟨workers, finishWorks, posted, outcome, _⟩ := step_onlyPosts queue state event only
    rw [outcome]
  cases event with
  | submit number requestType prompts model maxTokens =>
      simp only [step, submit]
      split
      · exact setCall_other state _ number other (away number rfl)
      · rfl
  | enqueue number =>
      simp only [step, enqueue]
      split
      · exact setCall_other state _ number other (away number rfl)
      · exact Function.update_of_ne (away number rfl) _ _
      · rfl
  | enqueueRaises number =>
      simp only [step, enqueueRaises]
      split
      · exact setCall_other state _ number other (away number rfl)
      · rfl
  | pollPass number timedOut =>
      simp only [step, pollPass]
      split
      · split
        · exact setCall_other state _ number other (away number rfl)
        · rfl
      · rfl
  | pollNext number =>
      simp only [step, pollNext]
      split
      · exact setCall_other state _ number other (away number rfl)
      · rfl
  | pollRaises number =>
      simp only [step, pollRaises]
      split
      · exact setCall_other state _ number other (away number rfl)
      · exact setCall_other state _ number other (away number rfl)
      · rfl
  | receive number =>
      simp only [step, receive]
      split
      · exact setCall_other state _ number other (away number rfl)
      · rfl
  | check number =>
      simp only [step, check]
      split
      · split <;> exact setCall_other state _ number other (away number rfl)
      · rfl
  | clientRaises number =>
      simp only [step, clientRaises]
      split
      · exact setCall_other state _ number other (away number rfl)
      · exact setCall_other state _ number other (away number rfl)
      · rfl
  | dequeue handler =>
      rcases dequeue_cases queue state handler with
        ⟨_, _, _, _, _, outcome, _⟩ | ⟨_, _, outcome, _⟩
      · rw [step, outcome]
      · rw [step, outcome]
  | finishGet handler =>
      simp only [step, finishGet]
      split
      · split <;> rfl
      · rfl
  | finishUpdate handler =>
      simp only [step, finishUpdate]
      split <;> rfl
  | postResults | postFinish | finishRaises => rw [posts trivial]
  | clearAcked => rfl
  | restartServer => exact absurd rfl running
  | startStep | getWorkStops | receiveWork | finishStep | stepRaises =>
      rw [loops trivial]

end Other

section Steps

variable {Store R : Type} (queue : AckQueue Store (Item R)) (state : Cluster Store R)
  (number : Nat)

def pollStarts (state : Cluster Store R) : Event R → Option Nat
  | .enqueue number =>
      match (state.calls number).handler with
      | .enqueuing [] => some number
      | _ => none
  | .check number =>
      match (state.calls number).client with
      | .received results => if isFinished results = some false then some number else none
      | _ => none
  | _ => none

theorem pollStarts_call (event : Event R) (starts : pollStarts state event = some number) :
    event.call = some number := by
  cases event with
  | enqueue other =>
      simp only [pollStarts] at starts
      split at starts
      · exact starts
      · cases starts
  | check other =>
      simp only [pollStarts] at starts
      split at starts
      · split at starts
        · exact starts
        · cases starts
      · cases starts
  | _ => cases starts

inductive CallStep : Event R → Call R → Prop where
  | same (event : Event R) (quiet : pollStarts state event ≠ some number)
      (busy : ∀ timedOut poll, event = .pollPass number timedOut →
        (state.calls number).poll = some poll → poll.pending ≠ []) :
      CallStep event (state.calls number)
  | submit (requestType : RequestType) (prompts : List String) (model : Option String)
      (maxTokens : Option Int) (call : Call R) (ids : call.requestIds = [])
      (idle : call.poll = none) :
      CallStep (.submit number requestType prompts model maxTokens) call
  | put (item : Item R) (rest : List String) :
      CallStep (.enqueue number) { state.calls number with
        handler := .enqueuing rest
        requestIds := (state.calls number).requestIds ++ [(queue.put item state.store).1] }
  | start (phase : (state.calls number).handler = .enqueuing []) :
      CallStep (.enqueue number) { state.calls number with
        handler := .polling (.start (state.calls number).requestIds) true }
  | pass (poll : Poll R) (answers timedOut : Bool)
      (phase : (state.calls number).handler = .polling poll answers) (ended : poll.pending = [])
      (again : poll.again timedOut = true) :
      CallStep (.pollPass number timedOut) { state.calls number with
        handler := .polling { poll with pending := poll.requestIds } answers }
  | next (poll : Poll R) (answers : Bool)
      (phase : (state.calls number).handler = .polling poll answers) :
      CallStep (.pollNext number) { state.calls number with
        handler := .polling (poll.next fun id => getIfFinished queue id state.store) answers }
  | stop (event : Event R) (handler : CallHandler R)
      (stopped : ∀ poll answers, handler ≠ .polling poll answers) :
      CallStep event { state.calls number with handler := handler }
  | receive (results : List (Result R)) (waiting : (state.calls number).client = .waiting)
      (replied : (state.calls number).handler = .replied results) :
      CallStep (.receive number) { state.calls number with client := .received results }
  | again (results : List (Result R)) (received : (state.calls number).client = .received results)
      (unfinished : isFinished results = some false) :
      CallStep (.check number) { state.calls number with
        client := .waiting
        handler := .polling (.start (results.map Result.requestId)) false }
  | leave (event : Event R) (client : Client R) (quiet : pollStarts state event ≠ some number)
      (left : client ≠ .waiting ∧ ∀ results, client ≠ .received results) :
      CallStep event { state.calls number with client := client }

theorem CallStep.idle {queue : AckQueue Store (Item R)} {state : Cluster Store R} {number : Nat}
    (event : Event R) (quiet : pollStarts state event = none)
    (apart : ∀ timedOut, event ≠ .pollPass number timedOut) :
    CallStep queue state number event (state.calls number) := by
  refine .same event ?_ fun timedOut poll passes => absurd passes (apart timedOut)
  rw [quiet]
  exact (Option.some_ne_none number).symm

theorem enqueue_callStep :
    CallStep queue state number (.enqueue number)
      ((step queue state (.enqueue number)).calls number) := by
  cases phase : (state.calls number).handler with
  | enqueuing rest =>
      cases rest with
      | nil =>
          simp only [step, enqueue, phase]
          rw [setCall_self]
          exact .start phase
      | cons prompt rest =>
          simp only [step, enqueue, phase]
          rw [Function.update_self]
          exact .put _ rest
  | _ =>
      simp only [step, enqueue, phase]
      exact .idle _ (by simp [pollStarts, phase]) (by simp)

theorem pollPass_callStep (timedOut : Bool) :
    CallStep queue state number (.pollPass number timedOut)
      ((step queue state (.pollPass number timedOut)).calls number) := by
  simp only [step, pollPass]
  split
  · rename_i poll answers phase
    split
    · rename_i ended
      rw [setCall_self]
      split
      · rename_i again
        exact .pass poll answers timedOut phase ended again
      · exact .stop _ _ (by simp)
    · rename_i next others ahead
      refine .same _ (by simp [pollStarts]) fun _ current _ now => ?_
      rw [Call.poll, phase, Option.some.injEq] at now
      rw [← now, ahead]
      exact List.cons_ne_nil next others
  · rename_i idle
    refine .same _ (by simp [pollStarts]) fun _ current _ now => ?_
    rw [Call.poll] at now
    split at now
    · rename_i poll answers phase
      exact absurd phase (idle poll answers)
    · cases now

theorem check_callStep :
    CallStep queue state number (.check number)
      ((step queue state (.check number)).calls number) := by
  cases received : (state.calls number).client with
  | received results =>
      cases finished : isFinished results with
      | none =>
          simp only [step, check, received, finished]
          rw [setCall_self]
          refine .leave _ .raised ?_ ⟨by simp, by simp⟩
          simp [pollStarts, received, finished]
      | some all =>
          cases all with
          | true =>
              simp only [step, check, received, finished]
              rw [setCall_self]
              refine .leave _ (.returned (results.map Result.response)) ?_ ⟨by simp, by simp⟩
              simp [pollStarts, received, finished]
          | false =>
              simp only [step, check, received, finished]
              rw [setCall_self]
              exact .again results received finished
  | _ =>
      simp only [step, check, received]
      exact .idle _ (by simp [pollStarts, received]) (by simp)

theorem step_callStep (event : Event R) :
    CallStep queue state number event ((step queue state event).calls number) := by
  by_cases about : event.call = some number
  · cases event with
    | submit other requestType prompts model maxTokens =>
        obtain rfl : other = number := Option.some.inj about
        simp only [step, submit]
        split
        · rw [setCall_self]
          refine .submit requestType prompts model maxTokens _ rfl ?_
          cases model <;> rfl
        · exact .idle _ rfl (by simp)
    | enqueue other =>
        obtain rfl : other = number := Option.some.inj about
        exact enqueue_callStep queue state other
    | enqueueRaises other =>
        obtain rfl : other = number := Option.some.inj about
        simp only [step, enqueueRaises]
        split
        · rw [setCall_self]
          exact .stop _ .failed (by simp)
        · exact .idle _ rfl (by simp)
    | pollPass other timedOut =>
        obtain rfl : other = number := Option.some.inj about
        exact pollPass_callStep queue state other timedOut
    | pollNext other =>
        obtain rfl : other = number := Option.some.inj about
        simp only [step, pollNext]
        split
        · rename_i poll answers phase
          rw [setCall_self]
          exact .next poll answers phase
        · exact .idle _ rfl (by simp)
    | pollRaises other =>
        obtain rfl : other = number := Option.some.inj about
        simp only [step, pollRaises]
        split
        · rw [setCall_self]
          exact .stop _ _ (by simp)
        · rw [setCall_self]
          exact .stop _ _ (by simp)
        · exact .idle _ rfl (by simp)
    | receive other =>
        obtain rfl : other = number := Option.some.inj about
        simp only [step, receive]
        split
        · rename_i results waiting replied
          rw [setCall_self]
          exact .receive results waiting replied
        · exact .idle _ rfl (by simp)
    | check other =>
        obtain rfl : other = number := Option.some.inj about
        exact check_callStep queue state other
    | clientRaises other =>
        obtain rfl : other = number := Option.some.inj about
        simp only [step, clientRaises]
        split
        · rw [setCall_self]
          exact .leave _ .raised (by simp [pollStarts]) ⟨by simp, by simp⟩
        · rw [setCall_self]
          exact .leave _ .raised (by simp [pollStarts]) ⟨by simp, by simp⟩
        · exact .idle _ rfl (by simp)
    | _ => cases about
  · by_cases restart : event = .restartServer
    · subst restart
      exact .stop _ .failed (fun _ _ same => by cases same)
    · rw [step_call_other queue state event number about restart]
      refine .same event (fun starts => about (pollStarts_call state number event starts)) ?_
      intro timedOut poll passes
      rw [passes] at about
      exact absurd rfl about

end Steps

end ScalarLM.Queue
