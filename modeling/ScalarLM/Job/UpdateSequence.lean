import ScalarLM.Job.JobSteps

/-! Whether a job that was restarted performs the updates of an uninterrupted one. -/

namespace ScalarLM.Job

open Transition

section Uninterrupted

variable {Batch : Type} (dataset : Dataset Batch)

def draws : Nat → Option (List (Nat × Batch) × DataLoader Batch)
  | 0 => some ([], .start dataset)
  | count + 1 =>
      match draws count with
      | none => none
      | some (updates, loader) =>
          match loader.next dataset with
          | none => none
          | some (batch, rest) => some (updates ++ [(count, batch)], rest)

def uninterrupted (maxSteps : Int) : Option (List (Nat × Batch)) :=
  (draws dataset maxSteps.toNat).map Prod.fst

variable {dataset}

theorem draws_succ {count : Nat} {updates : List (Nat × Batch)} {loader rest : DataLoader Batch}
    {batch : Batch} (drawn : draws dataset count = some (updates, loader))
    (next : loader.next dataset = some (batch, rest)) :
    draws dataset (count + 1) = some (updates ++ [(count, batch)], rest) := by
  simp only [draws, drawn, next]

theorem draws_steps (count : Nat) (updates : List (Nat × Batch)) (loader : DataLoader Batch)
    (drawn : draws dataset count = some (updates, loader)) :
    updates.map Prod.fst = List.range count := by
  induction count generalizing updates loader with
  | zero =>
      obtain ⟨rfl, _⟩ := Prod.mk.inj (Option.some.inj drawn)
      rfl
  | succ count ih =>
      rw [draws] at drawn
      cases before : draws dataset count with
      | none =>
          rw [before] at drawn
          cases drawn
      | some earlier =>
          rw [before] at drawn
          dsimp only at drawn
          cases next : earlier.2.next dataset with
          | none =>
              rw [next] at drawn
              cases drawn
          | some drawing =>
              rw [next] at drawn
              obtain ⟨rfl, _⟩ := Prod.mk.inj (Option.some.inj drawn)
              rw [List.map_append, ih earlier.1 earlier.2 before, List.range_succ]
              rfl

end Uninterrupted

section Lineage

variable {Batch History : Type} (config : JobConfig) (dataset : Dataset Batch)

def EndsWith (updates : List (Nat × Batch)) (step : Nat) : Prop :=
  (∃ front batch, updates = front ++ [(step, batch)]) ∧ (step : Int) < config.maxSteps

/-- Checkpoints are named by the last update that they contain. -/
structure Named (job : TrainingJob Batch History) : Prop where
  files : ∀ step checkpoint, (step, .complete checkpoint) ∈ job.files →
    EndsWith config checkpoint.updates checkpoint.step
  process : ∀ process epoch, job.process = some process → process.epoch = some epoch →
    EndsWith config process.updates process.currentStep
  writing : ∀ process checkpoint final, job.process = some process →
    process.phase = .writing checkpoint final →
      EndsWith config checkpoint.updates checkpoint.step

/-- A process that started with the given files has performed the updates of the latest
checkpoint, if there is one, and then its own from the first batch on. -/
inductive Lineage (files : Dict Nat (FileContent Batch)) (process : Process Batch History) :
    Prop where
  | fresh (empty : files.keys = [])
      (drawn : draws dataset process.nextStep = some (process.updates, process.loader))
      (bound : process.nextStep ≤ config.maxSteps.toNat)
  | resumed (step : Nat) (checkpoint : Checkpoint Batch) (own : List (Nat × Batch))
      (latest : getLatestCheckpoint files = some (step, .complete checkpoint))
      (grown : process.updates = checkpoint.updates ++ own)
      (steps : own.map Prod.fst = List.range' checkpoint.step own.length)
      (next : process.nextStep = checkpoint.step + own.length)

structure Descends (files : Dict Nat (FileContent Batch)) (job : TrainingJob Batch History) :
    Prop where
  early : ∀ process, job.process = some process → process.phase.Early →
    job.files = files ∧ process.updates = [] ∧ process.nextStep = 0 ∧
      process.loader = .start dataset
  running : ∀ process, job.process = some process → process.phase.Running →
    Lineage config dataset files process

variable {config dataset} {records : HistoryRecord History}
  {files : Dict Nat (FileContent Batch)} {job : TrainingJob Batch History}
  {event : Event History}

theorem Named.withProcess (named : Named config job) (status : StatusFile History)
    (process : Process Batch History)
    (last : ∀ epoch, process.epoch = some epoch →
      EndsWith config process.updates process.currentStep)
    (quiet : ∀ checkpoint final, process.phase ≠ .writing checkpoint final) :
    Named config { job with status := status, process := some process } where
  files := named.files
  process := by
    intro other epoch now known
    obtain rfl := Option.some.inj now
    exact last epoch known
  writing := by
    intro other checkpoint final now place
    obtain rfl := Option.some.inj now
    exact absurd place (quiet checkpoint final)

theorem Named.quiet (named : Named config job) (status : StatusFile History)
    {process next : Process Batch History} (now : job.process = some process)
    (phase : next.phase = process.phase) (epoch : next.epoch = process.epoch)
    (updates : next.updates = process.updates)
    (currentStep : next.currentStep = process.currentStep) :
    Named config { job with status := status, process := some next } where
  files := named.files
  process := by
    intro other last changed known
    obtain rfl := Option.some.inj changed
    rw [updates, currentStep]
    exact named.process process last now (epoch.symm.trans known)
  writing := by
    intro other checkpoint final changed place
    obtain rfl := Option.some.inj changed
    exact named.writing process checkpoint final now (phase.symm.trans place)

theorem Named.step (named : Named config job) :
    Named config (step config dataset records job event) := by
  have change := step_jobStep config dataset records job event
  generalize ScalarLM.Job.step config dataset records job event = next at change
  cases change with
  | started =>
      refine named.withProcess _ _ ?_ ?_
      · intro epoch known
        cases known
      · intro checkpoint final place
        cases place
  | killed => exact ⟨named.files, by simp, by simp⟩
  | statusWritten status => exact ⟨named.files, named.process, named.writing⟩
  | idle => exact named
  | raised process phase now stops =>
      refine named.withProcess _ _ (fun epoch => named.process process epoch now) ?_
      intro checkpoint final place
      rcases stops with rfl | rfl <;> cases place
  | statusOpened timedOut process history now pending =>
      exact named.quiet _ now rfl rfl rfl rfl
  | statusClosed timedOut process history now pending =>
      exact named.quiet _ now rfl rfl rfl rfl
  | moved timedOut process phase shouldStop now free leads =>
      exact named.withProcess _ _ (fun epoch => named.process process epoch now)
        leads.not_writing
  | updated timedOut process phase now free leads =>
      exact named.withProcess _ _ (fun epoch => named.process process epoch now)
        leads.not_writing
  | recorded timedOut process history now free place =>
      exact named.withProcess _ _ (fun epoch => named.process process epoch now) (by simp)
  | fresh timedOut process now free place none =>
      exact named.withProcess _ _ (fun epoch => named.process process epoch now) (by simp)
  | resumed timedOut process name checkpoint history now free place latest known =>
      refine named.withProcess _ _ ?_ (by simp)
      intro epoch known
      exact named.files name checkpoint ((getLatestCheckpoint_some _ _ _).mp latest).1
  | trained timedOut process batch loader now free place below drawn =>
      refine named.withProcess _ _ ?_ (by simp)
      intro epoch known
      exact ⟨⟨process.updates, batch, rfl⟩, below⟩
  | opened timedOut process epoch final now free place known =>
      have last := named.process process epoch now known
      refine ⟨?_, ?_, ?_⟩
      · intro name checkpoint member
        rcases (Dict.mem_set _ _ _ _ _).mp member with same | other
        · cases same.2
        · exact named.files name checkpoint other.2
      · intro other _ changed _
        obtain rfl := Option.some.inj changed
        exact last
      · intro other checkpoint _ changed writing
        obtain rfl := Option.some.inj changed
        obtain ⟨rfl, _⟩ := Phase.writing.inj writing
        exact last
  | finished timedOut process checkpoint final now free place =>
      refine ⟨?_, ?_, ?_⟩
      · intro name other member
        rcases (Dict.mem_set _ _ _ _ _).mp member with same | kept
        · obtain rfl := FileContent.complete.inj same.2
          exact named.writing process other final now place
        · exact named.files name other kept.2
      · intro other epoch changed known
        obtain rfl := Option.some.inj changed
        exact named.process process epoch now known
      · intro other written _ changed writing
        obtain rfl := Option.some.inj changed
        cases writing
  | listed timedOut process final now free place =>
      exact named.withProcess _ _ (fun epoch => named.process process epoch now) (by simp)
  | deleted timedOut process old rest final now free place =>
      refine ⟨?_, ?_, ?_⟩
      · intro name checkpoint member
        exact named.files name checkpoint ((Dict.mem_erase _ _ _ _).mp member).2
      · intro other epoch changed known
        obtain rfl := Option.some.inj changed
        exact named.process process epoch now known
      · intro other checkpoint _ changed writing
        obtain rfl := Option.some.inj changed
        cases writing

theorem named_submitted : Named config (submitted : TrainingJob Batch History) where
  files := by
    intro step checkpoint member
    exact absurd member (Dict.not_mem_empty _)
  process := by
    intro process epoch now
    cases now
  writing := by
    intro process checkpoint final now
    cases now

theorem Lineage.congr {process next : Process Batch History}
    (lineage : Lineage config dataset files process) (updates : next.updates = process.updates)
    (nextStep : next.nextStep = process.nextStep) (loader : next.loader = process.loader) :
    Lineage config dataset files next := by
  cases lineage with
  | fresh empty drawn bound =>
      refine .fresh empty ?_ ?_
      · rw [nextStep, updates, loader]
        exact drawn
      · rw [nextStep]
        exact bound
  | resumed step checkpoint own latest grown steps after =>
      refine .resumed step checkpoint own latest ?_ steps ?_
      · rw [updates, grown]
      · rw [nextStep, after]

/-- A training step goes on with the uninterrupted run, or with the steps after the
checkpoint. -/
theorem Lineage.trained {process next : Process Batch History} {batch : Batch}
    {loader : DataLoader Batch} (lineage : Lineage config dataset files process)
    (below : (process.nextStep : Int) < config.maxSteps)
    (drawn : process.loader.next dataset = some (batch, loader))
    (updates : next.updates = process.updates ++ [(process.nextStep, batch)])
    (nextStep : next.nextStep = process.nextStep + 1) (rest : next.loader = loader) :
    Lineage config dataset files next := by
  cases lineage with
  | fresh empty before bound =>
      refine .fresh empty ?_ ?_
      · rw [nextStep, updates, rest]
        exact draws_succ before drawn
      · rw [nextStep]
        omega
  | resumed step checkpoint own latest grown steps after =>
      refine .resumed step checkpoint (own ++ [(process.nextStep, batch)]) latest ?_ ?_ ?_
      · rw [updates, grown, List.append_assoc]
      · rw [List.map_append, steps, List.length_append, List.length_singleton,
          List.range'_concat, after, Nat.one_mul]
        rfl
      · rw [nextStep, after, List.length_append, List.length_singleton]
        omega

theorem descends_past {next : TrainingJob Batch History} {process : Process Batch History}
    (now : next.process = some process) (past : ¬ process.phase.Early)
    (lineage : process.phase.Running → Lineage config dataset files process) :
    Descends config dataset files next where
  early := by
    intro other changed early
    obtain rfl := Option.some.inj (now.symm.trans changed)
    exact absurd early past
  running := by
    intro other changed running
    obtain rfl := Option.some.inj (now.symm.trans changed)
    exact lineage running

theorem Descends.leads {next : TrainingJob Batch History}
    {process moved : Process Batch History} (descends : Descends config dataset files job)
    (now : job.process = some process) (after : next.process = some moved)
    (leads : process.phase.Leads moved.phase) (same : next.files = job.files)
    (updates : moved.updates = process.updates) (nextStep : moved.nextStep = process.nextStep)
    (loader : moved.loader = process.loader) : Descends config dataset files next where
  early := by
    intro other changed early
    obtain rfl := Option.some.inj (after.symm.trans changed)
    rw [same, updates, nextStep, loader]
    exact descends.early process now (leads.early early)
  running := by
    intro other changed running
    obtain rfl := Option.some.inj (after.symm.trans changed)
    exact (descends.running process now (leads.running running)).congr updates nextStep loader

theorem Descends.quiet {next : TrainingJob Batch History}
    {process after : Process Batch History} (descends : Descends config dataset files job)
    (now : job.process = some process) (changed : next.process = some after)
    (phase : after.phase = process.phase) (same : next.files = job.files)
    (updates : after.updates = process.updates) (nextStep : after.nextStep = process.nextStep)
    (loader : after.loader = process.loader) : Descends config dataset files next where
  early := by
    intro other known early
    obtain rfl := Option.some.inj (changed.symm.trans known)
    rw [phase] at early
    rw [same, updates, nextStep, loader]
    exact descends.early process now early
  running := by
    intro other known running
    obtain rfl := Option.some.inj (changed.symm.trans known)
    rw [phase] at running
    exact (descends.running process now running).congr updates nextStep loader

theorem Descends.step (descends : Descends config dataset files job)
    (same : event ≠ .start) :
    Descends config dataset files (step config dataset records job event) := by
  have change := step_jobStep config dataset records job event
  generalize ScalarLM.Job.step config dataset records job event = next at change
  -- In a phase that belongs to the loop or follows it, the process has its lineage.
  have lineage (process : Process Batch History) (now : job.process = some process)
      (phase : Phase Batch) (place : process.phase = phase) (running : phase.Running) :
      Lineage config dataset files process := by
    rw [← place] at running
    exact descends.running process now running
  cases change with
  | started => exact absurd rfl same
  | killed => exact ⟨by simp, by simp⟩
  | statusWritten status => exact ⟨descends.early, descends.running⟩
  | idle => exact descends
  | raised process phase now stops =>
      rcases stops with rfl | rfl
      · exact descends_past rfl id fun running => absurd running id
      · exact descends_past rfl id fun running => absurd running id
  | statusOpened timedOut process history now pending =>
      exact descends.quiet now rfl rfl rfl rfl rfl rfl
  | statusClosed timedOut process history now pending =>
      exact descends.quiet now rfl rfl rfl rfl rfl rfl
  | moved timedOut process phase shouldStop now free leads =>
      exact descends.leads now rfl leads rfl rfl rfl rfl
  | updated timedOut process phase now free leads =>
      exact descends.leads now rfl leads rfl rfl rfl rfl
  | recorded timedOut process history now free place =>
      refine descends_past rfl id fun _ => ?_
      exact (lineage process now _ place trivial).congr rfl rfl rfl
  | fresh timedOut process now free place none =>
      obtain ⟨same, updates, nextStep, loader⟩ :=
        descends.early process now (by rw [place]; trivial)
      refine descends_past rfl id fun _ => .fresh ?_ ?_ ?_
      · rw [← same]
        exact (getLatestCheckpoint_none _).mp none
      · dsimp only
        rw [nextStep, updates, loader]
        rfl
      · dsimp only
        rw [nextStep]
        exact Nat.zero_le _
  | resumed timedOut process name checkpoint history now free place latest known =>
      obtain ⟨same, _⟩ := descends.early process now (by rw [place]; trivial)
      rw [same] at latest
      refine descends_past rfl id fun _ => .resumed name checkpoint [] latest ?_ rfl rfl
      exact (List.append_nil _).symm
  | trained timedOut process batch loader now free place below drawn =>
      refine descends_past rfl id fun _ => ?_
      exact (lineage process now _ place trivial).trained below drawn rfl rfl rfl
  | opened timedOut process epoch final now free place known =>
      refine descends_past rfl id fun _ => ?_
      exact (lineage process now _ place trivial).congr rfl rfl rfl
  | finished timedOut process checkpoint final now free place =>
      refine descends_past rfl id fun _ => ?_
      exact (lineage process now _ place trivial).congr rfl rfl rfl
  | listed timedOut process final now free place =>
      refine descends_past rfl id fun _ => ?_
      exact (lineage process now _ place trivial).congr rfl rfl rfl
  | deleted timedOut process old rest final now free place =>
      refine descends_past rfl id fun _ => ?_
      exact (lineage process now _ place trivial).congr rfl rfl rfl

theorem descends_start :
    Descends config dataset job.files (step config dataset records job .start) where
  early := by
    intro process now _
    obtain rfl := Option.some.inj now
    exact ⟨rfl, rfl, rfl, rfl⟩
  running := by
    intro process now running
    obtain rfl := Option.some.inj now
    exact absurd running id

variable (records) in
theorem named_run (events : List (Event History)) :
    Named config (run (step config dataset records) submitted events) :=
  run_of_invariant (step config dataset records) (Named config) (fun _ _ => True)
    (fun _ _ named _ => named.step) submitted events named_submitted
    (allSteps_of_forall _ _ (fun _ _ => trivial) submitted events)

variable (records) in
theorem descends_run (before after : List (Event History))
    (same : ∀ event ∈ after, event ≠ .start) :
    Descends config dataset (run (step config dataset records) submitted before).files
      (run (step config dataset records) submitted (before ++ .start :: after)) := by
  rw [run_append]
  refine run_of_invariant (step config dataset records) (Descends config dataset _)
    (fun _ event => event ≠ .start) (fun _ _ descends other => descends.step other) _ after
    descends_start ?_
  rw [allSteps_iff_prefixes]
  intro front event back split
  exact same event (by rw [split]; simp)

/-- A process that went on from a checkpoint repeats the checkpoint's last step. -/
theorem repeats_step {updates own : List (Nat × Batch)} {step : Nat}
    (last : EndsWith config updates step) (steps : own.map Prod.fst = List.range' step own.length)
    (some : 0 < own.length) : ¬ ((updates ++ own).map Prod.fst).Nodup := by
  obtain ⟨front, batch, rfl⟩ := last.1
  obtain ⟨first, rest, rfl⟩ := List.exists_cons_of_length_pos some
  rw [List.length_cons, List.range'_succ, List.map_cons, List.cons.injEq] at steps
  intro distinct
  rw [List.map_append, List.nodup_append] at distinct
  exact distinct.2.2 step (by simp) step (by simp [steps.1]) rfl

/-- A job that reaches its last step has performed the updates of an uninterrupted run
exactly when the process that reached it found no checkpoint at its start. A checkpoint has
the number of the step before it, so the step is performed again, and on other data. -/
theorem update_sequence_iff (before after : List (Event History))
    (same : ∀ event ∈ after, event ≠ .start) (process : Process Batch History)
    (now : (run (step config dataset records) submitted (before ++ .start :: after)).process =
      some process)
    (done : process.phase = .ended) (all : config.maxSteps ≤ process.nextStep) :
    uninterrupted dataset config.maxSteps = some process.updates ↔
      (run (step config dataset records) submitted before).files.keys = [] := by
  have lineage := (descends_run records before after same).running process now
    (by rw [done]; trivial)
  cases lineage with
  | fresh empty drawn bound =>
      have reached : process.nextStep = config.maxSteps.toNat := by omega
      refine iff_of_true ?_ empty
      rw [uninterrupted, ← reached, drawn]
      rfl
  | resumed name checkpoint own latest grown steps next =>
      obtain ⟨member, _⟩ := (getLatestCheckpoint_some _ _ _).mp latest
      have last := (named_run records before).files name checkpoint member
      refine iff_of_false ?_ ?_
      · intro drawn
        obtain ⟨drawing, found, whole⟩ := Option.map_eq_some_iff.mp drawn
        have numbers := draws_steps _ _ _ found
        rw [whole, grown] at numbers
        refine repeats_step last steps ?_ ?_
        · have below := last.2
          omega
        · rw [numbers]
          exact List.nodup_range
      · intro empty
        rw [(getLatestCheckpoint_none _).mpr empty] at latest
        cases latest

end Lineage

section Restarted

def twoSteps : JobConfig where
  maxSteps := 2
  stepsPerCheckpoint := 1
  maxCheckpointsToKeep := 3

/-- A job that is never interrupted. -/
theorem update_sequence_two_steps :
    uninterrupted threeBatches twoSteps.maxSteps = some [(0, 'a'), (1, 'b')] ↔
      (run (step twoSteps threeBatches noHistory) submitted []).files.keys = [] :=
  update_sequence_iff [] (advances 26)
    (fun event member => by
      rw [List.eq_of_mem_replicate member]
      simp)
    { phase := .ended
      statusWrite := none
      currentStep := 1
      epoch := some 0
      nextStep := 2
      shouldStop := false
      loader := ⟨0, ['c']⟩
      history := ()
      updates := [(0, 'a'), (1, 'b')] }
    rfl rfl (by decide)

/-- A job whose process is killed after the checkpoint of step 1 performs step 1 once more
when it is started again, and on the first batch. -/
theorem step_repeated_after_restart :
    ∃ process,
      (run (step twoSteps threeBatches noHistory) submitted
        (.start :: advances 17 ++ .kill :: .start :: advances 24)).process = some process ∧
      process.phase = .ended ∧ process.nextStep = 2 ∧
      process.updates = [(0, 'a'), (1, 'b'), (1, 'a')] ∧
      uninterrupted threeBatches twoSteps.maxSteps = some [(0, 'a'), (1, 'b')] :=
  ⟨_, rfl, rfl, rfl, rfl, rfl⟩

end Restarted

end ScalarLM.Job
