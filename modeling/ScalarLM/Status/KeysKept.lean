import ScalarLM.Lib.JsonDict
import ScalarLM.Status.StatusFile

/-! The keys of `status.json` when no two processes update it at the same time. -/

namespace ScalarLM.Status

open OpenFile Transition

variable {Value : Type}

def Phase.updating : Phase Value → Bool
  | .merged _ => true
  | .opened _ => true
  | _ => false

/-- Whether the next operation settles on what the file holds. -/
def State.reads (state : State Value) (process : Process) : Bool :=
  match process, state.phases process with
  | .server, .called _ _ => state.files.entry.isNone
  | .server, .exists _ => true
  | .rank _, .called _ _ => true
  | _, _ => false

/-- A process reads the file only while no other is between its reading and its closing. -/
def InTurn (state : State Value) : Event Value → Prop
  | .proceed process => state.reads process = true →
      ∀ other, (state.phases other).updating = false
  | _ => True

variable (format : JsonFormat Value)

/-- What the file holds, or will hold when it is closed. -/
structure Held (state : State Value) (held : Option (JobStatus Value)) : Prop where
  alone : ∀ process other, (state.phases process).updating = true →
    (state.phases other).updating = true → process = other
  absent : held = none →
    state.files.entry = none ∧ ∀ process writer, state.phases process ≠ .opened writer
  written : ∀ jobStatus, held = some jobStatus → ∃ file, state.files.entry = some file ∧
    (∀ process writer, state.phases process = .opened writer →
      writer.file = file ∧ Holds state.files writer (format.dumps jobStatus)) ∧
    ((∀ process writer, state.phases process ≠ .opened writer) →
      state.files.content file = format.dumps jobStatus)
  merged : ∀ process contents, state.phases process = .merged contents →
    ∀ jobStatus, held = some jobStatus → jobStatus.keys ⊆ contents.keys

def Grows (held later : Option (JobStatus Value)) : Prop :=
  ∀ jobStatus, held = some jobStatus →
    ∃ next, later = some next ∧ jobStatus.keys ⊆ next.keys

theorem grows_refl (held : Option (JobStatus Value)) : Grows held held :=
  fun jobStatus same => ⟨jobStatus, same, List.Subset.refl _⟩

section Loading

variable {format} {state : State Value} {held : Option (JobStatus Value)}

theorem load_closed (holds : Held format state held)
    (closed : ∀ process writer, state.phases process ≠ .opened writer) :
    load format state.files = held := by
  cases held with
  | none => rw [load, (holds.absent rfl).1, Option.bind_none]
  | some jobStatus =>
      obtain ⟨file, present, _, content⟩ := holds.written jobStatus rfl
      rw [load, present, Option.bind_some, content closed, format.loads_dumps]

/-- What can be loaded at any time is what is held. -/
theorem load_held (holds : Held format state held) (jobStatus : JobStatus Value)
    (loaded : load format state.files = some jobStatus) : held = some jobStatus := by
  by_cases closed : ∀ process writer, state.phases process ≠ .opened writer
  · rw [← load_closed holds closed, loaded]
  · simp only [not_forall, not_not] at closed
    obtain ⟨process, writer, isOpen⟩ := closed
    cases held with
    | none => exact absurd isOpen ((holds.absent rfl).2 process writer)
    | some kept =>
        obtain ⟨file, present, pending, _⟩ := holds.written kept rfl
        obtain ⟨same, here⟩ := pending process writer isOpen
        rw [load, present, Option.bind_some, ← same] at loaded
        by_cases complete : state.files.content writer.file = format.dumps kept
        · rw [complete, format.loads_dumps] at loaded
          exact loaded
        · have broken := format.loads_front kept (state.files.content writer.file)
            ⟨writer.buffer, here.written⟩ complete
          rw [broken] at loaded
          cases loaded

end Loading

section Operations

variable {format} {state : State Value} {held : Option (JobStatus Value)}

@[simp] theorem put_phases_self (files : Files UInt8) (process : Process) (phase : Phase Value) :
    (state.put files process phase).phases process = phase := by
  simp [State.put]

theorem put_phases_of_ne (files : Files UInt8) {process other : Process} (phase : Phase Value)
    (apart : other ≠ process) :
    (state.put files process phase).phases other = state.phases other := by
  simp [State.put, apart]

theorem closed_of_quiet (quiet : ∀ other, (state.phases other).updating = false)
    (process : Process) (writer : Writer UInt8) : state.phases process ≠ .opened writer := by
  intro isOpen
  have still := quiet process
  rw [isOpen] at still
  cases still

theorem held_quiet (holds : Held format state held) (process : Process) (phase : Phase Value)
    (before : (state.phases process).updating = false) (after : phase.updating = false) :
    Held format (state.put state.files process phase) held := by
  have same (other : Process)
      (found : ((state.put state.files process phase).phases other).updating = true) :
      (state.put state.files process phase).phases other = state.phases other := by
    by_cases here : other = process
    · rw [here, put_phases_self, after] at found
      cases found
    · exact put_phases_of_ne _ phase here
  have opened (other : Process) (writer : Writer UInt8)
      (found : (state.put state.files process phase).phases other = .opened writer) :
      state.phases other = .opened writer := by
    rw [← same other (by rw [found]; rfl), found]
  have closed (none : ∀ other writer, (state.put state.files process phase).phases other ≠
      .opened writer) (other : Process) (writer : Writer UInt8) :
      state.phases other ≠ .opened writer := by
    intro found
    by_cases here : other = process
    · rw [here] at found
      rw [found] at before
      cases before
    · exact none other writer (by rw [put_phases_of_ne _ phase here, found])
  refine ⟨?_, ?_, ?_, ?_⟩
  · intro first second one two
    refine holds.alone first second ?_ ?_
    · rw [← same first one, one]
    · rw [← same second two, two]
  · intro none
    exact ⟨(holds.absent none).1, fun other writer found =>
      (holds.absent none).2 other writer (opened other writer found)⟩
  · intro jobStatus some
    obtain ⟨file, present, pending, content⟩ := holds.written jobStatus some
    refine ⟨file, present, ?_, fun none => content (closed none)⟩
    exact fun other writer found => pending other writer (opened other writer found)
  · intro other contents found
    refine holds.merged other contents ?_
    rw [← same other (by rw [found]; rfl), found]

def Alone (state : State Value) (process : Process) : Prop :=
  ∀ other, (state.phases other).updating = true → other = process

theorem alone_of_quiet (quiet : ∀ other, (state.phases other).updating = false)
    (process : Process) : Alone state process := by
  intro other found
  rw [quiet other] at found
  cases found

theorem alone_of_updating (holds : Held format state held) {process : Process}
    (updating : (state.phases process).updating = true) : Alone state process :=
  fun other found => holds.alone other process found updating

theorem Alone.put {process : Process} (alone : Alone state process) (files : Files UInt8)
    (phase : Phase Value) : Alone (state.put files process phase) process := by
  intro other found
  by_contra apart
  rw [put_phases_of_ne _ _ apart] at found
  exact apart (alone other found)

theorem held_put {process : Process} (alone : Alone state process) (files : Files UInt8)
    (phase : Phase Value)
    (absent : held = none → files.entry = none ∧ ∀ writer, phase ≠ .opened writer)
    (written : ∀ jobStatus, held = some jobStatus → ∃ file, files.entry = some file ∧
      (∀ writer, phase = .opened writer →
        writer.file = file ∧ Holds files writer (format.dumps jobStatus)) ∧
      ((∀ writer, phase ≠ .opened writer) → files.content file = format.dumps jobStatus))
    (merged : ∀ contents, phase = .merged contents →
      ∀ jobStatus, held = some jobStatus → jobStatus.keys ⊆ contents.keys) :
    Held format (state.put files process phase) held := by
  have own (other : Process)
      (found : ((state.put files process phase).phases other).updating = true) :
      (state.put files process phase).phases other = phase := by
    rw [alone.put files phase other found, put_phases_self]
  have opens (other : Process) (writer : Writer UInt8)
      (found : (state.put files process phase).phases other = .opened writer) :
      phase = .opened writer := by
    rw [← own other (by rw [found]; rfl), found]
  refine ⟨?_, ?_, ?_, ?_⟩
  · intro first second one two
    rw [alone.put files phase first one, alone.put files phase second two]
  · intro none
    exact ⟨(absent none).1, fun other writer found =>
      (absent none).2 writer (opens other writer found)⟩
  · intro jobStatus some
    obtain ⟨file, present, pending, content⟩ := written jobStatus some
    refine ⟨file, present, ?_, ?_⟩
    · exact fun other writer found => pending writer (opens other writer found)
    · intro none
      refine content fun writer same => none process writer ?_
      rw [put_phases_self, same]
  · intro other contents found
    refine merged contents ?_
    rw [← own other (by rw [found]; rfl), found]

/-- The only process that has read the file knows all that is held. -/
theorem held_merge (holds : Held format state held)
    (quiet : ∀ other, (state.phases other).updating = false) (process : Process)
    (contents : JobStatus Value)
    (more : ∀ jobStatus, held = some jobStatus → jobStatus.keys ⊆ contents.keys) :
    Held format (state.put state.files process (.merged contents)) held := by
  refine held_put (alone_of_quiet quiet process) _ _ ?_ ?_ ?_
  · intro none
    refine ⟨(holds.absent none).1, fun writer found => ?_⟩
    cases found
  · intro jobStatus some
    obtain ⟨file, present, _, content⟩ := holds.written jobStatus some
    refine ⟨file, present, fun writer found => ?_, fun _ => content (closed_of_quiet quiet)⟩
    cases found
  · intro known same
    cases same
    exact more

theorem openWrite_entry (files : Files UInt8) :
    files.openWrite.1.entry = some files.openWrite.2.file := by
  rw [Files.openWrite]
  split
  · rename_i file present
    exact present
  · rfl

theorem held_open (holds : Held format state held) (process : Process)
    (contents : JobStatus Value) (ready : state.phases process = .merged contents) :
    Held format (state.put state.files.openWrite.1 process
      (.opened (state.files.openWrite.2.write (format.dumps contents)))) (some contents) := by
  refine held_put (alone_of_updating holds (by rw [ready]; rfl)) _ _ ?_ ?_ ?_
  · intro none
    cases none
  · intro jobStatus some
    cases some
    refine ⟨_, openWrite_entry state.files, ?_, fun none => absurd rfl (none _)⟩
    intro writer found
    cases found
    exact ⟨rfl, (openWrite_holds state.files).write (format.dumps contents)⟩
  · intro known same
    cases same

theorem held_spill (holds : Held format state held) (process : Process) (writer : Writer UInt8)
    (isOpen : state.phases process = .opened writer) (count : Nat) :
    Held format (state.put (state.files.spill writer count).1 process
      (.opened (state.files.spill writer count).2)) held := by
  refine held_put (alone_of_updating holds (by rw [isOpen]; rfl)) _ _ ?_ ?_ ?_
  · intro none
    exact absurd isOpen ((holds.absent none).2 process writer)
  · intro jobStatus some
    obtain ⟨file, present, pending, _⟩ := holds.written jobStatus some
    obtain ⟨same, here⟩ := pending process writer isOpen
    refine ⟨file, present, ?_, fun none => absurd rfl (none _)⟩
    intro next found
    cases found
    exact ⟨same, here.spill count⟩
  · intro known same
    cases same

theorem held_close (holds : Held format state held) (process : Process) (writer : Writer UInt8)
    (isOpen : state.phases process = .opened writer) :
    Held format (state.put (state.files.close writer) process .idle) held := by
  refine held_put (alone_of_updating holds (by rw [isOpen]; rfl)) _ _ ?_ ?_ ?_
  · intro none
    exact absurd isOpen ((holds.absent none).2 process writer)
  · intro jobStatus some
    obtain ⟨file, present, pending, _⟩ := holds.written jobStatus some
    obtain ⟨same, here⟩ := pending process writer isOpen
    refine ⟨file, present, fun next found => ?_, fun _ => ?_⟩
    · cases found
    · rw [← same]
      exact close_content here
  · intro known same
    cases same

end Operations

section Runs

variable {state : State Value} {held : Option (JobStatus Value)}

theorem mem_keys_update (info : List (Key × Value)) (jobStatus : JobStatus Value) :
    jobStatus.keys ⊆ (update jobStatus info).keys := by
  induction info generalizing jobStatus with
  | nil => exact List.Subset.refl _
  | cons entry info ih =>
      intro key member
      exact ih (jobStatus.set entry.1 entry.2) ((Dict.mem_keys_set _ _ _ _).mpr (.inr member))

theorem held_updatedStatus (holds : Held format state held)
    (quiet : ∀ other, (state.phases other).updating = false) (status : TrainingJobStatus)
    (metadata : List (Key × Value)) (jobStatus : JobStatus Value) (known : held = some jobStatus) :
    jobStatus.keys ⊆ (updatedStatus format state.files status metadata).keys := by
  have loaded := load_closed holds (closed_of_quiet quiet)
  rw [known] at loaded
  intro key member
  rw [updatedStatus, getStatus, loaded]
  refine mem_keys_update _ _ ?_
  exact (Dict.mem_keys_set _ _ _ _).mpr (.inr member)

theorem held_proceed (holds : Held format state held) (process : Process)
    (inTurn : InTurn state (.proceed process)) :
    ∃ later, Held format (state.proceed format process) later ∧ Grows held later := by
  have stays (next : Held format (state.proceed format process) held) :
      ∃ later, Held format (state.proceed format process) later ∧ Grows held later :=
    ⟨held, next, grows_refl held⟩
  cases phase : state.phases process with
  | idle =>
      refine stays ?_
      cases process <;> (simp only [State.proceed, phase]; exact holds)
  | called status info =>
      refine stays ?_
      cases process with
      | server =>
          cases entry : state.files.entry with
          | none =>
              have quiet := inTurn (by simp only [State.reads, phase, entry, Option.isNone_none])
              simp only [State.proceed, phase, entry]
              refine held_merge holds quiet .server _ ?_
              intro jobStatus known
              obtain ⟨file, present, _⟩ := holds.written jobStatus known
              rw [entry] at present
              cases present
          | some file =>
              simp only [State.proceed, phase, entry]
              exact held_quiet holds .server _ (by rw [phase]; rfl) rfl
      | rank rank =>
          have quiet := inTurn (by simp only [State.reads, phase])
          simp only [State.proceed, phase]
          exact held_merge holds quiet (.rank rank) _
            (held_updatedStatus format holds quiet status info)
  | «exists» jobStatus =>
      refine stays ?_
      cases process with
      | server =>
          have quiet := inTurn (by simp only [State.reads, phase])
          have loaded := load_closed holds (closed_of_quiet quiet)
          simp only [State.proceed, phase, loaded]
          cases held with
          | none => exact held_quiet holds .server .idle (by rw [phase]; rfl) rfl
          | some existing =>
              refine held_merge holds quiet .server _ ?_
              intro kept same
              cases same
              exact mem_keys_update _ _
      | rank rank =>
          simp only [State.proceed, phase]
          exact holds
  | merged contents =>
      refine ⟨some contents, ?_, ?_⟩
      · cases process <;> (simp only [State.proceed, phase]; exact held_open holds _ contents phase)
      · intro jobStatus known
        exact ⟨contents, rfl, holds.merged process contents phase jobStatus known⟩
  | opened writer =>
      refine stays ?_
      cases process <;> (simp only [State.proceed, phase]; exact held_close holds _ writer phase)

theorem held_step (holds : Held format state held) (event : Event Value)
    (inTurn : InTurn state event) :
    ∃ later, Held format (step format state event) later ∧ Grows held later := by
  cases event with
  | call process status info =>
      refine ⟨held, ?_, grows_refl held⟩
      rw [step]
      split
      · rename_i free
        exact held_quiet holds process _ (by rw [free]; rfl) rfl
      · exact holds
  | proceed process => exact held_proceed format holds process inTurn
  | spill process count =>
      refine ⟨held, ?_, grows_refl held⟩
      rw [step]
      split
      · rename_i writer isOpen
        exact held_spill holds process writer isOpen count
      · exact holds

theorem held_run (holds : Held format state held) (events : List (Event Value))
    (inTurn : AllSteps (step format) InTurn state events) :
    ∃ later, Held format (run (step format) state events) later ∧ Grows held later := by
  induction events generalizing state held with
  | nil => exact ⟨held, holds, grows_refl held⟩
  | cons event events ih =>
      obtain ⟨middle, first, more⟩ := held_step format holds event inTurn.1
      obtain ⟨later, rest, further⟩ := ih first inTurn.2
      refine ⟨later, rest, ?_⟩
      intro jobStatus known
      obtain ⟨next, now, kept⟩ := more jobStatus known
      obtain ⟨last, final, still⟩ := further next now
      exact ⟨last, final, List.Subset.trans kept still⟩

theorem held_initial : Held format State.initial none where
  alone := by
    intro _ _ updating
    cases updating
  absent _ := by
    refine ⟨rfl, ?_⟩
    intro _ _ found
    cases found
  written := by
    intro _ none
    cases none
  merged := by
    intro _ _ found
    cases found

end Runs

/-- No key that was in the complete file at some time is missing from it later, when each process
reads the file while no other is between its reading and its closing. -/
theorem status_keys_kept (front back : List (Event Value))
    (inTurn : AllSteps (step format) InTurn State.initial (front ++ back)) (key : Key)
    (written later : JobStatus Value)
    (complete : load format (run (step format) State.initial front).files = some written)
    (present : key ∈ written.keys)
    (afterwards : load format (run (step format) State.initial (front ++ back)).files =
      some later) : key ∈ later.keys := by
  obtain ⟨before, after⟩ := (allSteps_append (step format) InTurn _ _ _).mp inTurn
  obtain ⟨held, first, _⟩ := held_run format (held_initial format) front before
  have known := load_held first written complete
  obtain ⟨last, second, grows⟩ := held_run format first back after
  rw [run_append] at afterwards
  obtain ⟨next, now, kept⟩ := grows written known
  rw [load_held second later afterwards] at now
  cases now
  exact kept present

def entryFormat : JsonFormat Json.Entry where
  string := .text
  dumps := Json.dictBytes
  loads := Json.bytesDict
  loads_dumps := Json.bytesDict_dictBytes
  loads_front := Json.bytesDict_front

def startTimeKey : Key := ['s', 't', 'a', 'r', 't', '_', 't', 'i', 'm', 'e']

def jobIdKey : Key := ['j', 'o', 'b', '_', 'i', 'd']

def maxStepsKey : Key := ['m', 'a', 'x', '_', 's', 't', 'e', 'p', 's']

def submission : List (Event Json.Entry) :=
  [.call .server .queued [(startTimeKey, .number 1700000000)], .proceed .server, .proceed .server,
    .proceed .server]

def rankReads : List (Event Json.Entry) :=
  [.call (.rank 0) .training [(maxStepsKey, .number 100)], .proceed (.rank 0)]

def rankWrites : List (Event Json.Entry) := [.proceed (.rank 0), .proceed (.rank 0)]

def serverRecords : List (Event Json.Entry) :=
  [.call .server .queued [(jobIdKey, .text ['7'])], .proceed .server, .proceed .server,
    .proceed .server, .proceed .server]

def submitted : JobStatus Json.Entry :=
  newJobStatus entryFormat .queued [(startTimeKey, .number 1700000000)]

def recorded : JobStatus Json.Entry :=
  update submitted (newJobStatus entryFormat .queued [(jobIdKey, .text ['7'])]).entries

theorem writeAt_nil (bytes : List UInt8) : writeAt [] 0 bytes = bytes := writeAt_end [] bytes

section AnyFormat

-- The runs are the same in every format, so that no bytes have to be computed.
variable (format : JsonFormat Json.Entry)

theorem load_after_submission :
    load format (run (step format) State.initial submission).files =
      some (newJobStatus format .queued [(startTimeKey, .number 1700000000)]) := by
  simp [submission, run, step, State.proceed, State.put, State.initial, load,
    Files.openWrite, Files.put, Files.close, Files.spill, Writer.write, writeAt_nil,
    format.loads_dumps]

theorem load_after_training :
    load format (run (step format) State.initial
      (submission ++ (rankReads ++ rankWrites))).files =
        some (update ((newJobStatus format .queued [(startTimeKey, .number 1700000000)]).set
          statusKey (format.string TrainingJobStatus.training.chars))
          [(maxStepsKey, .number 100)]) := by
  simp [submission, rankReads, rankWrites, run, step, State.proceed, State.put,
    State.initial, load, Files.openWrite, Files.put, Files.close, Files.spill, Writer.write,
    writeAt_nil, format.loads_dumps, updatedStatus, getStatus]

theorem load_after_record :
    load format (run (step format) State.initial
      (submission ++ rankReads ++ serverRecords)).files =
        some (update (newJobStatus format .queued [(startTimeKey, .number 1700000000)])
          (newJobStatus format .queued [(jobIdKey, .text ['7'])]).entries) := by
  simp [submission, rankReads, serverRecords, run, step, State.proceed,
    State.put, State.initial, load, Files.openWrite, Files.put, Files.close, Files.spill,
    Writer.write, writeAt_nil, format.loads_dumps, updatedStatus, getStatus]

theorem load_after_overwriting :
    load format (run (step format) State.initial
      (submission ++ rankReads ++ serverRecords ++ rankWrites)).files =
        some (update ((newJobStatus format .queued [(startTimeKey, .number 1700000000)]).set
          statusKey (format.string TrainingJobStatus.training.chars))
          [(maxStepsKey, .number 100)]) := by
  simp [submission, rankReads, serverRecords, rankWrites, run, step,
    State.proceed, State.put, State.initial, load, Files.openWrite, Files.put, Files.close,
    Files.spill, Writer.write, writeAt_nil, format.loads_dumps, updatedStatus, getStatus]

end AnyFormat

def trained : JobStatus Json.Entry :=
  update (submitted.set statusKey (entryFormat.string TrainingJobStatus.training.chars))
    [(maxStepsKey, .number 100)]

theorem inTurn_trained :
    AllSteps (step entryFormat) InTurn State.initial (submission ++ (rankReads ++ rankWrites)) := by
  have idle (process : Process) (phase : Phase Json.Entry) (quiet : phase.updating = false)
      (other : Process) :
      (Function.update (fun _ => Phase.idle) process phase other).updating = false := by
    by_cases here : other = process
    · rw [here, Function.update_self, quiet]
    · rw [Function.update_of_ne here]
      rfl
  simp [submission, rankReads, rankWrites, AllSteps, InTurn, State.reads, step, State.proceed,
    State.put, State.initial, Files.openWrite, Files.put]
  exact ⟨idle .server _ rfl, idle (.rank 0) _ rfl⟩

/-- The rank reads the file after the server has closed it. -/
theorem status_keys_kept_in_turn : startTimeKey ∈ trained.keys :=
  status_keys_kept entryFormat submission (rankReads ++ rankWrites) inTurn_trained startTimeKey
    submitted trained (load_after_submission entryFormat) (by decide)
    (load_after_training entryFormat)

/-- A rank that has read the file before the id of the job was added writes it without the id. -/
theorem status_keys_lost :
    ¬ ∀ (Value : Type) (format : JsonFormat Value) front back key written later,
      load format (run (step format) State.initial front).files = some written →
      key ∈ written.keys →
      load format (run (step format) State.initial (front ++ back)).files = some later →
      key ∈ later.keys := by
  intro claim
  have kept := claim Json.Entry entryFormat (submission ++ rankReads ++ serverRecords) rankWrites
    jobIdKey recorded trained (load_after_record entryFormat) (by decide)
    (load_after_overwriting entryFormat)
  revert kept
  decide

end ScalarLM.Status
