import ScalarLM.Job.JobDirectory

/-! When the listings survive what is in the training job directory. -/

namespace ScalarLM.Listings

open Json Utf8 OpenFile Status Transition

section Statuses

def Readable (read : StatusRead) : Prop :=
  ∃ bytes value, read = .content bytes ∧ jsonLoad bytes = .ok value

def HasStartTime (read : StatusRead) : Prop :=
  ∃ bytes members, read = .content bytes ∧ jsonLoad bytes = .ok (.object members) ∧
    ∀ value, member? members startTimeKey = some value → IsNumber value

def EndsInStep (history : Option Value) : Prop :=
  ∀ value, history = some value → ∃ elements, value = .array elements ∧
    ∀ last, elements.getLast? = some last → ∃ record, last = .object record ∧
      ∀ step, member? record stepKey = some step → IsNumber step

/-- The first line of the file is no JSON, or an object with such a history. -/
def Listable (read : StatusRead) : Prop :=
  read = .missing ∨ ∃ bytes chars, read = .content bytes ∧ decodeUtf8 bytes = some chars ∧
    ∀ value, loads (Words.strip Slurm.isSpace (firstLine chars)) = some value →
      value = .null ∨ ∃ members, value = .object members ∧
        EndsInStep (member? members historyKey)

theorem HasStartTime.getStartTime {read : StatusRead} (has : HasStartTime read) :
    ∃ startTime, getStartTime read = .ok startTime ∧ IsNumber startTime := by
  obtain ⟨bytes, members, rfl, loaded, number⟩ := has
  have started : IsNumber ((member? members startTimeKey).getD (.int 0)) := by
    cases found : member? members startTimeKey with
    | none => exact trivial
    | some value => exact number value found
  cases listed : members.any fun member => member.1 = codePoints historyKey with
  | true =>
      refine ⟨_, ?_, started⟩
      simp [Listings.getStartTime, loaded, contains, listed, get, bind, Except.bind]
  | false =>
      refine ⟨.int 0, ?_, trivial⟩
      simp [Listings.getStartTime, loaded, contains, listed, bind, Except.bind, pure, Except.pure]

theorem getStartTime_unreadable {read : StatusRead} (unreadable : ¬ Readable read) :
    ∃ error, getStartTime read = .error error := by
  cases read with
  | missing => exact ⟨_, rfl⟩
  | unopenable => exact ⟨_, rfl⟩
  | content bytes =>
      cases loaded : jsonLoad bytes with
      | ok value => exact absurd ⟨bytes, value, rfl, loaded⟩ unreadable
      | error error => exact ⟨error, by simp [getStartTime, loaded, bind, Except.bind]⟩

end Statuses

section Sorting

variable {python : PythonNumbers}

theorem lessThan_numbers {left right : Value} (first : IsNumber left) (second : IsNumber right) :
    lessThan python left right = some (python.less left right) := by
  cases left <;> cases right <;> first | exact absurd first id | exact absurd second id | rfl

theorem insertByKey_numbers {entry : JobName × Value} (number : IsNumber entry.2)
    {sorted : List (JobName × Value)} (numbers : ∀ entry ∈ sorted, IsNumber entry.2) :
    ∃ inserted, insertByKey python entry sorted = some inserted ∧
      inserted.Perm (entry :: sorted) := by
  induction sorted with
  | nil => exact ⟨_, rfl, List.Perm.refl _⟩
  | cons head rest ih =>
      rw [List.forall_mem_cons] at numbers
      obtain ⟨inserted, result, same⟩ := ih numbers.2
      have compared : lessThan python head.2 entry.2 = some (python.less head.2 entry.2) :=
        lessThan_numbers numbers.1 number
      cases less : python.less head.2 entry.2 with
      | true =>
          refine ⟨entry :: head :: rest, ?_, List.Perm.refl _⟩
          simp [insertByKey, compared, less]
      | false =>
          refine ⟨head :: inserted, ?_, ?_⟩
          · simp [insertByKey, compared, less, result]
          · exact (same.cons head).trans (List.Perm.swap entry head rest)

theorem sortByKey_numbers {keyed : List (JobName × Value)}
    (numbers : ∀ entry ∈ keyed, IsNumber entry.2) :
    ∃ sorted, sortByKey python keyed = some sorted ∧ sorted.Perm keyed := by
  have onto : ∀ front : List (JobName × Value), (∀ entry ∈ front, IsNumber entry.2) →
      ∃ sorted, keyed.foldlM (fun sorted entry => insertByKey python entry sorted) front =
        some sorted ∧ sorted.Perm (keyed.reverse ++ front) := by
    induction keyed with
    | nil => exact fun front _ => ⟨front, rfl, List.Perm.refl _⟩
    | cons entry keyed ih =>
        intro front inFront
        rw [List.forall_mem_cons] at numbers
        obtain ⟨inserted, result, same⟩ := insertByKey_numbers numbers.1 inFront
        have still : ∀ entry ∈ inserted, IsNumber entry.2 := by
          intro other member
          rcases List.mem_cons.mp (same.mem_iff.mp member) with rfl | old
          · exact numbers.1
          · exact inFront other old
        obtain ⟨sorted, rest, permuted⟩ := ih numbers.2 inserted still
        refine ⟨sorted, by rw [List.foldlM_cons, result]; exact rest, permuted.trans ?_⟩
        rw [List.reverse_cons, List.append_assoc]
        exact same.append_left _
  obtain ⟨sorted, result, permuted⟩ := onto [] (fun _ member => absurd member List.not_mem_nil)
  rw [List.append_nil] at permuted
  exact ⟨sorted, result, permuted.trans (List.reverse_perm keyed)⟩

end Sorting

section Rows

variable {python : PythonNumbers}

theorem plusOne_number {value : Value} (number : IsNumber value) :
    ∃ result, plusOne python value = .ok result := by
  cases value <;> first | exact absurd number id | exact ⟨_, rfl⟩

theorem EndsInStep.lastOf {members : List (List Nat × Value)}
    (ends : EndsInStep (member? members historyKey)) :
    ∃ last, lastOf ((member? members historyKey).getD (.array [])) = .ok last ∧
      ∀ value, last = some value → ∃ record, value = .object record ∧
        ∀ step, member? record stepKey = some step → IsNumber step := by
  cases found : member? members historyKey with
  | none => exact ⟨none, rfl, fun value some' => absurd some' (Option.some_ne_none _).symm⟩
  | some history =>
      obtain ⟨elements, rfl, ending⟩ := ends history found
      exact ⟨elements.getLast?, rfl, ending⟩

theorem getCurrentStep_object {members : List (List Nat × Value)}
    (ends : EndsInStep (member? members historyKey)) :
    ∃ step, getCurrentStep python (.object members) = .ok step := by
  obtain ⟨last, ending, record⟩ := ends.lastOf
  cases last with
  | none =>
      exact ⟨.int 0, by simp [getCurrentStep, get, ending, bind, Except.bind, pure, Except.pure]⟩
  | some value =>
      obtain ⟨members', rfl, number⟩ := record value rfl
      have stepped : IsNumber ((member? members' stepKey).getD (.int 0)) := by
        cases found : member? members' stepKey with
        | none => exact trivial
        | some step => exact number step found
      obtain ⟨step, added⟩ := @plusOne_number python _ stepped
      exact ⟨step, by simp [getCurrentStep, get, ending, added, bind, Except.bind]⟩

theorem getTrainTime_object {members : List (List Nat × Value)}
    (ends : EndsInStep (member? members historyKey)) :
    ∃ time, getTrainTime (.object members) = .ok time := by
  obtain ⟨last, ending, record⟩ := ends.lastOf
  cases last with
  | none =>
      exact ⟨.int 0, by simp [getTrainTime, get, ending, bind, Except.bind, pure, Except.pure]⟩
  | some value =>
      obtain ⟨members', rfl, -⟩ := record value rfl
      exact ⟨_, by simp only [getTrainTime, get, ending, bind, Except.bind]; rfl⟩

theorem modelRow_object (registeredModels : List JobName) (name : JobName)
    {members : List (List Nat × Value)} (ends : EndsInStep (member? members historyKey)) :
    ∃ row, modelRow python registeredModels name (some (.object members)) = .ok row := by
  obtain ⟨step, stepped⟩ := @getCurrentStep_object python _ ends
  obtain ⟨time, timed⟩ := getTrainTime_object ends
  exact ⟨_, by simp only [modelRow, get, stepped, timed, bind, Except.bind]; rfl⟩

theorem modelRow_empty (registeredModels : List JobName) (name : JobName) :
    ∃ row, modelRow python registeredModels name (some (.object [])) = .ok row := by
  refine modelRow_object registeredModels name ?_
  exact fun value found => absurd found (Option.some_ne_none _).symm

theorem Listable.row {read : StatusRead} (listable : Listable read)
    (registeredModels : List JobName) (name : JobName) :
    ∃ row, getTrainingJobStatus read >>= modelRow python registeredModels name = .ok row := by
  rcases listable with rfl | ⟨bytes, chars, rfl, decoded, line⟩
  · exact @modelRow_empty python registeredModels name
  · have status : getTrainingJobStatus (.content bytes) =
        .ok (loads (Words.strip Slurm.isSpace (firstLine chars))) := by
      rw [getTrainingJobStatus, decoded]
    rw [status]
    cases loaded : loads (Words.strip Slurm.isSpace (firstLine chars)) with
    | none => exact @modelRow_empty python registeredModels name
    | some value =>
        rcases line value loaded with rfl | ⟨members, rfl, ends⟩
        · exact @modelRow_empty python registeredModels name
        · exact modelRow_object registeredModels name ends

end Rows

section Aside

variable {python : PythonNumbers} {state after : State} {id : Nat} {job : JobName}

structure Grows (state after : State) : Prop where
  processes : after.processes = state.processes
  jobs : ∀ job ∈ state.jobs, job ∈ after.jobs
  made : after.made = false → state.made = false ∧ after.jobs = state.jobs

theorem Grows.refl (state : State) : Grows state state :=
  ⟨rfl, fun _ member => member, fun unmade => ⟨unmade, rfl⟩⟩

theorem grows_makedirs (state : State) (job : JobName) : Grows state (state.makedirs job) := by
  refine ⟨rfl, fun other member => ?_, fun unmade => absurd unmade Bool.noConfusion⟩
  rw [State.makedirs]
  dsimp only
  split
  · exact member
  · exact List.mem_cons_of_mem _ member

theorem grows_withEntry (state : State) (job : JobName) (entry : Option StatusEntry) :
    Grows state (state.withEntry job entry) :=
  ⟨rfl, fun _ member => member, fun unmade => ⟨unmade, rfl⟩⟩

theorem grows_close (state : State) (writer : Writer UInt8) : Grows state (state.close writer) :=
  ⟨rfl, fun _ member => member, fun unmade => ⟨unmade, rfl⟩⟩

theorem grows_openStatus {bytes : Bytes} {writer : Writer UInt8}
    (opened : state.openStatus job bytes = some (after, writer)) : Grows state after := by
  rw [State.openStatus] at opened
  split at opened
  · split at opened
    · exact absurd opened (Option.some_ne_none _).symm
    · obtain ⟨rfl, -⟩ := Prod.mk.inj (Option.some.inj opened)
      exact ⟨rfl, fun _ member => member, fun unmade => ⟨unmade, rfl⟩⟩
  · exact absurd opened (Option.some_ne_none _).symm

structure Aside (state after : State) (id : Nat) : Prop where
  others : ∀ other, other ≠ id → after.processes other = state.processes other
  itself : ∀ listing, after.processes id ≠ some (.listing listing)
  jobs : ∀ job ∈ state.jobs, job ∈ after.jobs
  made : after.made = false → state.made = false ∧ after.jobs = state.jobs

theorem Grows.aside (grows : Grows state after) {process : Option Process}
    (apart : ∀ listing, process ≠ some (.listing listing)) :
    Aside state (after.becomes id process) id := by
  refine ⟨fun other differs => ?_, fun listing => ?_, grows.jobs, grows.made⟩
  · rw [State.becomes, ← grows.processes]
    exact Function.update_of_ne differs _ _
  · have now : (after.becomes id process).processes id = process := Function.update_self _ _ _
    rw [now]
    exact apart listing

theorem Grows.ends (grows : Grows state after) : Aside state (after.becomes id none) id :=
  grows.aside fun _ => (Option.some_ne_none _).symm

theorem Grows.request (grows : Grows state after) (job : JobName) (stage : Stage) :
    Aside state (after.becomes id (some (.request job stage))) id :=
  grows.aside fun _ same => Process.noConfusion (Option.some.inj same)

theorem write_aside (state : State) (job : JobName) {proceed : Writing → Process}
    {finished : Option Process} (proceeds : ∀ writing listing, proceed writing ≠ .listing listing)
    (finishes : ∀ listing, finished ≠ some (.listing listing)) (writing : Writing) :
    Aside state (state.write python job id proceed finished writing) id := by
  have further : ∀ {between}, Grows state between → ∀ writing,
      Aside state (between.becomes id (some (proceed writing))) id := by
    intro between grows writing
    exact grows.aside fun listing same => proceeds writing listing (Option.some.inj same)
  have same := Grows.refl state
  cases writing with
  | called jobStatus =>
      rw [State.write]
      split
      · exact further same _
      · exact further same _
  | «exists» jobStatus =>
      rw [State.write]
      split
      · exact same.ends
      · exact further same _
  | merged jobStatus =>
      rw [State.write]
      split
      · exact same.ends
      · rename_i opened
        exact further (grows_openStatus opened) _
  | opened writer => exact (grows_close state writer).aside finishes

theorem proceedRequest_aside (state : State) (job : JobName) (answer : Answer) (stage : Stage) :
    Aside state (state.proceedRequest python id job answer stage) id := by
  have same := Grows.refl state
  cases stage with
  | receiving archive => exact (grows_makedirs state job).request job _
  | extracting archive =>
      cases archive with
      | nil => exact same.request job _
      | cons member archive =>
          cases member with
          | other => exact same.request job _
          | statusFile bytes =>
              rw [State.proceedRequest]
              split
              · exact same.ends
              · rename_i opened
                exact (grows_openStatus opened).request job _
          | statusPlaced entry => exact (grows_withEntry state job entry).request job _
  | extractingStatus archive writer => exact (grows_close state writer).request job _
  | copyMl => exact same.request job _
  | jobAlreadyExists =>
      rw [State.proceedRequest]
      split
      · exact same.request job _
      · exact same.request job _
  | makeTrainingDirectory => exact (grows_makedirs state job).request job _
  | createSlurmRunCommand =>
      cases answer with
      | now time => exact same.request job _
      | done => exact same.ends
      | sbatch failed stdout stderr => exact same.ends
  | writeJobStatus writing next =>
      rw [State.proceedRequest]
      refine write_aside state job (fun writing listing equal => ?_)
        (fun listing equal => ?_) writing
      · exact Process.noConfusion equal
      · exact Process.noConfusion (Option.some.inj equal)
  | runSbatch =>
      cases answer with
      | sbatch failed stdout stderr =>
          cases failed with
          | true => exact same.request job _
          | false => exact same.request job _
      | done => exact same.ends
      | now time => exact same.ends
  | getJobId stdout =>
      rw [State.proceedRequest]
      split
      · exact same.ends
      · exact same.request job _
  | getExistingJobInfo => exact same.ends

end Aside

section Runs

variable {python : PythonNumbers} {state : State}

def Listing.Sound (jobs : List JobName) : Listing → Prop
  | .startTimes task waiting keyed =>
      (∀ name ∈ waiting, name ∈ jobs) ∧ (∀ entry ∈ keyed, IsNumber entry.2) ∧
        (task = .getLatestModel → waiting = [] → keyed ≠ [])
  | _ => True

structure Sound (state : State) : Prop where
  unmade : state.made = false → state.jobs = []
  listings : ∀ id listing, state.processes id = some (.listing listing) →
    listing.Sound state.jobs

/-- What the next read of a listing meets is a start time or something that can be listed. Where
no job has a readable status at all, `get_latest_model` may meet anything. -/
def Listing.Admissible (state : State) : Listing → Prop
  | .startTimes task (name :: _) _ => HasStartTime (state.read name) ∨
      task = .getLatestModel ∧ ∀ job ∈ state.jobs, ¬ Readable (state.read job)
  | .rows _ (name :: _) _ => Listable (state.read name)
  | _ => True

/-- The condition on a step, in the state before it. -/
def Admissible (state : State) : Event → Prop
  | .proceed id _ => ∀ listing, state.processes id = some (.listing listing) →
      listing.Admissible state
  | _ => True

/-- A listing that raises is `get_latest_model`, and no job has a readable status. -/
def Survives (python : PythonNumbers) (state : State) (event : Event) : Prop :=
  ∀ id task error,
    (step python state event).processes id = some (.listing (.raised task error)) →
      state.processes id = some (.listing (.raised task error)) ∨
        task = .getLatestModel ∧ ∀ job ∈ state.jobs, ¬ Readable (state.read job)

structure Continues (state : State) (before : Option Listing) (after : Listing) : Prop where
  sound : after.Sound state.jobs
  survives : ∀ task error, after = .raised task error → before = some (.raised task error) ∨
    task = .getLatestModel ∧ ∀ job ∈ state.jobs, ¬ Readable (state.read job)

theorem begin_continues (sound : Sound state) (task : ListingTask) {listdir : Option (List JobName)}
    (found : listdir = none ∧ state.made = false ∨
      ∃ names, listdir = some names ∧ names.Perm state.jobs) :
    Continues state none (.begin task listdir) := by
  have empty : state.jobs = [] → ∀ job ∈ state.jobs, ¬ Readable (state.read job) := by
    intro none' job member
    rw [none'] at member
    exact absurd member List.not_mem_nil
  rcases found with ⟨rfl, unmade⟩ | ⟨names, rfl, same⟩
  · cases task with
    | listModels registeredModels => exact ⟨trivial, fun task error => Listing.noConfusion⟩
    | getLatestModel =>
        refine ⟨trivial, fun task error raised => Or.inr ⟨?_, empty (sound.unmade unmade)⟩⟩
        exact (Listing.raised.inj raised).1.symm
  · have listed : ∀ name ∈ names, name ∈ state.jobs := fun name member => same.mem_iff.mp member
    have numbers : ∀ entry ∈ ([] : List (JobName × Value)), IsNumber entry.2 :=
      fun entry member => absurd member List.not_mem_nil
    cases task with
    | listModels registeredModels =>
        exact ⟨⟨listed, numbers, fun other => ListingTask.noConfusion other⟩,
          fun task error => Listing.noConfusion⟩
    | getLatestModel =>
        cases names with
        | nil =>
            refine ⟨trivial, fun task error raised => Or.inr ⟨?_, empty same.symm.eq_nil⟩⟩
            exact (Listing.raised.inj raised).1.symm
        | cons name names =>
            exact ⟨⟨listed, numbers, fun _ other => absurd other (List.cons_ne_nil _ _)⟩,
              fun task error => Listing.noConfusion⟩

theorem sort_continues {task : ListingTask} {keyed : List (JobName × Value)}
    (sound : Listing.Sound state.jobs (.startTimes task [] keyed)) :
    Continues state (some (.startTimes task [] keyed))
      (Listing.proceed python state.read (.startTimes task [] keyed)) := by
  obtain ⟨-, numbers, filled⟩ := sound
  obtain ⟨sorted, result, same⟩ := @sortByKey_numbers python keyed numbers
  have next : Listing.proceed python state.read (.startTimes task [] keyed) =
      .sorted task sorted := by
    rw [Listing.proceed, result]
  rw [next]
  cases task with
  | listModels registeredModels =>
      exact ⟨trivial, fun task error => Listing.noConfusion⟩
  | getLatestModel =>
      cases sorted with
      | nil => exact absurd same.symm.eq_nil (filled rfl rfl)
      | cons first rest => exact ⟨trivial, fun task error => Listing.noConfusion⟩

theorem startTime_continues {task : ListingTask} {name : JobName} {waiting : List JobName}
    {keyed : List (JobName × Value)}
    (sound : Listing.Sound state.jobs (.startTimes task (name :: waiting) keyed))
    (admissible : Listing.Admissible state (.startTimes task (name :: waiting) keyed)) :
    Continues state (some (.startTimes task (name :: waiting) keyed))
      (Listing.proceed python state.read (.startTimes task (name :: waiting) keyed)) := by
  obtain ⟨listed, numbers, -⟩ := sound
  rw [List.forall_mem_cons] at listed
  rcases admissible with has | ⟨latest, unreadable⟩
  · obtain ⟨startTime, result, number⟩ := has.getStartTime
    have next : Listing.proceed python state.read (.startTimes task (name :: waiting) keyed) =
        .startTimes task waiting (keyed ++ [(name, startTime)]) := by
      rw [Listing.proceed, result]
    rw [next]
    refine ⟨⟨listed.2, fun entry member => ?_, fun _ _ => ?_⟩,
      fun task error => Listing.noConfusion⟩
    · rcases List.mem_append.mp member with old | new
      · exact numbers entry old
      · rw [List.mem_singleton.mp new]
        exact number
    · exact List.append_ne_nil_of_right_ne_nil _ (List.cons_ne_nil _ _)
  · obtain ⟨error, result⟩ := getStartTime_unreadable (unreadable name listed.1)
    have next : Listing.proceed python state.read (.startTimes task (name :: waiting) keyed) =
        .raised task error := by
      rw [Listing.proceed, result]
    rw [next]
    refine ⟨trivial, fun other error raised => Or.inr ⟨?_, unreadable⟩⟩
    exact (Listing.raised.inj raised).1.symm.trans latest

theorem proceed_continues {listing : Listing} (sound : listing.Sound state.jobs)
    (admissible : listing.Admissible state) :
    Continues state (some listing) (listing.proceed python state.read) := by
  cases listing with
  | startTimes task waiting keyed =>
      cases waiting with
      | nil => exact sort_continues sound
      | cons name waiting => exact startTime_continues sound admissible
  | rows registeredModels waiting models =>
      cases waiting with
      | nil => exact ⟨trivial, fun task error => Listing.noConfusion⟩
      | cons name waiting =>
          obtain ⟨row, result⟩ := @Listable.row python _ admissible registeredModels name
          have next : Listing.proceed python state.read (.rows registeredModels (name :: waiting)
              models) = .rows registeredModels waiting (models ++ [row]) := by
            rw [Listing.proceed, result]
          rw [next]
          exact ⟨trivial, fun task error => Listing.noConfusion⟩
  | listed models => exact ⟨trivial, fun task error => Listing.noConfusion⟩
  | latest name => exact ⟨trivial, fun task error => Listing.noConfusion⟩
  | raised task error => exact ⟨trivial, fun task error same => Or.inl (congrArg some same)⟩

theorem Listing.Sound.of_jobs {jobs more : List JobName} {listing : Listing}
    (sound : listing.Sound jobs) (grown : ∀ job ∈ jobs, job ∈ more) : listing.Sound more := by
  cases listing with
  | startTimes task waiting keyed =>
      exact ⟨fun name member => grown name (sound.1 name member), sound.2⟩
  | rows registeredModels waiting models => exact trivial
  | listed models => exact trivial
  | latest name => exact trivial
  | raised task error => exact trivial

/-- What a step of the system is to the listings. -/
inductive StepKind (python : PythonNumbers) (state : State) (event : Event) : State → Prop
  | same : StepKind python state event state
  | aside (id : Nat) (after : State) (apart : Aside state after id) :
      StepKind python state event after
  | begins (id : Nat) (task : ListingTask) (listdir : Option (List JobName))
      (found : listdir = none ∧ state.made = false ∨
        ∃ names, listdir = some names ∧ names.Perm state.jobs) :
      StepKind python state event (state.becomes id (some (.listing (.begin task listdir))))
  | proceeds (id : Nat) (answer : Answer) (asked : event = .proceed id answer) (listing : Listing)
      (running : state.processes id = some (.listing listing)) :
      StepKind python state event
        (state.becomes id (some (.listing (listing.proceed python state.read))))

theorem withWriter_apart {process : Process} {writer : Writer UInt8}
    (writes : process.writer? = some writer) (other : Writer UInt8) (listing : Listing) :
    process.withWriter other ≠ .listing listing := by
  cases process with
  | request job stage =>
      cases stage with
      | writeJobStatus writing next => cases writing <;> exact fun same => Process.noConfusion same
      | _ => exact fun same => Process.noConfusion same
  | training job writing => cases writing <;> exact fun same => Process.noConfusion same
  | listing listing => exact absurd writes (Option.some_ne_none _).symm

theorem step_kind (state : State) (event : Event) :
    StepKind python state event (step python state event) := by
  have same := Grows.refl state
  cases event with
  | train id job archive =>
      rw [step]
      split
      · exact .aside id _ (same.request job _)
      · exact .same
  | updateStatus id job status metadata =>
      rw [step]
      split
      · split
        · exact .same
        · refine .aside id _ (same.aside fun listing equal => ?_)
          exact Process.noConfusion (Option.some.inj equal)
      · exact .same
  | list id task listdir =>
      rw [step]
      split
      · split
        · rename_i unmade
          exact .begins id task none (Or.inl ⟨rfl, unmade⟩)
        · split
          · rename_i permuted
            exact .begins id task (some listdir) (Or.inr ⟨listdir, rfl, permuted⟩)
          · exact .same
      · exact .same
  | proceed id answer =>
      rw [step, State.proceed]
      split
      · exact .same
      · exact .aside id _ (proceedRequest_aside state _ answer _)
      · refine .aside id _ (write_aside state _ (fun writing listing equal => ?_)
          (fun listing => (Option.some_ne_none _).symm) _)
        exact Process.noConfusion equal
      · rename_i listing running
        exact .proceeds id answer rfl listing running
  | spill id count =>
      rw [step]
      split
      · exact .same
      · split
        · exact .same
        · rename_i writer writes
          have grows : Grows state (state.withContents ((state.files []).spill writer count).1) :=
            ⟨rfl, fun _ member => member, fun unmade => ⟨unmade, rfl⟩⟩
          refine .aside id _ (grows.aside fun listing equal => ?_)
          exact withWriter_apart writes _ listing (Option.some.inj equal)
  | stop id => exact .aside id _ same.ends

theorem Continues.becomes {id : Nat} {before : Option Listing} {listing : Listing}
    (continues : Continues state before listing) (sound : Sound state)
    (was : ∀ task error, before = some (.raised task error) →
      state.processes id = some (.listing (.raised task error))) :
    Sound (state.becomes id (some (.listing listing))) ∧
      ∀ other task error, (state.becomes id (some (.listing listing))).processes other =
          some (.listing (.raised task error)) →
        state.processes other = some (.listing (.raised task error)) ∨
          task = .getLatestModel ∧ ∀ job ∈ state.jobs, ¬ Readable (state.read job) := by
  have itself : (state.becomes id (some (.listing listing))).processes id =
      some (.listing listing) := Function.update_self _ _ _
  have others : ∀ other, other ≠ id →
      (state.becomes id (some (.listing listing))).processes other = state.processes other :=
    fun other differs => Function.update_of_ne differs _ _
  refine ⟨⟨sound.unmade, fun other found running => ?_⟩, fun other task error running => ?_⟩
  · by_cases equal : other = id
    · rw [equal, itself] at running
      rw [← Process.listing.inj (Option.some.inj running)]
      exact continues.sound
    · rw [others other equal] at running
      exact sound.listings other found running
  · by_cases equal : other = id
    · rw [equal, itself] at running
      rcases continues.survives task error (Process.listing.inj (Option.some.inj running)) with
        already | allowed
      · exact Or.inl (equal ▸ was task error already)
      · exact Or.inr allowed
    · rw [others other equal] at running
      exact Or.inl running

/-- One step keeps the listings in order, and no listing raises in it but where it may. -/
theorem step_sound {event : Event} (sound : Sound state) (admissible : Admissible state event) :
    Sound (step python state event) ∧ Survives python state event := by
  rw [Survives]
  have kind := @step_kind python state event
  generalize step python state event = after at kind ⊢
  cases kind with
  | same => exact ⟨sound, fun _ _ _ running => Or.inl running⟩
  | aside id after apart =>
      refine ⟨⟨fun unmade => ?_, fun other listing running => ?_⟩,
        fun other task error running => ?_⟩
      · rw [(apart.made unmade).2]
        exact sound.unmade (apart.made unmade).1
      · by_cases equal : other = id
        · exact absurd (equal ▸ running) (apart.itself listing)
        · rw [apart.others other equal] at running
          exact (sound.listings other listing running).of_jobs apart.jobs
      · by_cases equal : other = id
        · exact absurd (equal ▸ running) (apart.itself _)
        · rw [apart.others other equal] at running
          exact Or.inl running
  | begins id task listdir found =>
      exact (begin_continues sound task found).becomes sound
        fun task error same => absurd same (Option.some_ne_none _).symm
  | proceeds id answer asked listing running =>
      have reads : listing.Admissible state := by
        rw [asked] at admissible
        exact admissible listing running
      refine (proceed_continues (sound.listings id listing running) reads).becomes sound ?_
      intro task error same
      rw [running, Option.some.inj same]

theorem sound_initial (made : Bool) : Sound (State.initial made) :=
  ⟨fun _ => rfl, fun _ _ running => absurd running (Option.some_ne_none _).symm⟩

/-- In every run in which the listings only meet statuses that are whole, `list_models` never
raises, and `get_latest_model` raises only where no job has a readable status. -/
theorem listings_survive (python : PythonNumbers) (made : Bool) (events : List Event)
    (admissible : AllSteps (step python) Admissible (State.initial made) events) :
    AllSteps (step python) (Survives python) (State.initial made) events := by
  have all : AllSteps (step python) (fun _ _ => True) (State.initial made) events :=
    allSteps_of_forall _ _ (fun _ _ => trivial) _ events
  refine (allSteps_iff (step python) Sound Admissible (Survives python) (fun _ _ => True)
    ?_ ?_ (State.initial made) events (sound_initial made) admissible).mpr all
  · exact fun state event sound reads => iff_true_intro (step_sound sound reads).2
  · exact fun state event sound reads _ => (step_sound sound reads).1

/-- The other way around: where the listings survive, each start time is read from a file that
is there and holds JSON, but for `get_latest_model` where no job has one. -/
def MeetsReadable (state : State) (event : Event) : Prop :=
  ∀ id answer task name waiting keyed, event = .proceed id answer →
    state.processes id = some (.listing (.startTimes task (name :: waiting) keyed)) →
      Readable (state.read name) ∨
        task = .getLatestModel ∧ ∀ job ∈ state.jobs, ¬ Readable (state.read job)

theorem Survives.meetsReadable {event : Event} (survives : Survives python state event) :
    MeetsReadable state event := by
  intro id answer task name waiting keyed asked running
  by_cases readable : Readable (state.read name)
  · exact Or.inl readable
  · obtain ⟨error, result⟩ := getStartTime_unreadable readable
    have raised : (step python state event).processes id =
        some (.listing (.raised task error)) := by
      rw [asked, step, State.proceed, running]
      dsimp only
      rw [Listing.proceed, result, State.becomes]
      exact Function.update_self _ _ _
    rcases survives id task error raised with already | allowed
    · rw [running] at already
      exact absurd (Process.listing.inj (Option.some.inj already)) Listing.noConfusion
    · exact Or.inr allowed

theorem survive_meetsReadable (python : PythonNumbers) (made : Bool) (events : List Event)
    (survive : AllSteps (step python) (Survives python) (State.initial made) events) :
    AllSteps (step python) MeetsReadable (State.initial made) events := by
  rw [allSteps_iff_prefixes] at survive ⊢
  exact fun front event back split => (survive front event back split).meetsReadable

theorem processes_becomes (id : Nat) (process : Option Process) :
    (state.becomes id process).processes id = process :=
  Function.update_self _ _ _

variable (python) in
theorem run_listing {id : Nat} {listing : Listing} (count : Nat)
    (running : state.processes id = some (.listing listing)) :
    run (step python) state (List.replicate count (.proceed id .done)) =
      state.becomes id (some (.listing ((Listing.proceed python state.read)^[count] listing))) := by
  induction count generalizing state listing with
  | zero =>
      have same : Function.update state.processes id (some (.listing listing)) =
          state.processes := by
        rw [← running, Function.update_eq_self]
      rw [Function.iterate_zero, id_eq, State.becomes, same]
      rfl
  | succ count ih =>
      have next : step python state (.proceed id .done) =
          state.becomes id (some (.listing (listing.proceed python state.read))) := by
        rw [step, State.proceed, running]
      rw [List.replicate_succ, run, List.foldl_cons, next]
      refine (ih (processes_becomes id _)).trans ?_
      rw [Function.iterate_succ_apply, State.becomes, State.becomes, State.becomes]
      simp only [Function.update_idem]
      rfl

theorem admissible_listing {id : Nat} {listing : Listing} (count : Nat)
    (running : state.processes id = some (.listing listing))
    (reads : ∀ index < count,
      ((Listing.proceed python state.read)^[index] listing).Admissible state) :
    AllSteps (step python) Admissible state (List.replicate count (.proceed id .done)) := by
  rw [allSteps_iff_prefixes]
  intro front event back split
  obtain ⟨total, alike, tail⟩ := List.replicate_eq_append_iff.mp split
  rw [List.length_cons, List.replicate_succ] at tail
  obtain ⟨rfl, _⟩ := List.cons.inj tail
  rw [List.length_cons] at total
  rw [alike, run_listing python front.length running]
  intro other now
  rw [processes_becomes] at now
  rw [← Process.listing.inj (Option.some.inj now)]
  have read := reads front.length (by omega)
  generalize (Listing.proceed python state.read)^[front.length] listing = reading at read ⊢
  cases reading <;> exact read

end Runs

section Examples

def naturalNumbers : PythonNumbers where
  less left right :=
    match left, right with
    | .int first, .int second => decide (first < second)
    | _, _ => false
  lessLists _ _ := none
  floatPlusOne text := text
  floatRepr text := text

def halfCreated : List Event :=
  [.train 0 ['b'] [], .proceed 0 .done, .stop 0, .list 1 (.listModels []) [['b']],
    .proceed 1 .done]

theorem half_created_raises : ¬ ∀ python made events,
    AllSteps (step python) (Survives python) (State.initial made) events := by
  intro all
  have survives := allSteps_last _ _ _ (halfCreated.take 4) (.proceed 1 .done)
    (all naturalNumbers true halfCreated)
  rcases survives 1 (.listModels []) .fileNotFound rfl with already | allowed
  · exact absurd (Process.listing.inj (Option.some.inj already)) Listing.noConfusion
  · exact ListingTask.noConfusion allowed.1

def startedText (digit : Char) : List Char :=
  ['{', '"', 'h', 'i', 's', 't', 'o', 'r', 'y', '"', ':', '[', '{', '"', 's', 't', 'e', 'p', '"',
    ':', '4', '}', ']', ',', '"', 's', 't', 'a', 'r', 't', '_', 't', 'i', 'm', 'e', '"', ':',
    digit, '}']

def startedMembers (time : Int) : JobStatus :=
  [(codePoints historyKey, .array [.object [(codePoints stepKey, .int 4)]]),
    (codePoints startTimeKey, .int time)]

def startedRead (digit : Char) : StatusRead := .content (encodeUtf8 (startedText digit))

structure Started (digit : Char) (time : Int) : Prop where
  loaded : loads (startedText digit) = some (.object (startedMembers time))
  line : Words.strip Slurm.isSpace (firstLine (startedText digit)) = startedText digit

def rowOf (name : JobName) (time : Int) : ModelRow :=
  ⟨name, false, unknownStatus, .int time, .int 5, .int 0, .int 0⟩

section Started

variable {digit : Char} {time : Int}

theorem Started.jsonLoad_eq (started : Started digit time) :
    jsonLoad (encodeUtf8 (startedText digit)) = .ok (.object (startedMembers time)) := by
  rw [jsonLoad, decodeUtf8_encodeUtf8]
  dsimp only
  rw [started.loaded]

theorem Started.getStartTime_eq (started : Started digit time) :
    getStartTime (startedRead digit) = .ok (.int time) := by
  rw [startedRead, getStartTime, started.jsonLoad_eq]
  rfl

theorem Started.modelRow_eq (started : Started digit time) (name : JobName) :
    getTrainingJobStatus (startedRead digit) >>= modelRow naturalNumbers [] name =
      .ok (rowOf name time) := by
  rw [startedRead, getTrainingJobStatus, decodeUtf8_encodeUtf8]
  dsimp only
  rw [started.line, started.loaded]
  rfl

theorem Started.hasStartTime (started : Started digit time) :
    HasStartTime (startedRead digit) := by
  refine ⟨_, startedMembers time, rfl, started.jsonLoad_eq, fun value found => ?_⟩
  have number : some (Value.int time) = some value := found
  rw [← Option.some.inj number]
  exact trivial

theorem Started.listable (started : Started digit time) : Listable (startedRead digit) := by
  refine .inr ⟨_, _, rfl, decodeUtf8_encodeUtf8 _, fun value loaded => ?_⟩
  rw [started.line, started.loaded] at loaded
  refine .inr ⟨startedMembers time, (Option.some.inj loaded).symm, fun history found => ?_⟩
  have array : some (Value.array [.object [(codePoints stepKey, .int 4)]]) = some history := found
  refine ⟨_, (Option.some.inj array).symm, fun last ends => ⟨_, (Option.some.inj ends).symm, ?_⟩⟩
  intro step known
  have number : some (Value.int 4) = some step := known
  rw [← Option.some.inj number]
  exact trivial

end Started

theorem started_7 : Started '7' 7 := ⟨by rfl, by rfl⟩

theorem started_9 : Started '9' 9 := ⟨by rfl, by rfl⟩

/-- A request comes with the status of its job in the archive, and gets as far as having
extracted it. -/
def extracts (id : Nat) (job : JobName) (bytes : Bytes) : List Event :=
  .train id job [.statusFile bytes] :: List.replicate 3 (.proceed id .done)

theorem run_extracts (python : PythonNumbers) {state : State} {id : Nat} {job : JobName}
    (bytes : Bytes) (free : state.processes id = none) (new : job ∉ state.jobs)
    (absent : state.entry job = none) :
    run (step python) state (extracts id job bytes) =
      { made := true
        jobs := job :: state.jobs
        entry := Function.update state.entry job (some (.file state.fresh))
        content := Function.update state.content state.fresh bytes
        fresh := state.fresh + 1
        processes := Function.update state.processes id
          (some (.request job (.extracting []))) } := by
  have written : writeAt [] 0 bytes = bytes := writeAt_end [] bytes
  simp [extracts, run, List.replicate, step, free, State.becomes, State.proceed,
    State.proceedRequest, State.makedirs, new, State.openStatus, State.files, absent,
    Files.openWrite, Files.put, Files.close, Files.spill, Writer.write, State.withEntry,
    State.withContents, State.close, written]

theorem admissible_extracts (python : PythonNumbers) {state : State} {id : Nat} {job : JobName}
    (bytes : Bytes) (free : state.processes id = none) (new : job ∉ state.jobs)
    (absent : state.entry job = none) :
    AllSteps (step python) Admissible state (extracts id job bytes) := by
  simp [extracts, List.replicate, AllSteps, Admissible, step, free, State.becomes, State.proceed,
    State.proceedRequest, State.makedirs, new, State.openStatus, State.files, absent,
    Files.openWrite, Files.put, Writer.write, State.withEntry, State.withContents]

def twoJobs : State where
  made := true
  jobs := [['b'], ['a']]
  entry := Function.update (Function.update (fun _ => none) ['a'] (some (.file 0))) ['b']
    (some (.file 1))
  content := Function.update (Function.update (fun _ => []) 0 (encodeUtf8 (startedText '7'))) 1
    (encodeUtf8 (startedText '9'))
  fresh := 2
  processes := Function.update (Function.update (fun _ => none) 0
    (some (.request ['a'] (.extracting [])))) 1 (some (.request ['b'] (.extracting [])))

def twoUploads : List Event :=
  extracts 0 ['a'] (encodeUtf8 (startedText '7')) ++ extracts 1 ['b'] (encodeUtf8 (startedText '9'))

theorem run_twoUploads : run (step naturalNumbers) (State.initial false) twoUploads = twoJobs := by
  rw [twoUploads, run, List.foldl_append]
  have first := run_extracts naturalNumbers (encodeUtf8 (startedText '7'))
    (rfl : (State.initial false).processes 0 = none) List.not_mem_nil
    (rfl : (State.initial false).entry ['a'] = none)
  rw [run] at first
  rw [first]
  exact run_extracts naturalNumbers (encodeUtf8 (startedText '9')) rfl (by decide) rfl

theorem admissible_twoUploads : AllSteps (step naturalNumbers) Admissible (State.initial false)
    twoUploads := by
  rw [twoUploads, allSteps_append, run_extracts naturalNumbers _ rfl List.not_mem_nil rfl]
  exact ⟨admissible_extracts naturalNumbers _ rfl List.not_mem_nil rfl,
    admissible_extracts naturalNumbers _ rfl (by decide) rfl⟩

def listTwo : List Event :=
  .list 2 (.listModels []) [['a'], ['b']] :: List.replicate 6 (.proceed 2 .done)

def stageTwo : Nat → Listing
  | 0 => .startTimes (.listModels []) [['a'], ['b']] []
  | 1 => .startTimes (.listModels []) [['b']] [(['a'], .int 7)]
  | 2 => .startTimes (.listModels []) [] [(['a'], .int 7), (['b'], .int 9)]
  | 3 => .rows [] [['b'], ['a']] []
  | 4 => .rows [] [['a']] [rowOf ['b'] 9]
  | 5 => .rows [] [] [rowOf ['b'] 9, rowOf ['a'] 7]
  | _ => .listed [rowOf ['b'] 9, rowOf ['a'] 7]

theorem proceed_stageTwo {read : JobName → StatusRead} (first : read ['a'] = startedRead '7')
    (second : read ['b'] = startedRead '9') (count : Nat) :
    (Listing.proceed naturalNumbers read)^[count] (stageTwo 0) = stageTwo count := by
  induction count with
  | zero => rfl
  | succ count ih =>
      rw [Function.iterate_succ_apply', ih]
      rcases count with _ | _ | _ | _ | _ | _ | count
      · rw [stageTwo, Listing.proceed, first, started_7.getStartTime_eq]
        rfl
      · rw [stageTwo, Listing.proceed, second, started_9.getStartTime_eq]
        rfl
      · rfl
      · rw [stageTwo, Listing.proceed, second, started_9.modelRow_eq]
        rfl
      · rw [stageTwo, Listing.proceed, first, started_7.modelRow_eq]
        rfl
      · rfl
      · rfl

theorem admissible_stageTwo {state : State} (first : state.read ['a'] = startedRead '7')
    (second : state.read ['b'] = startedRead '9') (count : Nat) :
    (stageTwo count).Admissible state := by
  rcases count with _ | _ | _ | _ | _ | _ | count
  · exact .inl (first ▸ started_7.hasStartTime)
  · exact .inl (second ▸ started_9.hasStartTime)
  · trivial
  · have listable : Listable (state.read ['b']) := second ▸ started_9.listable
    exact listable
  · have listable : Listable (state.read ['a']) := first ▸ started_7.listable
    exact listable
  · trivial
  · trivial

/-- Both jobs are listed, the one that was started later first. -/
theorem two_jobs_survive :
    AllSteps (step naturalNumbers) (Survives naturalNumbers) (State.initial false)
        (twoUploads ++ listTwo) ∧
      (run (step naturalNumbers) (State.initial false) (twoUploads ++ listTwo)).processes 2 =
        some (.listing (.listed [rowOf ['b'] 9, rowOf ['a'] 7])) := by
  have running : (twoJobs.becomes 2 (some (.listing (stageTwo 0)))).processes 2 =
      some (.listing (stageTwo 0)) := rfl
  have reads : ∀ count, (Listing.proceed naturalNumbers twoJobs.read)^[count] (stageTwo 0) =
      stageTwo count := proceed_stageTwo rfl rfl
  constructor
  · refine listings_survive naturalNumbers false _ ?_
    rw [allSteps_append, run_twoUploads]
    refine ⟨admissible_twoUploads, trivial, admissible_listing 6 running fun index _ => ?_⟩
    exact (reads index).symm ▸ admissible_stageTwo rfl rfl index
  · have uploaded : (twoUploads ++ listTwo).foldl (step naturalNumbers) (State.initial false) =
        listTwo.foldl (step naturalNumbers) twoJobs := by
      rw [List.foldl_append]
      exact congrArg (listTwo.foldl (step naturalNumbers)) run_twoUploads
    have finished := run_listing naturalNumbers 6 running
    rw [run, uploaded]
    refine (congrArg (fun state => state.processes 2) finished).trans ?_
    refine (processes_becomes 2 _).trans ?_
    exact congrArg (fun listing => some (Process.listing listing)) (reads 6)

end Examples

end ScalarLM.Listings
