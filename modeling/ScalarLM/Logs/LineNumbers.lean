import ScalarLM.Logs.LogResponses

/-! The numbers that log lines have in the responses of a whole run. -/

namespace ScalarLM.Logs

open Transition

section Spec

def emptyDirectory : LogDirectory := ⟨[], []⟩

def LogResponse.EndedLine (response : LogResponse) (lineNumber : Nat) : Prop :=
  ∃ line, response.lines[lineNumber]? = some line ∧ Ended '\n' line

/-- What a response has said about an ended line, every response says that comes to the line
later. -/
def Agree (before after : LogDirectory) : Prop :=
  ∀ (first second : Nat) (earlier later : LogResponse),
    before.responses[first]? = some earlier → after.responses[second]? = some later →
      ∀ log ∈ earlier.yielded, earlier.EndedLine log.lineNumber →
        (∀ known, before.responses[second]? = some known →
          known.lines.length ≤ log.lineNumber) →
        ∀ other ∈ later.yielded, other.lineNumber = log.lineNumber → other.line = log.line

def LogResponse.listedLines (logs : List SlurmLog) (response : LogResponse) : List (List Char) :=
  (logs.filter fun log => response.logFiles.contains log.name).flatMap SlurmLog.lines

/-- A response that comes to its end has the lines of its logs from the starting line number to
the last one, without a gap. -/
def CoversToEnd (before after : LogDirectory) : Prop :=
  ∀ (index : Nat) (response last : LogResponse),
    before.responses[index]? = some response → after.responses[index]? = some last →
      response.ahead ≠ [] → last.ahead = [] →
        last.yielded.map LogLine.lineNumber =
          List.range' last.startingLineNumber.toNat
            ((last.listedLines after.logs).length - last.startingLineNumber.toNat)

end Spec

section Runs

variable {directory : LogDirectory}

theorem getElem?_reads (index other : Nat) :
    (directory.step (.reads index)).responses[other]? =
      directory.responses[other]?.map fun response =>
        if index = other then response.readNext directory.logs else response := by
  rw [LogDirectory.step, List.getElem?_modify]
  rfl

theorem step_orderly (event : DirectoryEvent) (orderly : Orderly directory)
    (calm : Calm directory event) : Orderly (directory.step event) := by
  cases event with
  | log event =>
      refine ⟨distinct_step event orderly.distinct, fun response member => ?_⟩
      have followed := orderly.followed response member
      cases event with
      | appears jobId =>
          rw [LogDirectory.step, logStep]
          dsimp only
          split
          · rename_i new
            exact followed.appears orderly.distinct jobId fun log inLogs =>
              of_decide_eq_true (List.all_eq_true.mp new log inLogs)
          · exact followed
      | grows jobId text =>
          by_cases present : ∃ log ∈ directory.logs, log.jobId = jobId
          · obtain ⟨log, inLogs, rfl⟩ := present
            exact followed.grows orderly.distinct log inLogs text calm.1
              (calm.2 response member log inLogs rfl)
          · rw [not_exists] at present
            rw [LogDirectory.step, grows_absent jobId text fun log inLogs same =>
              present log ⟨inLogs, same⟩]
            exact followed
  | requested startingLineNumber listing =>
      rw [LogDirectory.step]
      split
      · rename_i found
        refine ⟨orderly.distinct, fun response member => ?_⟩
        rcases List.mem_append.mp member with old | added
        · exact orderly.followed response old
        · rw [List.mem_singleton.mp added]
          exact followed_requested orderly.distinct _ _ (List.isPerm_iff.mp found.1)
      · exact orderly
  | reads index =>
      refine ⟨orderly.distinct, fun response member => ?_⟩
      obtain ⟨other, found⟩ := List.mem_iff_getElem?.mp member
      rw [getElem?_reads, Option.map_eq_some_iff] at found
      obtain ⟨before, there, rfl⟩ := found
      have followed := orderly.followed before (List.mem_of_getElem? there)
      split
      · exact followed.readNext orderly.distinct
      · exact followed

theorem orderly_empty : Orderly emptyDirectory := ⟨List.nodup_nil, nofun⟩

theorem run_orderly (events : List DirectoryEvent)
    (calm : AllSteps LogDirectory.step Calm emptyDirectory events) :
    Orderly (run LogDirectory.step emptyDirectory events) :=
  run_of_invariant LogDirectory.step Orderly Calm (fun _ event => step_orderly event) _ _
    orderly_empty calm

theorem step_numbered (event : DirectoryEvent) (orderly : Orderly directory)
    (calm : Calm directory event) :
    KeepsEnded '\n' (numberedLines directory.logs)
      (numberedLines (directory.step event).logs) := by
  cases event with
  | log event =>
      refine step_keeps event orderly.distinct ?_
      cases event with
      | appears jobId => trivial
      | grows jobId text => exact calm.1
  | requested startingLineNumber listing =>
      rw [LogDirectory.step]
      split <;> exact keepsEnded_refl _
  | reads index => exact keepsEnded_refl _

/-- What a response says of a line, if it has read that far. -/
def Told (directory : LogDirectory) (index lineNumber : Nat) (line : List Char) : Prop :=
  ∀ response, directory.responses[index]? = some response →
    ∀ told, response.lines[lineNumber]? = some told → told = line

theorem readNext_keeps (logs : List SlurmLog) (response : LogResponse) :
    response.lines <+: (response.readNext logs).lines := by
  rw [LogResponse.readNext]
  split
  · exact List.prefix_rfl
  · split
    · exact List.prefix_rfl
    · dsimp only
      split
      · exact List.prefix_rfl
      · exact List.prefix_append _ _

theorem step_told (event : DirectoryEvent) (orderly : Orderly directory) (index lineNumber : Nat)
    (line : List Char) (stands : (numberedLines directory.logs)[lineNumber]? = some line)
    (told : Told directory index lineNumber line) :
    Told (directory.step event) index lineNumber line := by
  cases event with
  | log event => exact told
  | requested startingLineNumber listing =>
      rw [LogDirectory.step]
      split
      · intro response found text known
        rcases Nat.lt_or_ge index directory.responses.length with old | new
        · rw [List.getElem?_append_left old] at found
          exact told response found text known
        · rw [List.getElem?_append_right new, List.getElem?_singleton] at found
          split at found
          · cases found
            cases known
          · cases found
      · exact told
  | reads reader =>
      intro response found text known
      rw [getElem?_reads, Option.map_eq_some_iff] at found
      obtain ⟨before, there, rfl⟩ := found
      split at known
      · have followed := orderly.followed before (List.mem_of_getElem? there)
        rcases Nat.lt_or_ge lineNumber before.lines.length with read | unread
        · obtain ⟨added, lines⟩ := readNext_keeps directory.logs before
          rw [← lines, List.getElem?_append_left read] at known
          exact told before there text known
        · have now := followed.readNext_line orderly.distinct lineNumber text unread known
          rw [stands, Option.some.injEq] at now
          exact now.symm
      · exact told before there text known

/-- From the time on when an ended line stands under its number, it is told under it. -/
theorem run_told (events : List DirectoryEvent) (orderly : Orderly directory)
    (calm : AllSteps LogDirectory.step Calm directory events) (index lineNumber : Nat)
    (line : List Char) (ended : Ended '\n' line)
    (stands : (numberedLines directory.logs)[lineNumber]? = some line)
    (told : Told directory index lineNumber line) :
    Told (run LogDirectory.step directory events) index lineNumber line := by
  induction events generalizing directory with
  | nil => exact told
  | cons event rest ih =>
      exact ih (step_orderly event orderly calm.1) calm.2
        (step_numbered event orderly calm.1 lineNumber line stands ended)
        (step_told event orderly index lineNumber line stands told)

theorem yielded_member (response : LogResponse) (log : LogLine) (member : log ∈ response.yielded) :
    ∃ line, response.lines[log.lineNumber]? = some line ∧ log.line = rstrip line := by
  rw [LogResponse.yielded, generateFile_lines] at member
  obtain ⟨numbered, present, yielded⟩ := List.mem_filterMap.mp member
  rw [List.mem_zipIdx_iff_getElem?] at present
  rw [logLine?] at yielded
  split at yielded
  · cases yielded
  · cases yielded
    exact ⟨numbered.1, present, rfl⟩

/-- A response tells about an ended line what every response tells that was there before. -/
theorem run_agree (front back : List DirectoryEvent)
    (calm : AllSteps LogDirectory.step Calm emptyDirectory (front ++ back)) :
    Agree (run LogDirectory.step emptyDirectory front)
      (run LogDirectory.step emptyDirectory (front ++ back)) := by
  rw [allSteps_append] at calm
  have orderly := run_orderly front calm.1
  intro first second earlier later found foundLater log member lineEnded unread other present number
  obtain ⟨line, read, ended⟩ := lineEnded
  have stands := (orderly.followed earlier (List.mem_of_getElem? found)).keeps
    log.lineNumber line read ended
  have told : Told (run LogDirectory.step emptyDirectory front) second log.lineNumber line := by
    intro known there text toldNow
    rw [List.getElem?_eq_none (unread known there)] at toldNow
    cases toldNow
  have toldLater := run_told back orderly calm.2 second log.lineNumber line ended stands told
  rw [← run_append] at toldLater
  obtain ⟨text, inEarlier, said⟩ := yielded_member earlier log member
  obtain ⟨textLater, inLater, saidLater⟩ := yielded_member later other present
  rw [number] at inLater
  rw [read, Option.some.injEq] at inEarlier
  rw [saidLater, said, ← inEarlier, toldLater later foundLater textLater inLater]

theorem flatMap_filter_of_nil (marked : SlurmLog → Bool) (logs : List SlurmLog)
    (others : ∀ log ∈ logs, marked log = false → log.lines = []) :
    (logs.filter marked).flatMap SlurmLog.lines = logs.flatMap SlurmLog.lines := by
  induction logs with
  | nil => rfl
  | cons log rest ih =>
      obtain ⟨here, later⟩ := List.forall_mem_cons.mp others
      rw [List.filter_cons, List.flatMap_cons]
      split
      · rw [List.flatMap_cons, ih later]
      · rename_i unmarked
        rw [here (Bool.eq_false_iff.mpr unmarked), ih later]
        rfl

theorem listedLines_last (logs : List SlurmLog) (response : LogResponse) (distinct : Distinct logs)
    (followed : Followed logs response) (log : SlurmLog) (member : log ∈ logs)
    (ahead : response.ahead = [log.name]) :
    (response.listedLines logs).length =
      (linesBefore logs log.name).length + log.lines.length := by
  obtain ⟨front, back, split, before, behind⟩ := sorted_split distinct log member
  obtain ⟨left, parts⟩ := followed.suffix
  have sorted := followed.sorted
  rw [← parts, ahead, List.pairwise_append] at sorted
  have perm := List.mergeSort_perm logs sortsBefore
  have listed : log.name ∈ response.logFiles := by
    rw [← parts, ahead]
    exact List.mem_append_right left List.mem_cons_self
  have inBack : back.filter (fun other => response.logFiles.contains other.name) = [] := by
    refine List.filter_eq_nil_iff.mpr fun other there marked => ?_
    have inFiles := List.contains_iff_mem.mp marked
    rw [← parts, ahead, List.mem_append, List.mem_singleton] at inFiles
    rcases inFiles with read | same
    · exact List.lt_asymm (behind other there) (sorted.2.2 _ read _ List.mem_cons_self)
    · exact List.lt_irrefl _ (same ▸ behind other there)
  have inFront : (front.filter fun other => response.logFiles.contains other.name).flatMap
      SlurmLog.lines = front.flatMap SlurmLog.lines := by
    refine flatMap_filter_of_nil _ _ fun other there unmarked => ?_
    have inLogs : other ∈ logs := perm.mem_iff.mp (split ▸ List.mem_append_left _ there)
    have notListed : other.name ∉ response.logFiles := fun inFiles =>
      Bool.eq_false_iff.mp unmarked (List.contains_iff_mem.mpr inFiles)
    refine (followed.unlisted other inLogs notListed).resolve_right ?_
    intro all
    refine List.lt_asymm (before other there) (all log.name ?_)
    rw [ahead]
    exact List.mem_cons_self
  have count : (response.listedLines logs).length =
      (((logs.mergeSort sortsBefore).filter
        fun other => response.logFiles.contains other.name).flatMap SlurmLog.lines).length :=
    ((perm.filter _).flatMap_right _).length_eq.symm
  rw [count, split, List.filter_append, List.filter_cons,
    if_pos (List.contains_iff_mem.mpr listed), inBack, List.flatMap_append, inFront,
    List.flatMap_cons, List.flatMap_nil, List.append_nil, List.length_append,
    linesBefore_split front back log split before behind]

theorem yielded_numbers (response : LogResponse) :
    response.yielded.map LogLine.lineNumber =
      List.range' response.startingLineNumber.toNat
        (response.lines.length - response.startingLineNumber.toNat) := by
  have numbers : response.lines.zipIdx.map
      (LogLine.lineNumber ∘ fun numbered => ⟨rstrip numbered.1, numbered.2⟩) =
        List.range' 0 response.lines.length := List.zipIdx_map_snd 0 _
  rw [LogResponse.yielded, generateFile_lines, filterMap_logLine?, Nat.sub_zero, List.map_drop,
    List.map_map, numbers, List.drop_range', Nat.zero_add, Nat.mul_one]

theorem step_covers (event : DirectoryEvent) (orderly : Orderly directory) :
    CoversToEnd directory (directory.step event) := by
  intro index response last found foundLast reading ended
  have same (kept : (directory.step event).responses[index]? = some response) : False := by
    rw [kept, Option.some.injEq] at foundLast
    exact reading (foundLast ▸ ended)
  cases event with
  | log event => exact (same found).elim
  | requested startingLineNumber listing =>
      refine (same ?_).elim
      rw [LogDirectory.step]
      split
      · exact (List.getElem?_append_left (List.getElem?_eq_some_iff.mp found).1).trans found
      · exact found
  | reads reader =>
      have followed := orderly.followed response (List.mem_of_getElem? found)
      rw [getElem?_reads, found, Option.map_some, Option.some.injEq] at foundLast
      by_cases reads : reader = index
      · rw [if_pos reads] at foundLast
        rcases readNext_cases orderly.distinct followed with
          ⟨nothing, _⟩ | ⟨log, member, rest, ahead, inFile, ⟨done, next⟩ | ⟨more, next⟩⟩
        · exact absurd nothing reading
        · rw [next] at foundLast
          subst foundLast
          obtain rfl : rest = [] := ended
          obtain ⟨front, lines, count, _⟩ := inFile.counted
          have whole : log.text.take response.offset = log.text :=
            List.take_of_length_le (List.drop_eq_nil_iff.mp done)
          have total : (response.listedLines directory.logs).length = response.lines.length := by
            rw [listedLines_last directory.logs response orderly.distinct followed log member
              ahead, lines, whole, List.length_append, count]
            rfl
          rw [yielded_numbers]
          exact congrArg (fun lineCount => List.range' response.startingLineNumber.toNat
            (lineCount - response.startingLineNumber.toNat)) total.symm
        · rw [next] at foundLast
          subst foundLast
          exact absurd ended reading
      · rw [if_neg reads] at foundLast
        exact absurd (foundLast ▸ ended) reading

/-- In a run in which no log gains a line in front of ended lines or behind the back of a
response, an ended line has the same number and the same text in every response that comes to it
later, and each response has the lines from its starting line number to the end. -/
theorem line_numbers_stable (events : List DirectoryEvent)
    (calm : AllSteps LogDirectory.step Calm emptyDirectory events) :
    (∀ front back, events = front ++ back →
        Agree (run LogDirectory.step emptyDirectory front)
          (run LogDirectory.step emptyDirectory events)) ∧
      AllSteps LogDirectory.step
        (fun directory event => CoversToEnd directory (directory.step event)) emptyDirectory
        events := by
  constructor
  · rintro front back rfl
    exact run_agree front back calm
  · rw [allSteps_iff_prefixes] at calm ⊢
    intro front event back split
    refine step_covers event (run_orderly front ?_)
    rw [allSteps_iff_prefixes]
    intro earlier other later rest
    refine calm earlier other (later ++ event :: back) ?_
    rw [split, rest, List.append_assoc, List.cons_append]

theorem run_requested (front back : List DirectoryEvent) (reached : LogDirectory)
    (there : run LogDirectory.step emptyDirectory front = reached) (startingLineNumber : Int)
    (listing : List (List Char)) (names : listing.filter isLogName = listing)
    (listed : listing.isPerm (reached.logs.map SlurmLog.name) = true) (filled : listing ≠ [])
    (sorted : listing.Pairwise fun name next => (!decide (next < name)) = true) :
    run LogDirectory.step emptyDirectory (front ++ .requested startingLineNumber listing :: back) =
      run LogDirectory.step
        { reached with
          responses := reached.responses ++ [⟨startingLineNumber, listing, listing, 0, []⟩] }
        back := by
  have files : logFiles listing = listing := by
    rw [logFiles, names, List.mergeSort_of_pairwise sorted]
  rw [run_append, there]
  refine congrArg (fun directory => run LogDirectory.step directory back) ?_
  rw [LogDirectory.step, names, files, if_pos ⟨listed, filled⟩]

def jobWrites (jobId : Nat) (text : List Char) : List DirectoryEvent :=
  [.log (.appears jobId), .log (.grows jobId (text ++ ['\n']))]

def jobThenJob (first second : Nat) : List DirectoryEvent :=
  jobWrites first ['a'] ++ [.requested 0 [logName first], .reads 0] ++ jobWrites second ['b']

def readBoth : List DirectoryEvent := [.reads 1, .reads 0, .reads 1, .reads 1, .reads 1]

/-- The second job has as many digits in its id as the first one. -/
theorem line_numbers_stable_two_jobs :
    let events := jobThenJob 10 11 ++ .requested 0 [logName 10, logName 11] :: readBoth
    (run LogDirectory.step emptyDirectory events).responses.map
        (fun response => (response.lines, response.ahead)) =
      [([['a', '\n']], []), ([['a', '\n'], ['b', '\n']], [])] ∧
    (∀ front back, events = front ++ back →
        Agree (run LogDirectory.step emptyDirectory front)
          (run LogDirectory.step emptyDirectory events)) ∧
      AllSteps LogDirectory.step
        (fun directory event => CoversToEnd directory (directory.step event)) emptyDirectory
        events := by
  refine ⟨?_, line_numbers_stable _ (by decide +kernel)⟩
  rw [run_requested (jobThenJob 10 11) readBoth
    ⟨[⟨10, ['a', '\n']⟩, ⟨11, ['b', '\n']⟩],
      [⟨0, [logName 10], [logName 10], 2, [['a', '\n']]⟩]⟩
    (by decide +kernel) 0 [logName 10, logName 11] rfl rfl (List.cons_ne_nil _ _) (by decide)]
  rfl

/-- The log of job 10 is read in front of that of job 9. -/
theorem line_numbers_not_stable :
    ¬ ∀ front back, Agree (run LogDirectory.step emptyDirectory front)
      (run LogDirectory.step emptyDirectory (front ++ back)) := by
  intro stable
  have later := run_requested (jobThenJob 9 10) readBoth
    ⟨[⟨9, ['a', '\n']⟩, ⟨10, ['b', '\n']⟩],
      [⟨0, [logName 9], [logName 9], 2, [['a', '\n']]⟩]⟩
    (by decide +kernel) 0 [logName 10, logName 9] rfl rfl (List.cons_ne_nil _ _) (by decide)
  have same := stable (jobThenJob 9 10) (.requested 0 [logName 10, logName 9] :: readBoth) 0 1
    ⟨0, [logName 9], [logName 9], 2, [['a', '\n']]⟩
    ⟨0, [logName 10, logName 9], [], 0, [['b', '\n'], ['a', '\n']]⟩
    (by decide +kernel) (by rw [later]; rfl) ⟨['a'], 0⟩ List.mem_cons_self
    ⟨['a', '\n'], rfl, rfl⟩ (by decide +kernel) ⟨['b'], 0⟩ List.mem_cons_self rfl
  cases same

end Runs

end ScalarLM.Logs
