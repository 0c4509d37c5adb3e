import ScalarLM.Logs.LogDirectory

/-! Responses that read the logs of a job directory line by line, while the logs grow. -/

namespace ScalarLM.Logs

open Transition

section Responses

/-- A response while it is read: the files that were listed for it, those that it has not read to
their ends, the characters that it has read of the first of these, and all lines so far. -/
structure LogResponse where
  startingLineNumber : Int
  logFiles : List (List Char)
  ahead : List (List Char)
  offset : Nat
  lines : List (List Char)
deriving DecidableEq

def LogResponse.yielded (response : LogResponse) : List LogLine :=
  (generateFile response.startingLineNumber 0 response.lines).1

structure LogDirectory where
  logs : List SlurmLog
  responses : List LogResponse
deriving DecidableEq

def logFiles (listing : List (List Char)) : List (List Char) :=
  (listing.filter isLogName).mergeSort fun name next => !decide (next < name)

def LogResponse.readNext (logs : List SlurmLog) (response : LogResponse) : LogResponse :=
  match response.ahead with
  | [] => response
  | name :: ahead =>
      match logs.find? fun log => decide (log.name = name) with
      | none => response
      | some log =>
          let remaining := log.text.drop response.offset
          if remaining = [] then { response with ahead := ahead, offset := 0 }
          else
            { response with
              offset := log.text.length - (readline remaining).2.length
              lines := response.lines ++ [(readline remaining).1] }

inductive DirectoryEvent where
  | log (event : LogEvent)
  /-- A request, for which `os.listdir` gives the files in any order and among any others. -/
  | requested (startingLineNumber : Int) (listing : List (List Char))
  /-- The loop of a response takes its next line. -/
  | reads (index : Nat)

/-- Without a log file a request fails. -/
def LogDirectory.step (directory : LogDirectory) : DirectoryEvent → LogDirectory
  | .log event => { directory with logs := logStep directory.logs event }
  | .requested startingLineNumber listing =>
      if (listing.filter isLogName).isPerm (directory.logs.map SlurmLog.name) ∧
          logFiles listing ≠ [] then
        { directory with
          responses := directory.responses ++
            [⟨startingLineNumber, logFiles listing, logFiles listing, 0, []⟩] }
      else directory
  | .reads index =>
      { directory with
        responses := directory.responses.modify index (LogResponse.readNext directory.logs) }

/-- A log grows behind all that a response has still to read, or in a file ahead of it, or in the
file that it reads behind a whole line, or it gains no line. -/
def LogResponse.Undisturbed (response : LogResponse) (log : SlurmLog) (text : List Char) : Prop :=
  if response.ahead.head? = some log.name then
    WholeLines (log.text.take response.offset) (log.text.drop response.offset ++ text)
  else
    log.name ∈ response.ahead ∨ (∀ name ∈ response.ahead, name < log.name) ∨
      (log.grown text).lines.length = log.lines.length

instance (response : LogResponse) (log : SlurmLog) (text : List Char) :
    Decidable (response.Undisturbed log text) :=
  inferInstanceAs (Decidable
    (if response.ahead.head? = some log.name then
      WholeLines (log.text.take response.offset) (log.text.drop response.offset ++ text)
    else _ ∨ _ ∨ _))

/-- A log gets a new line only in order, and does not disturb the responses that are read. -/
def Calm (directory : LogDirectory) : DirectoryEvent → Prop
  | .log (.appears _) => True
  | .log (.grows jobId text) =>
      InOrder directory.logs (.grows jobId text) ∧
        ∀ response ∈ directory.responses, ∀ log ∈ directory.logs, log.jobId = jobId →
          response.Undisturbed log text
  | .requested _ _ => True
  | .reads _ => True

instance decidableCalm (directory : LogDirectory) : ∀ event, Decidable (Calm directory event)
  | .log (.appears _) => isTrue trivial
  | .log (.grows _ _) => inferInstanceAs (Decidable (_ ∧ ∀ response ∈ directory.responses, _))
  | .requested _ _ => isTrue trivial
  | .reads _ => isTrue trivial

end Responses

section Following

variable {logs : List SlurmLog} {response : LogResponse}

/-- A response in one of its files: the lines of the files before it are counted, and what was
read of the file are lines of it. -/
structure InFile (logs : List SlurmLog) (response : LogResponse) (log : SlurmLog) : Prop where
  counted : ∃ done, response.lines = done ++ textLines (log.text.take response.offset) ∧
    done.length = (linesBefore logs log.name).length ∧
    KeepsEnded '\n' done (linesBefore logs log.name)
  within : response.offset ≤ log.text.length
  whole : log.text.drop response.offset = [] ∨
    WholeLines (log.text.take response.offset) (log.text.drop response.offset)

/-- What holds of a response in every calm run. A log that was not listed has no line yet, or
stands behind all that is still to be read. -/
structure Followed (logs : List SlurmLog) (response : LogResponse) : Prop where
  sorted : response.logFiles.Pairwise (· < ·)
  suffix : response.ahead <:+ response.logFiles
  present : ∀ name ∈ response.logFiles, ∃ log ∈ logs, log.name = name
  unlisted : ∀ log ∈ logs, log.name ∉ response.logFiles →
    log.lines = [] ∨ ∀ name ∈ response.ahead, name < log.name
  inFile : ∀ log ∈ logs, response.ahead.head? = some log.name → InFile logs response log
  keeps : KeepsEnded '\n' response.lines (numberedLines logs)

structure Orderly (directory : LogDirectory) : Prop where
  distinct : Distinct directory.logs
  followed : ∀ response ∈ directory.responses, Followed directory.logs response

theorem Followed.current (followed : Followed logs response) (name : List Char)
    (rest : List (List Char)) (ahead : response.ahead = name :: rest) :
    ∃ log ∈ logs, log.name = name ∧ InFile logs response log := by
  have listed : name ∈ response.logFiles :=
    followed.suffix.subset (ahead ▸ List.mem_cons_self)
  obtain ⟨log, member, same⟩ := followed.present name listed
  exact ⟨log, member, same, followed.inFile log member (by rw [ahead, same]; rfl)⟩

theorem find_name (distinct : Distinct logs) (log : SlurmLog) (member : log ∈ logs) :
    logs.find? (fun other => decide (other.name = log.name)) = some log := by
  cases found : logs.find? fun other => decide (other.name = log.name) with
  | none => exact absurd rfl (of_decide_eq_false
      (Bool.eq_false_iff.mpr (List.find?_eq_none.mp found log member)))
  | some other =>
      have same : other.name = log.name := by simpa using List.find?_some found
      rw [eq_of_name distinct other log (List.mem_of_find?_eq_some found) member same]

theorem readNext_cases (distinct : Distinct logs) (followed : Followed logs response) :
    (response.ahead = [] ∧ response.readNext logs = response) ∨
      ∃ log ∈ logs, ∃ rest, response.ahead = log.name :: rest ∧ InFile logs response log ∧
        ((log.text.drop response.offset = [] ∧
            response.readNext logs = { response with ahead := rest, offset := 0 }) ∨
          (log.text.drop response.offset ≠ [] ∧
            response.readNext logs =
              { response with
                offset := log.text.length -
                  (readline (log.text.drop response.offset)).2.length
                lines := response.lines ++
                  [(readline (log.text.drop response.offset)).1] })) := by
  cases ahead : response.ahead with
  | nil => exact Or.inl ⟨rfl, by rw [LogResponse.readNext, ahead]⟩
  | cons name rest =>
      obtain ⟨log, member, rfl, inFile⟩ := followed.current name rest ahead
      refine Or.inr ⟨log, member, rest, rfl, inFile, ?_⟩
      rw [LogResponse.readNext, ahead]
      dsimp only
      rw [find_name distinct log member]
      by_cases done : log.text.drop response.offset = []
      · exact Or.inl ⟨done, if_pos done⟩
      · exact Or.inr ⟨done, if_neg done⟩

theorem wholeLines_head (front taken back : List Char) (filled : taken ≠ [])
    (whole : WholeLines front (taken ++ back)) : WholeLines front taken := by
  refine whole.imp_right (Or.imp_right fun carriage => ⟨carriage.1, ?_⟩)
  rw [← List.head?_append_of_ne_nil taken filled]
  exact carriage.2

theorem wholeLines_prepend (front taken back : List Char) (filled : taken ≠ [])
    (whole : WholeLines taken back) : WholeLines (front ++ taken) back := by
  rw [WholeLines, List.getLast?_append_of_ne_nil front filled]
  exact Or.inr (whole.resolve_left filled)

theorem InFile.next (distinct : Distinct logs) (log : SlurmLog) (member : log ∈ logs)
    (inFile : InFile logs response log) (more : log.text.drop response.offset ≠ []) :
    (numberedLines logs)[response.lines.length]? =
        some (readline (log.text.drop response.offset)).1 ∧
      InFile logs
        { response with
          offset := log.text.length - (readline (log.text.drop response.offset)).2.length
          lines := response.lines ++ [(readline (log.text.drop response.offset)).1] } log := by
  obtain ⟨done, lines, count, keeps⟩ := inFile.counted
  have whole := inFile.whole.resolve_left more
  obtain ⟨taken, filled, split, line, behind⟩ := readline_takes _ more
  generalize readline (log.text.drop response.offset) = read at split line behind ⊢
  obtain ⟨text, after⟩ := read
  dsimp only at split line behind ⊢
  rw [split] at whole
  have parts : log.text = (log.text.take response.offset ++ taken) ++ after := by
    rw [List.append_assoc, ← split, List.take_append_drop]
  have offset : log.text.length - after.length =
      (log.text.take response.offset ++ taken).length := by
    rw [congrArg List.length parts, List.length_append, Nat.add_sub_cancel]
  have taken' : log.text.take (log.text.length - after.length) =
      log.text.take response.offset ++ taken := by
    rw [offset]
    exact (congrArg (List.take _) parts).trans List.take_left
  have left : log.text.drop (log.text.length - after.length) = after := by
    rw [offset]
    exact (congrArg (List.drop _) parts).trans List.drop_left
  have here : textLines (log.text.take response.offset ++ taken) =
      textLines (log.text.take response.offset) ++ [text] := by
    rw [textLines_append _ _ (wholeLines_head _ _ _ filled whole), line]
  have wholeAfter : after = [] ∨ WholeLines (log.text.take response.offset ++ taken) after :=
    behind.imp_right (wholeLines_prepend _ _ _ filled)
  constructor
  · obtain ⟨following, numbered⟩ := numberedLines_at distinct log member
    have inLog : log.lines = textLines (log.text.take response.offset) ++
        ([text] ++ textLines after) := by
      rw [← List.append_assoc, ← here, SlurmLog.lines]
      rcases wholeAfter with rfl | wholeAfter
      · exact (congrArg textLines (parts.trans (List.append_nil _))).trans
          (List.append_nil _).symm
      · exact (congrArg textLines parts).trans (textLines_append _ _ wholeAfter)
    rw [numbered, inLog, lines, List.length_append, count, List.append_assoc,
      List.getElem?_append_right (Nat.le_add_right _ _), Nat.add_sub_cancel_left,
      List.getElem?_append_right (Nat.le_refl _), Nat.sub_self]
    rfl
  · refine ⟨⟨done, ?_, count, keeps⟩, Nat.sub_le _ _, ?_⟩
    · rw [taken', here, lines, List.append_assoc]
    · rw [taken', left]
      exact wholeAfter

theorem Followed.between (followed : Followed logs response) (first next : List Char)
    (rest : List (List Char)) (ahead : response.ahead = first :: next :: rest) (log : SlurmLog)
    (member : log ∈ logs) (behind : first < log.name) (before : log.name < next) :
    log.lines = [] := by
  obtain ⟨left, parts⟩ := followed.suffix
  have sorted := followed.sorted
  rw [← parts, ahead, List.pairwise_append, List.pairwise_cons, List.pairwise_cons] at sorted
  refine (followed.unlisted log member fun listed => ?_).resolve_right fun all => ?_
  · rw [← parts, ahead, List.mem_append, List.mem_cons, List.mem_cons] at listed
    rcases listed with read | same | same | later
    · exact List.lt_asymm behind (sorted.2.2 _ read first List.mem_cons_self)
    · exact List.lt_irrefl _ (same ▸ behind)
    · exact List.lt_irrefl _ (same ▸ before)
    · exact List.lt_asymm before (sorted.2.1.2.1 _ later)
  · refine List.lt_asymm before (all next ?_)
    rw [ahead]
    exact List.mem_cons_of_mem _ List.mem_cons_self

theorem Followed.nextFile (distinct : Distinct logs) (followed : Followed logs response)
    (log : SlurmLog) (member : log ∈ logs) (rest : List (List Char))
    (ahead : response.ahead = log.name :: rest) (inFile : InFile logs response log)
    (done : log.text.drop response.offset = []) :
    Followed logs { response with ahead := rest, offset := 0 } where
  sorted := followed.sorted
  suffix := (ahead ▸ List.suffix_cons log.name rest).trans followed.suffix
  present := followed.present
  unlisted other inLogs unlisted := (followed.unlisted other inLogs unlisted).imp_right
    fun all name later => all name (ahead ▸ List.mem_cons_of_mem _ later)
  inFile next inLogs head := by
    obtain ⟨behind, rfl⟩ := List.head?_eq_some_iff.mp head
    have less : log.name < next.name := by
      have sorted := followed.sorted.sublist followed.suffix.sublist
      rw [ahead, List.pairwise_cons] at sorted
      exact sorted.1 _ List.mem_cons_self
    obtain ⟨front, lines, count, keeps⟩ := inFile.counted
    have whole : log.text.take response.offset = log.text :=
      List.take_of_length_le (List.drop_eq_nil_iff.mp done)
    rw [whole] at lines
    have before := linesBefore_next distinct log next member less
      (fun other there => followed.between _ _ behind ahead other there)
    refine ⟨⟨response.lines, (List.append_nil _).symm, ?_, ?_⟩, Nat.zero_le _,
      Or.inr (Or.inl rfl)⟩
    · rw [before, lines, List.length_append, List.length_append, count]
      rfl
    · rw [before, lines]
      exact keeps.append count.symm _
  keeps := followed.keeps

theorem Followed.nextLine (distinct : Distinct logs) (followed : Followed logs response)
    (log : SlurmLog) (member : log ∈ logs) (rest : List (List Char))
    (ahead : response.ahead = log.name :: rest) (inFile : InFile logs response log)
    (more : log.text.drop response.offset ≠ []) :
    Followed logs
      { response with
        offset := log.text.length - (readline (log.text.drop response.offset)).2.length
        lines := response.lines ++ [(readline (log.text.drop response.offset)).1] } where
  sorted := followed.sorted
  suffix := followed.suffix
  present := followed.present
  unlisted := followed.unlisted
  inFile other inLogs head := by
    rw [ahead] at head
    obtain rfl := eq_of_name distinct log other member inLogs (Option.some.inj head)
    exact (inFile.next distinct log member more).2
  keeps index line found ended := by
    have numbered := (inFile.next distinct log member more).1
    rcases Nat.lt_or_ge index response.lines.length with inside | behind
    · rw [List.getElem?_append_left inside] at found
      exact followed.keeps index line found ended
    · rw [List.getElem?_append_right behind, List.getElem?_singleton] at found
      split at found
      · rename_i same
        rw [← found, ← numbered, Nat.le_antisymm (Nat.sub_eq_zero_iff_le.mp same) behind]
      · cases found

theorem Followed.readNext (distinct : Distinct logs) (followed : Followed logs response) :
    Followed logs (response.readNext logs) := by
  rcases readNext_cases distinct followed with
    ⟨_, same⟩ | ⟨log, member, rest, ahead, inFile, ⟨done, next⟩ | ⟨more, next⟩⟩
  · rw [same]
    exact followed
  · rw [next]
    exact followed.nextFile distinct log member rest ahead inFile done
  · rw [next]
    exact followed.nextLine distinct log member rest ahead inFile more

/-- A line that the loop takes is the one that stands under its number. -/
theorem Followed.readNext_line (distinct : Distinct logs) (followed : Followed logs response)
    (index : Nat) (line : List Char) (unread : response.lines.length ≤ index)
    (found : (response.readNext logs).lines[index]? = some line) :
    (numberedLines logs)[index]? = some line := by
  have none : response.lines[index]? = none := List.getElem?_eq_none unread
  rcases readNext_cases distinct followed with
    ⟨_, same⟩ | ⟨log, member, rest, ahead, inFile, ⟨done, next⟩ | ⟨more, next⟩⟩
  · rw [same, none] at found
    cases found
  · rw [next] at found
    exact absurd (none.symm.trans found) (Option.some_ne_none line).symm
  · rw [next, List.getElem?_append_right unread, List.getElem?_singleton] at found
    split at found
    · rename_i same
      rw [Nat.le_antisymm (Nat.sub_eq_zero_iff_le.mp same) unread, ← found]
      exact (inFile.next distinct log member more).1
    · cases found

theorem InFile.appears (distinct : Distinct logs) (jobId : Nat)
    (new : ∀ log ∈ logs, log.jobId < jobId) (log : SlurmLog)
    (inFile : InFile logs response log) : InFile (logs ++ [⟨jobId, []⟩]) response log where
  counted := by
    rw [linesBefore_appears distinct jobId new]
    exact inFile.counted
  within := inFile.within
  whole := inFile.whole

theorem Followed.appears (distinct : Distinct logs) (jobId : Nat)
    (new : ∀ log ∈ logs, log.jobId < jobId) (followed : Followed logs response) :
    Followed (logs ++ [⟨jobId, []⟩]) response where
  sorted := followed.sorted
  suffix := followed.suffix
  present name listed := by
    obtain ⟨log, member, same⟩ := followed.present name listed
    exact ⟨log, List.mem_append_left _ member, same⟩
  unlisted log member unlisted := by
    rcases List.mem_append.mp member with old | added
    · exact followed.unlisted log old unlisted
    · rw [List.mem_singleton.mp added]
      exact Or.inl rfl
  inFile log member head := by
    rcases List.mem_append.mp member with old | added
    · exact (followed.inFile log old head).appears distinct jobId new
    · -- The file that is read was listed, and the new one is none of those.
      obtain ⟨rest, ahead⟩ := List.head?_eq_some_iff.mp head
      obtain ⟨current, there, same, _⟩ := followed.current _ rest ahead
      rw [List.mem_singleton.mp added] at same
      have id := logName_injective _ _ same
      exact absurd (new current there) (id ▸ Nat.lt_irrefl _)
  keeps := by
    rw [appears_keeps distinct jobId new]
    exact followed.keeps

theorem InFile.grows_current (log : SlurmLog) (text : List Char)
    (inFile : InFile logs response log)
    (whole : WholeLines (log.text.take response.offset) (log.text.drop response.offset ++ text)) :
    InFile (logStep logs (.grows log.jobId text)) response (log.grown text) where
  counted := by
    obtain ⟨done, lines, count, keeps⟩ := inFile.counted
    have before : linesBefore (logStep logs (.grows log.jobId text)) log.name =
        linesBefore logs log.name := linesBefore_behind _ _ _ (List.lt_irrefl _)
    have front : (log.grown text).text.take response.offset = log.text.take response.offset :=
      List.take_append_of_le_length inFile.within
    refine ⟨done, ?_, ?_, ?_⟩
    · rw [front]
      exact lines
    · exact count.trans (congrArg List.length before).symm
    · exact before ▸ keeps
  within := by
    rw [SlurmLog.grown, List.length_append]
    exact Nat.le_add_right_of_le inFile.within
  whole := by
    have front : (log.grown text).text.take response.offset = log.text.take response.offset :=
      List.take_append_of_le_length inFile.within
    have back : (log.grown text).text.drop response.offset =
        log.text.drop response.offset ++ text := List.drop_append_of_le_length inFile.within
    rw [front, back]
    exact Or.inr whole

theorem InFile.grows_other (log grown : SlurmLog) (text : List Char)
    (distinct : Distinct logs) (member : grown ∈ logs) (inFile : InFile logs response log)
    (calm : grown.name < log.name →
      (grown.grown text).lines.length = grown.lines.length) :
    InFile (logStep logs (.grows grown.jobId text)) response log where
  counted := by
    obtain ⟨done, lines, count, keeps⟩ := inFile.counted
    by_cases before : grown.name < log.name
    · obtain ⟨length, kept⟩ := flatMap_grows ((logs.mergeSort sortsBefore).filter
        fun other => decide (other.name < log.name)) grown.jobId text (by
          intro other there same
          have inLogs := List.mem_mergeSort.mp (List.mem_filter.mp there).1
          rw [eq_of_name distinct other grown inLogs member (congrArg logName same)]
          exact calm before)
      rw [← linesBefore_grows] at length kept
      exact ⟨done, lines, count.trans length.symm, keeps.trans kept⟩
    · rw [linesBefore_behind _ _ _ before]
      exact ⟨done, lines, count, keeps⟩
  within := inFile.within
  whole := inFile.whole

theorem Undisturbed.before (sorted : response.ahead.Pairwise (· < ·)) (log grown : SlurmLog)
    (text : List Char) (head : response.ahead.head? = some log.name)
    (undisturbed : response.Undisturbed grown text) (before : grown.name < log.name) :
    (grown.grown text).lines.length = grown.lines.length := by
  obtain ⟨rest, ahead⟩ := List.head?_eq_some_iff.mp head
  have other : ¬ response.ahead.head? = some grown.name := fun same => by
    rw [head, Option.some.injEq] at same
    exact List.lt_irrefl _ (same ▸ before)
  rw [LogResponse.Undisturbed, if_neg other, ahead] at undisturbed
  rw [ahead, List.pairwise_cons] at sorted
  rcases undisturbed with listed | all | same
  · rcases List.mem_cons.mp listed with same | later
    · exact absurd before (same ▸ List.lt_irrefl _)
    · exact absurd (sorted.1 _ later) (List.lt_asymm before)
  · exact absurd (all _ List.mem_cons_self) (List.lt_asymm before)
  · exact same

theorem Followed.grows (distinct : Distinct logs) (grown : SlurmLog) (member : grown ∈ logs)
    (text : List Char) (inOrder : InOrder logs (.grows grown.jobId text))
    (undisturbed : response.Undisturbed grown text) (followed : Followed logs response) :
    Followed (logStep logs (.grows grown.jobId text)) response where
  sorted := followed.sorted
  suffix := followed.suffix
  present name listed := by
    obtain ⟨log, there, same⟩ := followed.present name listed
    exact ⟨_, List.mem_map_of_mem there, (name_grows _ _ log).trans same⟩
  unlisted log there unlisted := by
    obtain ⟨log, old, rfl⟩ := List.mem_map.mp there
    rw [name_grows] at unlisted ⊢
    split
    · rename_i id
      obtain rfl := eq_of_name distinct log grown old member (congrArg logName id)
      have absent : log.name ∉ response.ahead :=
        fun ahead => unlisted (followed.suffix.subset ahead)
      have other : ¬ response.ahead.head? = some log.name :=
        fun head => absent (List.mem_of_head? head)
      rw [LogResponse.Undisturbed, if_neg other] at undisturbed
      rcases undisturbed.resolve_left absent with all | same
      · exact Or.inr all
      · refine (followed.unlisted log old unlisted).imp_left fun none => ?_
        rw [none, List.length_nil, List.length_eq_zero_iff] at same
        exact same
    · exact followed.unlisted log old unlisted
  inFile log there head := by
    obtain ⟨log, old, rfl⟩ := List.mem_map.mp there
    rw [name_grows] at head
    have inFile := followed.inFile log old head
    by_cases id : log.jobId = grown.jobId
    · obtain rfl := eq_of_name distinct log grown old member (congrArg logName id)
      rw [LogResponse.Undisturbed, if_pos head] at undisturbed
      rw [if_pos rfl]
      exact inFile.grows_current log text undisturbed
    · rw [if_neg id]
      exact inFile.grows_other log grown text distinct member
        (Undisturbed.before (followed.sorted.sublist followed.suffix.sublist) log grown text head
          undisturbed)
  keeps := followed.keeps.trans (grows_keeps distinct grown.jobId text inOrder)

theorem logFiles_sorted (distinct : Distinct logs) (listing : List (List Char))
    (listed : (listing.filter isLogName).Perm (logs.map SlurmLog.name)) :
    (logFiles listing).Pairwise (· < ·) := by
  have names : (logFiles listing).Nodup := by
    rw [logFiles, (List.mergeSort_perm _ _).nodup_iff, listed.nodup_iff]
    have mapped : logs.map SlurmLog.name = (logs.map SlurmLog.jobId).map logName := by
      rw [List.map_map]
      rfl
    rw [mapped]
    exact distinct.map logName_injective
  have sorted : (logFiles listing).Pairwise fun name next =>
      (!decide (next < name)) = true :=
    List.pairwise_mergeSort names_trans names_total _
  refine (sorted.and names).imp fun {name next} both => ?_
  by_contra behind
  refine both.2 (names_antisymm _ _ both.1 ?_)
  rw [decide_eq_false behind]
  rfl

theorem followed_requested (distinct : Distinct logs) (startingLineNumber : Int)
    (listing : List (List Char))
    (listed : (listing.filter isLogName).Perm (logs.map SlurmLog.name)) :
    Followed logs ⟨startingLineNumber, logFiles listing, logFiles listing, 0, []⟩ := by
  have names (name : List Char) :
      name ∈ logFiles listing ↔ ∃ log ∈ logs, log.name = name := by
    rw [logFiles, List.mem_mergeSort, listed.mem_iff, List.mem_map]
  have sorted := logFiles_sorted distinct listing listed
  refine ⟨sorted, List.suffix_rfl, fun name => (names name).mp, ?_, ?_, ?_⟩
  · exact fun log member unlisted => absurd ((names log.name).mpr ⟨log, member, rfl⟩) unlisted
  · intro log member head
    have none : linesBefore logs log.name = [] := by
      refine List.flatMap_eq_nil_iff.mpr fun other there => ?_
      obtain ⟨inLogs, before⟩ := List.mem_filter.mp there
      have inListing := (names other.name).mpr ⟨other, List.mem_mergeSort.mp inLogs, rfl⟩
      refine absurd (of_decide_eq_true before) ?_
      obtain ⟨rest, ahead⟩ := List.head?_eq_some_iff.mp head
      dsimp only at ahead
      rw [ahead, List.pairwise_cons] at sorted
      rw [ahead] at inListing
      rcases List.mem_cons.mp inListing with same | later
      · exact same ▸ List.lt_irrefl _
      · exact List.lt_asymm (sorted.1 _ later)
    refine ⟨⟨[], rfl, ?_, ?_⟩, Nat.zero_le _, Or.inr (Or.inl rfl)⟩
    · rw [none]
    · rw [none]
      exact keepsEnded_refl _
  · intro index line found
    cases found

end Following

end ScalarLM.Logs
