import ScalarLM.Lib.Decimal
import ScalarLM.Lib.TextFile
import ScalarLM.Lib.Transition
import ScalarLM.Logs.LogStream

/-! The logs of a job directory while they grow, and the numbers that their lines have. -/

namespace ScalarLM.Logs

open Transition

section Directory

structure SlurmLog where
  jobId : Nat
  text : List Char
deriving DecidableEq

def logName (jobId : Nat) : List Char :=
  ['s', 'l', 'u', 'r', 'm', '-'] ++ Nat.toDigits 10 jobId ++ ['.', 'o', 'u', 't']

def SlurmLog.name (log : SlurmLog) : List Char := logName log.jobId

def SlurmLog.lines (log : SlurmLog) : List (List Char) := textLines log.text

def SlurmLog.grown (log : SlurmLog) (text : List Char) : SlurmLog := ⟨log.jobId, log.text ++ text⟩

inductive LogEvent where
  /-- A job begins; its id is larger than those of the jobs before. -/
  | appears (jobId : Nat)
  | grows (jobId : Nat) (text : List Char)

def logStep (logs : List SlurmLog) : LogEvent → List SlurmLog
  | .appears jobId =>
      if logs.all fun log => decide (log.jobId < jobId) then logs ++ [⟨jobId, []⟩] else logs
  | .grows jobId text => logs.map fun log => if log.jobId = jobId then log.grown text else log

end Directory

section Numbering

def sortsBefore (log next : SlurmLog) : Bool := !decide (next.name < log.name)

def numberedLines (logs : List SlurmLog) : List (List Char) :=
  (logs.mergeSort sortsBefore).flatMap SlurmLog.lines

/-- A log gets a new line only while no log whose name sorts behind has a line that is ended. -/
def InOrder (logs : List SlurmLog) : LogEvent → Prop
  | .appears _ => True
  | .grows jobId text => ∀ log ∈ logs, log.jobId = jobId →
      (log.grown text).lines.length = log.lines.length ∨
        ∀ other ∈ logs, log.name < other.name →
          ∀ line ∈ other.lines, ¬ Ended '\n' line

instance decidableInOrder (logs : List SlurmLog) : ∀ event, Decidable (InOrder logs event)
  | .appears _ => isTrue trivial
  | .grows jobId text =>
      have (line : List Char) : Decidable (Ended '\n' line) :=
        inferInstanceAs (Decidable (line.getLast? = some '\n'))
      inferInstanceAs (Decidable (∀ log ∈ logs, log.jobId = jobId →
        (log.grown text).lines.length = _ ∨ _))

def Distinct (logs : List SlurmLog) : Prop := (logs.map SlurmLog.jobId).Nodup

theorem logName_injective (first second : Nat) (same : logName first = logName second) :
    first = second := by
  have digits : Nat.toDigits 10 first = Nat.toDigits 10 second :=
    List.append_cancel_left (List.append_cancel_right same)
  have read := congrArg Decimal.readNat digits
  rw [Decimal.readNat_toDigits, Decimal.readNat_toDigits] at read
  exact Option.some.inj read

theorem names_total (first second : List Char) :
    (!decide (second < first) || !decide (first < second)) = true := by
  by_cases before : second < first
  · have asymmetric : ¬ first < second := List.lt_asymm before
    simp [asymmetric]
  · simp [before]

theorem names_trans (first second third : List Char)
    (one : (!decide (second < first)) = true) (two : (!decide (third < second)) = true) :
    (!decide (third < first)) = true := by
  simp only [Bool.not_eq_true', decide_eq_false_iff_not, List.not_lt] at one two ⊢
  exact List.le_trans one two

theorem names_antisymm (first second : List Char)
    (one : (!decide (second < first)) = true) (two : (!decide (first < second)) = true) :
    first = second := by
  simp only [Bool.not_eq_true', decide_eq_false_iff_not, List.not_lt] at one two
  exact List.le_antisymm one two

end Numbering

section Growth

variable {logs : List SlurmLog}

theorem sortsBefore_trans (first second third : SlurmLog) (one : sortsBefore first second = true)
    (two : sortsBefore second third = true) : sortsBefore first third = true :=
  names_trans _ _ _ one two

theorem sortsBefore_total (first second : SlurmLog) :
    (sortsBefore first second || sortsBefore second first) = true :=
  names_total _ _

theorem sorted_pairwise (logs : List SlurmLog) :
    (logs.mergeSort sortsBefore).Pairwise fun log next => sortsBefore log next = true :=
  List.pairwise_mergeSort sortsBefore_trans sortsBefore_total logs

theorem grown_keeps (log : SlurmLog) (text : List Char) :
    KeepsEnded '\n' log.lines (log.grown text).lines := by
  rw [SlurmLog.lines, SlurmLog.lines, SlurmLog.grown, textLines, textLines,
    universalNewlines_append]
  exact linesOf_grows '\n' _ _

theorem eq_of_name (distinct : Distinct logs) (log next : SlurmLog) (member : log ∈ logs)
    (other : next ∈ logs) (same : log.name = next.name) : log = next :=
  List.inj_on_of_nodup_map distinct member other (logName_injective _ _ same)

theorem sorts_antisymm (distinct : Distinct logs) (log next : SlurmLog) (member : log ∈ logs)
    (other : next ∈ logs) (one : sortsBefore log next = true) (two : sortsBefore next log = true) :
    log = next :=
  eq_of_name distinct log next member other (names_antisymm _ _ one two)

theorem lt_of_sortsBefore (log next : SlurmLog) (sorts : sortsBefore log next = true)
    (other : log.name ≠ next.name) : log.name < next.name := by
  by_contra behind
  refine other (names_antisymm _ _ sorts ?_)
  rw [decide_eq_false behind]
  rfl

theorem sorted_split (distinct : Distinct logs) (log : SlurmLog) (member : log ∈ logs) :
    ∃ front back, logs.mergeSort sortsBefore = front ++ log :: back ∧
      (∀ other ∈ front, other.name < log.name) ∧ ∀ other ∈ back, log.name < other.name := by
  have perm := List.mergeSort_perm logs sortsBefore
  obtain ⟨front, back, split⟩ := List.append_of_mem (perm.mem_iff.mpr member)
  have sorted := sorted_pairwise logs
  have parts := (perm.map SlurmLog.jobId).nodup_iff.mpr distinct
  rw [split, List.pairwise_append, List.pairwise_cons] at sorted
  rw [split, List.map_append, List.map_cons, List.nodup_middle, List.nodup_cons,
    List.mem_append, not_or] at parts
  refine ⟨front, back, split, fun other there => ?_, fun other there => ?_⟩
  · refine lt_of_sortsBefore other log (sorted.2.2 other there log List.mem_cons_self) ?_
    intro same
    exact parts.1.1 (List.mem_map.mpr ⟨other, there, logName_injective _ _ same⟩)
  · refine lt_of_sortsBefore log other (sorted.2.1.1 other there) ?_
    intro same
    exact parts.1.2 (List.mem_map.mpr ⟨other, there, (logName_injective _ _ same).symm⟩)

theorem distinct_appears (distinct : Distinct logs) (jobId : Nat)
    (new : ∀ log ∈ logs, log.jobId < jobId) : Distinct (logs ++ [⟨jobId, []⟩]) := by
  rw [Distinct, List.map_append, List.nodup_append_comm, List.map_singleton,
    List.singleton_append, List.nodup_cons]
  refine ⟨?_, distinct⟩
  intro member
  obtain ⟨log, present, same⟩ := List.mem_map.mp member
  exact absurd (new log present) (by rw [same]; exact Nat.lt_irrefl _)

theorem appears_sorted (distinct : Distinct logs) (jobId : Nat)
    (new : ∀ log ∈ logs, log.jobId < jobId) :
    ∃ front back, logs.mergeSort sortsBefore = front ++ back ∧
      (logs ++ [(⟨jobId, []⟩ : SlurmLog)]).mergeSort sortsBefore =
        front ++ ⟨jobId, []⟩ :: back := by
  have fresh := distinct_appears distinct jobId new
  have sorted : (logs ++ [(⟨jobId, []⟩ : SlurmLog)]).mergeSort sortsBefore =
      ((⟨jobId, []⟩ : SlurmLog) :: logs).mergeSort sortsBefore := by
    have perm := List.perm_append_singleton (⟨jobId, []⟩ : SlurmLog) logs
    refine List.Perm.eq_of_pairwise ?_ (sorted_pairwise _) (sorted_pairwise _) ?_
    · intro first second inFirst inSecond
      rw [List.mem_mergeSort] at inFirst inSecond
      exact sorts_antisymm fresh first second inFirst (perm.mem_iff.mpr inSecond)
    · exact (List.mergeSort_perm _ _).trans (perm.trans (List.mergeSort_perm _ _).symm)
  obtain ⟨front, back, after, before, _⟩ :=
    List.mergeSort_cons sortsBefore_trans sortsBefore_total ⟨jobId, []⟩ logs
  exact ⟨front, back, before, sorted.trans after⟩

theorem appears_keeps (distinct : Distinct logs) (jobId : Nat)
    (new : ∀ log ∈ logs, log.jobId < jobId) :
    numberedLines (logs ++ [⟨jobId, []⟩]) = numberedLines logs := by
  obtain ⟨front, back, before, after⟩ := appears_sorted distinct jobId new
  rw [numberedLines, numberedLines, before, after, List.flatMap_append, List.flatMap_append,
    List.flatMap_cons]
  rfl

theorem grows_absent (jobId : Nat) (text : List Char) (absent : ∀ log ∈ logs, log.jobId ≠ jobId) :
    logStep logs (.grows jobId text) = logs := by
  rw [logStep]
  refine (List.map_congr_left fun log member => ?_).trans (List.map_id _)
  exact if_neg (absent log member)

theorem name_grows (jobId : Nat) (text : List Char) (log : SlurmLog) :
    (if log.jobId = jobId then log.grown text else log).name = log.name := by
  split <;> rfl

theorem grows_sorted (jobId : Nat) (text : List Char) :
    (logStep logs (.grows jobId text)).mergeSort sortsBefore =
      logStep (logs.mergeSort sortsBefore) (.grows jobId text) := by
  refine (List.map_mergeSort ?_).symm
  intro log _ next _
  rw [sortsBefore, sortsBefore, name_grows, name_grows]

theorem grows_split (front back : List SlurmLog) (log : SlurmLog) (text : List Char)
    (distinct : Distinct (front ++ log :: back)) :
    logStep (front ++ log :: back) (.grows log.jobId text) = front ++ log.grown text :: back := by
  rw [Distinct, List.map_append, List.map_cons, List.nodup_middle, List.nodup_cons,
    List.mem_append, not_or] at distinct
  have others : logStep front (.grows log.jobId text) = front :=
    grows_absent log.jobId text fun other member same =>
      distinct.1.1 (List.mem_map.mpr ⟨other, member, same⟩)
  have behind : logStep back (.grows log.jobId text) = back :=
    grows_absent log.jobId text fun other member same =>
      distinct.1.2 (List.mem_map.mpr ⟨other, member, same⟩)
  calc logStep (front ++ log :: back) (.grows log.jobId text)
      = logStep front (.grows log.jobId text) ++
          log.grown text :: logStep back (.grows log.jobId text) := by
        rw [logStep, List.map_append, List.map_cons, if_pos rfl]
        rfl
    _ = front ++ log.grown text :: back := by rw [others, behind]

theorem grows_keeps (distinct : Distinct logs) (jobId : Nat) (text : List Char)
    (inOrder : InOrder logs (.grows jobId text)) :
    KeepsEnded '\n' (numberedLines logs) (numberedLines (logStep logs (.grows jobId text))) := by
  by_cases present : ∃ log ∈ logs, log.jobId = jobId
  · obtain ⟨log, member, rfl⟩ := present
    obtain ⟨front, back, split, _, behind⟩ := sorted_split distinct log member
    have perm := List.mergeSort_perm logs sortsBefore
    have parts : Distinct (front ++ log :: back) := by
      rw [← split]
      exact (perm.map SlurmLog.jobId).nodup_iff.mpr distinct
    rw [numberedLines, numberedLines, grows_sorted, split, grows_split front back log text parts,
      List.flatMap_append, List.flatMap_append, List.flatMap_cons, List.flatMap_cons]
    refine KeepsEnded.prepend ?_ _
    rcases inOrder log member rfl with length | unended
    · exact (grown_keeps log text).append length _
    · refine (grown_keeps log text).open _ ?_ _
      intro line inside
      obtain ⟨other, later, within⟩ := List.mem_flatMap.mp inside
      have inLogs : other ∈ logs :=
        perm.mem_iff.mp (split ▸ List.mem_append_right front (List.mem_cons_of_mem log later))
      exact unended other inLogs (behind other later) line within
  · rw [not_exists] at present
    rw [grows_absent jobId text fun log member same => present log ⟨member, same⟩]
    exact keepsEnded_refl _

theorem distinct_step (event : LogEvent) (distinct : Distinct logs) :
    Distinct (logStep logs event) := by
  cases event with
  | appears jobId =>
      rw [logStep]
      split
      · rename_i new
        exact distinct_appears distinct jobId fun log member =>
          of_decide_eq_true (List.all_eq_true.mp new log member)
      · exact distinct
  | grows jobId text =>
      have ids : (logStep logs (.grows jobId text)).map SlurmLog.jobId =
          logs.map SlurmLog.jobId := by
        rw [logStep, List.map_map]
        refine List.map_congr_left fun log _ => ?_
        dsimp only [Function.comp]
        split <;> rfl
      rw [Distinct, ids]
      exact distinct

theorem step_keeps (event : LogEvent) (distinct : Distinct logs) (inOrder : InOrder logs event) :
    KeepsEnded '\n' (numberedLines logs) (numberedLines (logStep logs event)) := by
  cases event with
  | appears jobId =>
      rw [logStep]
      split
      · rename_i new
        rw [appears_keeps distinct jobId fun log member =>
          of_decide_eq_true (List.all_eq_true.mp new log member)]
        exact keepsEnded_refl _
      · exact keepsEnded_refl _
  | grows jobId text => exact grows_keeps distinct jobId text inOrder

end Growth

section Positions

variable {logs : List SlurmLog}

def linesBefore (logs : List SlurmLog) (name : List Char) : List (List Char) :=
  ((logs.mergeSort sortsBefore).filter fun log => decide (log.name < name)).flatMap SlurmLog.lines

theorem linesBefore_split (front back : List SlurmLog) (log : SlurmLog)
    (split : logs.mergeSort sortsBefore = front ++ log :: back)
    (before : ∀ other ∈ front, other.name < log.name)
    (behind : ∀ other ∈ back, log.name < other.name) :
    linesBefore logs log.name = front.flatMap SlurmLog.lines := by
  have inFront : front.filter (fun other => decide (other.name < log.name)) = front :=
    List.filter_eq_self.mpr fun other there => decide_eq_true (before other there)
  have inBack : back.filter (fun other => decide (other.name < log.name)) = [] :=
    List.filter_eq_nil_iff.mpr fun other there =>
      fun less => List.lt_asymm (behind other there) (of_decide_eq_true less)
  rw [linesBefore, split, List.filter_append, inFront, List.filter_cons_of_neg, inBack,
    List.append_nil]
  exact fun less => List.lt_irrefl _ (of_decide_eq_true less)

theorem numberedLines_at (distinct : Distinct logs) (log : SlurmLog) (member : log ∈ logs) :
    ∃ after, numberedLines logs = linesBefore logs log.name ++ (log.lines ++ after) := by
  obtain ⟨front, back, split, before, behind⟩ := sorted_split distinct log member
  refine ⟨back.flatMap SlurmLog.lines, ?_⟩
  rw [linesBefore_split front back log split before behind, numberedLines, split,
    List.flatMap_append, List.flatMap_cons]

/-- The logs between two logs have no lines: then the lines of the one follow on the other's. -/
theorem linesBefore_next (distinct : Distinct logs) (log next : SlurmLog) (member : log ∈ logs)
    (less : log.name < next.name)
    (between : ∀ other ∈ logs, log.name < other.name → other.name < next.name →
      other.lines = []) :
    linesBefore logs next.name = linesBefore logs log.name ++ log.lines := by
  obtain ⟨front, back, split, before, behind⟩ := sorted_split distinct log member
  have perm := List.mergeSort_perm logs sortsBefore
  have inFront : front.filter (fun other => decide (other.name < next.name)) = front :=
    List.filter_eq_self.mpr fun other there =>
      decide_eq_true (List.lt_trans (before other there) less)
  have inBack : (back.filter fun other => decide (other.name < next.name)).flatMap
      SlurmLog.lines = [] := by
    refine List.flatMap_eq_nil_iff.mpr fun other there => ?_
    obtain ⟨inside, nearer⟩ := List.mem_filter.mp there
    have inLogs : other ∈ logs :=
      perm.mem_iff.mp (split ▸ List.mem_append_right front (List.mem_cons_of_mem log inside))
    exact between other inLogs (behind other inside) (of_decide_eq_true nearer)
  rw [linesBefore_split front back log split before behind, linesBefore, split,
    List.filter_append, inFront, List.filter_cons, if_pos (decide_eq_true less),
    List.flatMap_append, List.flatMap_cons, inBack, List.append_nil]

theorem linesBefore_appears (distinct : Distinct logs) (jobId : Nat)
    (new : ∀ log ∈ logs, log.jobId < jobId) (name : List Char) :
    linesBefore (logs ++ [⟨jobId, []⟩]) name = linesBefore logs name := by
  obtain ⟨front, back, before, after⟩ := appears_sorted distinct jobId new
  rw [linesBefore, linesBefore, before, after, List.filter_append, List.filter_append,
    List.flatMap_append, List.flatMap_append, List.filter_cons]
  split <;> rfl

theorem linesBefore_grows (jobId : Nat) (text name : List Char) :
    linesBefore (logStep logs (.grows jobId text)) name =
      (logStep ((logs.mergeSort sortsBefore).filter fun log => decide (log.name < name))
        (.grows jobId text)).flatMap SlurmLog.lines := by
  rw [linesBefore, grows_sorted, logStep, List.filter_map]
  refine congrArg (List.flatMap SlurmLog.lines ∘ List.map _) (List.filter_congr fun log _ => ?_)
  rw [Function.comp_apply, name_grows]

theorem linesBefore_behind (jobId : Nat) (text name : List Char)
    (behind : ¬ logName jobId < name) :
    linesBefore (logStep logs (.grows jobId text)) name = linesBefore logs name := by
  rw [linesBefore_grows, grows_absent, linesBefore]
  intro log member same
  have less := of_decide_eq_true (List.mem_filter.mp member).2
  rw [SlurmLog.name, same] at less
  exact behind less

theorem flatMap_grows (logs : List SlurmLog) (jobId : Nat) (text : List Char)
    (same : ∀ log ∈ logs, log.jobId = jobId →
      (log.grown text).lines.length = log.lines.length) :
    ((logStep logs (.grows jobId text)).flatMap SlurmLog.lines).length =
        (logs.flatMap SlurmLog.lines).length ∧
      KeepsEnded '\n' (logs.flatMap SlurmLog.lines)
        ((logStep logs (.grows jobId text)).flatMap SlurmLog.lines) := by
  induction logs with
  | nil => exact ⟨rfl, keepsEnded_refl _⟩
  | cons log rest ih =>
      obtain ⟨here, later⟩ := List.forall_mem_cons.mp same
      obtain ⟨length, keeps⟩ := ih later
      have first : (if log.jobId = jobId then log.grown text else log).lines.length =
          log.lines.length ∧ KeepsEnded '\n' log.lines
            (if log.jobId = jobId then log.grown text else log).lines := by
        split
        · rename_i grown
          exact ⟨here grown, grown_keeps log text⟩
        · exact ⟨rfl, keepsEnded_refl _⟩
      rw [logStep, List.map_cons, List.flatMap_cons, List.flatMap_cons, ← logStep]
      refine ⟨?_, (first.2.append first.1 _).trans (keeps.prepend _)⟩
      rw [List.length_append, List.length_append, first.1, length]

end Positions

end ScalarLM.Logs
