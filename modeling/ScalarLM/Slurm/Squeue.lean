import ScalarLM.Lib.Words

/-! What `squeue` prints of the Slurm jobs, and the names that `get_slurm_jobs` reads in it. -/

namespace ScalarLM.Slurm

open Words

/-- `str.isspace` for one character, where `str.split` and `str.strip` cut. -/
def isSpace (char : Char) : Bool :=
  let code := char.toNat
  (9 ≤ code && code ≤ 13) || (28 ≤ code && code ≤ 32) || code == 133 || code == 160 ||
    code == 5760 || (8192 ≤ code && code ≤ 8202) || code == 8232 || code == 8233 ||
    code == 8239 || code == 8287 || code == 12288

/-- The base name of a job directory, which is the name of its Slurm jobs. -/
structure BaseName where
  chars : List Char
  filled : chars ≠ []
  whole : ∀ char ∈ chars, isSpace char = false
  deriving DecidableEq

structure JobId where
  digits : List Char
  filled : digits ≠ []
  numeric : ∀ char ∈ digits, char.isDigit = true
  fits : digits.length < 18

structure Partition where
  chars : List Char
  filled : chars ≠ []
  whole : ∀ char ∈ chars, isSpace char = false

structure Columns where
  chars : List Char
  oneLine : '\n' ∉ chars

inductive JobState where
  | pending
  | running
  | completing
  deriving DecidableEq

structure SlurmJob where
  id : JobId
  partition : Partition
  name : BaseName
  state : JobState
  columns : Columns

def rightJustified (width : Nat) (text : List Char) : List Char :=
  List.replicate (width - text.length) ' ' ++ text

/-- One line in the format of `get_slurm_jobs`, whose quotation marks reach `squeue`. The
name is the full one: its column does not cut it. -/
def squeueLine (id partition name columns : List Char) : List Char :=
  '"' :: (rightJustified 18 (id.take 18) ++ ' ' :: (rightJustified 9 (partition.take 9) ++
    ' ' :: (rightJustified 128 name ++ ' ' :: (columns ++ ['"']))))

def squeueHeader : List Char :=
  squeueLine ['J', 'O', 'B', 'I', 'D'] ['P', 'A', 'R', 'T', 'I', 'T', 'I', 'O', 'N']
    ['N', 'A', 'M', 'E'] ['U', 'S', 'E', 'R']

def SlurmJob.line (job : SlurmJob) : List Char :=
  squeueLine job.id.digits job.partition.chars job.name.chars job.columns.chars

def squeueOutput (jobs : List SlurmJob) : List Char :=
  ['\n'].intercalate (squeueHeader :: (jobs.map SlurmJob.line ++ [[]]))

/-- The fourth of the fields of a line, when there are more than three. -/
def jobName (job : List Char) : Option (List Char) :=
  let jobFields := words isSpace (strip isSpace job)
  jobFields[3]?

def getSlurmJobs (squeueOutput : List Char) : List (List Char) :=
  let jobs := (squeueOutput.splitOn '\n').drop 1
  (jobs.filter fun job => !decide (job = [])).filterMap jobName

section Reading

theorem isSpace_blank : isSpace ' ' = true := by decide

theorem words_rightJustified (width : Nat) (text rest : List Char) :
    words isSpace (rightJustified width text ++ rest) = words isSpace (text ++ rest) := by
  rw [rightJustified, List.append_assoc, words_spaces_append]
  intro char member
  rw [List.eq_of_mem_replicate member]
  exact isSpace_blank

theorem words_column (width : Nat) (word rest : List Char) (filled : word ≠ [])
    (whole : ∀ char ∈ word, isSpace char = false) :
    words isSpace (rightJustified width word ++ ' ' :: rest) = word :: words isSpace rest := by
  rw [words_rightJustified, words_word_space word rest ' ' filled whole isSpace_blank]

theorem isSpace_of_isDigit (char : Char) (digit : char.isDigit = true) : isSpace char = false := by
  have bounds : 48 ≤ char.toNat ∧ char.toNat ≤ 57 := by
    simpa [Char.isDigit, UInt32.le_iff_toNat_le] using digit
  simp [isSpace]
  omega

theorem words_quote_column (id : JobId) (rest : List Char) :
    words isSpace ('"' :: (rightJustified 18 (id.digits.take 18) ++ ' ' :: rest)) =
      ['"'] :: id.digits :: words isSpace rest := by
  have fits := id.fits
  have uncut : id.digits.take 18 = id.digits := List.take_of_length_le (by omega)
  obtain ⟨missing, gap⟩ : ∃ missing, 18 - id.digits.length = missing + 1 :=
    ⟨17 - id.digits.length, by omega⟩
  have whole : ∀ char ∈ id.digits, isSpace char = false :=
    fun char member => isSpace_of_isDigit char (id.numeric char member)
  calc
    words isSpace ('"' :: (rightJustified 18 (id.digits.take 18) ++ ' ' :: rest))
      = words isSpace
          (['"'] ++ ' ' :: (List.replicate missing ' ' ++ id.digits ++ ' ' :: rest)) := by
        rw [uncut, rightJustified, gap, List.replicate_succ]
        rfl
    _ = ['"'] :: words isSpace (List.replicate missing ' ' ++ id.digits ++ ' ' :: rest) :=
        words_word_space ['"'] _ ' ' (List.cons_ne_nil _ _)
          (List.forall_mem_singleton.mpr (by decide)) isSpace_blank
    _ = ['"'] :: id.digits :: words isSpace rest := by
        rw [List.append_assoc, words_spaces_append _ _ (by simp [isSpace_blank]),
          words_word_space id.digits rest ' ' id.filled whole isSpace_blank]

theorem jobName_line (job : SlurmJob) : jobName job.line = some job.name.chars := by
  have cutFilled : job.partition.chars.take 9 ≠ [] := by
    simp [job.partition.filled]
  have cutWhole : ∀ char ∈ job.partition.chars.take 9, isSpace char = false :=
    fun char member => job.partition.whole char (List.mem_of_mem_take member)
  rw [jobName, words_strip, SlurmJob.line, squeueLine, words_quote_column,
    words_column 9 _ _ cutFilled cutWhole, words_column 128 _ _ job.name.filled job.name.whole]
  rfl

theorem newline_not_mem_rightJustified (width : Nat) (text : List Char) (absent : '\n' ∉ text) :
    '\n' ∉ rightJustified width text := by
  simp [rightJustified, absent]

theorem newline_not_mem_squeueLine (id partition name columns : List Char) (inId : '\n' ∉ id)
    (inPartition : '\n' ∉ partition) (inName : '\n' ∉ name) (inColumns : '\n' ∉ columns) :
    '\n' ∉ squeueLine id partition name columns := by
  have first := newline_not_mem_rightJustified 18 (id.take 18)
    fun member => inId (List.mem_of_mem_take member)
  have second := newline_not_mem_rightJustified 9 (partition.take 9)
    fun member => inPartition (List.mem_of_mem_take member)
  have third := newline_not_mem_rightJustified 128 name inName
  simp [squeueLine, first, second, third, inColumns]

theorem newline_not_mem_of_whole (text : List Char)
    (whole : ∀ char ∈ text, isSpace char = false) : '\n' ∉ text := by
  intro member
  have cut := whole '\n' member
  exact absurd cut (by decide)

theorem newline_not_mem_line (job : SlurmJob) : '\n' ∉ job.line := by
  refine newline_not_mem_squeueLine _ _ _ _ ?_ ?_ ?_ job.columns.oneLine
  · exact newline_not_mem_of_whole _
      fun char member => isSpace_of_isDigit char (job.id.numeric char member)
  · exact newline_not_mem_of_whole _ job.partition.whole
  · exact newline_not_mem_of_whole _ job.name.whole

theorem newline_not_mem_squeueHeader : '\n' ∉ squeueHeader :=
  newline_not_mem_squeueLine _ _ _ _ (by decide) (by decide) (by decide) (by decide)

theorem getSlurmJobs_squeueOutput (jobs : List SlurmJob) :
    getSlurmJobs (squeueOutput jobs) = jobs.map fun job => job.name.chars := by
  have lines : (squeueOutput jobs).splitOn '\n' =
      squeueHeader :: (jobs.map SlurmJob.line ++ [[]]) := by
    refine List.splitOn_intercalate '\n' ?_ (List.cons_ne_nil _ _)
    intro line member
    rw [List.mem_cons, List.mem_append, List.mem_singleton] at member
    rcases member with rfl | listed | rfl
    · exact newline_not_mem_squeueHeader
    · obtain ⟨job, _, rfl⟩ := List.mem_map.mp listed
      exact newline_not_mem_line job
    · exact List.not_mem_nil
  have kept : ∀ line ∈ jobs.map SlurmJob.line, (!decide (line = [])) = true := by
    intro line listed
    obtain ⟨job, _, rfl⟩ := List.mem_map.mp listed
    rfl
  rw [getSlurmJobs, lines, List.drop_succ_cons, List.drop_zero, List.filter_append,
    List.filter_eq_self.mpr kept, List.filterMap_append, List.filterMap_map]
  simp [jobName_line]

end Reading

end ScalarLM.Slurm
