import Mathlib.Data.List.Infix
import ScalarLM.Lib.Dict

/-! How a model's name or a part of it is resolved: by the registered models for `generate`, and
by the job directories for the status and the logs of a training job. -/

namespace ScalarLM.Serving

section Lookups

abbrev ModelName := List Char

def findModel (models : List ModelName) (modelName : ModelName) : Option ModelName :=
  models.find? fun model => modelName <:+: model

def osPathJoin (path name : List Char) : List Char :=
  if ['/'] <+: name then name
  else if path = [] ∨ ['/'] <:+ path then path ++ name
  else path ++ '/' :: name

def PlainName (name : ModelName) : Prop :=
  name ≠ [] ∧ name ≠ ['.'] ∧ name ≠ ['.', '.'] ∧ '/' ∉ name

/-- A name that leads to a directory itself or to the one above it. -/
def NamesDirectory (name : ModelName) : Prop := name = [] ∨ name = ['.'] ∨ name = ['.', '.']

/-- The training job directory, as `os.listdir` gives its entries, and `os.path.exists`. -/
structure TrainingJobDirectory where
  path : List Char
  listing : List ModelName
  pathExists : List Char → Bool
  plain : ∀ name ∈ listing, PlainName name
  entries : ∀ name, PlainName name →
    (pathExists (osPathJoin path name) = true ↔ name ∈ listing)
  itself : ∀ name, NamesDirectory name → pathExists (osPathJoin path name) = true

/-- `get_job_directory_for_hash`, which raises when there is no match. -/
def getJobDirectoryForHash (jobs : TrainingJobDirectory) (hashId : ModelName) :
    Option (List Char) :=
  let perfectMatch := osPathJoin jobs.path hashId
  if jobs.pathExists perfectMatch then some perfectMatch
  else (jobs.listing.find? fun jobDirectory => hashId <:+: jobDirectory).map
    (osPathJoin jobs.path)

/-- Both lookups come to one model. -/
def ResolvesTo (models : List ModelName) (jobs : TrainingJobDirectory)
    (name target : ModelName) : Prop :=
  findModel models name = some target ∧
    getJobDirectoryForHash jobs name = some (osPathJoin jobs.path target)

/-- A model that a name is a part of, and no other is. -/
def OnlyMatch (models : List ModelName) (name target : ModelName) : Prop :=
  target ∈ models ∧ name <:+: target ∧ ∀ other ∈ models, name <:+: other → other = target

/-- A registered name stands for its own model, and a part of only one name for that one. -/
def OneNameOneModel (models : List ModelName) (jobs : TrainingJobDirectory)
    (name : ModelName) : Prop :=
  (name ∈ models → ResolvesTo models jobs name name) ∧
    ∀ target, OnlyMatch models name target → ResolvesTo models jobs name target

end Lookups

section Names

theorem osPathJoin_injective (path left right : List Char) (noLeft : '/' ∉ left)
    (noRight : '/' ∉ right) (same : osPathJoin path left = osPathJoin path right) :
    left = right := by
  have relative (name : List Char) (plain : '/' ∉ name) : ¬ ['/'] <+: name :=
    fun absolute => plain (absolute.subset List.mem_cons_self)
  rw [osPathJoin, osPathJoin, if_neg (relative left noLeft),
    if_neg (relative right noRight)] at same
  split at same
  · exact List.append_cancel_left same
  · exact (List.cons.inj (List.append_cancel_left same)).2

theorem NamesDirectory.no_slash {name : ModelName} (special : NamesDirectory name) :
    '/' ∉ name := by
  rcases special with rfl | rfl | rfl <;> decide

theorem plain_or_namesDirectory {name target : ModelName} (plain : PlainName target)
    (part : name <:+: target) : PlainName name ∨ NamesDirectory name := by
  have noSlash : '/' ∉ name := fun member => plain.2.2.2 (part.subset member)
  unfold PlainName NamesDirectory
  tauto

theorem find_of_onlyMatch {models : List ModelName} {name target : ModelName}
    (only : OnlyMatch models name target) (listing : List ModelName)
    (same : ∀ model, model ∈ listing ↔ model ∈ models) :
    (listing.find? fun model => name <:+: model) = some target := by
  cases found : listing.find? fun model => name <:+: model with
  | none =>
      have missed := List.find?_eq_none.mp found target ((same target).mpr only.1)
      exact absurd (decide_eq_true only.2.1) missed
  | some model =>
      have part := List.find?_some found
      rw [decide_eq_true_iff] at part
      exact congrArg some (only.2.2 model ((same model).mp (List.mem_of_find?_eq_some found)) part)

/-- An exact name is found exactly if no model before it has it as a part. -/
theorem findModel_whole_iff (models : List ModelName) (name : ModelName)
    (registered : name ∈ models) : findModel models name = some name ↔
      ∀ front back, models = front ++ name :: back → name ∉ front →
        ∀ earlier ∈ front, ¬ name <:+: earlier := by
  constructor
  · intro found front back split first earlier before part
    rw [findModel, split, List.find?_append] at found
    cases early : front.find? fun model => name <:+: model with
    | none =>
        exact absurd (decide_eq_true part) (List.find?_eq_none.mp early earlier before)
    | some model =>
        rw [early, Option.some_or, Option.some.injEq] at found
        exact first (found ▸ List.mem_of_find?_eq_some early)
  · intro unpreceded
    obtain ⟨front, back, split, first⟩ := List.eq_append_cons_of_mem registered
    have skipped : (front.find? fun model => name <:+: model) = none := by
      rw [List.find?_eq_none]
      intro earlier before part
      exact unpreceded front back split first earlier before (of_decide_eq_true part)
    rw [findModel, split, List.find?_append, skipped, Option.none_or, List.find?_cons_of_pos]
    exact decide_eq_true (List.infix_refl name)

end Names

section Directories

variable {models : List ModelName} {jobs : TrainingJobDirectory} {name : ModelName}

theorem getJobDirectoryForHash_exact (there : name ∈ jobs.listing) :
    getJobDirectoryForHash jobs name = some (osPathJoin jobs.path name) := by
  rw [getJobDirectoryForHash, if_pos]
  exact (jobs.entries name (jobs.plain name there)).mpr there

theorem getJobDirectoryForHash_part_iff (same : ∀ model, model ∈ jobs.listing ↔ model ∈ models)
    (unregistered : name ∉ models) {target : ModelName} (only : OnlyMatch models name target) :
    getJobDirectoryForHash jobs name = some (osPathJoin jobs.path target) ↔
      ¬ NamesDirectory name := by
  have plain := jobs.plain target ((same target).mpr only.1)
  constructor
  · intro resolved special
    rw [getJobDirectoryForHash, if_pos (jobs.itself name special), Option.some.injEq] at resolved
    have equal := osPathJoin_injective _ _ _ special.no_slash plain.2.2.2 resolved
    exact unregistered (equal ▸ only.1)
  · intro ordinary
    have missing : ¬ jobs.pathExists (osPathJoin jobs.path name) = true := by
      rw [jobs.entries name ((plain_or_namesDirectory plain only.2.1).resolve_right ordinary), same]
      exact unregistered
    rw [getJobDirectoryForHash, if_neg missing, find_of_onlyMatch only jobs.listing same]
    rfl

/-- For models and job directories with the same names, `generate` and the training endpoints
take a name for the same model exactly if no model registered before an exact name has it as a
part, and a part of one name only is not empty and no dots alone. -/
theorem one_name_one_model_iff (models : List ModelName) (jobs : TrainingJobDirectory)
    (same : ∀ model, model ∈ jobs.listing ↔ model ∈ models) (name : ModelName) :
    OneNameOneModel models jobs name ↔
      (name ∈ models → ∀ front back, models = front ++ name :: back → name ∉ front →
        ∀ earlier ∈ front, ¬ name <:+: earlier) ∧
      (name ∉ models → (∃ target, OnlyMatch models name target) → ¬ NamesDirectory name) := by
  constructor
  · intro resolved
    refine ⟨?_, ?_⟩
    · intro registered
      exact (findModel_whole_iff models name registered).mp (resolved.1 registered).1
    · intro unregistered matched
      obtain ⟨target, only⟩ := matched
      exact (getJobDirectoryForHash_part_iff same unregistered only).mp (resolved.2 target only).2
  · intro given
    obtain ⟨whole, part⟩ := given
    have resolvesItself (registered : name ∈ models) : ResolvesTo models jobs name name :=
      ⟨(findModel_whole_iff models name registered).mpr (whole registered),
        getJobDirectoryForHash_exact ((same name).mpr registered)⟩
    refine ⟨resolvesItself, ?_⟩
    intro target only
    by_cases registered : name ∈ models
    · rw [← only.2.2 name registered (List.infix_refl name)]
      exact resolvesItself registered
    · refine ⟨find_of_onlyMatch only models fun _ => Iff.rfl, ?_⟩
      exact (getJobDirectoryForHash_part_iff same registered only).mpr
        (part registered ⟨target, only⟩)

end Directories

def directoryOf (path : List Char) (names : List ModelName)
    (plain : ∀ name ∈ names, PlainName name) : TrainingJobDirectory where
  path := path
  listing := names
  pathExists := fun candidate => decide (candidate ∈
    ([] :: ['.'] :: ['.', '.'] :: names).map (osPathJoin path))
  plain := plain
  entries := by
    intro name ordinary
    rw [decide_eq_true_iff, List.mem_map]
    constructor
    · intro given
      obtain ⟨other, listed, equal⟩ := given
      have noSlash : '/' ∉ other := by
        simp only [List.mem_cons] at listed
        rcases listed with rfl | rfl | rfl | there
        · decide
        · decide
        · decide
        · exact (plain other there).2.2.2
      obtain rfl := osPathJoin_injective _ _ _ noSlash ordinary.2.2.2 equal
      simp only [List.mem_cons] at listed
      rcases listed with rfl | rfl | rfl | there
      · exact absurd rfl ordinary.1
      · exact absurd rfl ordinary.2.1
      · exact absurd rfl ordinary.2.2.1
      · exact there
    · intro there
      exact ⟨name, by simp [there], rfl⟩
  itself := by
    intro name special
    rw [decide_eq_true_iff]
    refine List.mem_map_of_mem ?_
    rcases special with rfl | rfl | rfl <;> simp

def shortName : ModelName := ['b', '7']

def longName : ModelName := ['a', 'b', '7']

theorem short_long_plain : ∀ name ∈ [shortName, longName], PlainName name := by
  unfold PlainName
  decide

/-- The shorter name comes first. -/
theorem short_before_long : OneNameOneModel [shortName, longName]
    (directoryOf ['/', 'j'] [shortName, longName] short_long_plain) shortName := by
  refine (one_name_one_model_iff [shortName, longName] _ (fun _ => Iff.rfl) _).mpr ⟨?_, ?_⟩
  · intro _ front back split first earlier before
    cases front with
    | nil => cases before
    | cons head rest =>
        obtain ⟨rfl, _⟩ := List.cons.inj split
        exact absurd List.mem_cons_self first
  · exact fun unregistered => absurd List.mem_cons_self unregistered

/-- The longer name comes first: `generate` answers with its model. -/
theorem long_before_short :
    ¬ ∀ (models : List ModelName) (jobs : TrainingJobDirectory),
      (∀ model, model ∈ jobs.listing ↔ model ∈ models) →
        ∀ name, OneNameOneModel models jobs name := by
  intro claimed
  have resolved := claimed [longName, shortName]
    (directoryOf ['/', 'j'] [shortName, longName] short_long_plain)
    (fun model => by simp [directoryOf, or_comm]) shortName
  exact absurd (resolved.1 (by decide)).1 (by decide)

end ScalarLM.Serving
