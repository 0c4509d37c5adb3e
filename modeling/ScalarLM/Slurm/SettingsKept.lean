import Mathlib.Data.Prod.Basic
import ScalarLM.Slurm.RewriteIdempotent

/-! Which settings and definitions of `slurm.conf` are there after the server has rewritten it. -/

namespace ScalarLM.Discovery

open Words
open Slurm (TimeConfig isSpace)

section Settings

/-- What a line that is no comment assigns: the text before its first `=`, as it is spelled, and
the value, in which further `=` may occur. -/
def spelledAssignment (line : List Char) : Option (List Char × List Char) :=
  if isComment line = true ∨ '=' ∉ line then none
  else some (line.takeWhile (· ≠ '='), strip isSpace ((line.dropWhile (· ≠ '=')).drop 1))

def assignment (line : List Char) : Option (List Char × List Char) :=
  (spelledAssignment line).map fun entry => (strip isSpace entry.1, entry.2)

/-- The value of a setting, which is the last one that is assigned to its key. -/
def setting (conf key : List Char) : Option (List Char) :=
  Dict.lastValue ((fileLines conf).filterMap assignment) key

def definitionNames : List (List Char) := [nodeName, partitionName]

def IsDefinition (line : List Char) : Prop := ∃ entry ∈ assignment line, entry.1 ∈ definitionNames

instance (line : List Char) : Decidable (IsDefinition line) :=
  inferInstanceAs (Decidable (∃ entry ∈ assignment line, entry.1 ∈ definitionNames))

def definitionLines (conf : List Char) : List (List Char) :=
  (fileLines conf).filter fun line => IsDefinition line

def generatedLines (config : TimeConfig) (clusterInfo : ClusterInfo) : List (List Char) :=
  clusterInfo.allNodes.map nodeConfig ++ clusterInfo.partitions.map (partitionConfig config)

/-- A key of the whole cluster that no start of the server changes. -/
def IsGlobal (key : List Char) : Prop :=
  key ≠ slurmctldHost ∧ key ≠ gresTypes ∧ key ∉ definitionNames

structure SettingsKept (config : TimeConfig) (clusterInfo : ClusterInfo) (conf : List Char) :
    Prop where
  settings : ∀ key value, IsGlobal key → setting conf key = some value →
    setting (writeSlurmConfig config clusterInfo conf) key = some value
  definitions : definitionLines (writeSlurmConfig config clusterInfo conf) =
    (generatedLines config clusterInfo).map fun line => line ++ ['\n']

end Settings

section Plain

def plainAssignments (conf : List Char) : List (List Char × List Char) :=
  ((fileLines conf).filter fun line => line.count '=' = 1).filterMap spelledAssignment

/-- Of the ways in which the lines with one `=` write a key with blanks, the one that comes up
last. -/
def newestSpelling (conf key : List Char) : Option (List Char) :=
  ((Dict.firstAssigned (plainAssignments conf)).filter fun spelling =>
    strip isSpace spelling = key).getLast?

/-- The settings have one `=` on their lines, in whichever way their keys are written, and the
definitions have not. -/
structure WrittenPlainly (conf : List Char) : Prop where
  values : ∀ key value, IsGlobal key → setting conf key = some value → '=' ∉ value
  spellings : ∀ key value, IsGlobal key → setting conf key = some value →
    ∀ spelling ∈ newestSpelling conf key,
      Dict.lastValue (plainAssignments conf) spelling = some value
  definitions : ∀ line ∈ definitionLines conf, line.count '=' ≠ 1

theorem spelledAssignment_confLine {key value : List Char} (first : '=' ∉ key) :
    spelledAssignment (confLine key value) =
      if isComment (confLine key value) = true then none else some (key, strip isSpace value) := by
  have before : ∀ char ∈ key, decide (char ≠ '=') = true := fun char member =>
    decide_eq_true fun same => first (same ▸ member)
  have separated : '=' ∈ confLine key value := List.mem_append_right _ List.mem_cons_self
  have taken : (confLine key value).takeWhile (· ≠ '=') = key := by
    rw [confLine, List.takeWhile_append_of_pos before, List.takeWhile_cons_of_neg (by decide),
      List.append_nil]
  have dropped : (confLine key value).dropWhile (· ≠ '=') = '=' :: value := by
    rw [confLine, List.dropWhile_append_of_pos before, List.dropWhile_cons_of_neg (by decide)]
  rw [spelledAssignment, taken, dropped]
  simp only [separated, not_true_eq_false, or_false, List.drop_succ_cons, List.drop_zero]

theorem count_confLine {key value : List Char} (first : '=' ∉ key) :
    (confLine key value).count '=' = 1 ↔ '=' ∉ value := by
  rw [confLine, List.count_append, List.count_cons_self, List.count_eq_zero.mpr first,
    Nat.zero_add, Nat.succ_inj, List.count_eq_zero]

theorem keyAndValue_eq (line : List Char) :
    keyAndValue line = if line.count '=' = 1 then spelledAssignment line else none := by
  by_cases separated : '=' ∈ line
  · obtain ⟨key, value, rfl, first⟩ := exists_confLine separated
    have once := @count_confLine key value first
    rw [keyAndValue_confLine key value first, spelledAssignment_confLine first]
    by_cases further : '=' ∈ value
    · rw [if_pos (Or.inr further), if_neg (fun single => once.mp single further)]
    · rw [if_pos (once.mpr further)]
      simp only [further, or_false]
  · rw [keyAndValue_of_not_mem separated, List.count_eq_zero.mpr separated, if_neg (by decide)]

theorem mem_plainAssignments {conf : List Char} {entry : List Char × List Char} :
    entry ∈ plainAssignments conf ↔
      ∃ line ∈ fileLines conf, line.count '=' = 1 ∧ spelledAssignment line = some entry := by
  simp only [plainAssignments, List.mem_filterMap, List.mem_filter, decide_eq_true_eq, and_assoc]

theorem loadSlurmConfValues_eq (conf : List Char) :
    loadSlurmConfValues conf = Dict.ofAssignments (plainAssignments conf) := by
  rw [loadSlurmConfValues, plainAssignments, List.filterMap_filter]
  refine congrArg Dict.ofAssignments (List.filterMap_congr fun line _ => ?_)
  rw [keyAndValue_eq]
  simp only [decide_eq_true_eq]

theorem count_eq_one_iff {line : List Char} {entry : List Char × List Char}
    (assigned : spelledAssignment line = some entry) : line.count '=' = 1 ↔ '=' ∉ entry.2 := by
  have separated : '=' ∈ line := by
    by_contra whole
    rw [spelledAssignment, if_pos (Or.inr whole)] at assigned
    cases assigned
  obtain ⟨key, value, rfl, first⟩ := exists_confLine separated
  rw [spelledAssignment_confLine first] at assigned
  split at assigned
  · cases assigned
  · cases assigned
    rw [count_confLine first, mem_strip_iff (by decide)]

theorem newestSpelling_isSome {conf key value : List Char}
    (found : setting conf key = some value) (plain : '=' ∉ value) :
    (newestSpelling conf key).isSome := by
  obtain ⟨line, listed, assigned⟩ := List.mem_filterMap.mp (Dict.mem_of_lastValue found)
  obtain ⟨spelled, taken, same⟩ := Option.map_eq_some_iff.mp assigned
  rw [Prod.mk.injEq] at same
  have once : line.count '=' = 1 := by
    rw [count_eq_one_iff taken, same.2]
    exact plain
  have candidate : spelled.1 ∈ (Dict.firstAssigned (plainAssignments conf)).filter
      fun spelling => strip isSpace spelling = key := by
    rw [List.mem_filter, decide_eq_true_eq, Dict.mem_firstAssigned]
    exact ⟨List.mem_map_of_mem (mem_plainAssignments.mpr ⟨line, listed, once, taken⟩), same.1⟩
  rw [newestSpelling, List.getLast?_isSome]
  exact List.ne_nil_of_mem candidate

theorem newestSpelling_bind_iff {conf key value : List Char}
    (found : setting conf key = some value) :
    (newestSpelling conf key).bind (Dict.lastValue (plainAssignments conf)) = some value ↔
      '=' ∉ value ∧ ∀ spelling ∈ newestSpelling conf key,
        Dict.lastValue (plainAssignments conf) spelling = some value := by
  constructor
  · intro newest
    obtain ⟨spelling, here, last⟩ := Option.bind_eq_some_iff.mp newest
    refine ⟨?_, fun other there => ?_⟩
    · obtain ⟨line, _, once, assigned⟩ := mem_plainAssignments.mp (Dict.mem_of_lastValue last)
      exact (count_eq_one_iff assigned).mp once
    · rw [Option.mem_def, here, Option.some_inj] at there
      rw [← there, last]
  · intro given
    obtain ⟨plain, every⟩ := given
    obtain ⟨spelling, here⟩ := Option.isSome_iff_exists.mp (newestSpelling_isSome found plain)
    rw [here, Option.bind_some]
    exact every spelling here

def Unblanked (conf : List Char) : Prop :=
  ∀ line ∈ fileLines conf, ∀ entry ∈ spelledAssignment line, strip isSpace entry.1 = entry.1

theorem lastValue_of_unblanked {conf key value : List Char} (unblanked : Unblanked conf)
    (found : setting conf key = some value) (plain : '=' ∉ value) :
    Dict.lastValue (plainAssignments conf) key = some value := by
  obtain ⟨front, back, all, others⟩ := (Dict.lastValue_eq_some_iff _ _ _).mp found
  obtain ⟨before, rest, lines, rfl, tail⟩ := List.filterMap_eq_append_iff.mp all
  obtain ⟨skipped, line, after, rfl, _, assigned, rfl⟩ := List.filterMap_eq_cons_iff.mp tail
  have listed : line ∈ fileLines conf := by
    rw [lines]
    exact List.mem_append_right _ (List.mem_append_right _ List.mem_cons_self)
  obtain ⟨spelled, taken, same⟩ := Option.map_eq_some_iff.mp assigned
  rw [unblanked line listed spelled taken, Prod.mk.eta] at same
  subst same
  have once : line.count '=' = 1 := (count_eq_one_iff taken).mpr plain
  rw [plainAssignments, lines, List.filter_append, List.filter_append, ← List.append_assoc,
    List.filter_cons_of_pos (by simpa using once), List.filterMap_append,
    List.filterMap_cons_some taken, Dict.lastValue_eq_some_iff]
  refine ⟨_, _, rfl, fun entry member equal => ?_⟩
  obtain ⟨later, kept, there⟩ := List.mem_filterMap.mp member
  have behind := (List.mem_filter.mp kept).1
  have itself : strip isSpace entry.1 = entry.1 := by
    refine unblanked later ?_ entry there
    rw [lines]
    exact List.mem_append_right _ (List.mem_append_right _ (List.mem_cons_of_mem _ behind))
  refine others (strip isSpace entry.1, entry.2) (List.mem_filterMap.mpr ⟨later, behind, ?_⟩) ?_
  · rw [assignment, there]
    rfl
  · exact itself.trans equal

end Plain

section Written

variable {config : TimeConfig} {clusterInfo : ClusterInfo}

theorem filter_keys_updateValues (nodeInfo : NodeInfo) (values : ConfValues)
    (chosen : List Char → Bool) (host : chosen slurmctldHost = false)
    (gres : chosen gresTypes = false) :
    (updateValues nodeInfo values).keys.filter chosen = values.keys.filter chosen := by
  unfold updateValues
  dsimp only
  split
  · rw [Dict.filter_keys_set _ _ _ _ gres, Dict.filter_keys_set _ _ _ _ host]
  · split
    · rw [Dict.filter_keys_erase _ _ _ gres, Dict.filter_keys_set _ _ _ _ host]
    · rw [Dict.filter_keys_set _ _ _ _ host]

theorem fileLines_writeSlurmConfig (conf : List Char) :
    fileLines (writeSlurmConfig config clusterInfo conf) =
      ((updateValues clusterInfo.controllerInfo (loadSlurmConfValues conf)).entries.map
        fun entry => confLine entry.1 entry.2 ++ ['\n']) ++
          (generatedLines config clusterInfo).map fun line => line ++ ['\n'] := by
  rw [writeSlurmConfig_eq, fileLines_flatMap, confLines, List.map_append, List.map_map]
  · rfl
  · intro body member
    rcases List.mem_append.mp member with entered | generated
    · obtain ⟨entry, listed, rfl⟩ := List.mem_map.mp entered
      have written := writable_updateValues listed
      exact oneLine_confLine.mpr ⟨written.key, written.value⟩
    · exact (generated_skipped body generated).1

theorem assignment_entry {nodeInfo : NodeInfo} {conf : List Char}
    {entry : List Char × List Char}
    (member : entry ∈ updateValues nodeInfo (loadSlurmConfValues conf)) :
    assignment (confLine entry.1 entry.2 ++ ['\n']) =
      some (strip isSpace entry.1, strip isSpace entry.2) := by
  have written := writable_updateValues member
  rw [confLine, List.append_assoc, List.cons_append, ← confLine, assignment,
    spelledAssignment_confLine written.separated, isComment_confLine, written.visible,
    if_neg Bool.false_ne_true, strip_newline]
  rfl

theorem assignment_generated (line : List Char)
    (generated : line ∈ generatedLines config clusterInfo) :
    ∃ entry, assignment (line ++ ['\n']) = some entry ∧ entry.1 ∈ definitionNames := by
  have node : strip isSpace nodeName ∈ definitionNames := by decide
  have partition : strip isSpace partitionName ∈ definitionNames := by decide
  rcases List.mem_append.mp generated with isNode | isPartition
  · obtain ⟨_, _, rfl⟩ := List.mem_map.mp isNode
    rw [nodeConfig, confLine, List.append_assoc, List.cons_append, ← confLine, assignment,
      spelledAssignment_confLine (by decide), isComment_confLine, if_neg (by decide)]
    exact ⟨_, rfl, node⟩
  · obtain ⟨_, _, rfl⟩ := List.mem_map.mp isPartition
    rw [partitionConfig, partitionText, confLine, List.append_assoc, List.cons_append, ← confLine,
      assignment, spelledAssignment_confLine (by decide), isComment_confLine, if_neg (by decide)]
    exact ⟨_, rfl, partition⟩

theorem get?_saved (nodeInfo : NodeInfo) (conf spelling : List Char)
    (host : spelling ≠ slurmctldHost) (gres : spelling ≠ gresTypes) :
    ((updateValues nodeInfo (loadSlurmConfValues conf)).get? spelling).map (strip isSpace) =
      Dict.lastValue (plainAssignments conf) spelling := by
  rw [get?_updateValues, if_neg gres, if_neg host, ← Dict.get?_mapValues, mapValues_strip_load,
    loadSlurmConfValues_eq, Dict.get?_ofAssignments]

theorem lastValue_updateValues (nodeInfo : NodeInfo) (conf key : List Char)
    (isGlobal : IsGlobal key) :
    Dict.lastValue ((updateValues nodeInfo (loadSlurmConfValues conf)).entries.map
      fun entry => (strip isSpace entry.1, strip isSpace entry.2)) key =
        (newestSpelling conf key).bind (Dict.lastValue (plainAssignments conf)) := by
  let chosen (spelling : List Char) : Bool := strip isSpace spelling = key
  have host : chosen slurmctldHost = false := decide_eq_false (Ne.symm isGlobal.1)
  have gres : chosen gresTypes = false := decide_eq_false (Ne.symm isGlobal.2.1)
  have newest : newestSpelling conf key =
      ((loadSlurmConfValues conf).keys.filter chosen).getLast? := by
    rw [loadSlurmConfValues_eq, Dict.keys_ofAssignments]
    rfl
  have read := Dict.getLast?_filter_entries
    (updateValues nodeInfo (loadSlurmConfValues conf)) chosen
  rw [filter_keys_updateValues _ _ _ host gres, ← newest] at read
  calc
    _ = (((updateValues nodeInfo (loadSlurmConfValues conf)).entries.filter fun entry =>
          chosen entry.1).getLast?.map Prod.snd).map (strip isSpace) := by
      rw [Dict.lastValue, List.filter_map, List.getLast?_map, Option.map_map, Option.map_map]
      rfl
    _ = (newestSpelling conf key).bind fun spelling =>
          ((updateValues nodeInfo (loadSlurmConfValues conf)).get? spelling).map
            (strip isSpace) := by
      rw [read, Option.map_bind]
      rfl
    _ = (newestSpelling conf key).bind (Dict.lastValue (plainAssignments conf)) := by
      refine Option.bind_congr fun spelling found => ?_
      rw [newest] at found
      have same := (List.mem_filter.mp (List.mem_of_getLast? found)).2
      have unchanged (name : List Char) (other : chosen name = false) : spelling ≠ name :=
        fun equal => Bool.false_ne_true (other.symm.trans (equal ▸ same))
      exact get?_saved _ _ _ (unchanged slurmctldHost host) (unchanged gresTypes gres)

theorem setting_writeSlurmConfig (conf key : List Char) (isGlobal : IsGlobal key) :
    setting (writeSlurmConfig config clusterInfo conf) key =
      (newestSpelling conf key).bind (Dict.lastValue (plainAssignments conf)) := by
  have entries : (fileLines (writeSlurmConfig config clusterInfo conf)).filterMap assignment =
      ((updateValues clusterInfo.controllerInfo (loadSlurmConfValues conf)).entries.map
        fun entry => (strip isSpace entry.1, strip isSpace entry.2)) ++
          ((generatedLines config clusterInfo).map fun line => line ++ ['\n']).filterMap
            assignment := by
    rw [fileLines_writeSlurmConfig, List.filterMap_append, List.filterMap_map]
    refine congrArg (· ++ _) ?_
    rw [← List.filterMap_eq_map]
    exact List.filterMap_congr fun entry member => assignment_entry member
  have others : ∀ entry ∈ ((generatedLines config clusterInfo).map fun line =>
      line ++ ['\n']).filterMap assignment, entry.1 ≠ key := by
    intro entry member same
    obtain ⟨_, listed, assigned⟩ := List.mem_filterMap.mp member
    obtain ⟨line, generated, rfl⟩ := List.mem_map.mp listed
    obtain ⟨found, there, named⟩ := assignment_generated line generated
    rw [assigned, Option.some_inj] at there
    rw [← there, same] at named
    exact isGlobal.2.2 named
  rw [setting, entries, Dict.lastValue_append_of_ne _ _ _ others,
    lastValue_updateValues _ _ _ isGlobal]

/-- The definitions of the new file are the generated ones when none is saved. -/
theorem definitionLines_writeSlurmConfig (conf : List Char) :
    definitionLines (writeSlurmConfig config clusterInfo conf) =
      (generatedLines config clusterInfo).map (fun line => line ++ ['\n']) ↔
    ∀ entry ∈ updateValues clusterInfo.controllerInfo (loadSlurmConfValues conf),
      strip isSpace entry.1 ∉ definitionNames := by
  have generated : ((generatedLines config clusterInfo).map fun line => line ++ ['\n']).filter
      (fun line => IsDefinition line) =
        (generatedLines config clusterInfo).map fun line => line ++ ['\n'] := by
    rw [List.filter_eq_self]
    intro line member
    obtain ⟨body, listed, rfl⟩ := List.mem_map.mp member
    exact decide_eq_true (assignment_generated body listed)
  rw [definitionLines, fileLines_writeSlurmConfig, List.filter_append, generated,
    List.append_left_eq_self, List.filter_eq_nil_iff, List.forall_mem_map]
  refine forall₂_congr fun entry member => ?_
  rw [decide_eq_true_eq, IsDefinition, assignment_entry member]
  simp only [Option.mem_some_iff, exists_eq_left']

theorem no_definition_saved_iff (nodeInfo : NodeInfo) (conf : List Char) :
    (∀ entry ∈ updateValues nodeInfo (loadSlurmConfValues conf),
      strip isSpace entry.1 ∉ definitionNames) ↔
    ∀ line ∈ definitionLines conf, line.count '=' ≠ 1 := by
  constructor
  · intro none line member once
    rw [definitionLines, List.mem_filter, decide_eq_true_eq] at member
    obtain ⟨listed, entry, assigned, named⟩ := member
    obtain ⟨spelled, found, rfl⟩ := Option.map_eq_some_iff.mp assigned
    have plain : spelled ∈ plainAssignments conf :=
      mem_plainAssignments.mpr ⟨line, listed, once, found⟩
    have key : spelled.1 ∈ (loadSlurmConfValues conf).keys := by
      rw [loadSlurmConfValues_eq, Dict.mem_keys_ofAssignments]
      exact List.mem_map_of_mem plain
    obtain ⟨value, loaded⟩ := (Dict.mem_keys _ _).mp key
    have other (name : List Char) (outside : strip isSpace name ∉ definitionNames) :
        spelled.1 ≠ name := fun same => outside (same ▸ named)
    exact none (spelled.1, value) (mem_updateValues_of_ne (other slurmctldHost (by decide))
      (other gresTypes (by decide)) loaded) named
  · intro none entry member named
    have host : strip isSpace slurmctldHost ∉ definitionNames := by decide
    have gres : strip isSpace gresTypes ∉ definitionNames := by decide
    rcases mem_updateValues member with rfl | rfl | loaded
    · exact host named
    · exact gres named
    · rw [loadSlurmConfValues_eq] at loaded
      obtain ⟨line, listed, once, found⟩ :=
        mem_plainAssignments.mp (Dict.assigned_of_mem _ _ _ loaded)
      refine none line ?_ once
      rw [definitionLines, List.mem_filter, decide_eq_true_eq]
      refine ⟨listed, (strip isSpace entry.1, entry.2), ?_, named⟩
      rw [assignment, found]
      rfl

theorem setting_kept_iff {conf key value : List Char} (isGlobal : IsGlobal key)
    (found : setting conf key = some value) :
    setting (writeSlurmConfig config clusterInfo conf) key = some value ↔
      '=' ∉ value ∧ ∀ spelling ∈ newestSpelling conf key,
        Dict.lastValue (plainAssignments conf) spelling = some value := by
  rw [setting_writeSlurmConfig _ _ isGlobal, newestSpelling_bind_iff found]

theorem definitions_kept_iff (conf : List Char) :
    definitionLines (writeSlurmConfig config clusterInfo conf) =
      (generatedLines config clusterInfo).map (fun line => line ++ ['\n']) ↔
    ∀ line ∈ definitionLines conf, line.count '=' ≠ 1 :=
  (definitionLines_writeSlurmConfig conf).trans (no_definition_saved_iff _ conf)

/-- The settings are kept and the definitions are the generated ones exactly when the loop of
`load_slurm_conf_values` takes the former and skips the latter. -/
theorem settings_kept_iff (config : TimeConfig) (clusterInfo : ClusterInfo) (conf : List Char) :
    SettingsKept config clusterInfo conf ↔ WrittenPlainly conf := by
  constructor
  · intro kept
    have newest (key value : List Char) (isGlobal : IsGlobal key)
        (found : setting conf key = some value) :=
      (setting_kept_iff isGlobal found).mp (kept.settings key value isGlobal found)
    exact ⟨fun key value isGlobal found => (newest key value isGlobal found).1,
      fun key value isGlobal found => (newest key value isGlobal found).2,
      (definitions_kept_iff conf).mp kept.definitions⟩
  · intro plainly
    refine ⟨fun key value isGlobal found => ?_,
      (definitions_kept_iff conf).mpr plainly.definitions⟩
    rw [setting_kept_iff isGlobal found]
    exact ⟨plainly.values key value isGlobal found, plainly.spellings key value isGlobal found⟩

/-- Without blanks around the keys it is only the number of `=` that counts. -/
theorem unblanked_kept_iff (config : TimeConfig) (clusterInfo : ClusterInfo) {conf : List Char}
    (unblanked : Unblanked conf) : SettingsKept config clusterInfo conf ↔
      (∀ key value, IsGlobal key → setting conf key = some value → '=' ∉ value) ∧
        ∀ line ∈ definitionLines conf, line.count '=' ≠ 1 := by
  constructor
  · intro kept
    refine ⟨fun key value isGlobal found => ?_, (definitions_kept_iff conf).mp kept.definitions⟩
    exact ((setting_kept_iff isGlobal found).mp (kept.settings key value isGlobal found)).1
  · intro given
    refine ⟨fun key value isGlobal found => ?_, (definitions_kept_iff conf).mpr given.2⟩
    have plain := given.1 key value isGlobal found
    refine (setting_kept_iff isGlobal found).mpr ⟨plain, fun spelling newest => ?_⟩
    rw [newestSpelling] at newest
    have chosen := List.mem_filter.mp (List.mem_of_getLast? newest)
    obtain ⟨entry, member, rfl⟩ := List.mem_map.mp (Dict.mem_firstAssigned.mp chosen.1)
    obtain ⟨line, listed, _, assigned⟩ := mem_plainAssignments.mp member
    have same : entry.1 = key :=
      (unblanked line listed entry assigned).symm.trans (of_decide_eq_true chosen.2)
    rw [same]
    exact lastValue_of_unblanked unblanked found plain

/-- A value with an `=` is lost, and a definition without any parameter stays. -/
theorem setting_lost_definition_kept :
    ¬ SettingsKept TimeConfig.default (getClusterInfo ⟨shortName, some 8, 0⟩)
      ['A', 'u', 't', 'h', 'I', 'n', 'f', 'o', '=', 't', 't', 'l', '=', '6', '0', '\n'] ∧
    ¬ SettingsKept TimeConfig.default (getClusterInfo ⟨shortName, some 8, 0⟩)
      ['N', 'o', 'd', 'e', 'N', 'a', 'm', 'e', '=', 'o', 'l', 'd', '\n'] := by
  constructor
  · intro kept
    have isGlobal : IsGlobal ['A', 'u', 't', 'h', 'I', 'n', 'f', 'o'] :=
      ⟨by decide, by decide, by decide⟩
    have there := kept.settings _ ['t', 't', 'l', '=', '6', '0'] isGlobal (by decide)
    rw [setting_writeSlurmConfig _ _ isGlobal] at there
    exact absurd there (by decide)
  · intro kept
    exact absurd ((definitions_kept_iff _).mp kept.definitions) (by decide)

end Written

end ScalarLM.Discovery
