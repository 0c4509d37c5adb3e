import ScalarLM.Slurm.DiscoverClusters

/-! A server that starts again finds in `slurm.conf` what it wrote there before, and writes the
same. -/

namespace ScalarLM.Discovery

open Words
open Slurm (TimeConfig isSpace)

section Values

structure Writable (entry : List Char × List Char) : Prop where
  key : OneLine entry.1
  separated : '=' ∉ entry.1
  visible : ((entry.1.dropWhile isSpace).head? == some '#') = false
  value : OneLine entry.2

structure Readable (entry : List Char × List Char) : Prop extends Writable entry where
  plain : '=' ∉ entry.2

theorem Readable.taken {entry : List Char × List Char} (readable : Readable entry) :
    keyAndValue (confLine entry.1 entry.2 ++ ['\n']) = some (entry.1, strip isSpace entry.2) := by
  rw [confLine, List.append_assoc, List.cons_append, ← confLine, keyAndValue_eq_some_iff]
  refine ⟨entry.2 ++ ['\n'], rfl, ?_, readable.separated, ?_, ?_⟩
  · rw [isComment_confLine, readable.visible]
  · rw [List.mem_append, not_or]
    exact ⟨readable.plain, by decide⟩
  · exact (strip_newline _).symm

theorem oneLine_parts {conf key rest : List Char} (member : confLine key rest ∈ fileLines conf) :
    OneLine key ∧ OneLine (strip isSpace rest) := by
  have noReturn : '\r' ∉ confLine key rest := fun inside =>
    return_not_mem_universalNewlines false conf (mem_of_mem_linesOf member inside)
  have noNewline := oneLine_of_mem_linesOf member
  rw [confLine, List.mem_append, List.mem_cons, not_or, not_or] at noReturn
  rw [confLine, List.dropLast_append_of_ne_nil (List.cons_ne_nil _ _), List.mem_append,
    not_or] at noNewline
  refine ⟨⟨noNewline.1, noReturn.1⟩, ?_, fun inside => noReturn.2.2 (mem_of_mem_strip inside)⟩
  rcases List.eq_nil_or_concat rest with rfl | ⟨body, last, rfl⟩
  · exact List.not_mem_nil
  · rw [List.concat_eq_append] at noNewline ⊢
    rw [← List.cons_append, List.dropLast_concat, List.mem_cons, not_or] at noNewline
    by_cases ended : last = '\n'
    · rw [ended, strip_newline]
      exact fun inside => noNewline.2.2 (mem_of_mem_strip inside)
    · intro inside
      rcases List.mem_append.mp (mem_of_mem_strip inside) with before | atEnd
      · exact noNewline.2.2 before
      · exact ended (List.mem_singleton.mp atEnd).symm

theorem mem_loadSlurmConfValues {conf : List Char} {entry : List Char × List Char}
    (member : entry ∈ loadSlurmConfValues conf) :
    Readable entry ∧ strip isSpace entry.2 = entry.2 := by
  have assigned := Dict.assigned_of_mem _ entry.1 entry.2 member
  obtain ⟨line, listed, taken⟩ := List.mem_filterMap.mp assigned
  obtain ⟨rest, rfl, noComment, separated, plain, value⟩ := keyAndValue_eq_some_iff.mp taken
  obtain ⟨keyLine, valueLine⟩ := oneLine_parts listed
  rw [isComment_confLine] at noComment
  rw [value, strip_strip]
  refine ⟨⟨⟨keyLine, separated, noComment, ?_⟩, ?_⟩, rfl⟩
  · rw [value]
    exact valueLine
  · rw [value]
    exact fun inside => plain (mem_of_mem_strip inside)

theorem mem_updateValues {nodeInfo : NodeInfo} {values : ConfValues}
    {entry : List Char × List Char} (member : entry ∈ updateValues nodeInfo values) :
    entry = (slurmctldHost, nodeInfo.hostname.chars) ∨ entry = (gresTypes, gpuType) ∨
      entry ∈ values := by
  obtain ⟨key, value⟩ := entry
  have hosted (here : (key, value) ∈ values.set slurmctldHost nodeInfo.hostname.chars) :
      (key, value) = (slurmctldHost, nodeInfo.hostname.chars) ∨ (key, value) ∈ values := by
    rcases (Dict.mem_set _ _ _ _ _).mp here with ⟨rfl, rfl⟩ | ⟨_, old⟩
    · exact Or.inl rfl
    · exact Or.inr old
  unfold updateValues at member
  dsimp only at member
  split at member
  · rcases (Dict.mem_set _ _ _ _ _).mp member with ⟨rfl, rfl⟩ | ⟨_, old⟩
    · exact Or.inr (Or.inl rfl)
    · exact (hosted old).imp_right Or.inr
  · split at member
    · exact (hosted ((Dict.mem_erase _ _ _ _).mp member).2).imp_right Or.inr
    · exact (hosted member).imp_right Or.inr

theorem writable_updateValues {nodeInfo : NodeInfo} {conf : List Char}
    {entry : List Char × List Char}
    (member : entry ∈ updateValues nodeInfo (loadSlurmConfValues conf)) : Writable entry := by
  have updated (key value : List Char) (keyLine : OneLine key) (separated : '=' ∉ key)
      (visible : ((key.dropWhile isSpace).head? == some '#') = false) (valueLine : OneLine value) :
      Writable (key, value) := ⟨keyLine, separated, visible, valueLine⟩
  rcases mem_updateValues member with rfl | rfl | old
  · exact updated slurmctldHost _ ⟨by decide, by decide⟩ (by decide) (by decide)
      nodeInfo.hostname.oneLine
  · exact updated gresTypes gpuType ⟨by decide, by decide⟩ (by decide) (by decide)
      ⟨by decide, by decide⟩
  · exact (mem_loadSlurmConfValues old).1.toWritable

theorem get?_updateValues (nodeInfo : NodeInfo) (values : ConfValues) (key : List Char) :
    (updateValues nodeInfo values).get? key =
      if key = gresTypes then (if 0 < nodeInfo.gpuCount then some gpuType else none)
      else if key = slurmctldHost then some nodeInfo.hostname.chars
      else values.get? key := by
  unfold updateValues
  dsimp only
  split
  · rw [Dict.get?_set, Dict.get?_set]
  · split
    · rw [Dict.get?_erase, Dict.get?_set]
    · rename_i absent
      by_cases gres : key = gresTypes
      · rw [if_pos gres, gres, Dict.get?_eq_none_iff_not_mem_keys]
        exact absent
      · rw [if_neg gres, Dict.get?_set]

theorem mem_updateValues_of_ne {nodeInfo : NodeInfo} {values : ConfValues}
    {entry : List Char × List Char} (host : entry.1 ≠ slurmctldHost) (gres : entry.1 ≠ gresTypes)
    (member : entry ∈ values) : entry ∈ updateValues nodeInfo values := by
  have there := (Dict.get?_eq_some_iff values entry.1 entry.2).mpr member
  apply (Dict.get?_eq_some_iff _ entry.1 entry.2).mp
  rw [get?_updateValues, if_neg gres, if_neg host, there]

theorem keys_updateValues (nodeInfo : NodeInfo) (values later : ConfValues)
    (same : later.keys = (updateValues nodeInfo values).keys) :
    (updateValues nodeInfo later).keys = later.keys := by
  have known (key value : List Char)
      (found : (updateValues nodeInfo values).get? key = some value) : key ∈ later.keys := by
    rw [same]
    by_contra absent
    rw [(Dict.get?_eq_none_iff_not_mem_keys _ _).mpr absent] at found
    cases found
  have host : slurmctldHost ∈ later.keys := by
    apply known slurmctldHost nodeInfo.hostname.chars
    rw [get?_updateValues, if_neg (by decide), if_pos rfl]
  have hosted : (later.set slurmctldHost nodeInfo.hostname.chars).keys = later.keys := by
    rw [Dict.keys_set, if_pos host]
  unfold updateValues
  dsimp only
  split
  · rename_i gpus
    have gres : gresTypes ∈ later.keys := by
      apply known gresTypes gpuType
      rw [get?_updateValues, if_pos rfl, if_pos gpus]
    rw [Dict.keys_set, hosted, if_pos gres]
  · rename_i noGpus
    have gres : gresTypes ∉ later.keys := by
      rw [same, ← Dict.get?_eq_none_iff_not_mem_keys, get?_updateValues, if_pos rfl, if_neg noGpus]
    rw [hosted, if_neg gres, hosted]

end Values

section Files

variable {config : TimeConfig} {clusterInfo : ClusterInfo}

theorem load_lines (values : ConfValues) (readable : ∀ entry ∈ values, Readable entry)
    (others : List (List Char)) (oneLine : ∀ line ∈ others, OneLine line)
    (skipped : ∀ line ∈ others, keyAndValue (line ++ ['\n']) = none) :
    loadSlurmConfValues ((values.entries.map (fun entry => confLine entry.1 entry.2) ++
      others).flatMap fun body => body ++ ['\n']) = values.mapValues (strip isSpace) := by
  have bodies : ∀ body ∈ values.entries.map (fun entry => confLine entry.1 entry.2) ++ others,
      OneLine body := by
    intro body member
    rcases List.mem_append.mp member with entered | other
    · obtain ⟨entry, listed, rfl⟩ := List.mem_map.mp entered
      exact oneLine_confLine.mpr ⟨(readable entry listed).key, (readable entry listed).value⟩
    · exact oneLine body other
  have taken : (values.entries.map fun entry => confLine entry.1 entry.2 ++ ['\n']).filterMap
      keyAndValue = values.entries.map fun entry => (entry.1, strip isSpace entry.2) := by
    rw [List.filterMap_map, ← List.filterMap_eq_map]
    refine List.filterMap_congr fun entry listed => ?_
    exact (readable entry listed).taken
  have rest : (others.map fun line => line ++ ['\n']).filterMap keyAndValue = [] := by
    rw [List.filterMap_eq_nil_iff]
    intro line member
    obtain ⟨body, other, rfl⟩ := List.mem_map.mp member
    exact skipped body other
  rw [loadSlurmConfValues, fileLines_flatMap _ bodies, List.map_append, List.map_map,
    List.filterMap_append, rest, List.append_nil]
  exact (congrArg Dict.ofAssignments taken).trans
    (Dict.ofAssignments_entries (values.mapValues (strip isSpace)))

theorem generated_skipped (line : List Char)
    (generated : line ∈ clusterInfo.allNodes.map nodeConfig ++
      clusterInfo.partitions.map (partitionConfig config)) :
    OneLine line ∧ keyAndValue (line ++ ['\n']) = none := by
  have skips (key value : List Char) (first : '=' ∉ key) (second : '=' ∈ value) :
      keyAndValue (confLine key value ++ ['\n']) = none := by
    rw [confLine, List.append_assoc, List.cons_append, ← confLine, keyAndValue_confLine _ _ first]
    exact if_pos (Or.inr (List.mem_append_left _ second))
  rcases List.mem_append.mp generated with isNode | isPartition
  · obtain ⟨node, _, rfl⟩ := List.mem_map.mp isNode
    exact ⟨oneLine_nodeConfig node, skips _ _ (by decide) (by simp)⟩
  · obtain ⟨partition, _, rfl⟩ := List.mem_map.mp isPartition
    exact ⟨oneLine_partitionConfig config partition, skips _ _ (by decide) (by simp)⟩

theorem mapValues_strip_load (conf : List Char) :
    (loadSlurmConfValues conf).mapValues (strip isSpace) = loadSlurmConfValues conf := by
  apply Dict.eq_of_get? (Dict.keys_mapValues _ _)
  intro key
  rw [Dict.get?_mapValues]
  cases found : (loadSlurmConfValues conf).get? key with
  | none => rfl
  | some value =>
      have stripped := (mem_loadSlurmConfValues ((Dict.get?_eq_some_iff _ _ _).mp found)).2
      exact congrArg some stripped

theorem load_saveSlurmConfValues (conf : List Char) :
    loadSlurmConfValues (saveSlurmConfValues (loadSlurmConfValues conf)) =
      loadSlurmConfValues conf := by
  have read := load_lines (loadSlurmConfValues conf)
    (fun entry member => (mem_loadSlurmConfValues member).1) [] (List.forall_mem_nil _)
    (List.forall_mem_nil _)
  rw [List.append_nil, List.flatMap_map] at read
  exact read.trans (mapValues_strip_load conf)

theorem load_writeSlurmConfig (plain : '=' ∉ clusterInfo.controllerInfo.hostname.chars)
    (conf : List Char) : loadSlurmConfValues (writeSlurmConfig config clusterInfo conf) =
      (updateValues clusterInfo.controllerInfo
        (loadSlurmConfValues conf)).mapValues (strip isSpace) := by
  rw [writeSlurmConfig_eq, confLines]
  refine load_lines _ ?_ _ (fun line generated => (generated_skipped line generated).1)
    fun line generated => (generated_skipped line generated).2
  intro entry member
  refine ⟨writable_updateValues member, ?_⟩
  rcases mem_updateValues member with rfl | rfl | old
  · exact plain
  · decide
  · exact (mem_loadSlurmConfValues old).1.plain

theorem updateValues_stripped (nodeInfo : NodeInfo) (conf : List Char) :
    updateValues nodeInfo ((updateValues nodeInfo
      (loadSlurmConfValues conf)).mapValues (strip isSpace)) =
        updateValues nodeInfo (loadSlurmConfValues conf) := by
  have same := Dict.keys_mapValues (strip isSpace)
    (updateValues nodeInfo (loadSlurmConfValues conf))
  apply Dict.eq_of_get? ((keys_updateValues nodeInfo _ _ same).trans same)
  intro key
  rw [get?_updateValues, get?_updateValues, Dict.get?_mapValues, get?_updateValues]
  by_cases gres : key = gresTypes
  · rw [if_pos gres, if_pos gres]
  · by_cases host : key = slurmctldHost
    · rw [if_neg gres, if_neg gres, if_pos host, if_pos host]
    · simp only [if_neg gres, if_neg host]
      rw [← Dict.get?_mapValues, mapValues_strip_load]

theorem writeSlurmConfig_twice (plain : '=' ∉ clusterInfo.controllerInfo.hostname.chars)
    (conf : List Char) :
    writeSlurmConfig config clusterInfo (writeSlurmConfig config clusterInfo conf) =
      writeSlurmConfig config clusterInfo conf := by
  rw [writeSlurmConfig_eq config clusterInfo (writeSlurmConfig config clusterInfo conf),
    load_writeSlurmConfig plain, updateValues_stripped, ← writeSlurmConfig_eq]

/-- What is loaded is saved so that it is loaded again, and however often the server starts, the
file is as after its first start. -/
theorem rewriting_idempotent (config : TimeConfig) (clusterInfo : ClusterInfo)
    (plain : '=' ∉ clusterInfo.controllerInfo.hostname.chars) (conf : List Char) :
    loadSlurmConfValues (saveSlurmConfValues (loadSlurmConfValues conf)) =
      loadSlurmConfValues conf ∧
    writeSlurmConfig config clusterInfo (writeSlurmConfig config clusterInfo conf) =
      writeSlurmConfig config clusterInfo conf ∧
    ∀ starts, (writeSlurmConfig config clusterInfo)^[starts + 1] conf =
      writeSlurmConfig config clusterInfo conf := by
  refine ⟨load_saveSlurmConfValues conf, writeSlurmConfig_twice plain conf, fun starts => ?_⟩
  rw [Function.iterate_succ_apply]
  exact Function.iterate_fixed (writeSlurmConfig_twice plain conf) starts

/-- One setting, with blanks around its `=`. -/
theorem blanks_rewritten_once :
    writeSlurmConfig Slurm.TimeConfig.default (getClusterInfo ⟨shortName, some 8, 0⟩)
      (writeSlurmConfig Slurm.TimeConfig.default (getClusterInfo ⟨shortName, some 8, 0⟩)
        ['A', ' ', '=', ' ', '1']) =
    writeSlurmConfig Slurm.TimeConfig.default (getClusterInfo ⟨shortName, some 8, 0⟩)
      ['A', ' ', '=', ' ', '1'] :=
  (rewriting_idempotent _ _ (by decide) _).2.1

end Files

end ScalarLM.Discovery
