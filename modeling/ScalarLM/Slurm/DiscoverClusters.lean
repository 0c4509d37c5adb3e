import ScalarLM.Lib.Dict
import ScalarLM.Lib.TextFile
import ScalarLM.Slurm.Squeue
import ScalarLM.Slurm.TimeLimit

/-! How `discover_clusters` rewrites `slurm.conf` each time the server starts. -/

namespace ScalarLM.Discovery

open Decimal Words
open Slurm (PartitionConfig TimeConfig isSpace)

section Clusters

/-- A name that is on one line of any text file. -/
structure LineName where
  chars : List Char
  noNewline : '\n' ∉ chars
  noReturn : '\r' ∉ chars

/-- `os.cpu_count` may not know the number. -/
structure NodeInfo where
  hostname : LineName
  cpuCount : Option Nat
  gpuCount : Nat

structure Partition where
  name : LineName
  nodes : List NodeInfo

structure ClusterInfo where
  controllerInfo : NodeInfo
  allNodes : List NodeInfo
  partitions : List Partition

def shortName : LineName := ⟨['s', 'h', 'o', 'r', 't'], by decide, by decide⟩

def getClusterInfo (nodeInfo : NodeInfo) : ClusterInfo where
  controllerInfo := nodeInfo
  allNodes := [nodeInfo]
  partitions := [⟨shortName, [nodeInfo]⟩]

end Clusters

section Values

def fileLines (text : List Char) : List (List Char) := linesOf '\n' (universalNewlines false text)

def isComment (line : List Char) : Bool := ['#'].isPrefixOf (strip isSpace line)

/-- The key and the value that the loop of `load_slurm_conf_values` takes from a line. -/
def keyAndValue (line : List Char) : Option (List Char × List Char) :=
  if isComment line then none
  else if '=' ∉ line then none
  else
    match line.splitOn '=' with
    | [key, value] => some (key, strip isSpace value)
    | _ => none

abbrev ConfValues := Dict (List Char) (List Char)

def loadSlurmConfValues (conf : List Char) : ConfValues :=
  Dict.ofAssignments ((fileLines conf).filterMap keyAndValue)

def confLine (key value : List Char) : List Char := key ++ '=' :: value

def saveSlurmConfValues (values : ConfValues) : List Char :=
  values.entries.flatMap fun entry => confLine entry.1 entry.2 ++ ['\n']

def slurmctldHost : List Char := ['S', 'l', 'u', 'r', 'm', 'c', 't', 'l', 'd', 'H', 'o', 's', 't']

def gresTypes : List Char := ['G', 'r', 'e', 's', 'T', 'y', 'p', 'e', 's']

def gpuType : List Char := ['g', 'p', 'u']

def updateValues (nodeInfo : NodeInfo) (values : ConfValues) : ConfValues :=
  let values := values.set slurmctldHost nodeInfo.hostname.chars
  if 0 < nodeInfo.gpuCount then values.set gresTypes gpuType
  else if gresTypes ∈ values.keys then values.erase gresTypes
  else values

end Values

section Lines

def nodeName : List Char := ['N', 'o', 'd', 'e', 'N', 'a', 'm', 'e']

def partitionName : List Char :=
  ['P', 'a', 'r', 't', 'i', 't', 'i', 'o', 'n', 'N', 'a', 'm', 'e']

def cpusText : Option Nat → List Char
  | some count => Nat.toDigits 10 count
  | none => ['N', 'o', 'n', 'e']

def gresString (node : NodeInfo) : List Char :=
  if 0 < node.gpuCount then
    ['G', 'r', 'e', 's', '=', 'g', 'p', 'u', ':'] ++ Nat.toDigits 10 node.gpuCount
  else []

def nodeConfig (node : NodeInfo) : List Char :=
  confLine nodeName (node.hostname.chars ++ [' ', 'C', 'P', 'U', 's', '='] ++
    cpusText node.cpuCount ++ [' '] ++ gresString node ++
      [' ', 'S', 't', 'a', 't', 'e', '=', 'U', 'N', 'K', 'N', 'O', 'W', 'N'])

def writeNodeConfig (conf : List Char) (node : NodeInfo) : List Char :=
  conf ++ (nodeConfig node ++ ['\n'])

def partitionText (partition : PartitionConfig) : List Char :=
  confLine partitionName (partition.partitionName ++ [' ', 'N', 'o', 'd', 'e', 's', '='] ++
    [','].intercalate partition.nodes ++
      [' ', 'D', 'e', 'f', 'a', 'u', 'l', 't', '=', 'Y', 'E', 'S'] ++
        [' ', 'M', 'a', 'x', 'T', 'i', 'm', 'e', '='] ++ writeInt partition.maxTime ++
          [' ', 'S', 't', 'a', 't', 'e', '=', 'U', 'P'])

def partitionConfig (config : TimeConfig) (partition : Partition) : List Char :=
  partitionText (Slurm.writePartitionConfig config partition.name.chars
    (partition.nodes.map fun node => node.hostname.chars))

def writePartitionConfig (config : TimeConfig) (conf : List Char) (partition : Partition) :
    List Char :=
  conf ++ (partitionConfig config partition ++ ['\n'])

def writeSlurmConfig (config : TimeConfig) (clusterInfo : ClusterInfo) (conf : List Char) :
    List Char :=
  let values := updateValues clusterInfo.controllerInfo (loadSlurmConfValues conf)
  let saved := saveSlurmConfValues values
  let withNodes := clusterInfo.allNodes.foldl writeNodeConfig saved
  clusterInfo.partitions.foldl (writePartitionConfig config) withNodes

end Lines

section Reading

theorem strip_newline (text : List Char) :
    strip isSpace (text ++ ['\n']) = strip isSpace text :=
  strip_append_spaces text ['\n'] (List.forall_mem_singleton.mpr (by decide))

theorem exists_confLine {line : List Char} (separated : '=' ∈ line) :
    ∃ key value, line = confLine key value ∧ '=' ∉ key := by
  obtain ⟨key, value, same, first⟩ := List.eq_append_cons_of_mem separated
  exact ⟨key, value, same, first⟩

theorem isComment_confLine (key value : List Char) :
    isComment (confLine key value) = ((key.dropWhile isSpace).head? == some '#') := by
  have marked (text : List Char) : ['#'].isPrefixOf text = (text.head? == some '#') := by
    cases text with
    | nil => rfl
    | cons char rest => simp [List.isPrefixOf, eq_comm]
  rw [isComment, marked, head?_strip, confLine, List.dropWhile_append]
  cases visible : key.dropWhile isSpace with
  | nil => rfl
  | cons char rest => rfl

theorem keyAndValue_confLine (key value : List Char) (first : '=' ∉ key) :
    keyAndValue (confLine key value) =
      if isComment (confLine key value) = true ∨ '=' ∈ value then none
      else some (key, strip isSpace value) := by
  have cut : (confLine key value).splitOn '=' = key :: value.splitOn '=' :=
    List.splitOn_append_cons_self_of_not_mem first _
  have separated : '=' ∈ confLine key value :=
    List.mem_append_right _ List.mem_cons_self
  rw [keyAndValue, if_neg (not_not_intro separated), cut]
  by_cases comment : isComment (confLine key value) = true
  · rw [if_pos comment, if_pos (Or.inl comment)]
  · rw [if_neg comment]
    by_cases further : '=' ∈ value
    · rw [if_pos (Or.inr further)]
      obtain ⟨front, back, rfl, unseparated⟩ := List.eq_append_cons_of_mem further
      rw [List.splitOn_append_cons_self_of_not_mem unseparated]
      cases rest : back.splitOn '=' with
      | nil => exact absurd rest (List.splitOn_ne_nil _ _)
      | cons part parts => rfl
    · rw [if_neg (not_or.mpr ⟨comment, further⟩), List.splitOn_eq_singleton further]

theorem keyAndValue_of_not_mem {line : List Char} (whole : '=' ∉ line) :
    keyAndValue line = none := by
  rw [keyAndValue, if_pos whole]
  exact ite_self none

theorem keyAndValue_eq_some_iff {line key value : List Char} :
    keyAndValue line = some (key, value) ↔ ∃ rest, line = confLine key rest ∧
      isComment line = false ∧ '=' ∉ key ∧ '=' ∉ rest ∧ value = strip isSpace rest := by
  constructor
  · intro taken
    by_cases separated : '=' ∈ line
    · obtain ⟨front, rest, rfl, first⟩ := exists_confLine separated
      rw [keyAndValue_confLine front rest first] at taken
      split at taken
      · cases taken
      · rename_i plain
        rw [not_or, Bool.not_eq_true] at plain
        cases taken
        exact ⟨rest, rfl, plain.1, first, plain.2, rfl⟩
    · rw [keyAndValue_of_not_mem separated] at taken
      cases taken
  · intro parts
    obtain ⟨rest, rfl, plain, first, second, rfl⟩ := parts
    rw [keyAndValue_confLine key rest first, if_neg]
    rw [not_or, Bool.not_eq_true]
    exact ⟨plain, second⟩

end Reading

section Writing

def OneLine (text : List Char) : Prop := '\n' ∉ text ∧ '\r' ∉ text

theorem oneLine_append {front back : List Char} :
    OneLine (front ++ back) ↔ OneLine front ∧ OneLine back := by
  simp only [OneLine, List.mem_append, not_or]
  tauto

theorem oneLine_confLine {key value : List Char} :
    OneLine (confLine key value) ↔ OneLine key ∧ OneLine value := by
  simp [OneLine, confLine]
  tauto

theorem oneLine_of_digits (text : List Char) (digits : ∀ char ∈ text, char.isDigit = true) :
    OneLine text :=
  ⟨not_mem_of_digits '\n' (by decide) text digits, not_mem_of_digits '\r' (by decide) text digits⟩

theorem LineName.oneLine (name : LineName) : OneLine name.chars := ⟨name.noNewline, name.noReturn⟩

theorem oneLine_nodeConfig (node : NodeInfo) : OneLine (nodeConfig node) := by
  have digits (number : Nat) : OneLine (Nat.toDigits 10 number) :=
    oneLine_of_digits _ (isDigit_toDigits number)
  have cpus : OneLine (cpusText node.cpuCount) := by
    cases node.cpuCount with
    | some count => exact digits count
    | none => exact ⟨by decide, by decide⟩
  have gres : OneLine (gresString node) := by
    rw [gresString]
    split
    · exact oneLine_append.mpr ⟨⟨by decide, by decide⟩, digits _⟩
    · exact ⟨List.not_mem_nil, List.not_mem_nil⟩
  simp only [nodeConfig, oneLine_confLine, oneLine_append]
  exact ⟨⟨by decide, by decide⟩, ⟨⟨⟨⟨node.hostname.oneLine, by decide, by decide⟩, cpus⟩,
    by decide, by decide⟩, gres⟩, by decide, by decide⟩

theorem oneLine_intercalate (names : List (List Char)) (each : ∀ name ∈ names, OneLine name) :
    OneLine ([','].intercalate names) := by
  induction names with
  | nil => exact ⟨List.not_mem_nil, List.not_mem_nil⟩
  | cons name names ih =>
      rw [List.forall_mem_cons] at each
      cases names with
      | nil =>
          rw [List.intercalate_singleton]
          exact each.1
      | cons next rest =>
          rw [List.intercalate_cons_cons, oneLine_append, oneLine_append]
          exact ⟨⟨each.1, by decide, by decide⟩, ih each.2⟩

theorem oneLine_partitionConfig (config : TimeConfig) (partition : Partition) :
    OneLine (partitionConfig config partition) := by
  have number (number : Int) : OneLine (writeInt number) :=
    ⟨not_mem_writeInt '\n' (by decide) (by decide) number,
      not_mem_writeInt '\r' (by decide) (by decide) number⟩
  have nodes : OneLine ([','].intercalate
      (partition.nodes.map fun node => node.hostname.chars)) := by
    apply oneLine_intercalate
    intro name listed
    obtain ⟨node, _, rfl⟩ := List.mem_map.mp listed
    exact node.hostname.oneLine
  simp only [partitionConfig, partitionText, Slurm.writePartitionConfig, oneLine_confLine,
    oneLine_append]
  exact ⟨⟨by decide, by decide⟩, ⟨⟨⟨⟨⟨partition.name.oneLine, by decide, by decide⟩, nodes⟩,
    by decide, by decide⟩, by decide, by decide⟩, number _⟩, by decide, by decide⟩

def confLines (config : TimeConfig) (clusterInfo : ClusterInfo) (values : ConfValues) :
    List (List Char) :=
  values.entries.map (fun entry => confLine entry.1 entry.2) ++
    (clusterInfo.allNodes.map nodeConfig ++ clusterInfo.partitions.map (partitionConfig config))

theorem foldl_lines {α : Type} (line : α → List Char) (text : List Char) (items : List α) :
    items.foldl (fun text item => text ++ (line item ++ ['\n'])) text =
      text ++ (items.map line).flatMap fun body => body ++ ['\n'] := by
  induction items generalizing text with
  | nil => rw [List.foldl_nil, List.map_nil, List.flatMap_nil, List.append_nil]
  | cons item items ih =>
      rw [List.foldl_cons, ih, List.map_cons, List.flatMap_cons, List.append_assoc]

theorem writeSlurmConfig_eq (config : TimeConfig) (clusterInfo : ClusterInfo) (conf : List Char) :
    writeSlurmConfig config clusterInfo conf =
      (confLines config clusterInfo (updateValues clusterInfo.controllerInfo
        (loadSlurmConfValues conf))).flatMap fun body => body ++ ['\n'] := by
  have nodes (text : List Char) := foldl_lines nodeConfig text clusterInfo.allNodes
  have partitions (text : List Char) :=
    foldl_lines (partitionConfig config) text clusterInfo.partitions
  rw [confLines, List.flatMap_append, List.flatMap_append, List.flatMap_map, ← List.append_assoc,
    ← saveSlurmConfValues, ← nodes, ← partitions]
  rfl

theorem fileLines_flatMap (bodies : List (List Char)) (oneLine : ∀ body ∈ bodies, OneLine body) :
    fileLines (bodies.flatMap fun body => body ++ ['\n']) =
      bodies.map fun body => body ++ ['\n'] := by
  have plain : '\r' ∉ bodies.flatMap fun body => body ++ ['\n'] := by
    intro member
    obtain ⟨body, listed, inside⟩ := List.mem_flatMap.mp member
    rcases List.mem_append.mp inside with there | ending
    · exact (oneLine body listed).2 there
    · exact absurd (List.mem_singleton.mp ending) (by decide)
  rw [fileLines, universalNewlines_eq_self _ plain]
  exact linesOf_flatMap '\n' bodies fun body listed => (oneLine body listed).1

end Writing

end ScalarLM.Discovery
