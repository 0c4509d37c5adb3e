import Mathlib.Algebra.Order.Ring.Int
import ScalarLM.Lib.NumberAfter

/-! The resources that a training job asks `sbatch` for, from what `scontrol show nodes` prints. -/

namespace ScalarLM.Slurm

open Decimal

section Parsing

def nodeNameWord : List Char := ['N', 'o', 'd', 'e', 'N', 'a', 'm', 'e']

def cpuTotWord : List Char := ['C', 'P', 'U', 'T', 'o', 't']

def cpuTotKey : List Char := cpuTotWord ++ ['=']

def gresGpuWord : List Char := ['G', 'r', 'e', 's', '=', 'g', 'p', 'u']

def gresGpuKey : List Char := gresGpuWord ++ [':']

/-- The loop body that looks for a word in a line and for the number behind a key. It raises
when the word is there without a number. -/
def higherNumber (word key : List Char) (highest : Nat) (line : List Char) : Option Nat :=
  if word <:+: line then (numberAfter key line).map fun number => max number highest
  else some highest

def maxNumber (word key scontrolOutput : List Char) : Option Nat :=
  (scontrolOutput.splitOn '\n').foldlM (higherNumber word key) 1

def getMaxGpuCountFromSlurm (scontrolOutput : List Char) : Option Nat :=
  maxNumber gresGpuWord gresGpuKey scontrolOutput

def getTotalCpuCountFromSlurm (scontrolOutput : List Char) : Option Nat :=
  maxNumber cpuTotWord cpuTotKey scontrolOutput

/-- It asserts that there is a node. -/
def getMaxNodeCountFromSlurm (scontrolOutput : List Char) : Option Nat :=
  let maxNodeCount := (scontrolOutput.splitOn '\n').countP fun line => nodeNameWord <:+: line
  if 0 < maxNodeCount then some maxNodeCount else none

structure ResourceArgs where
  gpus : Option Int
  maxGpus : Option Int
  nodes : Option Int
  someGpus : 1 ≤ gpus.getD 1
  someNodes : 1 ≤ nodes.getD 1

def getTasksPerNode (scontrolOutput : List Char) (trainArgs : ResourceArgs) : Option Int := do
  let requestedGpuCount := trainArgs.gpus.getD 1
  let fromSlurm ← getMaxGpuCountFromSlurm scontrolOutput
  return min requestedGpuCount (trainArgs.maxGpus.getD fromSlurm)

def isGpuJob (scontrolOutput : List Char) : Bool := gresGpuWord <:+: scontrolOutput

def getNodeCount (scontrolOutput : List Char) (trainArgs : ResourceArgs) : Option Int := do
  let requestedNodeCount := trainArgs.nodes.getD 1
  let maxNodeCount ← getMaxNodeCountFromSlurm scontrolOutput
  return min requestedNodeCount maxNodeCount

def getCpuPerTask (scontrolOutput : List Char) (trainArgs : ResourceArgs) : Option Int := do
  let tasksPerNode ← getTasksPerNode scontrolOutput trainArgs
  let maxGpuCount ← getMaxGpuCountFromSlurm scontrolOutput
  let totalCpuCount ← getTotalCpuCountFromSlurm scontrolOutput
  return (totalCpuCount : Int) / max tasksPerNode maxGpuCount

structure ResourceRequest where
  ntasksPerNode : Int
  gres : Option Int
  nodes : Int
  cpusPerTask : Int

/-- The resource options of `create_slurm_run_command`. -/
def resourceRequest (scontrolOutput : List Char) (trainArgs : ResourceArgs) :
    Option ResourceRequest := do
  let tasksPerNode ← getTasksPerNode scontrolOutput trainArgs
  let gres := if isGpuJob scontrolOutput then some tasksPerNode else none
  let nodeCount ← getNodeCount scontrolOutput trainArgs
  let cpuPerTask ← getCpuPerTask scontrolOutput trainArgs
  return ⟨tasksPerNode, gres, nodeCount, cpuPerTask⟩

end Parsing

section Reports

/-- A line of a node's report. What stands around the numbers may be anything. -/
inductive ReportLine where
  | nodeName (rest : List Char)
  | cpuTot (before after : List Char)
  | gresGpu (before after : List Char)
  | other (text : List Char)

namespace ReportLine

def isNodeName : ReportLine → Bool
  | .nodeName _ => true
  | _ => false

def isCpuTot : ReportLine → Bool
  | .cpuTot _ _ => true
  | _ => false

def isGresGpu : ReportLine → Bool
  | .gresGpu _ _ => true
  | _ => false

def text (cpuTot gpuCount : Nat) : ReportLine → List Char
  | .nodeName rest => nodeNameWord ++ rest
  | .cpuTot before after => before ++ (cpuTotKey ++ (Nat.toDigits 10 cpuTot ++ after))
  | .gresGpu before after => before ++ (gresGpuKey ++ (Nat.toDigits 10 gpuCount ++ after))
  | .other text => text

/-- The number of a line is behind the first place where its key stands. -/
def Numbered : ReportLine → Prop
  | .cpuTot before after => ¬ cpuTotKey <:+: before ++ cpuTotWord ∧ NoDigitFirst after
  | .gresGpu before after => ¬ gresGpuKey <:+: before ++ gresGpuWord ∧ NoDigitFirst after
  | _ => True

/-- The three words stand in the lines that they belong to and in no others. -/
structure Clean (cpuTot gpuCount : Nat) (line : ReportLine) : Prop where
  oneLine : '\n' ∉ line.text cpuTot gpuCount
  named : nodeNameWord <:+: line.text cpuTot gpuCount ↔ line.isNodeName = true
  cpus : cpuTotWord <:+: line.text cpuTot gpuCount ↔ line.isCpuTot = true
  gpus : gresGpuWord <:+: line.text cpuTot gpuCount ↔ line.isGresGpu = true
  numbered : line.Numbered

end ReportLine

/-- A node as `scontrol` reports it: with one name, one number of CPUs, and one number of GPUs
if it has any. -/
structure NodeReport where
  cpuTot : Nat
  gpuCount : Nat
  lines : List ReportLine
  someCpus : 1 ≤ cpuTot
  oneName : lines.countP ReportLine.isNodeName = 1
  oneCpuTot : lines.countP ReportLine.isCpuTot = 1
  oneGresGpu : lines.countP ReportLine.isGresGpu = if gpuCount = 0 then 0 else 1
  clean : ∀ line ∈ lines, line.Clean cpuTot gpuCount

def NodeReport.texts (node : NodeReport) : List (List Char) :=
  node.lines.map (ReportLine.text node.cpuTot node.gpuCount)

/-- All that `scontrol show nodes` prints; the last line is ended. -/
def scontrolOutput (nodes : List NodeReport) : List Char :=
  ['\n'].intercalate (nodes.flatMap NodeReport.texts ++ [[]])

def mostCpus (nodes : List NodeReport) : Nat := (nodes.map NodeReport.cpuTot).foldl max 1

def mostGpus (nodes : List NodeReport) : Nat := (nodes.map NodeReport.gpuCount).foldl max 1

/-- The node has the GPUs and the CPUs that a request wants of each of its nodes. -/
def NodeReport.fits (node : NodeReport) (request : ResourceRequest) : Bool :=
  (match request.gres with
    | some gpus => decide (gpus ≤ node.gpuCount)
    | none => true) &&
  decide (request.ntasksPerNode * request.cpusPerTask ≤ node.cpuTot)

/-- There are as many nodes that fit as the request asks for, and a task gets a CPU. -/
def Satisfiable (nodes : List NodeReport) (request : ResourceRequest) : Prop :=
  1 ≤ request.cpusPerTask ∧ request.nodes ≤ nodes.countP fun node => node.fits request

end Reports

section Reading

theorem splitOn_scontrolOutput (nodes : List NodeReport) :
    (scontrolOutput nodes).splitOn '\n' = nodes.flatMap NodeReport.texts ++ [[]] := by
  refine List.splitOn_intercalate '\n' ?_ ?_
  · intro line member
    rcases List.mem_append.mp member with inNode | last
    · obtain ⟨node, _, there⟩ := List.mem_flatMap.mp inNode
      obtain ⟨reported, listed, rfl⟩ := List.mem_map.mp there
      exact (node.clean reported listed).oneLine
    · rw [List.mem_singleton.mp last]
      exact List.not_mem_nil
  · exact List.append_ne_nil_of_right_ne_nil _ (List.cons_ne_nil _ _)

theorem foldlM_higherNumber (word key : List Char) (text : ReportLine → List Char)
    (marked : ReportLine → Bool) (number : Nat) (lines : List ReportLine)
    (words : ∀ line ∈ lines, word <:+: text line ↔ marked line = true)
    (numbers : ∀ line ∈ lines, marked line = true → numberAfter key (text line) = some number)
    (highest : Nat) :
    (lines.map text).foldlM (higherNumber word key) highest =
      some (if lines.countP marked = 0 then highest else max number highest) := by
  induction lines generalizing highest with
  | nil => rfl
  | cons line rest ih =>
      obtain ⟨here, words⟩ := List.forall_mem_cons.mp words
      obtain ⟨numberHere, numbers⟩ := List.forall_mem_cons.mp numbers
      rw [List.map_cons, List.foldlM_cons, higherNumber]
      by_cases mark : marked line = true
      · rw [if_pos (here.mpr mark), numberHere mark, List.countP_cons_of_pos mark]
        simp only [Option.map_some, Option.bind_eq_bind, Option.bind_some, ih words numbers,
          Nat.succ_ne_zero, if_false]
        split
        · rfl
        · rw [← max_assoc, max_self]
      · rw [if_neg (mark ∘ here.mp), List.countP_cons_of_neg mark]
        exact ih words numbers highest

theorem maxNumber_scontrolOutput (word key : List Char) (filled : word ≠ [])
    (number : NodeReport → Nat) (nodes : List NodeReport)
    (each : ∀ node ∈ nodes, ∀ highest, node.texts.foldlM (higherNumber word key) highest =
      some (max highest (number node))) :
    maxNumber word key (scontrolOutput nodes) = some ((nodes.map number).foldl max 1) := by
  have lines (highest : Nat) : (nodes.flatMap NodeReport.texts).foldlM (higherNumber word key)
      highest = some ((nodes.map number).foldl max highest) := by
    induction nodes generalizing highest with
    | nil => rfl
    | cons node rest ih =>
        obtain ⟨here, later⟩ := List.forall_mem_cons.mp each
        rw [List.flatMap_cons, List.foldlM_append, here]
        exact ih later _
  rw [maxNumber, splitOn_scontrolOutput, List.foldlM_append, lines]
  simp [higherNumber, filled]

theorem NodeReport.highest_cpus (node : NodeReport) (highest : Nat) :
    node.texts.foldlM (higherNumber cpuTotWord cpuTotKey) highest =
      some (max highest node.cpuTot) := by
  rw [NodeReport.texts, foldlM_higherNumber cpuTotWord cpuTotKey _ ReportLine.isCpuTot
    node.cpuTot node.lines (fun line member => (node.clean line member).cpus), node.oneCpuTot,
    if_neg Nat.one_ne_zero, max_comm]
  intro line member mark
  have numbered := (node.clean line member).numbered
  cases line with
  | cpuTot before after =>
      exact numberAfter_first cpuTotKey before after node.cpuTot (List.cons_ne_nil _ _) numbered.1
        numbered.2
  | _ => cases mark

theorem NodeReport.highest_gpus (node : NodeReport) (highest : Nat) :
    node.texts.foldlM (higherNumber gresGpuWord gresGpuKey) highest =
      some (max highest node.gpuCount) := by
  rw [NodeReport.texts, foldlM_higherNumber gresGpuWord gresGpuKey _ ReportLine.isGresGpu
    node.gpuCount node.lines (fun line member => (node.clean line member).gpus), node.oneGresGpu]
  · by_cases noGpus : node.gpuCount = 0
    · rw [if_pos noGpus, if_pos rfl, noGpus, max_eq_left (Nat.zero_le _)]
    · rw [if_neg noGpus, if_neg Nat.one_ne_zero, max_comm]
  · intro line member mark
    have numbered := (node.clean line member).numbered
    cases line with
    | gresGpu before after =>
        exact numberAfter_first gresGpuKey before after node.gpuCount (List.cons_ne_nil _ _)
          numbered.1 numbered.2
    | _ => cases mark

theorem getTotalCpuCountFromSlurm_output (nodes : List NodeReport) :
    getTotalCpuCountFromSlurm (scontrolOutput nodes) = some (mostCpus nodes) :=
  maxNumber_scontrolOutput _ _ (List.cons_ne_nil _ _) _ nodes fun node _ => node.highest_cpus

theorem getMaxGpuCountFromSlurm_output (nodes : List NodeReport) :
    getMaxGpuCountFromSlurm (scontrolOutput nodes) = some (mostGpus nodes) :=
  maxNumber_scontrolOutput _ _ (List.cons_ne_nil _ _) _ nodes fun node _ => node.highest_gpus

theorem getMaxNodeCountFromSlurm_output (nodes : List NodeReport) :
    getMaxNodeCountFromSlurm (scontrolOutput nodes) =
      if nodes = [] then none else some nodes.length := by
  have count : (nodes.flatMap NodeReport.texts ++ [[]]).countP
      (fun line => nodeNameWord <:+: line) = nodes.length := by
    rw [List.countP_append]
    have last : [([] : List Char)].countP (fun line => nodeNameWord <:+: line) = 0 := by decide
    rw [last, Nat.add_zero]
    induction nodes with
    | nil => rfl
    | cons node rest ih =>
        have here : node.texts.countP (fun line => nodeNameWord <:+: line) = 1 := by
          rw [NodeReport.texts, List.countP_map, ← node.oneName]
          refine List.countP_congr fun line member => ?_
          rw [Function.comp_apply, decide_eq_true_iff]
          exact (node.clean line member).named
        rw [List.flatMap_cons, List.countP_append, here, ih, List.length_cons, Nat.add_comm]
  rw [getMaxNodeCountFromSlurm, splitOn_scontrolOutput, count]
  cases nodes with
  | nil => rfl
  | cons node rest => simp

theorem isGpuJob_output (nodes : List NodeReport) :
    isGpuJob (scontrolOutput nodes) = true ↔ ∃ node ∈ nodes, node.gpuCount ≠ 0 := by
  rw [isGpuJob, decide_eq_true_iff, scontrolOutput,
    infix_intercalate_iff (by decide) (by decide)]
  constructor
  · intro given
    obtain ⟨text, listed, found⟩ := given
    rcases List.mem_append.mp listed with inNode | last
    · obtain ⟨node, member, there⟩ := List.mem_flatMap.mp inNode
      obtain ⟨line, reported, rfl⟩ := List.mem_map.mp there
      refine ⟨node, member, fun noGpus => ?_⟩
      have none := node.oneGresGpu
      rw [if_pos noGpus, List.countP_eq_zero] at none
      exact none line reported ((node.clean line reported).gpus.mp found)
    · rw [List.mem_singleton.mp last] at found
      exact absurd found (by decide)
  · intro given
    obtain ⟨node, member, gpus⟩ := given
    have one := node.oneGresGpu
    rw [if_neg gpus] at one
    obtain ⟨line, reported, mark⟩ := List.countP_pos_iff.mp (one ▸ Nat.one_pos)
    refine ⟨line.text node.cpuTot node.gpuCount, List.mem_append_left _ ?_,
      (node.clean line reported).gpus.mpr mark⟩
    exact List.mem_flatMap.mpr ⟨node, member, List.mem_map_of_mem reported⟩

end Reading

section Requests

/-- The tasks on each node, by the inventory. -/
def tasksPerNode (nodes : List NodeReport) (trainArgs : ResourceArgs) : Int :=
  min (trainArgs.gpus.getD 1) (trainArgs.maxGpus.getD (mostGpus nodes))

/-- The CPUs of each task: a share of the most CPUs of any node, where the parts are as many as
the most GPUs of any node, or the tasks when they are more. -/
def cpuShare (nodes : List NodeReport) (trainArgs : ResourceArgs) : Int :=
  mostCpus nodes / max (tasksPerNode nodes trainArgs) (mostGpus nodes)

/-- There is room for a share for each of the requested GPUs, or for each of those that
`max_gpus` allows; without `max_gpus`, for each GPU of any one node. -/
def HoldsTasks (nodes : List NodeReport) (trainArgs : ResourceArgs) (share room : Nat) : Prop :=
  trainArgs.gpus.getD 1 * share ≤ room ∨
    match trainArgs.maxGpus with
    | some maxGpus => maxGpus * share ≤ room
    | none => share ≤ room ∧ ∀ node ∈ nodes, node.gpuCount * share ≤ room

/-- A node with so many CPUs for each task and for each GPU of any one node. -/
structure GivesShare (nodes : List NodeReport) (trainArgs : ResourceArgs) (share : Nat)
    (node : NodeReport) : Prop where
  tasks : HoldsTasks nodes trainArgs share node.cpuTot
  alone : share ≤ node.cpuTot
  gpus : ∀ other ∈ nodes, other.gpuCount * share ≤ node.cpuTot

/-- A node with a GPU for each task, if any node has GPUs, and with as many CPUs for each task
as the node that can give the most. -/
structure Equipped (nodes : List NodeReport) (trainArgs : ResourceArgs) (node : NodeReport) :
    Prop where
  gpus : (∃ other ∈ nodes, other.gpuCount ≠ 0) → HoldsTasks nodes trainArgs 1 node.gpuCount
  cpus : ∀ share, (∃ other ∈ nodes, GivesShare nodes trainArgs share other) →
    HoldsTasks nodes trainArgs share node.cpuTot

variable (nodes : List NodeReport) (trainArgs : ResourceArgs)

theorem getTasksPerNode_output :
    getTasksPerNode (scontrolOutput nodes) trainArgs = some (tasksPerNode nodes trainArgs) := by
  rw [getTasksPerNode, getMaxGpuCountFromSlurm_output]
  rfl

theorem getCpuPerTask_output :
    getCpuPerTask (scontrolOutput nodes) trainArgs = some (cpuShare nodes trainArgs) := by
  rw [getCpuPerTask, getTasksPerNode_output, getMaxGpuCountFromSlurm_output,
    getTotalCpuCountFromSlurm_output]
  rfl

/-- What is asked for, by the inventory. -/
def requested : ResourceRequest where
  ntasksPerNode := tasksPerNode nodes trainArgs
  gres := if isGpuJob (scontrolOutput nodes) then some (tasksPerNode nodes trainArgs) else none
  nodes := min (trainArgs.nodes.getD 1) nodes.length
  cpusPerTask := cpuShare nodes trainArgs

theorem resourceRequest_output (filled : nodes ≠ []) :
    resourceRequest (scontrolOutput nodes) trainArgs = some (requested nodes trainArgs) := by
  rw [resourceRequest, getTasksPerNode_output, getNodeCount, getMaxNodeCountFromSlurm_output,
    if_neg filled, getCpuPerTask_output]
  rfl

theorem foldl_max_le_iff (numbers : List Nat) (start bound : Nat) :
    numbers.foldl max start ≤ bound ↔ start ≤ bound ∧ ∀ number ∈ numbers, number ≤ bound := by
  induction numbers generalizing start with
  | nil => simp
  | cons number rest ih => simp [ih, and_assoc]

theorem le_foldl_max_iff (numbers : List Nat) (start bound : Nat) :
    bound ≤ numbers.foldl max start ↔ bound ≤ start ∨ ∃ number ∈ numbers, bound ≤ number := by
  induction numbers generalizing start with
  | nil => simp
  | cons number rest ih => simp [ih, or_assoc]

theorem one_le_mostGpus : 1 ≤ mostGpus nodes :=
  (le_foldl_max_iff _ 1 1).mpr (Or.inl (Nat.le_refl _))

theorem mostGpus_mul_le_iff (share room : Nat) :
    mostGpus nodes * share ≤ room ↔
      share ≤ room ∧ ∀ node ∈ nodes, node.gpuCount * share ≤ room := by
  rcases Nat.eq_zero_or_pos share with rfl | positive
  · simp
  · rw [← Nat.le_div_iff_mul_le positive, mostGpus, foldl_max_le_iff, List.forall_mem_map]
    simp only [Nat.le_div_iff_mul_le positive, Nat.one_mul]

theorem le_mostCpus_iff (filled : nodes ≠ []) (bound : Nat) :
    bound ≤ mostCpus nodes ↔ ∃ node ∈ nodes, bound ≤ node.cpuTot := by
  rw [mostCpus, le_foldl_max_iff]
  simp only [List.mem_map, exists_exists_and_eq_and]
  refine or_iff_right_of_imp fun one => ?_
  obtain ⟨node, member⟩ := List.exists_mem_of_ne_nil nodes filled
  exact ⟨node, member, one.trans node.someCpus⟩

theorem min_mul_le_iff (first second : Int) (share room : Nat) :
    min first second * share ≤ room ↔ first * share ≤ room ∨ second * share ≤ room := by
  rw [min_mul_of_nonneg _ _ (Int.natCast_nonneg share), min_le_iff]

theorem max_mul_le_iff (first second : Int) (share room : Nat) :
    share * max first second ≤ room ↔ first * share ≤ room ∧ second * share ≤ room := by
  rw [mul_comm, max_mul_of_nonneg _ _ (Int.natCast_nonneg share), max_le_iff]

theorem tasksPerNode_mul_le_iff (share room : Nat) :
    tasksPerNode nodes trainArgs * share ≤ room ↔ HoldsTasks nodes trainArgs share room := by
  rw [tasksPerNode, min_mul_le_iff, HoldsTasks]
  refine or_congr_right ?_
  cases trainArgs.maxGpus with
  | some maxGpus => rfl
  | none =>
      rw [Option.getD_none]
      norm_cast
      exact mostGpus_mul_le_iff nodes share room

theorem parts_mul_le_iff (share : Nat) (node : NodeReport) :
    share * max (tasksPerNode nodes trainArgs) (mostGpus nodes) ≤ node.cpuTot ↔
      GivesShare nodes trainArgs share node := by
  rw [max_mul_le_iff, tasksPerNode_mul_le_iff, ← Int.natCast_mul, Int.ofNat_le,
    mostGpus_mul_le_iff]
  constructor
  · intro given
    exact ⟨given.1, given.2.1, given.2.2⟩
  · intro given
    exact ⟨given.tasks, given.alone, given.gpus⟩

theorem le_cpuShare_iff (filled : nodes ≠ []) (share : Nat) :
    share ≤ cpuShare nodes trainArgs ↔ ∃ node ∈ nodes, GivesShare nodes trainArgs share node := by
  have positive : 0 < max (tasksPerNode nodes trainArgs) (mostGpus nodes) :=
    lt_max_of_lt_right (Int.ofNat_lt.mpr (one_le_mostGpus nodes))
  have parts : 0 ≤ share * max (tasksPerNode nodes trainArgs) (mostGpus nodes) :=
    mul_nonneg (Int.natCast_nonneg share) positive.le
  rw [cpuShare, Int.le_ediv_iff_mul_le positive, ← Int.toNat_of_nonneg parts, Int.ofNat_le,
    le_mostCpus_iff nodes filled]
  refine exists_congr fun node => and_congr_right fun _ => ?_
  rw [← parts_mul_le_iff, ← Int.ofNat_le, Int.toNat_of_nonneg parts]

/-- The CPUs of all tasks. More than a task's share is never needed. -/
theorem tasks_mul_cpuShare_le_iff (filled : nodes ≠ []) (room : Nat) :
    tasksPerNode nodes trainArgs * cpuShare nodes trainArgs ≤ room ↔
      ∀ share, (∃ node ∈ nodes, GivesShare nodes trainArgs share node) →
        HoldsTasks nodes trainArgs share room := by
  have nonneg : 0 ≤ cpuShare nodes trainArgs :=
    Int.ediv_nonneg (Int.natCast_nonneg _)
      ((Int.natCast_nonneg _).trans (le_max_right _ (mostGpus nodes : Int)))
  constructor
  · intro enough share given
    rw [← tasksPerNode_mul_le_iff]
    have most := (le_cpuShare_iff nodes trainArgs filled share).mpr given
    rcases le_total 0 (tasksPerNode nodes trainArgs) with tasks | noTasks
    · exact (mul_le_mul_of_nonneg_left most tasks).trans enough
    · exact (mul_nonpos_of_nonpos_of_nonneg noTasks (Int.natCast_nonneg share)).trans
        (Int.natCast_nonneg room)
  · intro each
    obtain ⟨share, equal⟩ := Int.eq_ofNat_of_zero_le nonneg
    rw [equal, tasksPerNode_mul_le_iff]
    exact each share ((le_cpuShare_iff nodes trainArgs filled share).mp equal.ge)

theorem fits_iff_equipped (filled : nodes ≠ []) (node : NodeReport) :
    node.fits (requested nodes trainArgs) = true ↔ Equipped nodes trainArgs node := by
  have gpus : (match (requested nodes trainArgs).gres with
      | some gpus => decide (gpus ≤ node.gpuCount)
      | none => true) = true ↔
      ((∃ other ∈ nodes, other.gpuCount ≠ 0) → HoldsTasks nodes trainArgs 1 node.gpuCount) := by
    rw [← isGpuJob_output, ← tasksPerNode_mul_le_iff, requested]
    by_cases gpuJob : isGpuJob (scontrolOutput nodes) = true
    · simp [gpuJob]
    · simp [gpuJob]
  rw [NodeReport.fits, Bool.and_eq_true, gpus, decide_eq_true_iff, requested,
    tasks_mul_cpuShare_le_iff nodes trainArgs filled]
  exact ⟨fun given => ⟨given.1, given.2⟩, fun given => ⟨given.gpus, given.cpus⟩⟩

/-- What the job asks for can be had exactly if some node has a CPU for each task and for each
GPU of any one node, and as many nodes as the job wants, or all that there are, have a GPU for
each task and as many CPUs for each of them as any node can give. -/
theorem resources_satisfiable_iff :
    (∀ request, resourceRequest (scontrolOutput nodes) trainArgs = some request →
      Satisfiable nodes request) ↔
      nodes = [] ∨
        ((∃ node ∈ nodes, GivesShare nodes trainArgs 1 node) ∧
          ∃ chosen, chosen.Sublist nodes ∧
            (trainArgs.nodes.getD 1 ≤ chosen.length ∨ chosen = nodes) ∧
            ∀ node ∈ chosen, Equipped nodes trainArgs node) := by
  by_cases none : nodes = []
  · refine iff_of_true ?_ (Or.inl none)
    intro request asked
    rw [resourceRequest, getTasksPerNode_output, getNodeCount, getMaxNodeCountFromSlurm_output,
      if_pos none] at asked
    cases asked
  · rw [resourceRequest_output nodes trainArgs none, or_iff_right none]
    simp only [Option.some.injEq, forall_eq', Satisfiable]
    refine and_congr (le_cpuShare_iff nodes trainArgs none 1) ?_
    simp only [← fits_iff_equipped nodes trainArgs none]
    constructor
    · intro enough
      refine ⟨nodes.filter fun node => node.fits (requested nodes trainArgs),
        List.filter_sublist, ?_, fun node member => (List.mem_filter.mp member).2⟩
      rw [← List.countP_eq_length_filter]
      refine (min_le_iff.mp enough).imp_right fun all => ?_
      exact List.filter_eq_self.mpr (List.countP_eq_length.mp
        (List.countP_le_length.antisymm (Int.ofNat_le.mp all)))
    · intro given
      obtain ⟨chosen, sublist, enough, fitting⟩ := given
      have counted : chosen.countP (fun node => node.fits (requested nodes trainArgs)) ≤
          nodes.countP fun node => node.fits (requested nodes trainArgs) := sublist.countP_le
      rw [List.countP_eq_length.mpr fitting] at counted
      rcases enough with many | rfl
      · exact (min_le_left _ _).trans (many.trans (Int.ofNat_le.mpr counted))
      · exact (min_le_right _ _).trans (Int.ofNat_le.mpr counted)

def gpuNode : NodeReport where
  cpuTot := 8
  gpuCount := 4
  lines := [.nodeName ['=', 'a'], .cpuTot [' '] [], .gresGpu [' '] []]
  someCpus := by decide
  oneName := rfl
  oneCpuTot := rfl
  oneGresGpu := rfl
  clean := by
    have ends : NoDigitFirst [] := nofun
    simp only [List.forall_mem_cons]
    refine ⟨⟨?_, ?_, ?_, ?_, trivial⟩, ⟨?_, ?_, ?_, ?_, ?_, ends⟩, ⟨?_, ?_, ?_, ?_, ?_, ends⟩,
      List.forall_mem_nil _⟩ <;> decide

def cpuNode : NodeReport where
  cpuTot := 64
  gpuCount := 0
  lines := [.nodeName ['=', 'b'], .cpuTot [' '] [], .other ['G', 'r', 'e', 's', '=']]
  someCpus := by decide
  oneName := rfl
  oneCpuTot := rfl
  oneGresGpu := rfl
  clean := by
    have ends : NoDigitFirst [] := nofun
    simp only [List.forall_mem_cons]
    refine ⟨⟨?_, ?_, ?_, ?_, trivial⟩, ⟨?_, ?_, ?_, ?_, ?_, ends⟩, ⟨?_, ?_, ?_, ?_, trivial⟩,
      List.forall_mem_nil _⟩ <;> decide

/-- Two nodes with four tasks each are asked for, with the GPUs of the one and the CPUs of the
other. -/
theorem two_nodes_not_satisfiable :
    ¬ ∀ (nodes : List NodeReport) (trainArgs : ResourceArgs) (request : ResourceRequest),
      resourceRequest (scontrolOutput nodes) trainArgs = some request →
        Satisfiable nodes request := by
  intro claimed
  have satisfiable := claimed [gpuNode, cpuNode] ⟨some 4, none, some 2, by decide, by decide⟩ _
    (resourceRequest_output _ _ (List.cons_ne_nil _ _))
  exact absurd satisfiable.2 (by decide)

end Requests

end ScalarLM.Slurm
