import ScalarLM.Lib.Slice
import ScalarLM.Lib.Transition
import ScalarLM.Logs.LogStream

/-! `view_logs_async` with its polls of the log stream, while lines are appended to the log. -/

namespace ScalarLM.Logs

open Slice Transition

section Client

/-- What `view_logs_async` keeps between two polls, and what it has printed. -/
structure Viewer where
  alreadyPrintedLines : List Nat
  startingLineNumber : Nat
  printed : List LogLine

def Viewer.initial : Viewer := ⟨[], 0, []⟩

def Viewer.print (viewer : Viewer) (log : LogLine) : Viewer :=
  if log.lineNumber ∈ viewer.alreadyPrintedLines then viewer
  else
    { alreadyPrintedLines := log.lineNumber :: viewer.alreadyPrintedLines
      startingLineNumber :=
        if viewer.startingLineNumber < log.lineNumber then log.lineNumber
        else viewer.startingLineNumber
      printed := viewer.printed ++ [log] }

def sampleLogStream (serverLines : List (List Char)) (startingLineNumber : Nat) : List LogLine :=
  serverLines.zipIdx.filterMap (logLine? startingLineNumber)

def Viewer.poll (tail : Bool) (lines : Int) (serverLines : List (List Char)) (viewer : Viewer) :
    Viewer :=
  let logs := sampleLogStream serverLines viewer.startingLineNumber
  let logs := if tail then sliceFrom logs (-lines) else logs
  logs.foldl Viewer.print viewer

structure Following where
  serverLines : List (List Char)
  viewer : Viewer

/-- Lines are appended to the log, and then the client polls. -/
def followStep (tail : Bool) (lines : Int) (state : Following) (appended : List (List Char)) :
    Following :=
  let serverLines := state.serverLines ++ appended
  ⟨serverLines, state.viewer.poll tail lines serverLines⟩

/-- The polls of `view_logs_async` with `follow`, and the lines that come before each of them. -/
def viewLogsAsync (tail : Bool) (lines : Int) (polls : List (List (List Char))) : Following :=
  run (followStep tail lines) ⟨[], .initial⟩ polls

end Client

section Polls

def numberedLogs (serverLines : List (List Char)) : List LogLine :=
  serverLines.zipIdx.map fun numbered => ⟨rstrip numbered.1, numbered.2⟩

@[simp] theorem numberedLogs_length (serverLines : List (List Char)) :
    (numberedLogs serverLines).length = serverLines.length := by
  rw [numberedLogs, List.length_map, List.length_zipIdx]

theorem numberedLogs_numbers (serverLines : List (List Char)) :
    (numberedLogs serverLines).map LogLine.lineNumber = List.range' 0 serverLines.length := by
  rw [numberedLogs, List.map_map]
  exact List.zipIdx_map_snd 0 serverLines

theorem sampleLogStream_eq (serverLines : List (List Char)) (startingLineNumber : Nat) :
    sampleLogStream serverLines startingLineNumber =
      (numberedLogs serverLines).drop startingLineNumber :=
  filterMap_logLine? startingLineNumber serverLines 0

theorem print_row (viewer : Viewer) (logs : List LogLine) (start : Nat)
    (numbers : logs.map LogLine.lineNumber = List.range' start logs.length)
    (fresh : ∀ number ∈ viewer.alreadyPrintedLines, number < start)
    (cursor : viewer.startingLineNumber ≤ start) :
    (logs.foldl Viewer.print viewer).printed = viewer.printed ++ logs ∧
      (logs.foldl Viewer.print viewer).startingLineNumber =
        (if logs = [] then viewer.startingLineNumber else start + logs.length - 1) ∧
      ∀ number, number ∈ (logs.foldl Viewer.print viewer).alreadyPrintedLines ↔
        number ∈ viewer.alreadyPrintedLines ∨ start ≤ number ∧ number < start + logs.length := by
  induction logs generalizing viewer start with
  | nil => simp
  | cons log logs ih =>
      rw [List.map_cons, List.length_cons, List.range'_succ, List.cons.injEq] at numbers
      obtain ⟨number, numbers⟩ := numbers
      have new : log.lineNumber ∉ viewer.alreadyPrintedLines := by
        intro member
        exact absurd (fresh _ member) (by omega)
      have step : viewer.print log = ⟨log.lineNumber :: viewer.alreadyPrintedLines,
          log.lineNumber, viewer.printed ++ [log]⟩ := by
        rw [Viewer.print, if_neg new]
        congr 1
        split <;> omega
      obtain ⟨printed, starting, already⟩ := ih (viewer.print log) (start + 1) numbers
        (by
          intro other member
          rw [step, List.mem_cons] at member
          rcases member with rfl | earlier
          · omega
          · exact Nat.lt_succ_of_lt (fresh other earlier))
        (by rw [step]; dsimp only; omega)
      rw [List.foldl_cons]
      refine ⟨?_, ?_, ?_⟩
      · rw [printed, step, List.append_assoc]
        rfl
      · rw [starting, step, if_neg (List.cons_ne_nil _ _), List.length_cons]
        dsimp only
        split
        · rename_i empty
          rw [empty, List.length_nil]
          omega
        · omega
      · intro other
        rw [already, step, List.length_cons]
        dsimp only
        rw [List.mem_cons, or_assoc, or_left_comm]
        exact or_congr Iff.rfl (by omega)

theorem print_known (viewer : Viewer) (log : LogLine)
    (known : log.lineNumber ∈ viewer.alreadyPrintedLines) : viewer.print log = viewer := by
  rw [Viewer.print, if_pos known]

/-- The client has polled when there were so many lines: it goes on from the last one, which it
has printed if there is one. -/
structure Seen (viewer : Viewer) (count : Nat) : Prop where
  cursor : viewer.startingLineNumber = count - 1
  below : ∀ number ∈ viewer.alreadyPrintedLines, number < count
  last : 0 < count → count - 1 ∈ viewer.alreadyPrintedLines

theorem seen_initial : Seen .initial 0 where
  cursor := rfl
  below := fun _ member => absurd member List.not_mem_nil
  last := fun positive => absurd positive (Nat.lt_irrefl _)

def firstPrinted (tail : Bool) (lines count total : Nat) : Nat :=
  if tail then max count (total - lines) else count

@[simp] theorem firstPrinted_tail (lines count total : Nat) :
    firstPrinted true lines count total = max count (total - lines) := rfl

@[simp] theorem firstPrinted_all (lines count total : Nat) :
    firstPrinted false lines count total = count := rfl

variable {tail : Bool} {lines : Nat} {serverLines : List (List Char)} {viewer : Viewer}
  {count : Nat}

theorem poll_logs (positive : 0 < lines) (seen : Seen viewer count)
    (grown : count ≤ serverLines.length) :
    viewer.poll tail lines serverLines =
      ((numberedLogs serverLines).drop
        (firstPrinted tail lines count serverLines.length)).foldl Viewer.print viewer := by
  have sampled : (if tail then sliceFrom (sampleLogStream serverLines viewer.startingLineNumber)
      (-(lines : Int)) else sampleLogStream serverLines viewer.startingLineNumber) =
        (numberedLogs serverLines).drop
          (firstPrinted tail lines (count - 1) serverLines.length) := by
    rw [sampleLogStream_eq, seen.cursor, firstPrinted]
    split
    · rw [sliceFrom_neg _ _ positive, List.drop_drop, List.length_drop, numberedLogs_length]
      congr 1
      omega
    · rfl
  rw [Viewer.poll, sampled]
  by_cases again : firstPrinted tail lines (count - 1) serverLines.length < count
  · -- The line that was printed last comes once more.
    have first : firstPrinted tail lines (count - 1) serverLines.length = count - 1 := by
      cases tail with
      | false => rfl
      | true =>
          rw [firstPrinted_tail] at again ⊢
          omega
    have next : firstPrinted tail lines count serverLines.length = count := by
      cases tail with
      | false => rfl
      | true =>
          rw [firstPrinted_tail] at again ⊢
          omega
    have inside : count - 1 < (numberedLogs serverLines).length := by
      rw [numberedLogs_length]
      omega
    have number : (numberedLogs serverLines)[count - 1].lineNumber = count - 1 := by
      simp [numberedLogs]
    rw [first, next, List.drop_eq_getElem_cons inside, List.foldl_cons, print_known]
    · rw [show count - 1 + 1 = count by omega]
    · rw [number]
      exact seen.last (by omega)
  · have same : firstPrinted tail lines (count - 1) serverLines.length =
        firstPrinted tail lines count serverLines.length := by
      cases tail <;> simp only [firstPrinted_tail, firstPrinted_all] at again ⊢ <;> omega
    rw [same]

/-- A poll prints the new lines from the first one on that the tail leaves. -/
theorem poll_spec (positive : 0 < lines) (seen : Seen viewer count)
    (grown : count ≤ serverLines.length) :
    (viewer.poll tail lines serverLines).printed = viewer.printed ++
        (numberedLogs serverLines).drop (firstPrinted tail lines count serverLines.length) ∧
      Seen (viewer.poll tail lines serverLines) serverLines.length := by
  have reached : count ≤ firstPrinted tail lines count serverLines.length := by
    rw [firstPrinted]
    split <;> omega
  have short : serverLines.length ≤ firstPrinted tail lines count serverLines.length →
      serverLines.length = count := by
    rw [firstPrinted]
    split <;> omega
  have length : ((numberedLogs serverLines).drop
      (firstPrinted tail lines count serverLines.length)).length =
        serverLines.length - firstPrinted tail lines count serverLines.length := by
    rw [List.length_drop, numberedLogs_length]
  have numbers : ((numberedLogs serverLines).drop
      (firstPrinted tail lines count serverLines.length)).map LogLine.lineNumber =
        List.range' (firstPrinted tail lines count serverLines.length)
          (serverLines.length - firstPrinted tail lines count serverLines.length) := by
    rw [List.map_drop, numberedLogs_numbers, List.drop_range', Nat.mul_one, Nat.zero_add]
  obtain ⟨printed, cursor, already⟩ := print_row viewer _ _ (by rw [length]; exact numbers)
    (fun number member => Nat.lt_of_lt_of_le (seen.below number member) reached)
    (by rw [seen.cursor]; omega)
  rw [poll_logs positive seen grown]
  refine ⟨printed, ?_, ?_, ?_⟩
  · rw [cursor, length, seen.cursor]
    split
    · rename_i empty
      rw [empty, List.length_nil] at length
      rw [short (by omega)]
    · rename_i filled
      rw [← ne_eq, ← List.length_pos_iff, length] at filled
      omega
  · intro number member
    rcases (already number).mp member with earlier | ⟨_, below⟩
    · exact Nat.lt_of_lt_of_le (seen.below number earlier) grown
    · rw [length] at below
      omega
  · intro filled
    rw [already, length]
    by_cases same : serverLines.length = count
    · rw [same]
      exact .inl (seen.last (by omega))
    · exact .inr (by omega)

end Polls

section Runs

/-- What holds between two polls: the printed lines are lines of the log, in increasing order. -/
structure Shown (state : Following) : Prop where
  seen : Seen state.viewer state.serverLines.length
  increasing : state.viewer.printed.Pairwise fun earlier later =>
    earlier.lineNumber < later.lineNumber
  lines : ∀ log ∈ state.viewer.printed,
    (numberedLogs state.serverLines)[log.lineNumber]? = some log

variable {tail : Bool} {lines : Nat} {state : Following}

theorem shown_initial : Shown ⟨[], .initial⟩ where
  seen := seen_initial
  increasing := List.Pairwise.nil
  lines := fun _ member => absurd member List.not_mem_nil

theorem numberedLogs_append (serverLines appended : List (List Char)) (index : Nat) (log : LogLine)
    (found : (numberedLogs serverLines)[index]? = some log) :
    (numberedLogs (serverLines ++ appended))[index]? = some log := by
  have inside := (List.getElem?_eq_some_iff.mp found).1
  rw [numberedLogs, List.zipIdx_append, List.map_append]
  exact (List.getElem?_append_left inside).trans found

theorem numberedLogs_getElem? (serverLines : List (List Char)) (index : Nat) (log : LogLine)
    (found : (numberedLogs serverLines)[index]? = some log) : log.lineNumber = index := by
  rw [numberedLogs, List.getElem?_map, List.getElem?_zipIdx, Option.map_map,
    Option.map_eq_some_iff] at found
  obtain ⟨line, _, rfl⟩ := found
  exact Nat.zero_add index

theorem mem_printed_iff (shown : Shown state) (log : LogLine)
    (member : log ∈ numberedLogs state.serverLines) :
    log ∈ state.viewer.printed ↔
      log.lineNumber ∈ state.viewer.printed.map LogLine.lineNumber := by
  constructor
  · exact fun printed => List.mem_map_of_mem printed
  · intro number
    obtain ⟨other, printed, same⟩ := List.mem_map.mp number
    obtain ⟨index, found⟩ := List.mem_iff_getElem?.mp member
    have own := numberedLogs_getElem? _ _ _ found
    have here := shown.lines other printed
    rw [same, own, found, Option.some.injEq] at here
    rw [here]
    exact printed

theorem step_numbers (positive : 0 < lines) (shown : Shown state) (appended : List (List Char)) :
    (followStep tail lines state appended).viewer.printed.map LogLine.lineNumber =
      state.viewer.printed.map LogLine.lineNumber ++
        List.range' (firstPrinted tail lines state.serverLines.length
            (state.serverLines.length + appended.length))
          (state.serverLines.length + appended.length -
            firstPrinted tail lines state.serverLines.length
              (state.serverLines.length + appended.length)) := by
  have grown : state.serverLines.length ≤ (state.serverLines ++ appended).length := by
    rw [List.length_append]
    exact Nat.le_add_right _ _
  rw [followStep]
  dsimp only
  rw [(poll_spec positive shown.seen grown).1, List.map_append, List.map_drop,
    numberedLogs_numbers, List.drop_range', Nat.mul_one, Nat.zero_add, List.length_append]

theorem shown_step (positive : 0 < lines) (shown : Shown state) (appended : List (List Char)) :
    Shown (followStep tail lines state appended) := by
  have grown : state.serverLines.length ≤ (state.serverLines ++ appended).length := by
    rw [List.length_append]
    exact Nat.le_add_right _ _
  obtain ⟨printed, seen⟩ := @poll_spec tail lines _ _ _ positive shown.seen grown
  refine ⟨seen, ?_, ?_⟩
  · have reached : state.serverLines.length ≤ firstPrinted tail lines state.serverLines.length
        (state.serverLines.length + appended.length) := by
      rw [firstPrinted]
      split <;> omega
    have numbers := @step_numbers tail lines state positive shown appended
    rw [← List.pairwise_map (f := LogLine.lineNumber), numbers, List.pairwise_append]
    refine ⟨List.pairwise_map.mpr shown.increasing, List.pairwise_lt_range', ?_⟩
    intro earlier old later new
    obtain ⟨log, member, rfl⟩ := List.mem_map.mp old
    have inside := (List.getElem?_eq_some_iff.mp (shown.lines log member)).1
    rw [numberedLogs_length] at inside
    rw [List.mem_range'_1] at new
    omega
  · intro log member
    change log ∈ (state.viewer.poll tail lines (state.serverLines ++ appended)).printed at member
    rw [printed, List.mem_append] at member
    rcases member with earlier | later
    · exact numberedLogs_append _ _ _ _ (shown.lines log earlier)
    · obtain ⟨index, found⟩ := List.mem_iff_getElem?.mp (List.mem_of_mem_drop later)
      rw [numberedLogs_getElem? _ _ _ found]
      exact found

theorem printed_below (shown : Shown state) (number : Nat)
    (member : number ∈ state.viewer.printed.map LogLine.lineNumber) :
    number < state.serverLines.length := by
  obtain ⟨log, printed, rfl⟩ := List.mem_map.mp member
  have inside := (List.getElem?_eq_some_iff.mp (shown.lines log printed)).1
  rwa [numberedLogs_length] at inside

theorem mem_step_iff (positive : 0 < lines) (shown : Shown state)
    (appended : List (List Char)) (number : Nat) :
    number ∈ (followStep tail lines state appended).viewer.printed.map LogLine.lineNumber ↔
      number ∈ state.viewer.printed.map LogLine.lineNumber ∨
        firstPrinted tail lines state.serverLines.length
            (state.serverLines.length + appended.length) ≤ number ∧
          number < state.serverLines.length + appended.length := by
  rw [step_numbers positive shown, List.mem_append, List.mem_range'_1]
  refine or_congr Iff.rfl ?_
  omega

/-- A poll prints all new lines exactly when its tail has room for them. -/
theorem step_complete_iff (positive : 0 < lines) (shown : Shown state)
    (appended : List (List Char)) :
    (∀ number, state.serverLines.length ≤ number →
        number < state.serverLines.length + appended.length →
        number ∈ (followStep tail lines state appended).viewer.printed.map LogLine.lineNumber) ↔
      tail = false ∨ appended.length ≤ lines := by
  constructor
  · intro complete
    cases tail with
    | false => exact .inl rfl
    | true =>
        refine .inr ?_
        by_contra many
        have first := (mem_step_iff positive shown appended _).mp
          (complete state.serverLines.length (Nat.le_refl _) (by omega))
        rw [firstPrinted_tail] at first
        rcases first with earlier | ⟨left, _⟩
        · exact absurd (printed_below shown _ earlier) (Nat.lt_irrefl _)
        · omega
  · intro room number reached below
    refine (mem_step_iff positive shown appended number).mpr (.inr ⟨?_, below⟩)
    cases tail with
    | false => exact reached
    | true =>
        rw [firstPrinted_tail]
        rcases room with never | few
        · cases never
        · omega

/-- The polls print all lines that come before them exactly when the tail has room for what comes
between two polls. What a poll leaves out is not printed later. -/
theorem run_numbers (positive : 0 < lines) (shown : Shown state)
    (polls : List (List (List Char))) :
    Shown (run (followStep tail lines) state polls) ∧
      (run (followStep tail lines) state polls).serverLines =
        state.serverLines ++ polls.flatten ∧
      (∀ number < state.serverLines.length,
        number ∈ (run (followStep tail lines) state polls).viewer.printed.map LogLine.lineNumber ↔
          number ∈ state.viewer.printed.map LogLine.lineNumber) ∧
      ((∀ number, state.serverLines.length ≤ number →
          number < (state.serverLines ++ polls.flatten).length →
          number ∈
            (run (followStep tail lines) state polls).viewer.printed.map LogLine.lineNumber) ↔
        tail = false ∨ ∀ appended ∈ polls, appended.length ≤ lines) := by
  induction polls generalizing state with
  | nil =>
      refine ⟨shown, (List.append_nil _).symm, fun _ _ => Iff.rfl, ?_⟩
      simp only [List.flatten_nil, List.append_nil, List.not_mem_nil]
      constructor
      · exact fun _ => .inr fun _ member => absurd member id
      · intro _ number reached below
        omega
  | cons appended polls ih =>
      obtain ⟨final, served, old, new⟩ := ih (@shown_step tail lines _ positive shown appended)
      have lengthened : (followStep tail lines state appended).serverLines.length =
          state.serverLines.length + appended.length := List.length_append
      have complete := @step_complete_iff tail lines _ positive shown appended
      rw [lengthened] at old new
      refine ⟨final, ?_, ?_, ?_⟩
      · rw [List.flatten_cons, ← List.append_assoc]
        exact served
      · intro number below
        refine (old number (by omega)).trans ?_
        refine (mem_step_iff positive shown appended number).trans ?_
        rw [or_iff_left]
        intro later
        cases tail with
        | false => exact absurd later.1 (Nat.not_le_of_lt below)
        | true =>
            rw [firstPrinted_tail] at later
            omega
      · have total : (state.serverLines ++ (appended :: polls).flatten).length =
            ((followStep tail lines state appended).serverLines ++ polls.flatten).length := by
          rw [List.flatten_cons, ← List.append_assoc]
          rfl
        rw [List.forall_mem_cons, or_and_left, ← complete, ← new, total]
        constructor
        · intro all
          refine ⟨fun number reached below => (old number below).mp (all number reached ?_),
            fun number reached below => all number (by omega) below⟩
          rw [List.length_append, lengthened]
          omega
        · intro both number reached below
          rcases Nat.lt_or_ge number (state.serverLines.length + appended.length) with now | later
          · exact (old number now).mpr (both.1 number reached now)
          · exact both.2 number later below

end Runs

/-- What is printed while the first poll and the others after it find these lines: no line twice
and none out of order, and every line that comes after the first poll. -/
structure ShowsAll (tail : Bool) (lines : Int) (first : List (List Char))
    (polls : List (List (List Char))) : Prop where
  increasing : (viewLogsAsync tail lines (first :: polls)).viewer.printed.Pairwise
    fun earlier later => earlier.lineNumber < later.lineNumber
  complete : ∀ log ∈ (numberedLogs (first ++ polls.flatten)).drop first.length,
    log ∈ (viewLogsAsync tail lines (first :: polls)).viewer.printed

theorem complete_iff {state : Following} (shown : Shown state) (since : Nat) :
    (∀ log ∈ (numberedLogs state.serverLines).drop since, log ∈ state.viewer.printed) ↔
      ∀ number, since ≤ number → number < state.serverLines.length →
        number ∈ state.viewer.printed.map LogLine.lineNumber := by
  constructor
  · intro all number reached below
    have inside : number < (numberedLogs state.serverLines).length := by
      rwa [numberedLogs_length]
    have found := List.getElem?_eq_getElem inside
    have later : (numberedLogs state.serverLines)[number] ∈
        (numberedLogs state.serverLines).drop since := by
      refine List.mem_iff_getElem?.mpr ⟨number - since, ?_⟩
      rw [List.getElem?_drop, show since + (number - since) = number by omega]
      exact found
    have printed := List.mem_map_of_mem (f := LogLine.lineNumber) (all _ later)
    rwa [numberedLogs_getElem? _ _ _ found] at printed
  · intro all log member
    obtain ⟨index, found⟩ := List.mem_iff_getElem?.mp member
    rw [List.getElem?_drop] at found
    have inside := (List.getElem?_eq_some_iff.mp found).1
    rw [numberedLogs_length] at inside
    rw [mem_printed_iff shown log (List.mem_of_getElem? found), numberedLogs_getElem? _ _ _ found]
    exact all _ (Nat.le_add_right _ _) inside

/-- Follow mode shows every new line once exactly when no tail is taken, or never more lines come
between two polls than the tail has. -/
theorem follow_shows_all_iff (tail : Bool) (lines : Int) (positive : 1 ≤ lines)
    (first : List (List Char)) (polls : List (List (List Char))) :
    ShowsAll tail lines first polls ↔
      tail = false ∨ ∀ appended ∈ polls, (appended.length : Int) ≤ lines := by
  obtain ⟨count, rfl⟩ := Int.eq_ofNat_of_zero_le (show 0 ≤ lines by omega)
  have begun := @shown_step tail count _ (by omega) shown_initial first
  obtain ⟨final, served, _, new⟩ := @run_numbers tail count _ (by omega) begun polls
  have here : (followStep tail count ⟨[], .initial⟩ first).serverLines = first := rfl
  have complete := complete_iff final first.length
  rw [here] at served new
  rw [served, new] at complete
  simp only [Int.ofNat_le]
  exact ⟨fun shows => complete.mp shows.complete,
    fun room => ⟨final.increasing, complete.mpr room⟩⟩

/-- The second poll finds as many new lines as the tail has. -/
theorem follow_shows_all_two_polls : ShowsAll true 2 [['a']] [[['b'], ['c']], [['d']]] :=
  (follow_shows_all_iff true 2 (by decide) _ _).mpr (.inr (by decide))

/-- Of two new lines, a tail of one leaves out the first. -/
theorem follow_leaves_out :
    ¬ ∀ tail lines, 1 ≤ lines → ∀ first polls, ShowsAll tail lines first polls := by
  intro all
  have complete := (all true 1 (by decide) [['a']] [[['b'], ['c']]]).complete
  have printed := complete ⟨['b'], 1⟩ List.mem_cons_self
  have number : 1 ∈ [0, 2] := List.mem_map_of_mem (f := LogLine.lineNumber) printed
  revert number
  decide

end ScalarLM.Logs
