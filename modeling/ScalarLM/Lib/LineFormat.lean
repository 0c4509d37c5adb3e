import Mathlib.Data.List.Chain
import Mathlib.Tactic.Common

/-! Messages that are written one a line, and a reader that decodes each piece of the text alone. -/

namespace ScalarLM

section Growing

variable {Symbol : Type} (newline : Symbol)

def Ended (line : List Symbol) : Prop := line.getLast? = some newline

def KeepsEnded (earlier later : List (List Symbol)) : Prop :=
  ∀ (index : Nat) line, earlier[index]? = some line → Ended newline line →
    later[index]? = some line

variable {newline}

theorem keepsEnded_refl (lines : List (List Symbol)) : KeepsEnded newline lines lines :=
  fun _ _ found _ => found

theorem KeepsEnded.trans {first second third : List (List Symbol)}
    (earlier : KeepsEnded newline first second) (later : KeepsEnded newline second third) :
    KeepsEnded newline first third :=
  fun index line found ended => later index line (earlier index line found ended) ended

theorem KeepsEnded.cons {earlier later : List (List Symbol)}
    (keeps : KeepsEnded newline earlier later) (line : List Symbol) :
    KeepsEnded newline (line :: earlier) (line :: later) := by
  intro index ended found complete
  cases index with
  | zero => exact found
  | succ index => exact keeps index ended found complete

theorem KeepsEnded.prepend {earlier later : List (List Symbol)}
    (keeps : KeepsEnded newline earlier later) (front : List (List Symbol)) :
    KeepsEnded newline (front ++ earlier) (front ++ later) := by
  induction front with
  | nil => exact keeps
  | cons line front ih => exact ih.cons line

theorem KeepsEnded.append {earlier later : List (List Symbol)}
    (keeps : KeepsEnded newline earlier later) (length : later.length = earlier.length)
    (back : List (List Symbol)) : KeepsEnded newline (earlier ++ back) (later ++ back) := by
  intro index line found ended
  rcases Nat.lt_or_ge index earlier.length with inside | behind
  · rw [List.getElem?_append_left inside] at found
    rw [List.getElem?_append_left (length ▸ inside)]
    exact keeps index line found ended
  · rw [List.getElem?_append_right behind] at found
    rw [List.getElem?_append_right (length ▸ behind), length]
    exact found

theorem KeepsEnded.open {earlier later : List (List Symbol)}
    (keeps : KeepsEnded newline earlier later) (back : List (List Symbol))
    (unended : ∀ line ∈ back, ¬ Ended newline line) (after : List (List Symbol)) :
    KeepsEnded newline (earlier ++ back) (later ++ after) := by
  intro index line found ended
  rcases Nat.lt_or_ge index earlier.length with inside | behind
  · rw [List.getElem?_append_left inside] at found
    have kept := keeps index line found ended
    rw [List.getElem?_append_left (List.getElem?_eq_some_iff.mp kept).1]
    exact kept
  · rw [List.getElem?_append_right behind] at found
    exact absurd ended (unended line (List.mem_of_getElem? found))

end Growing

section Reading

variable {Symbol Value : Type} [DecidableEq Symbol]

def linesOf (newline : Symbol) : List Symbol → List (List Symbol)
  | [] => []
  | symbol :: rest =>
      if symbol = newline then [symbol] :: linesOf newline rest
      else
        match linesOf newline rest with
        | [] => [[symbol]]
        | line :: lines => (symbol :: line) :: lines

def decodeLines (decode : List Symbol → Option Value) : List (List Symbol) → List Value
  | [] => []
  | line :: lines =>
      match decode line with
      | none => []
      | some value => value :: decodeLines decode lines

def readLines (newline : Symbol) (decode : List Symbol → Option Value) (text : List Symbol) :
    List Value :=
  decodeLines decode (linesOf newline text)

theorem linesOf_line (newline : Symbol) (body rest : List Symbol) (oneLine : newline ∉ body) :
    linesOf newline (body ++ newline :: rest) = (body ++ [newline]) :: linesOf newline rest := by
  induction body with
  | nil => rw [List.nil_append, linesOf, if_pos rfl, List.nil_append]
  | cons symbol body ih =>
      rw [List.mem_cons, not_or] at oneLine
      rw [List.cons_append, linesOf, if_neg (Ne.symm oneLine.1), ih oneLine.2]
      rfl

theorem linesOf_open (newline : Symbol) (body : List Symbol) (oneLine : newline ∉ body)
    (filled : body ≠ []) : linesOf newline body = [body] := by
  induction body with
  | nil => exact absurd rfl filled
  | cons symbol body ih =>
      rw [List.mem_cons, not_or] at oneLine
      rw [linesOf, if_neg (Ne.symm oneLine.1)]
      by_cases last : body = []
      · rw [last]
        rfl
      · rw [ih oneLine.2 last]

theorem linesOf_flatMap (newline : Symbol) (bodies : List (List Symbol))
    (oneLine : ∀ body ∈ bodies, newline ∉ body) :
    linesOf newline (bodies.flatMap fun body => body ++ [newline]) =
      bodies.map fun body => body ++ [newline] := by
  induction bodies with
  | nil => rfl
  | cons body bodies ih =>
      rw [List.forall_mem_cons] at oneLine
      rw [List.flatMap_cons, List.append_assoc, List.singleton_append,
        linesOf_line newline body _ oneLine.1, ih oneLine.2, List.map_cons]

theorem oneLine_of_mem_linesOf {newline : Symbol} {text line : List Symbol}
    (member : line ∈ linesOf newline text) : newline ∉ line.dropLast := by
  induction text generalizing line with
  | nil => cases member
  | cons symbol rest ih =>
      rw [linesOf] at member
      split at member
      · rcases List.mem_cons.mp member with rfl | later
        · exact List.not_mem_nil
        · exact ih later
      · rename_i other
        split at member
        · rw [List.mem_singleton.mp member]
          exact List.not_mem_nil
        · rename_i first lines found
          rw [found] at ih
          rcases List.mem_cons.mp member with rfl | later
          · cases first with
            | nil => exact List.not_mem_nil
            | cons next more =>
                rw [List.dropLast_cons_of_ne_nil (List.cons_ne_nil next more), List.mem_cons,
                  not_or]
                exact ⟨Ne.symm other, ih List.mem_cons_self⟩
          · exact ih (List.mem_cons_of_mem _ later)

theorem flatten_linesOf (newline : Symbol) (text : List Symbol) :
    (linesOf newline text).flatten = text := by
  induction text with
  | nil => rfl
  | cons symbol rest ih =>
      rw [linesOf]
      split
      · rw [List.flatten_cons, ih, List.singleton_append]
      · cases lines : linesOf newline rest with
        | nil =>
            rw [lines] at ih
            rw [← ih]
            rfl
        | cons line more =>
            rw [lines] at ih
            rw [← ih]
            rfl

theorem mem_of_mem_linesOf {newline symbol : Symbol} {text line : List Symbol}
    (member : line ∈ linesOf newline text) (there : symbol ∈ line) : symbol ∈ text := by
  rw [← flatten_linesOf newline text]
  exact List.mem_flatten.mpr ⟨line, member, there⟩

theorem linesOf_grows (newline : Symbol) (text added : List Symbol) :
    KeepsEnded newline (linesOf newline text) (linesOf newline (text ++ added)) := by
  induction text with
  | nil =>
      intro index line found
      cases found
  | cons symbol rest ih =>
      rw [List.cons_append, linesOf, linesOf]
      split
      · exact ih.cons _
      · rename_i other
        cases before : linesOf newline rest with
        | nil =>
            -- Only the symbol is there, without a newline behind it.
            refine (keepsEnded_refl []).open [[symbol]] ?_ _
            intro line member ended
            rw [List.mem_singleton.mp member, Ended] at ended
            exact other (Option.some.inj ended)
        | cons line lines =>
            rw [before] at ih
            intro index found here ended
            cases index with
            | zero =>
                cases here
                have filled : line ≠ [] := by
                  intro empty
                  rw [empty] at ended
                  exact other (Option.some.inj ended)
                rw [Ended, List.getLast?_cons_of_ne_nil filled] at ended
                have first := ih 0 line rfl ended
                cases after : linesOf newline (rest ++ added) with
                | nil => rw [after] at first; cases first
                | cons head tail => rw [after] at first; cases first; rfl
            | succ index =>
                have kept := ih (index + 1) found here ended
                cases after : linesOf newline (rest ++ added) with
                | nil => rw [after] at kept; cases kept
                | cons head tail => rw [after] at kept; exact kept

theorem readLines_decoded (newline : Symbol) (decode : List Symbol → Option Value)
    (body rest : List Symbol) (oneLine : newline ∉ body) (value : Value)
    (decoded : decode (body ++ [newline]) = some value) :
    readLines newline decode (body ++ newline :: rest) =
      value :: readLines newline decode rest := by
  rw [readLines, linesOf_line newline body rest oneLine, decodeLines, decoded]
  rfl

theorem readLines_failed (newline : Symbol) (decode : List Symbol → Option Value)
    (body rest : List Symbol) (oneLine : newline ∉ body)
    (failed : decode (body ++ [newline]) = none) :
    readLines newline decode (body ++ newline :: rest) = [] := by
  rw [readLines, linesOf_line newline body rest oneLine, decodeLines, failed]

theorem readLines_open (newline : Symbol) (decode : List Symbol → Option Value)
    (body : List Symbol) (oneLine : newline ∉ body) (filled : body ≠ []) :
    readLines newline decode body = (decode body).toList := by
  rw [readLines, linesOf_open newline body oneLine filled, decodeLines]
  cases decode body <;> rfl

end Reading

/-- Messages written one a line. No part of a line but the whole of it is decoded to a value that
could be a message. -/
structure LineFormat (Symbol Message Value : Type) where
  newline : Symbol
  write : Message → List Symbol
  value : Message → Value
  decode : List Symbol → Option Value
  genuine : Value → Bool
  oneLine : ∀ message, newline ∉ write message
  filled : ∀ message, write message ≠ []
  genuine_value : ∀ message, genuine (value message) = true
  decode_write : ∀ message, decode (write message) = some (value message)
  decode_line : ∀ message, decode (write message ++ [newline]) = some (value message)
  decode_newline : decode [newline] = none
  decode_front : ∀ message front, front <+: write message → front ≠ write message →
    decode front = none
  decode_inside : ∀ message before part after, before ≠ [] →
    before ++ part ++ after = write message ++ [newline] →
    ∀ value, decode part = some value → genuine value = false

namespace LineFormat

variable {Symbol Message Value : Type} (format : LineFormat Symbol Message Value)

def line (message : Message) : List Symbol := format.write message ++ [format.newline]

def text (messages : List Message) : List Symbol := messages.flatMap format.line

def messageCount (values : List Value) : Nat := values.countP format.genuine

/-- What is left of a text after a cut, as far as the next beginning of a line. -/
inductive Left : List Symbol → Prop where
  | between : Left []
  | inside (message : Message) (before remains : List Symbol) (begun : before ≠ [])
      (cut : before ++ remains = format.line message) : Left remains

@[simp] theorem text_nil : format.text [] = [] := rfl

@[simp] theorem text_cons (message : Message) (messages : List Message) :
    format.text (message :: messages) = format.line message ++ format.text messages := rfl

theorem text_filled (message : Message) (messages : List Message) :
    format.text (message :: messages) ≠ [] := by
  rw [text_cons, line, List.append_assoc]
  exact List.append_ne_nil_of_left_ne_nil (format.filled message) _

theorem text_getLast (message : Message) (messages : List Message) :
    (format.text (message :: messages)).getLast? = some format.newline := by
  induction messages generalizing message with
  | nil => rw [text_cons, text_nil, List.append_nil, line, List.getLast?_concat]
  | cons next messages ih =>
      rw [text_cons, List.getLast?_append, ih next]
      rfl

theorem text_cut (messages : List Message) (front back : List Symbol)
    (cut : front ++ back = format.text messages) :
    (∃ done rest, messages = done ++ rest ∧ front = format.text done ∧ back = format.text rest) ∨
      ∃ done message rest part remains, messages = done ++ message :: rest ∧
        front = format.text done ++ part ∧ part ++ remains = format.line message ∧
        part ≠ [] ∧ remains ≠ [] ∧ back = remains ++ format.text rest := by
  induction messages generalizing front with
  | nil =>
      rw [text_nil, List.append_eq_nil_iff] at cut
      exact .inl ⟨[], [], rfl, cut.1, cut.2⟩
  | cons message messages ih =>
      by_cases start : front = []
      · refine .inl ⟨[], message :: messages, rfl, start, ?_⟩
        rw [start, List.nil_append] at cut
        exact cut
      rw [text_cons] at cut
      rcases List.append_eq_append_iff.mp cut with ⟨remains, line, later⟩ | ⟨more, ahead, later⟩
      · by_cases complete : remains = []
        · refine .inl ⟨[message], messages, rfl, ?_, ?_⟩
          · rw [complete, List.append_nil] at line
            rw [text_cons, text_nil, List.append_nil, line]
          · rw [later, complete, List.nil_append]
        · exact .inr ⟨[], message, messages, front, remains, rfl, rfl, line.symm, start, complete,
            later⟩
      · rcases ih more later.symm with ⟨done, rest, all, first, last⟩ |
          ⟨done, next, rest, part, remains, all, first, split, begun, unfinished, last⟩
        · exact .inl ⟨message :: done, rest, by rw [all]; rfl, by rw [ahead, first]; rfl, last⟩
        · refine .inr ⟨message :: done, next, rest, part, remains, by rw [all]; rfl, ?_, split,
            begun, unfinished, last⟩
          rw [ahead, first, text_cons, List.append_assoc]

theorem line_cut (message : Message) (part remains : List Symbol)
    (cut : part ++ remains = format.line message) (unfinished : remains ≠ []) :
    ∃ most, remains = most ++ [format.newline] ∧ part ++ most = format.write message := by
  obtain ⟨most, last, rfl⟩ := List.eq_nil_or_concat remains |>.resolve_left unfinished
  rw [line, List.concat_eq_append, ← List.append_assoc] at cut
  obtain ⟨first, same⟩ := List.append_inj' cut rfl
  refine ⟨most, ?_, first⟩
  rw [List.concat_eq_append, same]

theorem messageCount_append (first second : List Value) :
    format.messageCount (first ++ second) =
      format.messageCount first + format.messageCount second :=
  List.countP_append

theorem messageCount_values (messages : List Message) :
    format.messageCount (messages.map format.value) = messages.length := by
  rw [messageCount, List.countP_map, List.countP_eq_length.mpr]
  intro message _
  exact format.genuine_value message

def Joint (piece next : List Symbol) : Prop :=
  piece.getLast? = some format.newline ∨ next = [format.newline]

variable [DecidableEq Symbol]

def read (piece : List Symbol) : List Value := readLines format.newline format.decode piece

theorem read_newline (more : List Symbol) : format.read (format.newline :: more) = [] :=
  readLines_failed _ _ [] more List.not_mem_nil format.decode_newline

theorem read_text (messages : List Message) (rest : List Symbol) :
    format.read (format.text messages ++ rest) =
      messages.map format.value ++ format.read rest := by
  induction messages with
  | nil => rfl
  | cons message messages ih =>
      rw [text_cons, line, List.append_assoc, List.append_assoc, List.singleton_append, read,
        readLines_decoded _ _ _ _ (format.oneLine message) _ (format.decode_line message), ← read,
        ih]
      rfl

theorem read_part (message : Message) (part remains : List Symbol)
    (cut : part ++ remains = format.line message) (begun : part ≠ []) (unfinished : remains ≠ []) :
    (remains = [format.newline] ∧ format.read part = [format.value message]) ∨
      (remains ≠ [format.newline] ∧ format.read part = []) := by
  obtain ⟨most, rfl, whole⟩ := format.line_cut message part remains cut unfinished
  have oneLine : format.newline ∉ part := fun member =>
    format.oneLine message (whole ▸ List.mem_append_left most member)
  rw [read, readLines_open _ _ part oneLine begun]
  by_cases complete : most = []
  · rw [complete, List.append_nil] at whole
    rw [complete, whole, format.decode_write]
    exact .inl ⟨rfl, rfl⟩
  · refine .inr ⟨?_, ?_⟩
    · intro same
      exact complete (List.append_left_eq_self.mp same)
    · have proper : part ≠ format.write message := by
        rw [← whole]
        intro same
        exact complete (List.append_right_eq_self.mp same.symm)
      rw [format.decode_front message part ⟨most, whole⟩ proper]
      rfl

theorem read_remains (message : Message) (before remains more : List Symbol) (begun : before ≠ [])
    (cut : before ++ remains = format.line message) (unfinished : remains ≠ []) :
    format.messageCount (format.read (remains ++ more)) ≤
        format.messageCount (format.read more) ∧
      (remains = [format.newline] → format.read (remains ++ more) = []) := by
  obtain ⟨most, rfl, whole⟩ := format.line_cut message before remains cut unfinished
  have oneLine : format.newline ∉ most := fun member =>
    format.oneLine message (whole ▸ List.mem_append_right before member)
  have split : most ++ [format.newline] ++ more = most ++ format.newline :: more := by
    rw [List.append_assoc, List.singleton_append]
  rw [split]
  refine ⟨?_, ?_⟩
  · cases decoded : format.decode (most ++ [format.newline]) with
    | none =>
        rw [read, readLines_failed _ _ most more oneLine decoded]
        exact Nat.zero_le _
    | some junk =>
        have isJunk := format.decode_inside message before (most ++ [format.newline]) [] begun
          (by rw [List.append_nil, cut, line]) junk decoded
        rw [read, readLines_decoded _ _ most more oneLine junk decoded, messageCount,
          List.countP_cons_of_neg (by rw [isJunk]; decide), ← read, ← messageCount]
  · intro last
    have nothing : most = [] := List.append_left_eq_self.mp last
    rw [nothing]
    exact format.read_newline more

theorem read_within (message : Message) (before piece after : List Symbol) (begun : before ≠ [])
    (cut : before ++ (piece ++ after) = format.line message) :
    format.messageCount (format.read piece) = 0 := by
  by_cases empty : piece = []
  · rw [empty]
    rfl
  by_cases last : after = []
  · rw [last, List.append_nil] at cut
    have bound := (format.read_remains message before piece [] begun cut empty).1
    rw [List.append_nil] at bound
    exact Nat.le_zero.mp bound
  · obtain ⟨most, split, whole⟩ := format.line_cut message (before ++ piece) after
      (by rw [List.append_assoc, cut]) last
    have oneLine : format.newline ∉ piece := fun member =>
      format.oneLine message
        (whole ▸ List.mem_append_left most (List.mem_append_right before member))
    rw [read, readLines_open _ _ piece oneLine empty]
    cases decoded : format.decode piece with
    | none => rfl
    | some junk =>
        have isJunk := format.decode_inside message before piece after begun
          (by rw [List.append_assoc, cut, line]) junk decoded
        rw [messageCount, Option.toList_some, List.countP_cons_of_neg (by rw [isJunk]; decide)]
        rfl

theorem messageCount_pieces (pieces : List (List Symbol)) (remains : List Symbol)
    (left : format.Left remains) (messages : List Message)
    (whole : pieces.flatten = remains ++ format.text messages) :
    format.messageCount (pieces.flatMap format.read) ≤ messages.length := by
  induction pieces generalizing remains messages with
  | nil => exact Nat.zero_le _
  | cons piece pieces ih =>
      rw [List.flatten_cons] at whole
      rw [List.flatMap_cons, messageCount_append]
      rcases List.append_eq_append_iff.mp whole with ⟨later, split, rest⟩ | ⟨more, split, rest⟩
      · cases left with
        | between =>
            obtain ⟨rfl, rfl⟩ := List.append_eq_nil_iff.mp split.symm
            have bound := ih [] .between messages rest
            have empty : format.messageCount (format.read []) = 0 := rfl
            omega
        | inside message before _ begun cut =>
            rw [split] at cut
            have empty := format.read_within message before piece later begun cut
            have bound := ih later (.inside message (before ++ piece) later
              (List.append_ne_nil_of_left_ne_nil begun _) (by rw [List.append_assoc, cut]))
              messages rest
            omega
      · have first : format.messageCount (format.read piece) ≤
            format.messageCount (format.read more) := by
          cases left with
          | between => rw [split, List.nil_append]
          | inside message before _ begun cut =>
              by_cases empty : remains = []
              · rw [split, empty, List.nil_append]
              · rw [split]
                exact (format.read_remains message before remains more begun cut empty).1
        rcases format.text_cut messages more pieces.flatten rest.symm with
          ⟨done, others, rfl, front, back⟩ |
          ⟨done, message, others, part, last, rfl, front, cut, begun, unfinished, back⟩
        · have bound := ih [] .between others back
          have count : format.messageCount (format.read more) = done.length := by
            rw [front, ← List.append_nil (format.text done), read_text, messageCount_append,
              messageCount_values]
            rfl
          rw [List.length_append]
          omega
        · have bound := ih last (.inside message part last begun cut) others back
          have count : format.messageCount (format.read more) ≤ done.length + 1 := by
            rw [front, read_text, messageCount_append, messageCount_values]
            rcases format.read_part message part last cut begun unfinished with
              ⟨_, one⟩ | ⟨_, empty⟩
            · rw [one]
              exact Nat.add_le_add_left List.countP_le_length _
            · rw [empty]
              exact Nat.le_add_right _ _
          rw [List.length_append, List.length_cons]
          omega

/-- When a newline comes with something behind it, a message is lost. -/
theorem messageCount_newline (piece : List Symbol) (pieces : List (List Symbol))
    (messages : List Message) (filled : piece ≠ [])
    (whole : piece ++ pieces.flatten = format.newline :: format.text messages)
    (longer : piece ≠ [format.newline]) :
    format.messageCount ((piece :: pieces).flatMap format.read) < messages.length := by
  obtain ⟨more, rfl⟩ : ∃ more, piece = format.newline :: more := by
    cases piece with
    | nil => exact absurd rfl filled
    | cons symbol more =>
        rw [List.cons_append, List.cons.injEq] at whole
        exact ⟨more, by rw [whole.1]⟩
  rw [List.cons_append, List.cons.injEq] at whole
  rw [List.flatMap_cons, format.read_newline more, List.nil_append]
  rcases format.text_cut messages more pieces.flatten whole.2 with
    ⟨done, others, rfl, front, back⟩ |
    ⟨done, next, others, part, last, rfl, front, cut, begun, unfinished, back⟩
  · have bound := format.messageCount_pieces pieces [] .between others back
    have behind : done ≠ [] := by
      intro empty
      rw [empty, text_nil] at front
      exact longer (by rw [front])
    have positive := List.length_pos_of_ne_nil behind
    rw [List.length_append]
    omega
  · have bound := format.messageCount_pieces pieces last (.inside next part last begun cut) others
      back
    rw [List.length_append, List.length_cons]
    omega

/-- When every message is read, no line is cut but at its end. -/
theorem joints_of_read (pieces : List (List Symbol)) (filled : ∀ piece ∈ pieces, piece ≠ [])
    (remains : List Symbol) (ready : remains = [] ∨ remains = [format.newline])
    (messages : List Message) (whole : pieces.flatten = remains ++ format.text messages)
    (count : format.messageCount (pieces.flatMap format.read) = messages.length) :
    pieces.IsChain format.Joint ∧
      (remains = [format.newline] → pieces.head? = some [format.newline]) := by
  induction pieces generalizing remains messages with
  | nil =>
      refine ⟨.nil, ?_⟩
      intro same
      rw [same] at whole
      cases whole
  | cons piece pieces ih =>
      rw [List.forall_mem_cons] at filled
      rcases ready with rfl | rfl
      · refine ⟨?_, fun other => by cases other⟩
        rw [List.nil_append, List.flatten_cons] at whole
        rw [List.flatMap_cons, messageCount_append] at count
        rcases format.text_cut messages piece pieces.flatten whole with
          ⟨done, others, rfl, front, back⟩ |
          ⟨done, message, others, part, last, rfl, front, cut, begun, unfinished, back⟩
        · have first : format.messageCount (format.read piece) = done.length := by
            rw [front, ← List.append_nil (format.text done), read_text, messageCount_append,
              messageCount_values]
            rfl
          rw [List.length_append] at count
          obtain ⟨chain, _⟩ := ih filled.2 [] (.inl rfl) others back (by omega)
          refine List.isChain_cons.mpr ⟨?_, chain⟩
          intro next _
          cases done with
          | nil => exact absurd front filled.1
          | cons message done =>
              rw [front]
              exact .inl (format.text_getLast message done)
        · have bound := format.messageCount_pieces pieces last
            (.inside message part last begun cut) others back
          rw [List.length_append, List.length_cons] at count
          rcases format.read_part message part last cut begun unfinished with
            ⟨rfl, one⟩ | ⟨_, empty⟩
          · have first : format.messageCount (format.read piece) = done.length + 1 := by
              rw [front, read_text, messageCount_append, messageCount_values, one]
              exact congrArg _ (format.messageCount_values [message])
            obtain ⟨chain, starts⟩ := ih filled.2 _ (.inr rfl) others back (by omega)
            refine List.isChain_cons.mpr ⟨?_, chain⟩
            intro next head
            rw [starts rfl] at head
            exact .inr (Option.some.inj head).symm
          · have first : format.messageCount (format.read piece) = done.length := by
              rw [front, read_text, messageCount_append, messageCount_values, empty]
              rfl
            omega
      · by_cases alone : piece = [format.newline]
        · rw [alone, List.flatten_cons, List.append_cancel_left_eq] at whole
          rw [alone, List.flatMap_cons, format.read_newline [], List.nil_append] at count
          obtain ⟨chain, _⟩ := ih filled.2 [] (.inl rfl) messages whole count
          rw [alone]
          refine ⟨List.isChain_cons.mpr ⟨?_, chain⟩, fun _ => rfl⟩
          intro next _
          exact .inl rfl
        · rw [List.flatten_cons] at whole
          have lost := format.messageCount_newline piece pieces messages filled.1 whole alone
          omega

/-- When no line is cut but at its end, every message is read. -/
theorem read_of_joints (pieces : List (List Symbol)) (chain : pieces.IsChain format.Joint)
    (remains : List Symbol)
    (ready : remains = [] ∨ (remains = [format.newline] ∧ pieces.head? = some [format.newline]))
    (messages : List Message) (whole : pieces.flatten = remains ++ format.text messages) :
    pieces.flatMap format.read = messages.map format.value := by
  induction pieces generalizing remains messages with
  | nil =>
      rcases ready with rfl | ⟨_, absent⟩
      · cases messages with
        | nil => rfl
        | cons message messages => exact absurd whole.symm (format.text_filled message messages)
      · cases absent
  | cons piece pieces ih =>
      rw [List.isChain_cons] at chain
      rcases ready with rfl | ⟨rfl, first⟩
      · rw [List.nil_append, List.flatten_cons] at whole
        rcases format.text_cut messages piece pieces.flatten whole with
          ⟨done, others, rfl, rfl, back⟩ |
          ⟨done, message, others, part, last, rfl, rfl, cut, begun, unfinished, back⟩
        · have front := format.read_text done []
          rw [List.append_nil] at front
          rw [List.flatMap_cons, front, ih chain.2 [] (.inl rfl) others back, List.map_append]
          exact List.append_nil _ ▸ rfl
        · obtain ⟨most, rfl, written⟩ := format.line_cut message part last cut unfinished
          have oneLine : format.newline ∉ part := fun member =>
            format.oneLine message (written ▸ List.mem_append_left most member)
          cases pieces with
          | nil =>
              rw [List.flatten_nil, List.append_assoc] at back
              exact absurd back.symm (by simp)
          | cons next pieces =>
              rcases chain.1 next rfl with ended | alone
              · rw [List.getLast?_append_of_ne_nil _ begun] at ended
                exact absurd (List.mem_of_getLast? ended) oneLine
              · have nothing : most = [] := by
                  cases most with
                  | nil => rfl
                  | cons symbol most =>
                      rw [alone, List.flatten_cons, List.singleton_append, List.cons_append,
                        List.cons_append, List.cons.injEq] at back
                      refine absurd ?_ (format.oneLine message)
                      rw [← written]
                      exact List.mem_append_right part (back.1 ▸ List.mem_cons_self)
                rw [nothing, List.nil_append] at cut back
                rcases format.read_part message part _ cut begun (List.cons_ne_nil _ _) with
                  ⟨_, one⟩ | ⟨other, _⟩
                · rw [List.flatMap_cons, read_text, one,
                    ih chain.2 _ (.inr ⟨rfl, by rw [alone]; rfl⟩) others back, List.map_append,
                    List.append_assoc]
                  rfl
                · exact absurd rfl other
      · obtain rfl := Option.some.inj first
        rw [List.flatten_cons, List.append_cancel_left_eq] at whole
        rw [List.flatMap_cons, format.read_newline [], List.nil_append]
        exact ih chain.2 [] (.inl rfl) messages whole

/-- The messages are read from the pieces of their text if and only if each cut is behind a
newline, or in front of one that is a piece of its own. -/
theorem read_pieces_iff (messages : List Message) (pieces : List (List Symbol))
    (filled : ∀ piece ∈ pieces, piece ≠ []) (whole : pieces.flatten = format.text messages) :
    pieces.flatMap format.read = messages.map format.value ↔ pieces.IsChain format.Joint := by
  constructor
  · intro same
    have count : format.messageCount (pieces.flatMap format.read) = messages.length := by
      rw [same, messageCount_values]
    exact (format.joints_of_read pieces filled [] (.inl rfl) messages whole count).1
  · intro chain
    exact format.read_of_joints pieces chain [] (.inl rfl) messages whole

end LineFormat

end ScalarLM
