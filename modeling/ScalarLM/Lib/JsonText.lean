import Mathlib.Data.List.TakeDrop
import ScalarLM.Lib.Json

/-! What the JSON decoder makes of written strings and numbers, and of beginnings of them. -/

namespace ScalarLM.Json

open Decimal

section Strings

theorem hexValue_digitChar : ∀ digit, digit < 16 → hexValue (Nat.digitChar digit) = some digit := by
  decide

theorem scanUnits_quote (rest : List Char) : scanUnits ('"' :: rest) = some ([], rest) := by
  rw [scanUnits.eq_def]
  rfl

theorem scanUnits_unicode (a b c d : Char) (unit : Nat) (rest : List Char)
    (reads : hexUnit a b c d = some unit) :
    scanUnits ('\\' :: 'u' :: a :: b :: c :: d :: rest) =
      (scanUnits rest).map fun scanned => (unit :: scanned.1, scanned.2) := by
  rw [scanUnits.eq_def]
  dsimp only
  rw [if_neg (by decide), if_pos rfl]
  simp only [reads]

theorem scanUnits_escaped (escaped : Char) (point : Nat) (rest : List Char)
    (plain : escaped ≠ 'u') (reads : simpleEscape escaped = some point) :
    scanUnits ('\\' :: escaped :: rest) =
      (scanUnits rest).map fun scanned => (point :: scanned.1, scanned.2) := by
  rw [scanUnits.eq_def]
  dsimp only
  rw [if_neg (by decide), if_pos rfl]
  split
  · rename_i same
    exact absurd (List.cons.inj same).1 plain
  · rename_i other after _ same
    obtain ⟨rfl, rfl⟩ := List.cons.inj same
    rw [reads]
  · rename_i same
    cases same

theorem scanUnits_plain (char : Char) (rest : List Char) (quote : char ≠ '"')
    (backslash : char ≠ '\\') (printable : 32 ≤ char.toNat) :
    scanUnits (char :: rest) =
      (scanUnits rest).map fun scanned => (char.toNat :: scanned.1, scanned.2) := by
  rw [scanUnits.eq_def]
  dsimp only
  rw [if_neg quote, if_neg backslash, if_neg (by omega)]

theorem scanUnits_unicodeEscape (unit : Nat) (small : unit < 65536) (rest : List Char) :
    scanUnits (unicodeEscape unit ++ rest) =
      (scanUnits rest).map fun scanned => (unit :: scanned.1, scanned.2) := by
  have digit (place : Nat) : hexValue (Nat.digitChar (place % 16)) = some (place % 16) :=
    hexValue_digitChar _ (Nat.mod_lt _ (by decide))
  have whole : 4096 * (unit / 4096 % 16) + 256 * (unit / 256 % 16) + 16 * (unit / 16 % 16) +
      unit % 16 = unit := by omega
  have read : hexUnit (Nat.digitChar (unit / 4096 % 16)) (Nat.digitChar (unit / 256 % 16))
      (Nat.digitChar (unit / 16 % 16)) (Nat.digitChar (unit % 16)) = some unit := by
    rw [hexUnit, digit, digit, digit, digit]
    exact congrArg some whole
  rw [unicodeEscape, hexDigits]
  simp only [List.cons_append, List.nil_append]
  rw [scanUnits_unicode _ _ _ _ unit rest read]

theorem scalar_range (char : Char) :
    char.toNat < 55296 ∨ (57343 < char.toNat ∧ char.toNat < 1114112) :=
  char.valid

theorem units_small (char : Char) : ∀ unit ∈ units char, unit < 65536 := by
  have scalar := scalar_range char
  intro unit member
  rw [units] at member
  split at member
  · rw [List.mem_singleton.mp member]
    assumption
  · simp only [List.mem_cons, List.not_mem_nil, or_false] at member
    rcases member with same | same <;> omega

theorem scanUnits_unicodeEscapes (codes : List Nat) (small : ∀ unit ∈ codes, unit < 65536)
    (rest : List Char) :
    scanUnits (codes.flatMap unicodeEscape ++ rest) =
      (scanUnits rest).map fun scanned => (codes ++ scanned.1, scanned.2) := by
  induction codes with
  | nil => simp
  | cons unit codes ih =>
      rw [List.forall_mem_cons] at small
      rw [List.flatMap_cons, List.append_assoc, scanUnits_unicodeEscape unit small.1,
        ih small.2, Option.map_map]
      rfl

theorem scanUnits_simple (escaped char : Char) (rest : List Char)
    (reads : simpleEscape escaped = some char.toNat) (plain : escaped ≠ 'u')
    (small : char.toNat < 65536) :
    scanUnits (['\\', escaped] ++ rest) =
      (scanUnits rest).map fun scanned => (units char ++ scanned.1, scanned.2) := by
  rw [units, if_pos small, List.cons_append, List.cons_append, List.nil_append,
    scanUnits_escaped escaped char.toNat rest plain reads]
  rfl

def escapeLetters : List Char := ['"', '\\', 'n', 'r', 't', 'f', 'b']

theorem escape_cases (char : Char) :
    (escape char = [char] ∧ char ≠ '"' ∧ char ≠ '\\' ∧ 32 ≤ char.toNat ∧ char.toNat ≤ 126) ∨
      (∃ letter, escape char = ['\\', letter] ∧ letter ∈ escapeLetters ∧
        simpleEscape letter = some char.toNat ∧ char.toNat < 65536) ∨
      escape char = (units char).flatMap unicodeEscape := by
  have simple (special letter : Char) (same : char = special) (listed : letter ∈ escapeLetters)
      (reads : simpleEscape letter = some special.toNat) (small : special.toNat < 65536) :
      letter ∈ escapeLetters ∧ simpleEscape letter = some char.toNat ∧ char.toNat < 65536 := by
    rw [same]
    exact ⟨listed, reads, small⟩
  obtain ⟨text, written⟩ : ∃ text, text = escape char := ⟨_, rfl⟩
  rw [← written]
  rw [escape] at written
  split at written
  · exact .inr (.inl ⟨_, written, simple '"' '"' ‹_› (by decide) rfl (by decide)⟩)
  split at written
  · exact .inr (.inl ⟨_, written, simple '\\' '\\' ‹_› (by decide) rfl (by decide)⟩)
  split at written
  · exact .inr (.inl ⟨_, written, simple '\n' 'n' ‹_› (by decide) rfl (by decide)⟩)
  split at written
  · exact .inr (.inl ⟨_, written, simple '\r' 'r' ‹_› (by decide) rfl (by decide)⟩)
  split at written
  · exact .inr (.inl ⟨_, written, simple '\t' 't' ‹_› (by decide) rfl (by decide)⟩)
  split at written
  · exact .inr (.inl ⟨_, written, simple '\x0c' 'f' ‹_› (by decide) rfl (by decide)⟩)
  split at written
  · exact .inr (.inl ⟨_, written, simple '\x08' 'b' ‹_› (by decide) rfl (by decide)⟩)
  split at written
  · rename_i quote backslash _ _ _ _ _ printable
    exact .inl ⟨written, quote, backslash, printable⟩
  · exact .inr (.inr written)

theorem scanUnits_escape (char : Char) (rest : List Char) :
    scanUnits (escape char ++ rest) =
      (scanUnits rest).map fun scanned => (units char ++ scanned.1, scanned.2) := by
  rcases escape_cases char with ⟨plain, quote, backslash, above, below⟩ |
    ⟨letter, pair, listed, reads, small⟩ | coded
  · rw [plain, List.singleton_append, scanUnits_plain char rest quote backslash above, units,
      if_pos (by omega)]
    rfl
  · have other : letter ≠ 'u' := by
      intro same
      rw [same] at listed
      exact absurd listed (by decide)
    rw [pair]
    exact scanUnits_simple letter char rest reads other small
  · rw [coded]
    exact scanUnits_unicodeEscapes (units char) (units_small char) rest

theorem scanUnits_escapeAll (text rest : List Char) :
    scanUnits (escapeAll text ++ rest) =
      (scanUnits rest).map fun scanned => (text.flatMap units ++ scanned.1, scanned.2) := by
  induction text with
  | nil => simp [escapeAll]
  | cons char text ih =>
      rw [escapeAll, List.flatMap_cons, List.append_assoc, scanUnits_escape]
      rw [escapeAll] at ih
      rw [ih, Option.map_map, List.flatMap_cons]
      congr 1
      funext scanned
      simp

theorem joinSurrogates_units (char : Char) (rest : List Nat) :
    joinSurrogates (units char ++ rest) = char.toNat :: joinSurrogates rest := by
  have scalar := scalar_range char
  rw [units]
  split
  · rw [List.singleton_append]
    cases rest with
    | nil => rfl
    | cons next rest => rw [joinSurrogates, if_neg (by omega)]
  · have whole : 65536 + (55296 + (char.toNat - 65536) / 1024 - 55296) * 1024 +
        (56320 + (char.toNat - 65536) % 1024 - 56320) = char.toNat := by omega
    rw [List.cons_append, List.cons_append, List.nil_append, joinSurrogates, if_pos (by omega),
      whole]

theorem joinSurrogates_text (text : List Char) :
    joinSurrogates (text.flatMap units) = text.map Char.toNat := by
  induction text with
  | nil => rfl
  | cons char text ih => rw [List.flatMap_cons, joinSurrogates_units, ih, List.map_cons]

theorem scanString_escapeAll (text rest : List Char) :
    scanString (escapeAll text ++ '"' :: rest) = some (text.map Char.toNat, rest) := by
  rw [scanString, scanUnits_escapeAll, scanUnits_quote, Option.map_some, Option.map_some,
    List.append_nil, joinSurrogates_text]

theorem prefix_append_cases {α : Type} {front first second : List α}
    (begins : front <+: first ++ second) :
    (front <+: first ∧ front ≠ first) ∨ ∃ rest, front = first ++ rest ∧ rest <+: second := by
  obtain ⟨back, whole⟩ := begins
  rcases List.append_eq_append_iff.mp whole with ⟨missing, left, _⟩ | ⟨rest, left, right⟩
  · by_cases complete : missing = []
    · refine .inr ⟨[], ?_, List.nil_prefix⟩
      rw [left, complete, List.append_nil, List.append_nil]
    · refine .inl ⟨⟨missing, left.symm⟩, ?_⟩
      intro same
      rw [same] at left
      exact complete (List.append_right_eq_self.mp left.symm)
  · exact .inr ⟨rest, left, back, right.symm⟩

theorem scanUnits_unicodeEscape_broken (unit : Nat) (front : List Char)
    (begins : front <+: unicodeEscape unit) (proper : front ≠ unicodeEscape unit) :
    scanUnits front = none := by
  rw [unicodeEscape, hexDigits] at begins proper
  simp only [List.prefix_cons_iff, List.prefix_nil] at begins
  rcases begins with rfl | ⟨_, rfl, rfl | ⟨_, rfl, rfl | ⟨_, rfl, rfl | ⟨_, rfl, rfl |
    ⟨_, rfl, rfl | ⟨_, rfl, rfl⟩⟩⟩⟩⟩⟩
  · rfl
  · rfl
  · rfl
  · rfl
  · rfl
  · rfl
  · exact absurd rfl proper

theorem scanUnits_unicodeEscapes_broken (codes : List Nat)
    (small : ∀ unit ∈ codes, unit < 65536) (front : List Char)
    (begins : front <+: codes.flatMap unicodeEscape)
    (proper : front ≠ codes.flatMap unicodeEscape) : scanUnits front = none := by
  induction codes generalizing front with
  | nil => exact absurd (List.prefix_nil.mp begins) proper
  | cons unit codes ih =>
      rw [List.forall_mem_cons] at small
      rw [List.flatMap_cons] at begins proper
      rcases prefix_append_cases begins with ⟨inside, short⟩ | ⟨rest, rfl, after⟩
      · exact scanUnits_unicodeEscape_broken unit front inside short
      · have still : rest ≠ codes.flatMap unicodeEscape := fun same => proper (by rw [same])
        rw [scanUnits_unicodeEscape unit small.1, ih small.2 rest after still, Option.map_none]

theorem scanUnits_escape_broken (char : Char) (front : List Char) (begins : front <+: escape char)
    (proper : front ≠ escape char) : scanUnits front = none := by
  rcases escape_cases char with ⟨plain, _⟩ | ⟨letter, pair, _⟩ | coded
  · rw [plain] at begins proper
    rcases List.prefix_cons_iff.mp begins with rfl | ⟨rest, rfl, last⟩
    · rfl
    · rw [List.prefix_nil.mp last] at proper
      exact absurd rfl proper
  · rw [pair] at begins proper
    simp only [List.prefix_cons_iff, List.prefix_nil] at begins
    rcases begins with rfl | ⟨_, rfl, rfl | ⟨_, rfl, rfl⟩⟩
    · rfl
    · rfl
    · exact absurd rfl proper
  · rw [coded] at begins proper
    exact scanUnits_unicodeEscapes_broken (units char) (units_small char) front begins proper

theorem scanUnits_escapeAll_broken (text front : List Char) (begins : front <+: escapeAll text) :
    scanUnits front = none := by
  induction text generalizing front with
  | nil =>
      rw [List.prefix_nil.mp begins]
      rfl
  | cons char text ih =>
      rw [escapeAll, List.flatMap_cons] at begins
      rcases prefix_append_cases begins with ⟨inside, proper⟩ | ⟨rest, rfl, after⟩
      · exact scanUnits_escape_broken char front inside proper
      · rw [scanUnits_escape, ih rest after, Option.map_none]

theorem scanString_broken (text front : List Char) (begins : front <+: escapeAll text) :
    scanString front = none := by
  rw [scanString, scanUnits_escapeAll_broken text front begins, Option.map_none]

theorem unicodeEscape_chars (unit : Nat) : ∀ char ∈ unicodeEscape unit,
    char = '\\' ∨ char = 'u' ∨ ∃ digit < 16, char = Nat.digitChar digit := by
  intro char member
  rw [unicodeEscape, hexDigits] at member
  have small (place : Nat) : place % 16 < 16 := Nat.mod_lt _ (by decide)
  simp only [List.mem_cons, List.not_mem_nil, or_false] at member
  rcases member with rfl | rfl | rfl | rfl | rfl | rfl
  · exact .inl rfl
  · exact .inr (.inl rfl)
  · exact .inr (.inr ⟨_, small _, rfl⟩)
  · exact .inr (.inr ⟨_, small _, rfl⟩)
  · exact .inr (.inr ⟨_, small _, rfl⟩)
  · exact .inr (.inr ⟨_, small _, rfl⟩)

theorem escape_forall (holds : Char → Prop) (backslash : holds '\\') (mark : holds 'u')
    (letters : ∀ letter ∈ escapeLetters, holds letter)
    (digits : ∀ digit < 16, holds (Nat.digitChar digit)) (char : Char)
    (plain : escape char = [char] → 32 ≤ char.toNat → char.toNat ≤ 126 → holds char) :
    ∀ written ∈ escape char, holds written := by
  intro written member
  rcases escape_cases char with ⟨same, _, _, above, below⟩ | ⟨letter, pair, known, _⟩ | coded
  · rw [same, List.mem_singleton] at member
    rw [member]
    exact plain same above below
  · rw [pair] at member
    simp only [List.mem_cons, List.not_mem_nil, or_false] at member
    rcases member with rfl | rfl
    · exact backslash
    · exact letters _ known
  · rw [coded, List.mem_flatMap] at member
    obtain ⟨unit, _, inside⟩ := member
    rcases unicodeEscape_chars unit written inside with rfl | rfl | ⟨digit, small, rfl⟩
    · exact backslash
    · exact mark
    · exact digits digit small

theorem escapeAll_printable (text : List Char) :
    ∀ char ∈ escapeAll text, 32 ≤ char.toNat ∧ char.toNat ≤ 126 := by
  intro char member
  obtain ⟨source, _, inside⟩ := List.mem_flatMap.mp member
  exact escape_forall (fun char => 32 ≤ char.toNat ∧ char.toNat ≤ 126) (by decide) (by decide)
    (by simp [escapeLetters]) (by decide) source (fun _ above below => ⟨above, below⟩) char inside

theorem brace_escape (char : Char) (member : '{' ∈ escape char) : escape char = ['{'] := by
  by_contra other
  refine escape_forall (fun written => written ≠ '{') (by decide) (by decide)
    (by simp [escapeLetters]) (by decide) char ?_ '{' member rfl
  intro plain _ _ same
  rw [same] at plain
  rw [same] at other
  exact other plain

theorem escapeAll_brace (text front back : List Char)
    (split : escapeAll text = front ++ '{' :: back) :
    ∃ after, back = escapeAll after := by
  induction text generalizing front with
  | nil =>
      rw [escapeAll, List.flatMap_nil] at split
      exact absurd split.symm (by simp)
  | cons char text ih =>
      rw [escapeAll, List.flatMap_cons] at split
      rcases List.append_eq_append_iff.mp split with ⟨middle, _, later⟩ | ⟨middle, first, later⟩
      · exact ih middle later
      · cases middle with
        | nil =>
            rw [List.nil_append] at later
            exact ih [] later.symm
        | cons head middle =>
            rw [List.cons_append, List.cons.injEq] at later
            obtain ⟨rfl, rest⟩ := later
            have alone := brace_escape char (by rw [first]; simp)
            rw [alone] at first
            have empty : middle = [] := by
              have length := congrArg List.length first
              rw [List.length_append, List.length_singleton, List.length_cons] at length
              exact List.eq_nil_of_length_eq_zero (by omega)
            rw [empty, List.nil_append] at rest
            exact ⟨text, rest⟩

theorem escape_head (char : Char) :
    escape char = [' '] ∨
      ∃ first rest, escape char = first :: rest ∧ isSpace first = false ∧ first ≠ '"' := by
  rcases escape_cases char with ⟨plain, quote, _, above, _⟩ | ⟨letter, pair, _⟩ | coded
  · by_cases space : char = ' '
    · rw [space] at plain
      exact .inl (space ▸ plain)
    · refine .inr ⟨char, [], plain, ?_, quote⟩
      have apart (other : Char) (low : other.toNat < 32) : (char == other) = false := by
        rw [beq_eq_false_iff_ne]
        intro same
        rw [same] at above
        omega
      rw [isSpace, beq_eq_false_iff_ne.mpr space, apart '\t' (by decide), apart '\n' (by decide),
        apart '\r' (by decide)]
      rfl
  · exact .inr ⟨_, _, pair, by decide, by decide⟩
  · refine .inr ⟨'\\', (escape char).drop 1, ?_, by decide, by decide⟩
    rw [coded, units]
    split <;> rfl

theorem skipSpaces_cons (first : Char) (rest : List Char) (visible : isSpace first = false) :
    skipSpaces (first :: rest) = first :: rest := by
  rw [skipSpaces, List.dropWhile_cons_of_neg (by rw [visible]; decide)]

theorem quote_after_spaces (text tail front after : List Char)
    (begins : front <+: escapeAll text ++ '"' :: tail)
    (quote : skipSpaces front = '"' :: after) : after <+: tail := by
  induction text generalizing front with
  | nil =>
      rw [escapeAll, List.flatMap_nil, List.nil_append] at begins
      rcases List.prefix_cons_iff.mp begins with rfl | ⟨rest, rfl, inside⟩
      · cases quote
      · rw [skipSpaces_cons _ _ (by decide)] at quote
        obtain ⟨_, rfl⟩ := List.cons.inj quote
        exact inside
  | cons char text ih =>
      rw [escapeAll, List.flatMap_cons, List.append_assoc] at begins
      rcases escape_head char with space | ⟨first, rest, written, visible, other⟩
      · rw [space, List.singleton_append] at begins
        rcases List.prefix_cons_iff.mp begins with rfl | ⟨later, rfl, inside⟩
        · cases quote
        · exact ih later inside quote
      · rw [written, List.cons_append] at begins
        rcases List.prefix_cons_iff.mp begins with rfl | ⟨later, rfl, _⟩
        · cases quote
        · rw [skipSpaces_cons _ _ visible] at quote
          exact absurd (List.cons.inj quote).1 other

end Strings

section Numbers

theorem toDigits_head (number : Nat) :
    Nat.toDigits 10 number = ['0'] ∨
      ∃ first rest, Nat.toDigits 10 number = first :: rest ∧ first ≠ '0' := by
  induction number using Nat.strongRecOn with
  | ind number ih =>
      by_cases small : number < 10
      · rw [Nat.toDigits_of_lt_base small]
        by_cases zero : number = 0
        · rw [zero]
          exact .inl rfl
        · refine .inr ⟨_, [], rfl, ?_⟩
          have nonzero : ∀ digit < 10, digit ≠ 0 → Nat.digitChar digit ≠ '0' := by decide
          exact nonzero number small zero
      · rw [Nat.toDigits_of_base_le (by decide) (by omega)]
        rcases ih (number / 10) (by omega) with alone | ⟨first, rest, written, nonzero⟩
        · have back := Nat.ofDigitChars_ten_toDigits (n := number / 10)
          rw [alone] at back
          have low : number / 10 = 0 := back.symm
          omega
        · rw [written]
          exact .inr ⟨first, _, rfl, nonzero⟩

inductive Ends : List Char → Prop where
  | text : Ends []
  | object (rest : List Char) : Ends ('}' :: rest)
  | member (rest : List Char) : Ends (',' :: rest)

theorem takeDigits_append (digits rest : List Char)
    (isDigits : ∀ char ∈ digits, char.isDigit = true)
    (ends : Ends rest) : takeDigits (digits ++ rest) = (digits, rest) := by
  have stops : rest.takeWhile Char.isDigit = [] ∧ rest.dropWhile Char.isDigit = rest := by
    cases ends <;> exact ⟨rfl, rfl⟩
  rw [takeDigits, List.span_eq_takeWhile_dropWhile, List.takeWhile_append_of_pos isDigits,
    List.dropWhile_append_of_pos isDigits, stops.1, stops.2, List.append_nil]

theorem parseNumber_digits (number : Nat) (front rest : List Char)
    (begins : front <+: Nat.toDigits 10 number) (filled : front ≠ [])
    (ends : Ends rest) :
    parseNumber (front ++ rest) = some (.int (Nat.ofDigitChars 10 front 0), rest) := by
  have isDigits : ∀ char ∈ front, char.isDigit = true := fun char member =>
    isDigit_toDigits number char (begins.subset member)
  obtain ⟨first, more, rfl⟩ := List.exists_cons_of_ne_nil filled
  have digit : first.isDigit = true := isDigits first List.mem_cons_self
  have integer : integerPart (first :: more ++ rest) = some (first :: more, rest) := by
    rcases toDigits_head number with zero | ⟨head, tail, written, nonzero⟩
    · rw [zero] at begins
      rcases List.prefix_cons_iff.mp begins with absent | ⟨_, same, last⟩
      · cases absent
      · obtain ⟨rfl, rfl⟩ := List.cons.inj same
        rw [List.prefix_nil.mp last]
        rfl
    · rw [written] at begins
      rcases List.prefix_cons_iff.mp begins with absent | ⟨_, same, _⟩
      · cases absent
      · obtain ⟨rfl, rfl⟩ := List.cons.inj same
        rw [List.cons_append, integerPart]
        · rw [← List.cons_append, takeDigits_append _ _ isDigits ends]
        · intro other again
          exact nonzero (List.cons.inj again).1
  have fraction : fractionPart rest = ([], rest) := by
    cases ends <;> rfl
  have exponent : exponentPart rest = ([], rest) := by
    cases ends <;> rfl
  have sign : readInt (first :: more) =
      some ((Nat.ofDigitChars 10 (first :: more) 0 : Nat) : Int) := by
    rw [readInt_of_digits _ isDigits, readNat_of_digits _ filled isDigits]
    rfl
  have unsigned : first ≠ '-' := by
    intro same
    rw [same] at digit
    cases digit
  rw [List.cons_append, parseNumber]
  · dsimp only
    rw [← List.cons_append, integer]
    dsimp only
    rw [fraction]
    dsimp only
    rw [exponent, if_pos ⟨rfl, rfl⟩, List.nil_append, sign]
    rfl
  · intro other again
    exact unsigned (List.cons.inj again).1

theorem parseAtom_digit (first : Char) (rest : List Char) (digit : first.isDigit = true) :
    parseAtom (first :: rest) = parseNumber (first :: rest) := by
  rw [parseAtom]
  all_goals
    intro other same
    rw [(List.cons.inj same).1] at digit
    cases digit

theorem parseValue_digit (fuel : Nat) (first : Char) (rest : List Char)
    (digit : first.isDigit = true) :
    parseValue (fuel + 1) (first :: rest) = parseNumber (first :: rest) := by
  rw [← parseAtom_digit first rest digit, parseValue.eq_def]
  dsimp only
  split <;> first
    | rfl
    | (rename_i same
       rw [(List.cons.inj same).1] at digit
       cases digit)

end Numbers

section Members

theorem parseValue_nil (fuel : Nat) : parseValue fuel [] = none := by
  cases fuel <;> rfl

theorem parseValue_quote (fuel : Nat) (rest : List Char) :
    parseValue (fuel + 1) ('"' :: rest) =
      (scanString rest).map fun scanned => (.string scanned.1, scanned.2) := by
  rw [parseValue]

theorem write_head (entry : Entry) :
    ∃ first rest, entry.write = first :: rest ∧ isSpace first = false := by
  cases entry with
  | text content => exact ⟨_, _, rfl, by decide⟩
  | number amount =>
      obtain ⟨first, rest, written⟩ :=
        List.exists_cons_of_ne_nil (Nat.toDigits_ne_nil (n := amount) (b := 10))
      refine ⟨first, rest, written, ?_⟩
      have digit := isDigit_toDigits amount first (by rw [written]; exact List.mem_cons_self)
      cases space : isSpace first with
      | false => rfl
      | true =>
          simp only [isSpace, Bool.or_eq_true, beq_iff_eq] at space
          rcases space with ((same | same) | same) | same <;> rw [same] at digit <;> cases digit

theorem skipSpaces_front (entry : Entry) (front : List Char) (begins : front <+: entry.write)
    (after : List Char) (filled : front ≠ []) :
    skipSpaces (front ++ after) = front ++ after := by
  obtain ⟨first, rest, written, visible⟩ := write_head entry
  rw [written] at begins
  rcases List.prefix_cons_iff.mp begins with empty | ⟨more, rfl, _⟩
  · exact absurd empty filled
  · exact skipSpaces_cons _ _ visible

theorem write_filled (entry : Entry) : entry.write ≠ [] := by
  obtain ⟨first, rest, written, _⟩ := write_head entry
  rw [written]
  exact List.cons_ne_nil _ _

theorem parseValue_write (fuel : Nat) (entry : Entry) (after : List Char) (ends : Ends after) :
    parseValue (fuel + 1) (entry.write ++ after) = some (entry.value, after) := by
  cases entry with
  | text content =>
      rw [Entry.write, List.cons_append, parseValue_quote, List.append_assoc,
        List.singleton_append, scanString_escapeAll]
      rfl
  | number amount =>
      obtain ⟨first, rest, written⟩ :=
        List.exists_cons_of_ne_nil (Nat.toDigits_ne_nil (n := amount) (b := 10))
      have digit := isDigit_toDigits amount first (by rw [written]; exact List.mem_cons_self)
      have whole := parseNumber_digits amount _ after (List.prefix_refl _) Nat.toDigits_ne_nil ends
      rw [Nat.ofDigitChars_ten_toDigits, written, List.cons_append] at whole
      rw [Entry.write, written, List.cons_append, parseValue_digit fuel first _ digit, whole]
      rfl

theorem parseValue_front (fuel : Nat) (entry : Entry) (front : List Char)
    (begins : front <+: entry.write) (value : Value) (rest : List Char)
    (decoded : parseValue fuel front = some (value, rest)) : rest = [] := by
  cases fuel with
  | zero => cases decoded
  | succ fuel =>
      by_cases empty : front = []
      · rw [empty, parseValue_nil] at decoded
        cases decoded
      · cases entry with
        | text content =>
            rw [Entry.write] at begins
            rcases List.prefix_cons_iff.mp begins with absent | ⟨inside, rfl, within⟩
            · exact absurd absent empty
            · rw [parseValue_quote] at decoded
              rcases prefix_append_cases within with ⟨short, _⟩ | ⟨last, rfl, closing⟩
              · rw [scanString_broken content inside short] at decoded
                cases decoded
              · rcases List.prefix_cons_iff.mp closing with rfl | ⟨nothing, rfl, none⟩
                · rw [List.append_nil, scanString_broken content _ (List.prefix_refl _)]
                    at decoded
                  cases decoded
                · rw [scanString_escapeAll, List.prefix_nil.mp none] at decoded
                  exact (Prod.mk.inj (Option.some.inj decoded)).2.symm
        | number amount =>
            obtain ⟨first, more, rfl⟩ := List.exists_cons_of_ne_nil empty
            have digit := isDigit_toDigits amount first (begins.subset List.mem_cons_self)
            have whole := parseNumber_digits amount _ [] begins empty .text
            rw [List.append_nil] at whole
            rw [parseValue_digit fuel first more digit, whole] at decoded
            exact (Prod.mk.inj (Option.some.inj decoded)).2.symm

theorem keyEnd_colon (entry : Entry) (front after : List Char) (begins : front <+: entry.write)
    (filled : front ≠ []) :
    keyEnd (':' :: ' ' :: (front ++ after)) = some (front ++ after) := by
  have space : skipSpaces (' ' :: (front ++ after)) = skipSpaces (front ++ after) := rfl
  have colon : keyEnd (':' :: ' ' :: (front ++ after)) =
      some (skipSpaces (' ' :: (front ++ after))) := rfl
  rw [colon, space, skipSpaces_front entry front begins after filled]

theorem parseMembers_member (fuel : Nat) (members : List (List Nat × Value))
    (member : List Char × Entry) (after : List Char) (ends : Ends after) (closed : Bool)
    (rest : List Char) (goes : memberEnd after = some (closed, rest)) :
    parseMembers (fuel + 2) members
        (escapeAll member.1 ++ '"' :: ':' :: ' ' :: (member.2.write ++ after)) =
      if closed then some (.object (setEntry members member), rest)
      else parseMembers (fuel + 1) (setEntry members member) rest := by
  rw [parseMembers, scanString_escapeAll]
  dsimp only
  rw [keyEnd_colon member.2 _ after (List.prefix_refl _) (write_filled _)]
  dsimp only
  rw [parseValue_write fuel member.2 after ends]
  dsimp only
  rw [goes]
  cases closed <;> rfl

theorem parseMembers_write (fuel : Nat) (members : List (List Nat × Value))
    (member : List Char × Entry) (rest : List (List Char × Entry)) (after : List Char)
    (enough : rest.length + 2 ≤ fuel) :
    parseMembers fuel members (writeMembers member rest ++ after) =
      some (.object ((member :: rest).foldl setEntry members), after) := by
  obtain ⟨fuel, rfl⟩ : ∃ less, fuel = less + 2 := ⟨fuel - 2, by omega⟩
  induction rest generalizing fuel members member with
  | nil =>
      rw [writeMembers, List.append_assoc, List.cons_append, List.cons_append, List.cons_append,
        List.append_assoc, List.singleton_append,
        parseMembers_member fuel members member _ (.object after) true after rfl]
      rfl
  | cons next rest ih =>
      rw [List.length_cons] at enough
      obtain ⟨fuel, rfl⟩ : ∃ less, fuel = less + 1 := ⟨fuel - 1, by omega⟩
      rw [writeMembers, List.append_assoc, List.cons_append, List.cons_append, List.cons_append,
        List.append_assoc, List.cons_append, List.cons_append, List.cons_append,
        parseMembers_member (fuel + 1) members member _ (.member _) false
          (writeMembers next rest ++ after) rfl]
      rw [if_neg (by decide), ih (setEntry members member) next fuel (by omega)]
      rfl

theorem parseMembers_cut_value (fuel : Nat) (members : List (List Nat × Value))
    (member : List Char × Entry) (front : List Char) (begins : front <+: member.2.write) :
    parseMembers fuel members (escapeAll member.1 ++ '"' :: ':' :: ' ' :: front) = none := by
  cases fuel with
  | zero => rfl
  | succ fuel =>
      rw [parseMembers, scanString_escapeAll]
      dsimp only
      by_cases empty : front = []
      · have colon : keyEnd (':' :: ' ' :: front) = some [] := by
          rw [empty]
          rfl
        rw [colon]
        dsimp only
        rw [parseValue_nil]
      · have colon := keyEnd_colon member.2 front [] begins empty
        rw [List.append_nil] at colon
        rw [colon]
        dsimp only
        cases decoded : parseValue fuel front with
        | none => rfl
        | some result =>
            have done := parseValue_front fuel member.2 front begins result.1 result.2 decoded
            dsimp only
            rw [done]
            rfl

theorem parseMembers_cut_key (fuel : Nat) (members : List (List Nat × Value))
    (key front : List Char) (begins : front <+: escapeAll key) :
    parseMembers fuel members front = none := by
  cases fuel with
  | zero => rfl
  | succ fuel => rw [parseMembers, scanString_broken key front begins]

theorem parseMembers_cut_colon (fuel : Nat) (members : List (List Nat × Value))
    (key front : List Char) (cut : front = [] ∨ front = [':']) :
    parseMembers fuel members (escapeAll key ++ '"' :: front) = none := by
  cases fuel with
  | zero => rfl
  | succ fuel =>
      rw [parseMembers, scanString_escapeAll]
      dsimp only
      rcases cut with rfl | rfl
      · rfl
      · have colon : keyEnd [':'] = some [] := rfl
        rw [colon]
        dsimp only
        rw [parseValue_nil]

theorem parseMembers_cut (fuel : Nat) (members : List (List Nat × Value))
    (member : List Char × Entry) (tail front : List Char)
    (begins : front <+: escapeAll member.1 ++ '"' :: ':' :: ' ' :: (member.2.write ++ tail)) :
    parseMembers fuel members front = none ∨
      ∃ first rest, front =
          escapeAll member.1 ++ '"' :: ':' :: ' ' :: (member.2.write ++ first :: rest) ∧
        first :: rest <+: tail := by
  rcases prefix_append_cases begins with ⟨inKey, _⟩ | ⟨quoted, rfl, atQuote⟩
  · exact .inl (parseMembers_cut_key fuel members member.1 front inKey)
  rcases List.prefix_cons_iff.mp atQuote with rfl | ⟨named, rfl, atColon⟩
  · rw [List.append_nil]
    exact .inl (parseMembers_cut_key fuel members member.1 _ (List.prefix_refl _))
  rcases List.prefix_cons_iff.mp atColon with rfl | ⟨spaced, rfl, atSpace⟩
  · exact .inl (parseMembers_cut_colon fuel members member.1 [] (.inl rfl))
  rcases List.prefix_cons_iff.mp atSpace with rfl | ⟨given, rfl, atValue⟩
  · exact .inl (parseMembers_cut_colon fuel members member.1 [':'] (.inr rfl))
  rcases prefix_append_cases atValue with ⟨inValue, _⟩ | ⟨behind, rfl, after⟩
  · exact .inl (parseMembers_cut_value fuel members member given inValue)
  cases behind with
  | nil =>
      rw [List.append_nil]
      exact .inl (parseMembers_cut_value fuel members member _ (List.prefix_refl _))
  | cons first rest => exact .inr ⟨first, rest, rfl, after⟩

theorem parseMembers_cut_comma (fuel : Nat) (members : List (List Nat × Value))
    (member : List Char × Entry) (rest : List Char) (cut : rest = [] ∨ rest = [' ']) :
    parseMembers fuel members
      (escapeAll member.1 ++ '"' :: ':' :: ' ' :: (member.2.write ++ ',' :: rest)) = none := by
  cases fuel with
  | zero => rfl
  | succ fuel =>
      rw [parseMembers, scanString_escapeAll]
      dsimp only
      rw [keyEnd_colon member.2 _ (',' :: rest) (List.prefix_refl _) (write_filled _)]
      dsimp only
      cases fuel with
      | zero => rfl
      | succ fuel =>
          rw [parseValue_write fuel member.2 _ (.member rest)]
          rcases cut with rfl | rfl <;> rfl

theorem parseMembers_broken (fuel : Nat) (members : List (List Nat × Value))
    (member : List Char × Entry) (rest : List (List Char × Entry)) (front : List Char)
    (begins : front <+: writeMembers member rest) (proper : front ≠ writeMembers member rest) :
    parseMembers fuel members front = none := by
  induction rest generalizing fuel members member front with
  | nil =>
      rw [writeMembers] at begins proper
      rcases parseMembers_cut fuel members member _ front begins with cut | ⟨first, rest, rfl, ends⟩
      · exact cut
      · rcases List.prefix_cons_iff.mp ends with absent | ⟨_, same, last⟩
        · cases absent
        · obtain ⟨rfl, rfl⟩ := List.cons.inj same
          rw [List.prefix_nil.mp last] at proper
          exact absurd rfl proper
  | cons next rest ih =>
      rw [writeMembers] at begins proper
      rcases parseMembers_cut fuel members member _ front begins with cut | ⟨first, more, rfl, goes⟩
      · exact cut
      rcases List.prefix_cons_iff.mp goes with absent | ⟨spaced, same, atSpace⟩
      · cases absent
      obtain ⟨rfl, rfl⟩ := List.cons.inj same
      rcases List.prefix_cons_iff.mp atSpace with rfl | ⟨quoted, rfl, atQuote⟩
      · exact parseMembers_cut_comma fuel members member [] (.inl rfl)
      rcases List.prefix_cons_iff.mp atQuote with rfl | ⟨behind, rfl, later⟩
      · exact parseMembers_cut_comma fuel members member [' '] (.inr rfl)
      have still : behind ≠ writeMembers next rest := fun whole => proper (by rw [whole])
      rcases fuel with _ | _ | fuel
      · rfl
      · rw [parseMembers, scanString_escapeAll]
        dsimp only
        rw [keyEnd_colon member.2 _ _ (List.prefix_refl _) (write_filled _)]
        rfl
      · rw [parseMembers_member fuel members member _ (.member _) false behind rfl,
          if_neg (by decide)]
        exact ih (fuel + 1) (setEntry members member) next behind later still

end Members

section Texts

theorem loads_braced (rest : List Char) :
    loads ('{' :: '"' :: rest) =
      (parseMembers (rest.length + 2) [] rest).bind fun decoded =>
        if skipSpaces decoded.2 = [] then some decoded.1 else none := by
  have spaces : skipSpaces ('{' :: '"' :: rest) = '{' :: '"' :: rest := rfl
  have starts : objectStart ('"' :: rest) = some (false, rest) := rfl
  rw [loads, spaces, List.length_cons, List.length_cons, parseValue, starts]
  dsimp only
  cases parseMembers (rest.length + 2) [] rest <;> rfl

theorem rest_length (member : List Char × Entry) (rest : List (List Char × Entry)) :
    rest.length < (writeMembers member rest).length := by
  induction rest generalizing member with
  | nil =>
      simp only [writeMembers, List.length_append, List.length_cons, List.length_nil]
      omega
  | cons next rest ih =>
      have shorter := ih next
      simp only [writeMembers, List.length_append, List.length_cons]
      omega

/-- A dictionary that was written is decoded, with white space behind it or without. -/
theorem loads_dumps (member : List Char × Entry) (rest : List (List Char × Entry))
    (after : List Char) (spaces : skipSpaces after = []) :
    loads (dumps (member :: rest) ++ after) =
      some (.object ((member :: rest).foldl setEntry [])) := by
  have enough := rest_length member rest
  rw [dumps, List.cons_append, List.cons_append, loads_braced, parseMembers_write _ [] member rest
    after (by rw [List.length_append]; omega), Option.bind_some, if_pos spaces]

/-- No dictionary that was broken off is decoded. -/
theorem loads_broken (member : List Char × Entry) (rest : List (List Char × Entry))
    (front : List Char) (begins : front <+: dumps (member :: rest))
    (proper : front ≠ dumps (member :: rest)) : loads front = none := by
  rw [dumps] at begins proper
  rcases List.prefix_cons_iff.mp begins with rfl | ⟨opened, rfl, atQuote⟩
  · rfl
  rcases List.prefix_cons_iff.mp atQuote with rfl | ⟨within, rfl, inside⟩
  · rfl
  · rw [loads_braced, parseMembers_broken _ [] member rest within inside
      (fun same => proper (by rw [same])), Option.bind_none]

theorem parseNumber_object (text rest : List Char) (members : List (List Nat × Value)) :
    parseNumber text ≠ some (.object members, rest) := by
  intro decoded
  rw [parseNumber.eq_def] at decoded
  dsimp only at decoded
  split at decoded
  · cases decoded
  · split at decoded
    · rw [Option.map_eq_some_iff] at decoded
      obtain ⟨number, _, same⟩ := decoded
      cases same
    · cases decoded

theorem parseAtom_object (text rest : List Char) (members : List (List Nat × Value)) :
    parseAtom text ≠ some (.object members, rest) := by
  intro decoded
  rw [parseAtom.eq_def] at decoded
  split at decoded
  case h_7 => exact parseNumber_object _ _ _ decoded
  all_goals cases decoded

theorem parseElements_object (fuel : Nat) (elements : List Value) (text rest : List Char)
    (members : List (List Nat × Value)) :
    parseElements fuel elements text ≠ some (.object members, rest) := by
  induction fuel generalizing elements text with
  | zero =>
      intro decoded
      cases decoded
  | succ fuel ih =>
      intro decoded
      rw [parseElements] at decoded
      split at decoded
      · cases decoded
      · split at decoded
        · cases decoded
        · exact ih _ _ decoded
        · cases decoded

theorem objectStart_key (text rest : List Char) (starts : objectStart text = some (false, rest)) :
    skipSpaces text = '"' :: rest := by
  rw [objectStart] at starts
  split at starts
  · cases starts
  · rename_i keyed quote
    cases starts
    exact quote
  · cases starts

/-- A text that is decoded to an object with members begins with a brace and a key. -/
theorem loads_object (text : List Char) (member : List Nat × Value)
    (members : List (List Nat × Value))
    (decoded : loads text = some (.object (member :: members))) :
    ∃ opened keyed, skipSpaces text = '{' :: opened ∧ skipSpaces opened = '"' :: keyed ∧
      ∃ fuel, parseMembers fuel [] keyed ≠ none := by
  rw [loads] at decoded
  split at decoded
  · cases decoded
  · rename_i value rest parsed
    split at decoded
    · rw [Option.some.inj decoded, parseValue.eq_def] at parsed
      dsimp only at parsed
      split at parsed
      · rw [Option.map_eq_some_iff] at parsed
        obtain ⟨_, _, same⟩ := parsed
        cases same
      · rename_i opened brace
        split at parsed
        · cases parsed
        · cases parsed
        · rename_i keyed starts
          refine ⟨opened, keyed, brace, objectStart_key opened keyed starts, text.length, ?_⟩
          rw [parsed]
          exact Option.some_ne_none _
      · split at parsed
        · cases parsed
        · exact absurd parsed (parseElements_object _ _ _ _ _)
      · exact absurd parsed (parseAtom_object _ _ _)
    · cases decoded

end Texts

section Printing

def Printable (char : Char) : Prop := 32 ≤ char.toNat ∧ char.toNat ≤ 126

theorem toDigits_printable (number : Nat) : ∀ char ∈ Nat.toDigits 10 number, Printable char := by
  intro char member
  have range := Char.isDigit_iff_toNat.mp (isDigit_toDigits number char member)
  have low : '0'.toNat = 48 := rfl
  have high : '9'.toNat = 57 := rfl
  exact ⟨by omega, by omega⟩

theorem write_printable (entry : Entry) : ∀ char ∈ entry.write, Printable char := by
  cases entry with
  | text content =>
      rw [Entry.write]
      simp only [List.forall_mem_cons, List.forall_mem_append]
      exact ⟨⟨by decide, by decide⟩, escapeAll_printable content, ⟨by decide, by decide⟩,
        List.forall_mem_nil _⟩
  | number amount => exact toDigits_printable amount

theorem writeMembers_printable (member : List Char × Entry) (rest : List (List Char × Entry)) :
    ∀ char ∈ writeMembers member rest, Printable char := by
  induction rest generalizing member with
  | nil =>
      rw [writeMembers]
      simp only [List.forall_mem_cons, List.forall_mem_append]
      exact ⟨escapeAll_printable member.1, ⟨by decide, by decide⟩, ⟨by decide, by decide⟩,
        ⟨by decide, by decide⟩, write_printable member.2, ⟨by decide, by decide⟩,
        List.forall_mem_nil _⟩
  | cons next rest ih =>
      rw [writeMembers]
      simp only [List.forall_mem_cons, List.forall_mem_append]
      exact ⟨escapeAll_printable member.1, ⟨by decide, by decide⟩, ⟨by decide, by decide⟩,
        ⟨by decide, by decide⟩, write_printable member.2, ⟨by decide, by decide⟩,
        ⟨by decide, by decide⟩, ⟨by decide, by decide⟩, ih next⟩

theorem dumps_printable (members : List (List Char × Entry)) :
    ∀ char ∈ dumps members, Printable char := by
  cases members with
  | nil =>
      rw [dumps]
      simp only [List.forall_mem_cons]
      exact ⟨⟨by decide, by decide⟩, ⟨by decide, by decide⟩, List.forall_mem_nil _⟩
  | cons member rest =>
      rw [dumps]
      simp only [List.forall_mem_cons]
      exact ⟨⟨by decide, by decide⟩, ⟨by decide, by decide⟩, writeMembers_printable member rest⟩

end Printing

end ScalarLM.Json
