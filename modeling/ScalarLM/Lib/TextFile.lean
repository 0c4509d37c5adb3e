import ScalarLM.Lib.LineFormat

/-! Text files that are read line by line while they grow. -/

namespace ScalarLM

/-- A file that is opened as a text: each form of a newline is read as one. The flag tells that
the character before was a carriage return. -/
def universalNewlines : Bool → List Char → List Char
  | _, [] => []
  | afterReturn, char :: rest =>
      if char = '\n' ∧ afterReturn = true then universalNewlines false rest
      else if char = '\r' then '\n' :: universalNewlines true rest
      else char :: universalNewlines false rest

def textLines (text : List Char) : List (List Char) := linesOf '\n' (universalNewlines false text)

/-- One call of `readline` of a file that is opened as a text, up to where the file ends now: the
line, and what is behind it. -/
def readline : List Char → List Char × List Char
  | [] => ([], [])
  | char :: rest =>
      if char = '\n' then (['\n'], rest)
      else if char = '\r' then (['\n'], if rest.head? = some '\n' then rest.tail else rest)
      else (char :: (readline rest).1, (readline rest).2)

/-- What was read of a file ends with a line of it, whatever stands behind. -/
def WholeLines (front back : List Char) : Prop :=
  front = [] ∨ front.getLast? = some '\n' ∨
    (front.getLast? = some '\r' ∧ back.head? ≠ some '\n')

instance (front back : List Char) : Decidable (WholeLines front back) :=
  inferInstanceAs (Decidable (_ ∨ _ ∨ _))

theorem return_not_mem_universalNewlines (afterReturn : Bool) (text : List Char) :
    '\r' ∉ universalNewlines afterReturn text := by
  induction text generalizing afterReturn with
  | nil => exact List.not_mem_nil
  | cons char rest ih =>
      rw [universalNewlines]
      split
      · exact ih false
      · split
        · rw [List.mem_cons, not_or]
          exact ⟨by decide, ih true⟩
        · rename_i other
          rw [List.mem_cons, not_or]
          exact ⟨Ne.symm other, ih false⟩

theorem universalNewlines_eq_self (text : List Char) (plain : '\r' ∉ text) :
    universalNewlines false text = text := by
  induction text with
  | nil => rfl
  | cons char rest ih =>
      rw [List.mem_cons, not_or] at plain
      rw [universalNewlines, if_neg (by simp), if_neg (Ne.symm plain.1), ih plain.2]

theorem universalNewlines_append (afterReturn : Bool) (front back : List Char) :
    universalNewlines afterReturn (front ++ back) =
      universalNewlines afterReturn front ++
        universalNewlines ((front.getLast?.map fun char => decide (char = '\r')).getD afterReturn)
          back := by
  induction front generalizing afterReturn with
  | nil => rfl
  | cons char front ih =>
      have last : (front.getLast?.map fun char => decide (char = '\r')).getD
          (decide (char = '\r')) =
          ((char :: front).getLast?.map fun char => decide (char = '\r')).getD afterReturn := by
        rw [List.getLast?_cons]
        cases front.getLast? <;> rfl
      rw [← last, List.cons_append, universalNewlines, universalNewlines]
      split
      · rename_i newline
        rw [ih, newline.1]
        rfl
      · split
        · rename_i carriage
          rw [ih, List.cons_append, carriage]
          rfl
        · rename_i other
          rw [ih, List.cons_append, decide_eq_false other]

theorem universalNewlines_start (afterReturn : Bool) (text : List Char)
    (start : afterReturn = true → text.head? ≠ some '\n') :
    universalNewlines afterReturn text = universalNewlines false text := by
  cases text with
  | nil => rfl
  | cons char rest =>
      have other : ¬ (char = '\n' ∧ afterReturn = true) := fun both =>
        start both.2 (by rw [both.1]; rfl)
      have none : ¬ (char = '\n' ∧ false = true) := fun both => Bool.false_ne_true both.2
      rw [universalNewlines, if_neg other, universalNewlines, if_neg none]

theorem getLast?_universalNewlines (afterReturn : Bool) (text : List Char)
    (ends : text.getLast? = some '\n' ∨ text.getLast? = some '\r') :
    (universalNewlines afterReturn text).getLast? = some '\n' ∨
      (universalNewlines afterReturn text = [] ∧ afterReturn = true) := by
  induction text generalizing afterReturn with
  | nil => simp at ends
  | cons char rest ih =>
      by_cases last : rest = []
      · subst last
        simp only [List.getLast?_singleton, Option.some.injEq] at ends
        rcases ends with rfl | rfl
        · cases afterReturn
          · exact Or.inl rfl
          · exact Or.inr ⟨rfl, rfl⟩
        · exact Or.inl rfl
      · rw [List.getLast?_cons_of_ne_nil last] at ends
        rw [universalNewlines]
        split
        · rename_i newline
          rcases ih false ends with ended | impossible
          · exact Or.inl ended
          · cases impossible.2
        · refine Or.inl ?_
          split
          · rcases ih true ends with ended | nothing
            · rw [List.getLast?_cons, ended]
              rfl
            · rw [nothing.1]
              rfl
          · rcases ih false ends with ended | impossible
            · rw [List.getLast?_cons, ended]
              rfl
            · cases impossible.2

theorem linesOf_whole (newline : Char) (front back : List Char)
    (whole : front = [] ∨ front.getLast? = some newline) :
    linesOf newline (front ++ back) = linesOf newline front ++ linesOf newline back := by
  rcases whole with rfl | ended
  · rfl
  · induction front with
    | nil => cases ended
    | cons char front ih =>
        by_cases last : front = []
        · subst last
          rw [List.getLast?_singleton, Option.some.injEq] at ended
          rw [List.cons_append, List.nil_append, linesOf, linesOf, if_pos ended, if_pos ended]
          rfl
        · rw [List.getLast?_cons_of_ne_nil last] at ended
          rw [List.cons_append, linesOf, linesOf, ih ended]
          split
          · rfl
          · cases lines : linesOf newline front with
            | nil =>
                have text := flatten_linesOf newline front
                rw [lines] at text
                exact absurd text.symm last
            | cons line more => rfl

theorem textLines_append (front back : List Char) (whole : WholeLines front back) :
    textLines (front ++ back) = textLines front ++ textLines back := by
  have begins : universalNewlines
      ((front.getLast?.map fun char => decide (char = '\r')).getD false) back =
        universalNewlines false back := by
    refine universalNewlines_start _ _ ?_
    rcases whole with rfl | newline | carriage
    · exact nofun
    · rw [newline]
      exact nofun
    · exact fun _ => carriage.2
  rw [textLines, universalNewlines_append, begins]
  refine linesOf_whole '\n' _ _ ?_
  rcases whole with rfl | newline | carriage
  · exact Or.inl rfl
  · exact (getLast?_universalNewlines false front (Or.inl newline)).symm.imp And.left id
  · exact (getLast?_universalNewlines false front (Or.inr carriage.1)).symm.imp And.left id

theorem readline_takes (text : List Char) (filled : text ≠ []) :
    ∃ taken, taken ≠ [] ∧ text = taken ++ (readline text).2 ∧
      textLines taken = [(readline text).1] ∧
      ((readline text).2 = [] ∨ WholeLines taken (readline text).2) := by
  induction text with
  | nil => exact absurd rfl filled
  | cons char rest ih =>
      rw [readline]
      split
      · rename_i newline
        subst newline
        exact ⟨['\n'], List.cons_ne_nil _ _, rfl, rfl, Or.inr (Or.inr (Or.inl rfl))⟩
      · split
        · rename_i carriage
          subst carriage
          split
          · rename_i both
            obtain ⟨behind, rfl⟩ : ∃ behind, rest = '\n' :: behind := by
              cases rest with
              | nil => cases both
              | cons next behind => exact ⟨behind, by rw [Option.some.inj both]⟩
            exact ⟨['\r', '\n'], List.cons_ne_nil _ _, rfl, rfl, Or.inr (Or.inr (Or.inl rfl))⟩
          · rename_i alone
            exact ⟨['\r'], List.cons_ne_nil _ _, rfl, rfl,
              Or.inr (Or.inr (Or.inr ⟨rfl, alone⟩))⟩
        · rename_i noNewline noReturn
          have inLine (taken : List Char) (line : List Char)
              (lines : textLines taken = [line]) :
              textLines (char :: taken) = [char :: line] := by
            rw [textLines, universalNewlines, if_neg (by simp), if_neg noReturn, linesOf,
              if_neg noNewline, ← textLines, lines]
          by_cases last : rest = []
          · subst last
            refine ⟨[char], List.cons_ne_nil _ _, rfl, ?_, Or.inl rfl⟩
            rw [textLines, universalNewlines, if_neg (by simp), if_neg noReturn, linesOf,
              if_neg noNewline]
            rfl
          · obtain ⟨taken, some_, split, lines, whole⟩ := ih last
            refine ⟨char :: taken, List.cons_ne_nil _ _, congrArg _ split, inLine _ _ lines, ?_⟩
            refine whole.imp_right fun whole => ?_
            rw [WholeLines, List.getLast?_cons_of_ne_nil some_]
            exact Or.inr (whole.resolve_left some_)

end ScalarLM
