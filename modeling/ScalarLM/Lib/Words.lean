import Mathlib.Data.List.Basic
import Mathlib.Data.List.DropRight
import Mathlib.Data.List.TakeWhile
import Mathlib.Tactic.Common

/-! The words of a text: its longest parts without a separator. -/

namespace ScalarLM.Words

variable {α : Type} (isSpace : α → Bool)

def words [DecidableEq α] (text : List α) : List (List α) :=
  (text.splitOnP isSpace).filter fun part => !decide (part = [])

def strip (text : List α) : List α :=
  ((text.dropWhile isSpace).reverse.dropWhile isSpace).reverse

section Stripping

variable {α : Type} {isSpace : α → Bool}

theorem strip_eq (text : List α) :
    strip isSpace text = (text.dropWhile isSpace).rdropWhile isSpace := rfl

theorem mem_of_mem_strip {text : List α} {char : α} (member : char ∈ strip isSpace text) :
    char ∈ text := by
  rw [strip_eq] at member
  exact (List.dropWhile_sublist isSpace).subset ((List.rdropWhile_prefix isSpace _).subset member)

theorem mem_strip_iff {text : List α} {char : α} (visible : isSpace char = false) :
    char ∈ strip isSpace text ↔ char ∈ text := by
  have dropped (text : List α) (member : char ∈ text) : char ∈ text.dropWhile isSpace := by
    have parts := @List.takeWhile_append_dropWhile _ isSpace text
    rw [← parts] at member
    rcases List.mem_append.mp member with before | after
    · rw [List.mem_takeWhile_imp before] at visible
      cases visible
    · exact after
  refine ⟨mem_of_mem_strip, fun member => ?_⟩
  exact List.mem_reverse.mpr (dropped _ (List.mem_reverse.mpr (dropped text member)))

theorem head?_strip (text : List α) :
    (strip isSpace text).head? = (text.dropWhile isSpace).head? := by
  rw [strip_eq]
  cases visible : text.dropWhile isSpace with
  | nil => rfl
  | cons char rest =>
      have first := List.head_dropWhile_not isSpace (visible ▸ List.cons_ne_nil char rest)
      simp only [visible, List.head_cons] at first
      obtain ⟨after, whole⟩ := List.rdropWhile_prefix isSpace (char :: rest)
      cases stripped : (char :: rest).rdropWhile isSpace with
      | nil =>
          have blank := List.rdropWhile_eq_nil_iff.mp stripped char List.mem_cons_self
          rw [first] at blank
          cases blank
      | cons other more =>
          rw [stripped, List.cons_append, List.cons.injEq] at whole
          rw [List.head?_cons, List.head?_cons, whole.1]

theorem strip_strip (text : List α) : strip isSpace (strip isSpace text) = strip isSpace text := by
  have start : (strip isSpace text).dropWhile isSpace = strip isSpace text := by
    have head := @head?_strip _ isSpace text
    cases stripped : strip isSpace text with
    | nil => rfl
    | cons char rest =>
        rw [stripped, List.head?_cons] at head
        have visible := List.head?_dropWhile_not isSpace text
        rw [← head] at visible
        rw [List.dropWhile_cons_of_neg (by rw [visible]; exact Bool.false_ne_true)]
  rw [strip_eq (strip isSpace text), start]
  exact List.rdropWhile_idempotent isSpace _

theorem strip_append_spaces (text spaces : List α) (blank : ∀ char ∈ spaces, isSpace char) :
    strip isSpace (text ++ spaces) = strip isSpace text := by
  rw [strip_eq, strip_eq, List.dropWhile_append]
  by_cases empty : text.dropWhile isSpace = []
  · rw [empty, List.isEmpty_nil, if_pos rfl, List.dropWhile_eq_nil_iff.mpr blank]
  · rw [if_neg (by simpa using empty)]
    induction spaces using List.reverseRecOn with
    | nil => rw [List.append_nil]
    | append_singleton spaces last ih =>
        rw [List.forall_mem_append] at blank
        have separates := blank.2 last (List.mem_singleton_self last)
        rw [← List.append_assoc, List.rdropWhile_concat_pos isSpace _ _ separates, ih blank.1]

end Stripping

section Splitting

variable [DecidableEq α] {isSpace}

theorem words_append_space (front back : List α) (space : α) (separates : isSpace space) :
    words isSpace (front ++ space :: back) = words isSpace front ++ words isSpace back := by
  rw [words, List.splitOnP_append_cons front back separates, List.filter_append, words, words]

theorem words_nil : words isSpace ([] : List α) = [] := by
  simp [words]

theorem words_of_word (word : List α) (filled : word ≠ [])
    (whole : ∀ char ∈ word, isSpace char = false) : words isSpace word = [word] := by
  rw [words, List.splitOnP_eq_singleton whole]
  simp [filled]

theorem words_word_space (word rest : List α) (space : α) (filled : word ≠ [])
    (whole : ∀ char ∈ word, isSpace char = false) (separates : isSpace space) :
    words isSpace (word ++ space :: rest) = word :: words isSpace rest := by
  rw [words_append_space word rest space separates, words_of_word word filled whole,
    List.singleton_append]

theorem words_spaces_append (spaces rest : List α) (blank : ∀ char ∈ spaces, isSpace char) :
    words isSpace (spaces ++ rest) = words isSpace rest := by
  induction spaces with
  | nil => rfl
  | cons space spaces ih =>
      rw [List.forall_mem_cons] at blank
      calc
        words isSpace (space :: spaces ++ rest)
          = words isSpace [] ++ words isSpace (spaces ++ rest) :=
            words_append_space [] (spaces ++ rest) space blank.1
        _ = words isSpace rest := by rw [words_nil, List.nil_append, ih blank.2]

theorem words_append_spaces (front spaces : List α) (blank : ∀ char ∈ spaces, isSpace char) :
    words isSpace (front ++ spaces) = words isSpace front := by
  cases spaces with
  | nil => rw [List.append_nil]
  | cons space spaces =>
      rw [List.forall_mem_cons] at blank
      have after := words_spaces_append spaces [] blank.2
      rw [List.append_nil, words_nil] at after
      rw [words_append_space front spaces space blank.1, after, List.append_nil]

theorem words_dropWhile (text : List α) :
    words isSpace (text.dropWhile isSpace) = words isSpace text := by
  calc
    words isSpace (text.dropWhile isSpace)
      = words isSpace (text.takeWhile isSpace ++ text.dropWhile isSpace) :=
        (words_spaces_append _ _ fun _ => List.mem_takeWhile_imp).symm
    _ = words isSpace text := by rw [List.takeWhile_append_dropWhile]

theorem words_reverse_dropWhile (text : List α) :
    words isSpace (text.reverse.dropWhile isSpace).reverse = words isSpace text := by
  have blank : ∀ char ∈ (text.reverse.takeWhile isSpace).reverse, isSpace char :=
    fun char member => List.mem_takeWhile_imp (List.mem_reverse.mp member)
  calc
    words isSpace (text.reverse.dropWhile isSpace).reverse
      = words isSpace ((text.reverse.dropWhile isSpace).reverse ++
          (text.reverse.takeWhile isSpace).reverse) := (words_append_spaces _ _ blank).symm
    _ = words isSpace text := by
      rw [← List.reverse_append, List.takeWhile_append_dropWhile, List.reverse_reverse]

theorem words_strip (text : List α) : words isSpace (strip isSpace text) = words isSpace text := by
  rw [strip, words_reverse_dropWhile, words_dropWhile]

end Splitting

end ScalarLM.Words
