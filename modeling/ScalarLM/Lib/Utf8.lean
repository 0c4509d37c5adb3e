import Mathlib.Tactic.Common

/-! Texts as bytes. The bytes of ASCII characters may be cut anywhere. -/

namespace ScalarLM.Utf8

def encodeUtf8 (text : List Char) : List UInt8 := text.flatMap String.utf8EncodeChar

def decodeUtf8 (bytes : List UInt8) : Option (List Char) :=
  bytes.toByteArray.utf8Decode?.map Array.toList

theorem decodeUtf8_encodeUtf8 (text : List Char) : decodeUtf8 (encodeUtf8 text) = some text := by
  rw [decodeUtf8, encodeUtf8, ← List.utf8Encode, List.utf8Decode?_utf8Encode]
  rfl

theorem encodeUtf8_ascii (text : List Char) (ascii : ∀ char ∈ text, char.toNat < 128) :
    encodeUtf8 text = text.map fun char => char.val.toUInt8 := by
  induction text with
  | nil => rfl
  | cons char text ih =>
      rw [List.forall_mem_cons] at ascii
      have small : char.utf8Size = 1 := Char.utf8Size_eq_one_iff.mpr (by
        have low := ascii.1
        rw [UInt32.le_iff_toNat_le]
        exact Nat.le_of_lt_succ low)
      rw [encodeUtf8, List.flatMap_cons, String.utf8EncodeChar_eq_singleton small, ← encodeUtf8,
        ih ascii.2]
      rfl

theorem chunks_of_text (chunks : List (List UInt8)) (text : List Char)
    (ascii : ∀ char ∈ text, char.toNat < 128) (whole : chunks.flatten = encodeUtf8 text) :
    ∃ pieces : List (List Char), chunks = pieces.map encodeUtf8 ∧ pieces.flatten = text := by
  induction chunks generalizing text with
  | nil =>
      refine ⟨[], rfl, ?_⟩
      rw [encodeUtf8_ascii text ascii] at whole
      exact (List.map_eq_nil_iff.mp whole.symm).symm
  | cons chunk chunks ih =>
      rw [encodeUtf8_ascii text ascii, List.flatten_cons] at whole
      obtain ⟨piece, rest, rfl, first, later⟩ := List.map_eq_append_iff.mp whole.symm
      rw [List.forall_mem_append] at ascii
      rw [← encodeUtf8_ascii piece ascii.1] at first
      rw [← encodeUtf8_ascii rest ascii.2] at later
      obtain ⟨pieces, rfl, joined⟩ := ih rest ascii.2 later.symm
      exact ⟨piece :: pieces, by rw [List.map_cons, first], by rw [List.flatten_cons, joined]⟩

theorem encodeUtf8_front (text : List Char) (ascii : ∀ char ∈ text, char.toNat < 128)
    (front : List UInt8) (begins : front <+: encodeUtf8 text) :
    ∃ piece, piece <+: text ∧ front = encodeUtf8 piece := by
  rw [encodeUtf8_ascii text ascii] at begins
  obtain ⟨piece, prior, rfl⟩ := List.prefix_map_iff.mp begins
  refine ⟨piece, prior, ?_⟩
  exact (encodeUtf8_ascii piece fun char member => ascii char (prior.subset member)).symm

end ScalarLM.Utf8
