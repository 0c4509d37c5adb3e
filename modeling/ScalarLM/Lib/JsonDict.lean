import ScalarLM.Lib.Dict
import ScalarLM.Lib.JsonText
import ScalarLM.Lib.Utf8

/-! Dictionaries of strings and natural numbers as files of JSON text. -/

namespace ScalarLM.Json

open Utf8

def entryOf : Value → Option Entry
  | .string codePoints => some (.text (codePoints.map Char.ofNat))
  | .int (.ofNat amount) => some (.number amount)
  | _ => none

def memberOf (member : List Nat × Value) : Option (List Char × Entry) :=
  (entryOf member.2).map fun entry => (member.1.map Char.ofNat, entry)

def membersOf : Value → Option (List (List Char × Entry))
  | .object members => members.mapM memberOf
  | _ => none

def dictBytes (dict : Dict (List Char) Entry) : List UInt8 := encodeUtf8 (dumps dict.entries)

def bytesDict (bytes : List UInt8) : Option (Dict (List Char) Entry) :=
  ((decodeUtf8 bytes).bind loads).bind fun value => (membersOf value).map Dict.ofAssignments

theorem ofNat_toNat_map (text : List Char) : (text.map Char.toNat).map Char.ofNat = text := by
  rw [List.map_map]
  exact List.map_id'' (fun char => Char.ofNat_toNat char) text

theorem memberOf_value (member : List Char × Entry) :
    memberOf (member.1.map Char.toNat, member.2.value) = some member := by
  obtain ⟨key, entry⟩ := member
  cases entry with
  | text content =>
      rw [memberOf, Entry.value, entryOf, Option.map_some, ofNat_toNat_map, ofNat_toNat_map]
  | number amount =>
      have number : entryOf (.int (amount : Int)) = some (.number amount) := rfl
      rw [memberOf, Entry.value, number, Option.map_some, ofNat_toNat_map]

theorem setMember_absent (key : List Nat) (value : Value) (members : List (List Nat × Value))
    (absent : key ∉ members.map Prod.fst) :
    setMember key value members = members ++ [(key, value)] := by
  induction members with
  | nil => rfl
  | cons member members ih =>
      rw [List.map_cons, List.mem_cons, not_or] at absent
      rw [setMember, if_neg (Ne.symm absent.1), ih absent.2, List.cons_append]

theorem toNat_map_injective : Function.Injective (List.map Char.toNat) := by
  intro first second same
  rw [← ofNat_toNat_map first, same, ofNat_toNat_map]

theorem setEntry_all (members : List (List Char × Entry)) (front : List (List Nat × Value))
    (nodup : (members.map Prod.fst).Nodup)
    (apart : ∀ key ∈ members.map Prod.fst, key.map Char.toNat ∉ front.map Prod.fst) :
    members.foldl setEntry front =
      front ++ members.map fun member => (member.1.map Char.toNat, member.2.value) := by
  induction members generalizing front with
  | nil => rw [List.foldl_nil, List.map_nil, List.append_nil]
  | cons member members ih =>
      rw [List.map_cons, List.nodup_cons] at nodup
      rw [List.map_cons, List.forall_mem_cons] at apart
      rw [List.foldl_cons, setEntry, setMember_absent _ _ _ apart.1, ih _ nodup.2,
        List.append_assoc, List.map_cons, List.singleton_append]
      intro key member' found
      rw [List.map_append, List.mem_append] at found
      rcases found with before | now
      · exact apart.2 key member' before
      · rw [List.map_singleton, List.mem_singleton] at now
        exact nodup.1 (toNat_map_injective now ▸ member')

theorem mapM_memberOf (members : List (List Char × Entry)) :
    (members.map fun member => (member.1.map Char.toNat, member.2.value)).mapM memberOf =
      some members := by
  rw [List.mapM_map]
  induction members with
  | nil => rfl
  | cons member members ih =>
      rw [List.mapM_cons, Function.comp, memberOf_value, ih]
      rfl

theorem loads_dict (dict : Dict (List Char) Entry) :
    loads (dumps dict.entries) =
      some (.object
        (dict.entries.map fun member => (member.1.map Char.toNat, member.2.value))) := by
  have all := setEntry_all dict.entries [] dict.nodup (fun _ _ => List.not_mem_nil)
  rw [List.nil_append] at all
  rw [← all]
  cases dict.entries with
  | nil => rfl
  | cons member rest =>
      have whole := loads_dumps member rest [] rfl
      rw [List.append_nil] at whole
      exact whole

theorem bytesDict_dictBytes (dict : Dict (List Char) Entry) :
    bytesDict (dictBytes dict) = some dict := by
  rw [bytesDict, dictBytes, decodeUtf8_encodeUtf8, Option.bind_some, loads_dict, Option.bind_some,
    membersOf, mapM_memberOf, Option.map_some, Dict.ofAssignments_entries]

theorem bytesDict_front (dict : Dict (List Char) Entry) (front : List UInt8)
    (begins : front <+: dictBytes dict) (proper : front ≠ dictBytes dict) :
    bytesDict front = none := by
  have ascii : ∀ char ∈ dumps dict.entries, char.toNat < 128 := fun char member =>
    Nat.lt_succ_of_le (Nat.le_succ_of_le (dumps_printable dict.entries char member).2)
  obtain ⟨piece, prior, rfl⟩ := encodeUtf8_front (dumps dict.entries) ascii front begins
  have broken : loads piece = none := by
    have short : piece ≠ dumps dict.entries := fun same => proper (by rw [same, dictBytes])
    cases entries : dict.entries with
    | nil =>
        rw [entries, dumps] at prior short
        rcases List.prefix_cons_iff.mp prior with rfl | ⟨rest, rfl, inside⟩
        · rfl
        · rcases List.prefix_cons_iff.mp inside with rfl | ⟨last, rfl, none⟩
          · rfl
          · rw [List.prefix_nil.mp none] at short
            exact absurd rfl short
    | cons member rest =>
        rw [entries] at prior short
        exact loads_broken member rest piece prior short
  rw [bytesDict, decodeUtf8_encodeUtf8, Option.bind_some, broken, Option.bind_none]

end ScalarLM.Json
