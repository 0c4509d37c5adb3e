import Mathlib.Data.List.Basic
import Mathlib.Tactic.Common
import ScalarLM.Lib.Decimal

/-! JSON texts of ASCII characters: how strings and numbers are written, and the decoder. -/

namespace ScalarLM.Json

open Decimal

/-- What a text is decoded to. A string is a list of code points, lone surrogates included. -/
inductive Value where
  | null
  | bool (value : Bool)
  | int (value : Int)
  | float (text : List Char)
  | string (codePoints : List Nat)
  | array (elements : List Value)
  | object (members : List (List Nat × Value))

section Strings

def hexDigits (unit : Nat) : List Char :=
  [Nat.digitChar (unit / 4096 % 16), Nat.digitChar (unit / 256 % 16),
    Nat.digitChar (unit / 16 % 16), Nat.digitChar (unit % 16)]

def unicodeEscape (unit : Nat) : List Char := '\\' :: 'u' :: hexDigits unit

def units (char : Char) : List Nat :=
  if char.toNat < 65536 then [char.toNat]
  else [55296 + (char.toNat - 65536) / 1024, 56320 + (char.toNat - 65536) % 1024]

def escape (char : Char) : List Char :=
  if char = '"' then ['\\', '"']
  else if char = '\\' then ['\\', '\\']
  else if char = '\n' then ['\\', 'n']
  else if char = '\r' then ['\\', 'r']
  else if char = '\t' then ['\\', 't']
  else if char = '\x0c' then ['\\', 'f']
  else if char = '\x08' then ['\\', 'b']
  else if 32 ≤ char.toNat ∧ char.toNat ≤ 126 then [char]
  else (units char).flatMap unicodeEscape

def escapeAll (text : List Char) : List Char := text.flatMap escape

def hexValue (char : Char) : Option Nat :=
  if '0' ≤ char ∧ char ≤ '9' then some (char.toNat - 48)
  else if 'a' ≤ char ∧ char ≤ 'f' then some (char.toNat - 87)
  else if 'A' ≤ char ∧ char ≤ 'F' then some (char.toNat - 55)
  else none

def hexUnit (first second third fourth : Char) : Option Nat :=
  match hexValue first, hexValue second, hexValue third, hexValue fourth with
  | some a, some b, some c, some d => some (4096 * a + 256 * b + 16 * c + d)
  | _, _, _, _ => none

def simpleEscape : Char → Option Nat
  | '"' => some 34
  | '\\' => some 92
  | '/' => some 47
  | 'b' => some 8
  | 'f' => some 12
  | 'n' => some 10
  | 'r' => some 13
  | 't' => some 9
  | _ => none

def scanUnits : List Char → Option (List Nat × List Char)
  | [] => none
  | char :: rest =>
      if char = '"' then some ([], rest)
      else if char = '\\' then
        match rest with
        | 'u' :: a :: b :: c :: d :: rest =>
            match hexUnit a b c d with
            | none => none
            | some unit => (scanUnits rest).map fun scanned => (unit :: scanned.1, scanned.2)
        | escaped :: rest =>
            match simpleEscape escaped with
            | none => none
            | some point => (scanUnits rest).map fun scanned => (point :: scanned.1, scanned.2)
        | [] => none
      else if char.toNat < 32 then none
      else (scanUnits rest).map fun scanned => (char.toNat :: scanned.1, scanned.2)

def joinSurrogates : List Nat → List Nat
  | [] => []
  | [unit] => [unit]
  | high :: low :: rest =>
      if 55296 ≤ high ∧ high ≤ 56319 ∧ 56320 ≤ low ∧ low ≤ 57343 then
        (65536 + (high - 55296) * 1024 + (low - 56320)) :: joinSurrogates rest
      else high :: joinSurrogates (low :: rest)

def scanString (text : List Char) : Option (List Nat × List Char) :=
  (scanUnits text).map fun scanned => (joinSurrogates scanned.1, scanned.2)

end Strings

section Decoding

def isSpace (char : Char) : Bool :=
  char == ' ' || char == '\t' || char == '\n' || char == '\r'

def skipSpaces (text : List Char) : List Char := text.dropWhile isSpace

def takeDigits (text : List Char) : List Char × List Char := text.span Char.isDigit

def integerPart : List Char → Option (List Char × List Char)
  | '0' :: rest => some (['0'], rest)
  | text =>
      match takeDigits text with
      | ([], _) => none
      | (digits, rest) => some (digits, rest)

def fractionPart : List Char → List Char × List Char
  | '.' :: rest =>
      match takeDigits rest with
      | ([], _) => ([], '.' :: rest)
      | (digits, after) => ('.' :: digits, after)
  | text => ([], text)

def exponentPart : List Char → List Char × List Char
  | mark :: rest =>
      if mark = 'e' ∨ mark = 'E' then
        let signed :=
          match rest with
          | '+' :: after => (['+'], after)
          | '-' :: after => (['-'], after)
          | after => ([], after)
        match takeDigits signed.2 with
        | ([], _) => ([], mark :: rest)
        | (digits, after) => (mark :: signed.1 ++ digits, after)
      else ([], mark :: rest)
  | [] => ([], [])

def parseNumber (text : List Char) : Option (Value × List Char) :=
  let signed :=
    match text with
    | '-' :: rest => (['-'], rest)
    | rest => ([], rest)
  match integerPart signed.2 with
  | none => none
  | some (digits, rest) =>
      let fraction := fractionPart rest
      let exponent := exponentPart fraction.2
      if fraction.1 = [] ∧ exponent.1 = [] then
        (readInt (signed.1 ++ digits)).map fun number => (.int number, rest)
      else some (.float (signed.1 ++ digits ++ fraction.1 ++ exponent.1), exponent.2)

def parseAtom : List Char → Option (Value × List Char)
  | 'n' :: 'u' :: 'l' :: 'l' :: rest => some (.null, rest)
  | 't' :: 'r' :: 'u' :: 'e' :: rest => some (.bool true, rest)
  | 'f' :: 'a' :: 'l' :: 's' :: 'e' :: rest => some (.bool false, rest)
  | 'N' :: 'a' :: 'N' :: rest => some (.float ['N', 'a', 'N'], rest)
  | 'I' :: 'n' :: 'f' :: 'i' :: 'n' :: 'i' :: 't' :: 'y' :: rest =>
      some (.float ['I', 'n', 'f', 'i', 'n', 'i', 't', 'y'], rest)
  | '-' :: 'I' :: 'n' :: 'f' :: 'i' :: 'n' :: 'i' :: 't' :: 'y' :: rest =>
      some (.float ['-', 'I', 'n', 'f', 'i', 'n', 'i', 't', 'y'], rest)
  | text => parseNumber text

/-- A member of a dictionary is put at its end, or in the place of one with the same key. -/
def setMember (key : List Nat) (value : Value) :
    List (List Nat × Value) → List (List Nat × Value)
  | [] => [(key, value)]
  | member :: rest =>
      if member.1 = key then (key, value) :: rest else member :: setMember key value rest

def objectStart (text : List Char) : Option (Bool × List Char) :=
  match skipSpaces text with
  | '}' :: rest => some (true, rest)
  | '"' :: rest => some (false, rest)
  | _ => none

def keyEnd (text : List Char) : Option (List Char) :=
  match skipSpaces text with
  | ':' :: rest => some (skipSpaces rest)
  | _ => none

def memberEnd (text : List Char) : Option (Bool × List Char) :=
  match skipSpaces text with
  | '}' :: rest => some (true, rest)
  | ',' :: rest =>
      match skipSpaces rest with
      | '"' :: rest => some (false, rest)
      | _ => none
  | _ => none

mutual

/-- A value at the beginning of a text and what follows it. Each call takes a character. -/
def parseValue : Nat → List Char → Option (Value × List Char)
  | 0, _ => none
  | fuel + 1, text =>
      match text with
      | '"' :: rest => (scanString rest).map fun scanned => (.string scanned.1, scanned.2)
      | '{' :: rest =>
          match objectStart rest with
          | none => none
          | some (true, rest) => some (.object [], rest)
          | some (false, rest) => parseMembers fuel [] rest
      | '[' :: rest =>
          match skipSpaces rest with
          | ']' :: rest => some (.array [], rest)
          | rest => parseElements fuel [] rest
      | _ => parseAtom text

def parseMembers : Nat → List (List Nat × Value) → List Char → Option (Value × List Char)
  | 0, _, _ => none
  | fuel + 1, members, text =>
      match scanString text with
      | none => none
      | some (key, rest) =>
          match keyEnd rest with
          | none => none
          | some rest =>
              match parseValue fuel rest with
              | none => none
              | some (value, rest) =>
                  match memberEnd rest with
                  | none => none
                  | some (true, rest) => some (.object (setMember key value members), rest)
                  | some (false, rest) => parseMembers fuel (setMember key value members) rest

def parseElements : Nat → List Value → List Char → Option (Value × List Char)
  | 0, _, _ => none
  | fuel + 1, elements, text =>
      match parseValue fuel text with
      | none => none
      | some (value, rest) =>
          match skipSpaces rest with
          | ']' :: rest => some (.array (elements ++ [value]), rest)
          | ',' :: rest => parseElements fuel (elements ++ [value]) (skipSpaces rest)
          | _ => none

end

/-- `json.loads`: one value with nothing but white space around it. -/
def loads (text : List Char) : Option Value :=
  match parseValue (text.length + 1) (skipSpaces text) with
  | none => none
  | some (value, rest) => if skipSpaces rest = [] then some value else none

end Decoding

section Writing

inductive Entry where
  | text (content : List Char)
  | number (amount : Nat)

def Entry.write : Entry → List Char
  | .text content => '"' :: (escapeAll content ++ ['"'])
  | .number amount => Nat.toDigits 10 amount

def Entry.value : Entry → Value
  | .text content => .string (content.map Char.toNat)
  | .number amount => .int amount

def writeMembers (member : List Char × Entry) : List (List Char × Entry) → List Char
  | [] => escapeAll member.1 ++ '"' :: ':' :: ' ' :: (member.2.write ++ ['}'])
  | next :: rest =>
      escapeAll member.1 ++ '"' :: ':' :: ' ' ::
        (member.2.write ++ ',' :: ' ' :: '"' :: writeMembers next rest)

def dumps : List (List Char × Entry) → List Char
  | [] => ['{', '}']
  | member :: rest => '{' :: '"' :: writeMembers member rest

def setEntry (members : List (List Nat × Value)) (member : List Char × Entry) :
    List (List Nat × Value) :=
  setMember (member.1.map Char.toNat) member.2.value members

end Writing

end ScalarLM.Json
