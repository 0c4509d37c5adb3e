import ScalarLM.Logs.LogStream

/-! Log lines that are read from the chunks of their stream. -/

namespace ScalarLM.Logs

open Json Utf8

section Objects

def lineValue (line : List Char) : Option Value :=
  match loads line with
  | some .null => none
  | decoded => decoded

def isLogObject : Value → Bool
  | .object (_ :: _) => true
  | _ => false

theorem lineValue_object {line : List Char} {members : List (List Nat × Value)}
    (decoded : loads line = some (.object members)) :
    lineValue line = some (.object members) := by
  rw [lineValue, decoded]

theorem lineValue_none {line : List Char} (failed : loads line = none) : lineValue line = none := by
  rw [lineValue, failed]

theorem loads_lineValue {line : List Char} {value : Value} (taken : lineValue line = some value) :
    loads line = some value ∧ value ≠ .null := by
  rw [lineValue] at taken
  split at taken
  · cases taken
  · rename_i other
    refine ⟨taken, ?_⟩
    intro same
    rw [same] at taken
    exact other taken

theorem object_members (log : LogLine) :
    log.members.foldl setEntry [] =
      log.members.map fun member => (member.1.map Char.toNat, member.2.value) := rfl

def LogLine.numberText (log : LogLine) : List Char :=
  [',', ' ', '"', 'l', 'i', 'n', 'e', '_', 'n', 'u', 'm', 'b', 'e', 'r', '"', ':', ' '] ++
    (Nat.toDigits 10 log.lineNumber ++ ['}'])

theorem write_text (log : LogLine) :
    log.write = '{' :: (['"', 'l', 'i', 'n', 'e', '"', ':', ' ', '"'] ++
      (escapeAll log.line ++ '"' :: log.numberText)) := by
  have line : escapeAll ['l', 'i', 'n', 'e'] = ['l', 'i', 'n', 'e'] := by decide
  have number : escapeAll ['l', 'i', 'n', 'e', '_', 'n', 'u', 'm', 'b', 'e', 'r'] =
      ['l', 'i', 'n', 'e', '_', 'n', 'u', 'm', 'b', 'e', 'r'] := by decide
  rw [LogLine.write, LogLine.members, dumps, writeMembers, writeMembers, line, number,
    LogLine.numberText, Entry.write, Entry.write]
  simp only [List.cons_append, List.nil_append, List.append_assoc]

theorem loads_write (log : LogLine) (after : List Char) (spaces : skipSpaces after = []) :
    loads (log.write ++ after) = some log.object := by
  rw [LogLine.object, ← object_members]
  exact loads_dumps _ _ after spaces

theorem numberText_brace (log : LogLine) : '{' ∉ log.numberText := by
  rw [LogLine.numberText, List.mem_append, List.mem_append, not_or, not_or]
  refine ⟨by decide, ?_, by decide⟩
  intro member
  have digit := Decimal.isDigit_toDigits log.lineNumber '{' member
  cases digit

theorem beyond_apart {α : Type} {symbol : α} {front back first second : List α}
    (whole : front ++ symbol :: back = first ++ second) (apart : symbol ∉ first) :
    ∃ behind, front = first ++ behind ∧ behind ++ symbol :: back = second := by
  rcases List.append_eq_append_iff.mp whole with ⟨middle, split, rest⟩ | ⟨middle, split, rest⟩
  · cases middle with
    | nil => exact ⟨[], by rw [split, List.append_nil, List.append_nil], rest⟩
    | cons head middle =>
        obtain ⟨rfl, _⟩ := List.cons.inj rest
        exact absurd (split ▸ List.mem_append_right front List.mem_cons_self) apart
  · exact ⟨middle, split, rest.symm⟩

theorem line_brace (log : LogLine) (front back : List Char)
    (whole : '{' :: (front ++ '{' :: back) = log.write ++ ['\n']) :
    ∃ text, back = escapeAll text ++ '"' :: (log.numberText ++ ['\n']) := by
  rw [write_text, List.cons_append, List.cons.injEq, List.append_assoc] at whole
  obtain ⟨behind, _, within⟩ := beyond_apart whole.2 (by decide)
  rw [List.append_assoc] at within
  rcases List.append_eq_append_iff.mp within with ⟨middle, split, rest⟩ | ⟨middle, split, rest⟩
  · cases middle with
    | nil =>
        rw [List.nil_append, List.cons_append, List.cons.injEq] at rest
        exact absurd rest.1 (by decide)
    | cons head middle =>
        obtain ⟨rfl, last⟩ := List.cons.inj rest
        obtain ⟨text, inside⟩ := escapeAll_brace log.line behind middle split
        exact ⟨text, by rw [last, inside]; rfl⟩
  · have member : '{' ∈ '"' :: log.numberText ++ ['\n'] := by
      rw [rest]
      exact List.mem_append_right middle List.mem_cons_self
    rw [List.cons_append, List.mem_cons, List.mem_append, List.mem_singleton] at member
    rcases member with quote | number | newline
    · cases quote
    · exact absurd number (numberText_brace log)
    · cases newline

theorem numberText_key (fuel : Nat) (log : LogLine) (keyed : List Char)
    (begins : keyed <+: log.numberText ++ ['\n']) : parseMembers fuel [] keyed = none := by
  cases fuel with
  | zero => rfl
  | succ fuel =>
      rw [LogLine.numberText] at begins
      simp only [List.cons_append] at begins
      rcases List.prefix_cons_iff.mp begins with rfl | ⟨spaced, rfl, atSpace⟩
      · rfl
      rcases List.prefix_cons_iff.mp atSpace with rfl | ⟨quoted, rfl, atQuote⟩
      · rfl
      rcases List.prefix_cons_iff.mp atQuote with rfl | ⟨named, rfl, atName⟩
      · rfl
      rcases List.prefix_cons_iff.mp atName with rfl | ⟨rest, rfl, _⟩
      · rfl
      · rfl

/-- No part of a line from behind its first character is decoded to an object with members. -/
theorem write_inside (log : LogLine) (before part after : List Char) (begun : before ≠ [])
    (cut : before ++ part ++ after = log.write ++ ['\n']) (value : Value)
    (taken : lineValue part = some value) : isLogObject value = false := by
  obtain ⟨decoded, _⟩ := loads_lineValue taken
  cases value with
  | object members =>
      cases members with
      | nil => rfl
      | cons member members =>
          obtain ⟨opened, keyed, brace, quote, fuel, found⟩ :=
            loads_object part member members decoded
          obtain ⟨first, before, rfl⟩ := List.exists_cons_of_ne_nil begun
          obtain ⟨spaces, split⟩ : ∃ spaces, part = spaces ++ '{' :: opened := by
            refine ⟨part.takeWhile isSpace, ?_⟩
            rw [← brace, skipSpaces, List.takeWhile_append_dropWhile]
          have head : first = '{' := by
            rw [write_text] at cut
            exact (List.cons.inj cut).1
          have whole : '{' :: ((before ++ spaces) ++ '{' :: (opened ++ after)) =
              log.write ++ ['\n'] := by
            rw [← cut, head, split]
            simp only [List.cons_append, List.append_assoc]
          obtain ⟨text, back⟩ := line_brace log _ _ whole
          have inside := quote_after_spaces text _ opened keyed ⟨after, back⟩ quote
          exact absurd (numberText_key fuel log keyed inside) found
  | null | bool | int | float | string | array => rfl

theorem write_filled (log : LogLine) : log.write ≠ [] := by
  rw [write_text]
  exact List.cons_ne_nil _ _

theorem loads_newline : loads ['\n'] = none := by
  have spaces : skipSpaces ['\n'] = [] := rfl
  rw [loads, spaces, parseValue_nil]

def logFormat : LineFormat Char LogLine Value where
  newline := '\n'
  write := LogLine.write
  value := LogLine.object
  decode := lineValue
  genuine := isLogObject
  oneLine log member := absurd (dumps_printable log.members '\n' member).1 (by decide)
  filled := write_filled
  genuine_value _ := rfl
  decode_write log := lineValue_object ((List.append_nil log.write) ▸ loads_write log [] rfl)
  decode_line log := lineValue_object (loads_write log ['\n'] rfl)
  decode_newline := lineValue_none loads_newline
  decode_front _ front begins proper := lineValue_none (loads_broken _ _ front begins proper)
  decode_inside := write_inside

end Objects

section Reader

theorem objects_line {objects : List Char → List Value} (documented : ReadsJsonLines objects)
    {line rest : List Char} (first : FirstLine line rest) (unmarked : Unmarked line) :
    objects (line ++ rest) = (lineValue line).elim [] fun value => value :: objects rest := by
  cases taken : lineValue line with
  | none =>
      refine documented.raises line rest first unmarked ?_
      rw [lineValue] at taken
      split at taken
      · exact .inr (by assumption)
      · exact .inl taken
  | some value =>
      obtain ⟨decoded, filled⟩ := loads_lineValue taken
      exact documented.yields line rest value first unmarked decoded filled

def PlainText (text : List Char) : Prop := ∀ char ∈ text, char ≠ '\x1e' ∧ char ≠ '\ufeff'

theorem PlainText.unmarked {text line : List Char} (plain : PlainText text) (within : line ⊆ text) :
    Unmarked line :=
  ⟨fun marked => (plain _ (within (List.mem_of_mem_head? marked))).1 rfl,
    fun marked => (plain _ (within (List.mem_of_mem_head? marked))).2 rfl⟩

theorem objects_eq_readLines {objects : List Char → List Value}
    (documented : ReadsJsonLines objects) (text : List Char) (plain : PlainText text) :
    objects text = readLines '\n' lineValue text := by
  induction size : text.length using Nat.strongRecOn generalizing text with
  | ind size ih =>
      by_cases broken : '\n' ∈ text
      · obtain ⟨body, rest, rfl, oneLine⟩ := List.eq_append_cons_of_mem broken
        have split : body ++ '\n' :: rest = (body ++ ['\n']) ++ rest := by simp
        have within : body ++ ['\n'] ⊆ body ++ '\n' :: rest := by
          rw [split]
          exact List.subset_append_left _ _
        have later : objects rest = readLines '\n' lineValue rest := by
          refine ih rest.length ?_ rest (fun char member => plain char ?_) rfl
          · rw [← size, List.length_append, List.length_cons]
            omega
          · exact List.mem_append_right body (List.mem_cons_of_mem _ member)
        have front := objects_line documented (.ended body rest oneLine) (plain.unmarked within)
        rw [split, front, ← split]
        cases taken : lineValue (body ++ ['\n']) with
        | none => exact (readLines_failed _ _ body rest oneLine taken).symm
        | some value =>
            rw [readLines_decoded _ _ body rest oneLine value taken, ← later]
            rfl
      · by_cases empty : text = []
        · rw [empty]
          exact documented.exhausted
        · have front := objects_line documented (.last text broken empty)
            (plain.unmarked (List.Subset.refl text))
          rw [List.append_nil] at front
          rw [front, readLines_open _ _ text broken empty, documented.exhausted]
          cases lineValue text <;> rfl

def readObjects (text : List Char) : List Value := readLines '\n' lineValue text

theorem readObjects_documented : ReadsJsonLines readObjects where
  exhausted := rfl
  yields line rest value first _ decoded filled := by
    have taken : lineValue line = some value := by
      rw [lineValue, decoded]
      cases value with
      | null => exact absurd rfl filled
      | bool | int | float | string | array | object => rfl
    cases first with
    | ended body rest oneLine =>
        rw [List.append_assoc]
        exact readLines_decoded _ _ body rest oneLine value taken
    | last body oneLine filled =>
        rw [List.append_nil, readObjects, readLines_open _ _ line oneLine filled, taken]
        rfl
  raises line rest first _ failed := by
    have refused : lineValue line = none := by
      rcases failed with malformed | null
      · exact lineValue_none malformed
      · rw [lineValue, null]
    cases first with
    | ended body rest oneLine =>
        rw [List.append_assoc]
        exact readLines_failed _ _ body rest oneLine refused
    | last body oneLine filled =>
        rw [List.append_nil, readObjects, readLines_open _ _ line oneLine filled, refused]
        rfl

end Reader

section Transport

theorem readLogStream_pieces (objects : List Char → List Value) (buffer : List Value)
    (pieces : List (List Char)) :
    readLogStream objects buffer (pieces.map encodeUtf8) =
      some (buffer ++ pieces.flatMap objects) := by
  induction pieces generalizing buffer with
  | nil => rw [List.flatMap_nil, List.append_nil]; rfl
  | cons piece pieces ih =>
      rw [List.map_cons, readLogStream, decodeUtf8_encodeUtf8]
      dsimp only
      rw [ih, List.flatMap_cons, List.append_assoc]

end Transport

section Codec

/-- Where a stream may be cut: behind a newline, or in front of one that comes in a chunk of its
own. -/
def CutAtLine (chunk next : List UInt8) : Prop := chunk.getLast? = some 10 ∨ next = [10]

theorem text_chars (logs : List LogLine) :
    ∀ char ∈ logFormat.text logs, char = '\n' ∨ Printable char := by
  intro char member
  obtain ⟨log, _, inside⟩ := List.mem_flatMap.mp member
  rcases List.mem_append.mp inside with written | newline
  · exact .inr (dumps_printable log.members char written)
  · exact .inl (List.mem_singleton.mp newline)

theorem text_ascii (logs : List LogLine) : ∀ char ∈ logFormat.text logs, char.toNat < 128 := by
  intro char member
  rcases text_chars logs char member with rfl | printable
  · decide
  · exact Nat.lt_succ_of_le (Nat.le_succ_of_le printable.2)

theorem text_plain (logs : List LogLine) : PlainText (logFormat.text logs) := by
  intro char member
  rcases text_chars logs char member with rfl | printable
  · decide
  · refine ⟨?_, ?_⟩ <;> intro same <;> rw [same, Printable] at printable <;> revert printable <;>
      decide

theorem streamBody_text (logs : List LogLine) :
    streamBody logs = encodeUtf8 (logFormat.text logs) := by
  rw [streamBody, encodeUtf8, LineFormat.text, List.flatMap_assoc]
  rfl

theorem newline_byte (char : Char) (ascii : char.toNat < 128) :
    char.val.toUInt8 = 10 ↔ char = '\n' := by
  constructor
  · intro same
    have number := congrArg UInt8.toNat same
    rw [UInt32.toNat_toUInt8] at number
    have low : char.toNat % 256 = 10 := number
    rw [Nat.mod_eq_of_lt (by omega)] at low
    exact Char.ext (UInt32.toNat_inj.mp low)
  · intro same
    rw [same]
    rfl

theorem cutAtLine_encodeUtf8 (piece next : List Char) (ascii : ∀ char ∈ piece, char.toNat < 128)
    (nextAscii : ∀ char ∈ next, char.toNat < 128) :
    CutAtLine (encodeUtf8 piece) (encodeUtf8 next) ↔ logFormat.Joint piece next := by
  have ended : (encodeUtf8 piece).getLast? = some 10 ↔ piece.getLast? = some '\n' := by
    rw [encodeUtf8_ascii piece ascii, List.getLast?_map, Option.map_eq_some_iff]
    constructor
    · intro found
      obtain ⟨char, last, byte⟩ := found
      rw [last, (newline_byte char (ascii char (List.mem_of_getLast? last))).mp byte]
    · intro last
      exact ⟨'\n', last, rfl⟩
  have alone : encodeUtf8 next = [10] ↔ next = ['\n'] := by
    rw [encodeUtf8_ascii next nextAscii, List.map_eq_singleton_iff]
    constructor
    · intro found
      obtain ⟨char, same, byte⟩ := found
      rw [same, (newline_byte char (nextAscii char (same ▸ List.mem_cons_self))).mp byte]
    · intro same
      exact ⟨'\n', same, rfl⟩
  exact or_congr ended alone

theorem readLogStream_stream (objects : List Char → List Value)
    (documented : ReadsJsonLines objects) (logs : List LogLine) (pieces : List (List Char))
    (whole : pieces.flatten = logFormat.text logs) :
    readLogStream objects [] (pieces.map encodeUtf8) =
      some (pieces.flatMap logFormat.read) := by
  rw [readLogStream_pieces, List.nil_append]
  congr 1
  refine List.flatMap_congr fun piece member => objects_eq_readLines documented piece ?_
  intro char inside
  exact text_plain logs char (whole ▸ List.mem_flatten_of_mem member inside)

theorem stream_decoded_iff (objects : List Char → List Value) (documented : ReadsJsonLines objects)
    (logs : List LogLine) (chunks : List (List UInt8)) (filled : ∀ chunk ∈ chunks, chunk ≠ [])
    (whole : chunks.flatten = streamBody logs) :
    readLogStream objects [] chunks = some (logs.map LogLine.object) ↔
      chunks.IsChain CutAtLine := by
  have ascii := text_ascii logs
  rw [streamBody_text] at whole
  obtain ⟨pieces, rfl, joined⟩ := chunks_of_text chunks _ ascii whole
  have within : ∀ piece ∈ pieces, ∀ char ∈ piece, char.toNat < 128 := by
    intro piece member char inside
    exact ascii char (joined ▸ List.mem_flatten_of_mem member inside)
  have nonempty : ∀ piece ∈ pieces, piece ≠ [] := by
    intro piece member empty
    exact filled _ (List.mem_map_of_mem member) (by rw [empty]; rfl)
  rw [readLogStream_stream objects documented logs pieces joined, Option.some.injEq,
    List.isChain_map]
  calc pieces.flatMap logFormat.read = logs.map LogLine.object
      ↔ pieces.IsChain logFormat.Joint :=
        logFormat.read_pieces_iff logs pieces nonempty joined
    _ ↔ pieces.IsChain fun piece next => CutAtLine (encodeUtf8 piece) (encodeUtf8 next) :=
        (List.IsChain.iff_of_mem_imp fun piece next member nextMember =>
          cutAtLine_encodeUtf8 piece next (within piece member) (within next nextMember)).symm

/-- The client gets the objects that the server yielded if and only if the transport cuts the
stream between them. What is cut apart is skipped as malformed. -/
theorem log_stream_decoded_iff (objects : List Char → List Value)
    (documented : ReadsJsonLines objects) (jobDirectory : List JobFile) (startingLineNumber : Int)
    (chunks : List (List UInt8)) (filled : ∀ chunk ∈ chunks, chunk ≠ [])
    (body : getTrainingLogs jobDirectory startingLineNumber = some chunks.flatten) :
    readLogStream objects [] chunks =
        (trainingLogsGenerator jobDirectory startingLineNumber).map (List.map LogLine.object) ↔
      chunks.IsChain CutAtLine := by
  obtain ⟨logs, yielded, stream⟩ := Option.map_eq_some_iff.mp body
  rw [yielded, Option.map_some]
  exact stream_decoded_iff objects documented logs chunks filled stream.symm

def sampleDirectory : List JobFile :=
  [⟨"slurm-7.out".toList, ["step 1\n".toList, "loss: \"ä\"\n".toList]⟩]

def sampleLogs : List LogLine := [⟨"step 1".toList, 0⟩, ⟨"loss: \"ä\"".toList, 1⟩]

def firstObject : List Char := "\x7b\"line\": \"step 1\", \"line_number\": 0\x7d\n".toList

def secondObject : List Char :=
  "\x7b\"line\": \"loss: \\\"\\u00e4\\\"\", \"line_number\": 1\x7d\n".toList

theorem sampleDirectory_logs : trainingLogsGenerator sampleDirectory 0 = some sampleLogs := by
  have selected : sampleDirectory.filter isLogFile = sampleDirectory := rfl
  rw [trainingLogsGenerator, selected, sampleDirectory, List.mergeSort_singleton]
  rfl

theorem sampleLogs_stream : streamBody sampleLogs = encodeUtf8 (firstObject ++ secondObject) := by
  decide

theorem log_stream_decoded_lines :
    readLogStream readObjects [] [encodeUtf8 firstObject, encodeUtf8 secondObject] =
      (trainingLogsGenerator sampleDirectory 0).map (List.map LogLine.object) := by
  refine (log_stream_decoded_iff readObjects readObjects_documented sampleDirectory 0
    [encodeUtf8 firstObject, encodeUtf8 secondObject] (by decide) ?_).mpr ?_
  · rw [getTrainingLogs, sampleDirectory_logs, Option.map_some, sampleLogs_stream]
    decide
  · exact List.isChain_pair.mpr (.inl (by decide))

/-- The stream may also be cut inside the first object. -/
theorem log_stream_split_object :
    ¬ ∀ objects, ReadsJsonLines objects → ∀ jobDirectory startingLineNumber chunks,
      (∀ chunk ∈ chunks, chunk ≠ []) →
      getTrainingLogs jobDirectory startingLineNumber = some chunks.flatten →
      readLogStream objects [] chunks =
        (trainingLogsGenerator jobDirectory startingLineNumber).map (List.map LogLine.object) := by
  intro claim
  have filled : ∀ chunk ∈ [encodeUtf8 (firstObject.take 10),
      encodeUtf8 (firstObject.drop 10 ++ secondObject)], chunk ≠ [] := by
    decide
  have whole : [encodeUtf8 (firstObject.take 10),
      encodeUtf8 (firstObject.drop 10 ++ secondObject)].flatten = streamBody sampleLogs := by
    decide
  have decoded := claim readObjects readObjects_documented sampleDirectory 0 _ filled (by
    rw [getTrainingLogs, sampleDirectory_logs, Option.map_some, whole])
  rw [sampleDirectory_logs, Option.map_some] at decoded
  have chain := (stream_decoded_iff readObjects readObjects_documented sampleLogs _ filled
    whole).mp decoded
  rw [List.isChain_pair] at chain
  rcases chain with ended | alone
  · revert ended
    decide
  · revert alone
    decide

end Codec

end ScalarLM.Logs
