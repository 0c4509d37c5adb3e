import ScalarLM.Upload.UploadIsolation

/-! Which uploads the two size validators let pass, however the body is cut into chunks. -/

namespace ScalarLM.Upload

open OpenFile

section Streams

def PartEvent.fileBytes : PartEvent → Nat
  | .fileData bytes => bytes.length
  | _ => 0

def bodyBytes (chunks : List Chunk) : Nat := (chunks.map Chunk.size).sum

def fileBytes (chunks : List Chunk) : Nat := ((allParts chunks).map PartEvent.fileBytes).sum

/-- A request body as it arrives. The parser passes on no byte of the file before it is there. -/
structure RequestStream where
  chunks : List Chunk
  arrived : ∀ front, front <+: chunks → fileBytes front ≤ bodyBytes front

variable {Args Member : Type} (config : Config)

def receiveAll (files : Files UInt8) (handler : Handler Args Member) :
    List Chunk → Files UInt8 × Handler Args Member × Option UploadException
  | [] => (files, handler, none)
  | chunk :: rest =>
      match chunkReceived config handler files chunk with
      | (files, handler, none) => receiveAll files handler rest
      | (files, handler, some exception) => (files, handler, some exception)

def raised (Args Member : Type) (files : Files UInt8) (chunks : List Chunk) :
    Option UploadException :=
  (receiveAll config files (newHandler chunks : Handler Args Member) chunks).2.2

/-- One of the two size validators has raised. -/
def SizeException (exception : Option UploadException) : Prop :=
  exception = some .validation ∨ ∃ bodyLen, exception = some (.maxBodySize bodyLen)

/-- The limits of the error messages: one for the file, and twice as much for the body. -/
structure LimitsApplied (Args Member : Type) (files : Files UInt8) (chunks : List Chunk) :
    Prop where
  passed : fileBytes chunks ≤ config.maxUploadFileSize →
    bodyBytes chunks ≤ config.maxUploadFileSize * 2 →
      ¬ SizeException (raised config Args Member files chunks)
  rejected : config.maxUploadFileSize < fileBytes chunks ∨
    config.maxUploadFileSize * 2 < bodyBytes chunks → raised config Args Member files chunks ≠ none

/-- The parser or its targets raise an error of their own in the chunks that arrive before the
body is longer than the limit for the file. -/
def ParserFails (Args Member : Type) (files : Files UInt8) (chunks : List Chunk) : Prop :=
  ∃ front rest error, chunks = front ++ rest ∧ bodyBytes front ≤ config.maxUploadFileSize ∧
    (dataReceived config files (newHandler chunks : Handler Args Member) (allParts front)).2.2 =
      some (.other error)

end Streams

section Parts

variable {Args Member : Type} {config : Config}

theorem allParts_cons (chunk : Chunk) (rest : List Chunk) :
    allParts (chunk :: rest) = chunk.parts ++ allParts rest := rfl

theorem bodyBytes_append (front back : List Chunk) :
    bodyBytes (front ++ back) = bodyBytes front + bodyBytes back := by
  simp [bodyBytes]

theorem partReceived_bodyLen (files : Files UInt8) (handler : Handler Args Member) (bodyLen : Nat)
    (part : PartEvent) :
    partReceived config { handler with bodyLen := bodyLen } files part =
      ((partReceived config handler files part).1,
        { (partReceived config handler files part).2.1 with bodyLen := bodyLen },
        (partReceived config handler files part).2.2) := by
  cases part with
  | fileData bytes =>
      simp only [partReceived]
      split
      · rfl
      · split <;> rfl
  | fileFinish =>
      simp only [partReceived]
      split <;> rfl
  | _ => rfl

theorem dataReceived_bodyLen (files : Files UInt8) (handler : Handler Args Member) (bodyLen : Nat)
    (parts : List PartEvent) :
    dataReceived config files { handler with bodyLen := bodyLen } parts =
      ((dataReceived config files handler parts).1,
        { (dataReceived config files handler parts).2.1 with bodyLen := bodyLen },
        (dataReceived config files handler parts).2.2) := by
  induction parts generalizing files handler with
  | nil => rfl
  | cons part rest ih =>
      rw [dataReceived, partReceived_bodyLen, dataReceived]
      cases taken : partReceived config handler files part with
      | mk after more =>
          obtain ⟨next, exception⟩ := more
          cases exception with
          | none => exact ih after next
          | some exception => rfl

theorem dataReceived_append (files : Files UInt8) (handler : Handler Args Member)
    (front back : List PartEvent) :
    dataReceived config files handler (front ++ back) =
      if (dataReceived config files handler front).2.2 = none then
        dataReceived config (dataReceived config files handler front).1
          (dataReceived config files handler front).2.1 back
      else dataReceived config files handler front := by
  induction front generalizing files handler with
  | nil => rfl
  | cons part rest ih =>
      rw [List.cons_append, dataReceived, dataReceived]
      cases taken : partReceived config handler files part with
      | mk after more =>
          obtain ⟨next, exception⟩ := more
          cases exception with
          | none => exact ih after next
          | some exception => rfl

theorem dataReceived_within (files : Files UInt8) (handler : Handler Args Member)
    (parts : List PartEvent)
    (within : handler.file.soFar + (parts.map PartEvent.fileBytes).sum ≤
      config.maxUploadFileSize) (exception : UploadException)
    (raises : (dataReceived config files handler parts).2.2 = some exception) :
    ∃ error, exception = .other error := by
  induction parts generalizing files handler with
  | nil => cases raises
  | cons part rest ih =>
      rw [List.map_cons, List.sum_cons] at within
      have first : ((partReceived config handler files part).2.2 = none ∧
          (partReceived config handler files part).2.1.file.soFar =
            handler.file.soFar + part.fileBytes) ∨
          ∃ error, (partReceived config handler files part).2.2 = some (.other error) := by
        cases part with
        | fileStart named => exact Or.inl ⟨rfl, rfl⟩
        | fileData bytes =>
            rw [PartEvent.fileBytes] at within
            rw [partReceived, if_neg (by omega)]
            cases handler.file.fd with
            | some writer => exact Or.inl ⟨rfl, rfl⟩
            | none =>
                cases handler.started with
                | true => exact Or.inr ⟨_, rfl⟩
                | false => exact Or.inl ⟨rfl, rfl⟩
        | fileFinish =>
            rw [partReceived]
            cases handler.file.fd with
            | none => exact Or.inl ⟨rfl, rfl⟩
            | some writer => exact Or.inl ⟨rfl, rfl⟩
        | paramsData bytes => exact Or.inl ⟨rfl, rfl⟩
        | malformed error => exact Or.inr ⟨error, rfl⟩
      rw [dataReceived] at raises
      cases taken : partReceived config handler files part with
      | mk after more =>
          obtain ⟨next, outcome⟩ := more
          rw [taken] at first raises
          rcases first with ⟨rfl, counted⟩ | ⟨error, rfl⟩
          · refine ih after next ?_ raises
            have counted : next.file.soFar = handler.file.soFar + part.fileBytes := counted
            omega
          · exact ⟨error, (Option.some.inj raises).symm⟩

end Parts

section Chunks

variable {Args Member : Type} {config : Config}

theorem receiveAll_append (files : Files UInt8) (handler : Handler Args Member)
    (front back : List Chunk) :
    receiveAll config files handler (front ++ back) =
      if (receiveAll config files handler front).2.2 = none then
        receiveAll config (receiveAll config files handler front).1
          (receiveAll config files handler front).2.1 back
      else receiveAll config files handler front := by
  induction front generalizing files handler with
  | nil => rfl
  | cons chunk rest ih =>
      rw [List.cons_append, receiveAll, receiveAll]
      cases taken : chunkReceived config handler files chunk with
      | mk after more =>
          obtain ⟨next, exception⟩ := more
          cases exception with
          | none => exact ih after next
          | some exception => rfl

theorem receiveAll_within (files : Files UInt8) (handler : Handler Args Member)
    (chunks : List Chunk)
    (within : handler.bodyLen + bodyBytes chunks ≤ config.maxUploadFileSize) :
    (receiveAll config files handler chunks).2.2 =
        (dataReceived config files handler (allParts chunks)).2.2 ∧
      ((receiveAll config files handler chunks).2.2 = none →
        (receiveAll config files handler chunks).2.1.bodyLen =
          handler.bodyLen + bodyBytes chunks) := by
  induction chunks generalizing files handler with
  | nil => exact ⟨rfl, fun _ => rfl⟩
  | cons chunk rest ih =>
      have sizes : bodyBytes (chunk :: rest) = chunk.size + bodyBytes rest := by
        simp [bodyBytes]
      rw [sizes] at within ⊢
      rw [receiveAll, chunkReceived, if_neg (by omega), dataReceived_bodyLen, allParts_cons,
        dataReceived_append]
      cases taken : dataReceived config files handler chunk.parts with
      | mk after more =>
          obtain ⟨next, exception⟩ := more
          cases exception with
          | some exception => exact ⟨rfl, fun finished => absurd finished (Option.some_ne_none _)⟩
          | none =>
              have later := ih after { next with bodyLen := handler.bodyLen + chunk.size }
                (by dsimp only; omega)
              rw [dataReceived_bodyLen] at later
              refine ⟨later.1, fun finished => ?_⟩
              rw [← Nat.add_assoc]
              exact later.2 finished

theorem exists_chunk_beyond (limit : Nat) (chunks : List Chunk)
    (beyond : limit < bodyBytes chunks) :
    ∃ front chunk rest, chunks = front ++ chunk :: rest ∧ bodyBytes front ≤ limit ∧
      limit < bodyBytes front + chunk.size := by
  induction chunks using List.reverseRecOn with
  | nil => exact absurd beyond (Nat.not_lt_zero limit)
  | append_singleton front chunk ih =>
      have sizes : bodyBytes (front ++ [chunk]) = bodyBytes front + chunk.size := by
        rw [bodyBytes_append]
        simp [bodyBytes]
      rw [sizes] at beyond
      by_cases before : limit < bodyBytes front
      · obtain ⟨first, other, rest, rfl, below, above⟩ := ih before
        exact ⟨first, other, rest ++ [chunk], by simp, below, above⟩
      · exact ⟨front, chunk, [], rfl, not_lt.mp before, beyond⟩

theorem raised_beyond (files : Files UInt8) (chunks : List Chunk)
    (beyond : config.maxUploadFileSize < bodyBytes chunks) :
    ∃ front chunk rest, chunks = front ++ chunk :: rest ∧
      bodyBytes front ≤ config.maxUploadFileSize ∧
      config.maxUploadFileSize < bodyBytes front + chunk.size ∧
      raised config Args Member files chunks =
        if (dataReceived config files (newHandler chunks : Handler Args Member)
            (allParts front)).2.2 = none
        then some (.maxBodySize (bodyBytes front + chunk.size))
        else (dataReceived config files (newHandler chunks : Handler Args Member)
          (allParts front)).2.2 := by
  obtain ⟨front, chunk, rest, split, below, above⟩ := exists_chunk_beyond _ chunks beyond
  refine ⟨front, chunk, rest, split, below, above, ?_⟩
  have whole : raised config Args Member files chunks =
      (receiveAll config files (newHandler chunks : Handler Args Member)
        (front ++ chunk :: rest)).2.2 := by
    rw [raised, ← split]
  have within : (newHandler chunks : Handler Args Member).bodyLen + bodyBytes front ≤
      config.maxUploadFileSize := by
    simpa [newHandler] using below
  obtain ⟨same, counted⟩ := receiveAll_within files _ front within
  rw [whole, receiveAll_append, ← same]
  split
  · rename_i finished
    have length := counted finished
    rw [newHandler, Nat.zero_add] at length
    rw [receiveAll, chunkReceived, if_pos (by rw [newHandler, length]; exact above)]
    rw [newHandler, length]
  · rfl

end Chunks

section Limits

variable {Args Member : Type} {config : Config}

theorem SizeException.isSome {outcome : Option UploadException} (size : SizeException outcome) :
    ∃ exception, outcome = some exception := by
  rcases size with same | ⟨bodyLen, same⟩
  · exact ⟨_, same⟩
  · exact ⟨_, same⟩

theorem not_sizeException_other (error : String) : ¬ SizeException (some (.other error)) := by
  intro either
  rcases either with same | ⟨bodyLen, same⟩ <;> cases same

theorem raises_other_within (request : RequestStream) (files : Files UInt8)
    (front : List Chunk) (first : front <+: request.chunks)
    (within : bodyBytes front ≤ config.maxUploadFileSize) (exception : UploadException)
    (raises : (dataReceived config files
      (newHandler request.chunks : Handler Args Member) (allParts front)).2.2 = some exception) :
    ∃ error, exception = .other error := by
  have file := (request.arrived front first).trans within
  refine dataReceived_within files _ (allParts front) ?_ exception raises
  simpa [newHandler, fileBytes] using file

theorem prefix_of_within {limit : Nat} {first front rest : List Chunk} {chunk : Chunk}
    (both : first <+: front ++ chunk :: rest) (within : bodyBytes first ≤ limit)
    (above : limit < bodyBytes front + chunk.size) : first <+: front := by
  have longer : front ++ [chunk] <+: front ++ chunk :: rest := ⟨rest, by simp⟩
  rcases List.prefix_or_prefix_of_prefix both longer with shorter | beyond
  · rcases List.prefix_concat_iff.mp shorter with rfl | before
    · rw [bodyBytes_append] at within
      simp only [bodyBytes, List.map_cons, List.map_nil, List.sum_cons, List.sum_nil] at *
      omega
    · exact before
  · obtain ⟨more, rfl⟩ := beyond
    rw [bodyBytes_append, bodyBytes_append] at within
    simp only [bodyBytes, List.map_cons, List.map_nil, List.sum_cons, List.sum_nil] at *
    omega

theorem dataReceived_prefix (files : Files UInt8) (handler : Handler Args Member)
    {front whole : List Chunk} (first : front <+: whole)
    (fails : (dataReceived config files handler (allParts front)).2.2 ≠ none) :
    (dataReceived config files handler (allParts whole)).2.2 =
      (dataReceived config files handler (allParts front)).2.2 := by
  obtain ⟨rest, rfl⟩ := first
  have parts : allParts (front ++ rest) = allParts front ++ allParts rest := by
    simp [allParts]
  rw [parts, dataReceived_append, if_neg fails]

theorem not_sizeException_of_short (files : Files UInt8) (request : RequestStream)
    (short : bodyBytes request.chunks ≤ config.maxUploadFileSize) :
    ¬ SizeException (raised config Args Member files request.chunks) := by
  intro size
  have within : (newHandler request.chunks : Handler Args Member).bodyLen +
      bodyBytes request.chunks ≤ config.maxUploadFileSize := by
    simpa [newHandler] using short
  rw [raised, (receiveAll_within files _ request.chunks within).1] at size
  obtain ⟨exception, raises⟩ := size.isSome
  obtain ⟨error, rfl⟩ := raises_other_within request files _ (List.prefix_refl _) short _ raises
  rw [raises] at size
  exact not_sizeException_other error size

theorem not_sizeException_of_fails (files : Files UInt8) (request : RequestStream)
    (fails : ParserFails config Args Member files request.chunks) :
    ¬ SizeException (raised config Args Member files request.chunks) := by
  by_cases short : bodyBytes request.chunks ≤ config.maxUploadFileSize
  · exact not_sizeException_of_short files request short
  · intro size
    obtain ⟨front, chunk, rest, split, below, above, ends⟩ :=
      @raised_beyond Args Member config files request.chunks (not_le.mp short)
    obtain ⟨earlier, others, error, parts, within, raises⟩ := fails
    have both : earlier <+: front ++ chunk :: rest := ⟨others, by rw [← parts, split]⟩
    have same := dataReceived_prefix files (newHandler request.chunks : Handler Args Member)
      (prefix_of_within both within above) (by rw [raises]; exact Option.some_ne_none _)
    rw [ends, same, raises, if_neg (Option.some_ne_none _)] at size
    exact not_sizeException_other error size

theorem sizeException_of_parses (files : Files UInt8) (request : RequestStream)
    (beyond : config.maxUploadFileSize < bodyBytes request.chunks)
    (parses : ¬ ParserFails config Args Member files request.chunks) :
    SizeException (raised config Args Member files request.chunks) := by
  obtain ⟨front, chunk, rest, split, below, above, ends⟩ :=
    @raised_beyond Args Member config files request.chunks beyond
  rw [ends]
  split
  · exact Or.inr ⟨_, rfl⟩
  · rename_i fails
    have first : front <+: request.chunks := ⟨chunk :: rest, split.symm⟩
    obtain ⟨exception, raises⟩ := Option.ne_none_iff_exists'.mp fails
    obtain ⟨error, rfl⟩ := raises_other_within request files front first below _ raises
    exact absurd ⟨front, chunk :: rest, error, split, below, raises⟩ parses

theorem raised_ne_none (files : Files UInt8) (chunks : List Chunk)
    (beyond : config.maxUploadFileSize < bodyBytes chunks) :
    raised config Args Member files chunks ≠ none := by
  obtain ⟨front, chunk, rest, -, -, -, ends⟩ :=
    @raised_beyond Args Member config files chunks beyond
  rw [ends]
  split
  · exact Option.some_ne_none _
  · assumption

/-- The limits are those of the messages exactly if the body is within the limit for the file,
or is over its own, or the file is over its limit, or the parser fails before. -/
theorem limits_applied_iff (config : Config) (files : Files UInt8) (request : RequestStream) :
    LimitsApplied config Args Member files request.chunks ↔
      bodyBytes request.chunks ≤ config.maxUploadFileSize ∨
        config.maxUploadFileSize * 2 < bodyBytes request.chunks ∨
          config.maxUploadFileSize < fileBytes request.chunks ∨
            ParserFails config Args Member files request.chunks := by
  have arrived := request.arrived request.chunks (List.prefix_refl _)
  constructor
  · intro applied
    by_contra otherwise
    simp only [not_or, not_le, not_lt] at otherwise
    obtain ⟨beyond, body, file, parses⟩ := otherwise
    exact applied.passed file body (sizeException_of_parses files request beyond parses)
  · intro either
    refine ⟨fun file body => ?_, fun larger => raised_ne_none files _ ?_⟩
    · rcases either with short | longer | larger | fails
      · exact not_sizeException_of_short files request short
      · omega
      · omega
      · exact not_sizeException_of_fails files request fails
    · rcases larger with file | body <;> omega

def smallUpload : RequestStream where
  chunks := [⟨6, [.fileStart true, .fileData [1, 2], .fileFinish]⟩]
  arrived := by
    intro front first
    rcases List.prefix_concat_iff.mp (show front <+: [] ++ [_] from first) with rfl | before
    · decide
    · rw [List.prefix_nil.mp before]
      decide

/-- With a limit of four bytes for the file the body may have eight, and six are rejected. -/
theorem small_upload_rejected :
    ¬ ∀ (config : Config) (files : Files UInt8) (request : RequestStream),
      LimitsApplied config Unit Unit files request.chunks := by
  intro claimed
  have applied := claimed ⟨4, "/jobs", "/tmp"⟩ ⟨none, fun _ => [], 0⟩ smallUpload
  exact applied.passed (by decide) (by decide) (Or.inr ⟨6, rfl⟩)

end Limits

end ScalarLM.Upload
