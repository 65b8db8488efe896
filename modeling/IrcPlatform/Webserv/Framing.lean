import IrcPlatform.Library.Digits
import IrcPlatform.Webserv.HeadForm
import IrcPlatform.Webserv.Messages

/-!
# Framing of responses

When the bytes of a response parse as one message: its header block ends at the first blank
line, its lines hold no other line break, and the body is framed by a single length.
-/

namespace IrcPlatform.Webserv

open Std

/-! ## One message -/

def headerName (line : Bytes) : Bytes := lower (line.takeWhile (· != byte ':'))

/-- A header block that frames a body of this length. -/
structure HeaderBlock (head : Bytes) (length : Nat) : Prop where
  unbroken : ∀ line ∈ crlfLines head, 13 ∉ line ∧ 10 ∉ line
  contentLength : (crlfLines head).tail.filter (fun line =>
    headerName line == ascii "content-length") = [ascii "Content-Length: " ++ decimal length]
  connection : ((crlfLines head).tail.filter fun line =>
    headerName line == ascii "connection").length = 1
  transferEncoding : ∀ line ∈ (crlfLines head).tail, headerName line ≠ ascii "transfer-encoding"

/-- The bytes are one message with this body. -/
def SingleMessage (raw body : Bytes) : Prop :=
  ∃ headEnd, findFrom blankLine raw 0 = some headEnd ∧ raw.drop (headEnd + 4) = body ∧
    HeaderBlock (raw.take headEnd) body.length

/-- The names that `serialize` writes itself, and the one that would change the framing. -/
def framingNames : List Bytes :=
  [ascii "content-length", ascii "connection", ascii "transfer-encoding"]

/-- A header field that leaves the framing alone. -/
structure Harmless (entry : Bytes × Bytes) : Prop where
  name : 13 ∉ entry.1
  value : 13 ∉ entry.2
  free : lower entry.1 ∉ framingNames

instance (entry : Bytes × Bytes) : Decidable (Harmless entry) :=
  decidable_of_iff (13 ∉ entry.1 ∧ 13 ∉ entry.2 ∧ lower entry.1 ∉ framingNames)
    ⟨fun facts => ⟨facts.1, facts.2.1, facts.2.2⟩,
      fun harmless => ⟨harmless.name, harmless.value, harmless.free⟩⟩

/-! ## Lines -/

/-- Lines with their ends. -/
def endedLines (lines : List Bytes) : Bytes := (lines.map (· ++ crlf)).flatten

theorem crlfLines_cons {c : UInt8} {rest : Bytes} (apart : c = 13 → rest.head? ≠ some 10) :
    crlfLines (c :: rest) = (crlfLines rest).modifyHead (c :: ·) := by
  rw [crlfLines]
  rintro more rfl rfl
  exact apart rfl rfl

theorem head?_ne_of_free {line text : Bytes} (free : 10 ∉ line) (after : text.head? ≠ some 10) :
    (line ++ text).head? ≠ some 10 := by
  cases line with
  | nil => exact after
  | cons c line =>
      intro first
      exact free (Option.some.inj first ▸ List.mem_cons_self)

/-- A line without a line feed is cut where it ends. -/
theorem crlfLines_append {line : Bytes} (free : 10 ∉ line) (rest : Bytes) :
    crlfLines (line ++ (crlf ++ rest)) = line :: crlfLines rest := by
  induction line with
  | nil => rfl
  | cons c line ih =>
      rw [List.mem_cons, not_or] at free
      have after : (crlf ++ rest).head? ≠ some 10 := by simp [crlf]
      rw [List.cons_append, crlfLines_cons fun _ => head?_ne_of_free free.2 after, ih free.2,
        List.modifyHead_cons]

theorem crlfLines_last {line : Bytes} (free : 10 ∉ line) : crlfLines line = [line] := by
  induction line with
  | nil => rfl
  | cons c line ih =>
      rw [List.mem_cons, not_or] at free
      have after : line.head? ≠ some 10 := fun first => free.2 (List.mem_of_head? first)
      rw [crlfLines_cons fun _ => after, ih free.2, List.modifyHead_cons]

theorem endedLines_cons (line : Bytes) (lines : List Bytes) :
    endedLines (line :: lines) = line ++ (crlf ++ endedLines lines) := by
  rw [endedLines, List.map_cons, List.flatten_cons, List.append_assoc]
  rfl

theorem crlfLines_ended {lines : List Bytes} (free : ∀ line ∈ lines, 10 ∉ line) {last : Bytes}
    (freeLast : 10 ∉ last) : crlfLines (endedLines lines ++ last) = lines ++ [last] := by
  induction lines with
  | nil => exact crlfLines_last freeLast
  | cons line lines ih =>
      rw [List.forall_mem_cons] at free
      rw [endedLines_cons, List.append_assoc, List.append_assoc, crlfLines_append free.1,
        ih free.2, List.cons_append]

/-! ## The end of the block -/

/-- No blank line begins in a line without a line feed. -/
theorem indexOf_blankLine_line {line text : Bytes} (free : 10 ∉ line)
    (ended : text.head? = some 13) :
    indexOf blankLine (line ++ text) = (indexOf blankLine text).map (line.length + ·) := by
  refine indexOf_append fun position before occurs => ?_
  have second : (line ++ text)[position + 1]? = some 10 := occurs.getElem?_add (by decide)
  by_cases inside : position + 1 < line.length
  · rw [List.getElem?_append_left inside] at second
    exact free (List.mem_of_getElem? second)
  · have place : position + 1 = line.length + 0 := by omega
    rw [place, List.getElem?_append_right (by omega), Nat.add_sub_cancel_left,
      ← List.head?_eq_getElem?, ended] at second
    exact absurd second (by decide)

/-- The end of a line is not the blank line when another line follows. -/
theorem indexOf_blankLine_crlf {text : Bytes} (other : ¬crlf <+: text) :
    indexOf blankLine (crlf ++ text) = (indexOf blankLine text).map (2 + ·) := by
  refine indexOf_append fun position before occurs => ?_
  rcases Nat.le_one_iff_eq_zero_or_eq_one.mp (Nat.le_of_lt_succ before) with rfl | rfl
  · exact other ((List.prefix_append_right_inj crlf).mp occurs)
  · have here := occurs.getElem?
    simp [crlf] at here

/-- A line does not begin with the end of a line. -/
theorem not_crlf_prefix {line text : Bytes} (nonempty : line ≠ []) (free : 10 ∉ line)
    (ended : text.head? = some 13) : ¬crlf <+: line ++ text := by
  rcases List.exists_cons_of_ne_nil nonempty with ⟨c, rest, rfl⟩
  rw [List.mem_cons, not_or] at free
  intro begins
  rw [List.cons_append, crlf, List.cons_prefix_cons] at begins
  have after : text.head? ≠ some 10 := by simp [ended]
  rcases begins.2 with ⟨behind, same⟩
  exact head?_ne_of_free free.2 after (by rw [← same]; rfl)

/-- Lines without line feeds end at the blank line behind them. -/
theorem indexOf_blankLine_ended {lines : List Bytes}
    (proper : ∀ line ∈ lines, line ≠ [] ∧ 10 ∉ line) {last : Bytes} (nonempty : last ≠ [])
    (freeLast : 10 ∉ last) (body : Bytes) :
    indexOf blankLine (endedLines lines ++ last ++ (blankLine ++ body)) =
      some (endedLines lines ++ last).length := by
  induction lines with
  | nil =>
      have here : indexOf blankLine (blankLine ++ body) = some 0 := rfl
      rw [endedLines, List.map_nil, List.flatten_nil, List.nil_append,
        indexOf_blankLine_line freeLast rfl, here]
      rfl
  | cons line lines ih =>
      rw [List.forall_mem_cons] at proper
      have follows : ¬crlf <+: endedLines lines ++ last ++ (blankLine ++ body) := by
        cases lines with
        | nil => exact not_crlf_prefix nonempty freeLast rfl
        | cons next others =>
            have own := proper.2 next List.mem_cons_self
            rw [endedLines_cons, List.append_assoc, List.append_assoc]
            exact not_crlf_prefix own.1 own.2 rfl
      rw [endedLines_cons, List.append_assoc, List.append_assoc, List.append_assoc,
        indexOf_blankLine_line proper.1.2 rfl, ← List.append_assoc (endedLines lines),
        indexOf_blankLine_crlf follows, ih proper.2]
      simp only [Option.map_some, Option.some.injEq, List.length_append, crlf, List.length_cons,
        List.length_nil]
      omega

/-! ## The lines of a response -/

theorem plain_decimal (value : Nat) : 13 ∉ decimal value ∧ 10 ∉ decimal value := by
  have apart {c : UInt8} (other : isAsciiDigit c = false) : c ∉ decimal value := by
    intro listed
    rw [isAsciiDigit_of_mem_decimal listed] at other
    exact Bool.noConfusion other
  exact ⟨apart (by decide), apart (by decide)⟩

theorem plain_reasonPhrase (status : Nat) :
    13 ∉ reasonPhrase status ∧ 10 ∉ reasonPhrase status := by
  unfold reasonPhrase
  split <;> decide

namespace Response

variable {response : Response}

def lengthLine (response : Response) : Bytes :=
  ascii "Content-Length: " ++ decimal response.body.length

def closeLine : Bytes := ascii "Connection: close"

/-- The lines before the last one. -/
def upperLines (response : Response) : List Bytes :=
  response.statusLine :: response.fields.map headerLine ++ [response.lengthLine]

theorem serialize_eq (response : Response) : response.serialize =
    endedLines response.upperLines ++ closeLine ++ blankLine ++ response.body := by
  simp [serialize, endedLines, upperLines, closeLine, lengthLine, blankLine, Function.comp_def]

theorem statusLine_plain (response : Response) :
    response.statusLine ≠ [] ∧ 13 ∉ response.statusLine ∧ 10 ∉ response.statusLine := by
  have phrase := plain_reasonPhrase response.status
  have digits := plain_decimal response.status
  have words : 13 ∉ ascii "HTTP/1.1 " ∧ 10 ∉ ascii "HTTP/1.1 " ∧ 13 ∉ ascii " " ∧
      10 ∉ ascii " " := by
    decide
  refine ⟨?_, ?_, ?_⟩
  · simp [statusLine, ascii]
  · simp only [statusLine, List.mem_append, not_or]
    exact ⟨⟨⟨words.1, digits.1⟩, words.2.2.1⟩, phrase.1⟩
  · simp only [statusLine, List.mem_append, not_or]
    exact ⟨⟨⟨words.2.1, digits.2⟩, words.2.2.2⟩, phrase.2⟩

theorem lengthLine_plain (response : Response) :
    response.lengthLine ≠ [] ∧ 13 ∉ response.lengthLine ∧ 10 ∉ response.lengthLine := by
  have digits := plain_decimal response.body.length
  have words : 13 ∉ ascii "Content-Length: " ∧ 10 ∉ ascii "Content-Length: " := by decide
  refine ⟨?_, ?_, ?_⟩
  · simp [lengthLine, ascii]
  · simp only [lengthLine, List.mem_append, not_or]
    exact ⟨words.1, digits.1⟩
  · simp only [lengthLine, List.mem_append, not_or]
    exact ⟨words.2, digits.2⟩

/-- A field as the handlers build it: no line feed, and no colon in the name. -/
def Wordly (entry : Bytes × Bytes) : Prop := 10 ∉ entry.1 ∧ 10 ∉ entry.2 ∧ byte ':' ∉ entry.1

instance (entry : Bytes × Bytes) : Decidable (Wordly entry) :=
  inferInstanceAs (Decidable (10 ∉ entry.1 ∧ 10 ∉ entry.2 ∧ byte ':' ∉ entry.1))

theorem securityHeaders_harmless : ∀ entry ∈ securityHeaders, Harmless entry ∧ Wordly entry := by
  decide +kernel

theorem mem_fields {entry : Bytes × Bytes} (listed : entry ∈ response.fields) :
    entry ∈ securityHeaders ∨ entry ∈ response.headers.toList := by
  rw [fields] at listed
  rcases List.mem_append.mp listed with policy | own
  · exact Or.inl (List.mem_of_mem_filter policy)
  · exact Or.inr own

/-- The line is cut at the colon behind the name. -/
theorem headerLine_colon {entry : Bytes × Bytes} (word : byte ':' ∉ entry.1) :
    (headerLine entry).takeWhile (· != byte ':') = entry.1 ∧
      (headerLine entry).dropWhile (· != byte ':') = ascii ": " ++ entry.2 := by
  have inside : ∀ c ∈ entry.1, (c != byte ':') = true := by
    intro c listed
    rw [bne_iff_ne]
    rintro rfl
    exact word listed
  have colon : ascii ": " ++ entry.2 = byte ':' :: (ascii " " ++ entry.2) := rfl
  rw [headerLine, List.append_assoc, List.takeWhile_append_of_pos inside,
    List.dropWhile_append_of_pos inside, colon, List.takeWhile_cons_of_neg (by simp),
    List.dropWhile_cons_of_neg (by simp), List.append_nil]
  exact ⟨rfl, rfl⟩

theorem headerName_headerLine {entry : Bytes × Bytes} (word : byte ':' ∉ entry.1) :
    headerName (headerLine entry) = lower entry.1 := by
  rw [headerName, (headerLine_colon word).1]

theorem headerLine_unbroken {entry : Bytes × Bytes} (harmless : Harmless entry) :
    13 ∉ headerLine entry := by
  have colon : 13 ∉ ascii ": " := by decide
  simp only [headerLine, List.mem_append, not_or]
  exact ⟨⟨harmless.name, colon⟩, harmless.value⟩

theorem closeLine_plain : closeLine ≠ [] ∧ 13 ∉ closeLine ∧ 10 ∉ closeLine := by
  decide

theorem wordly_of_mem_fields (wordly : ∀ entry ∈ response.headers.toList, Wordly entry)
    {entry : Bytes × Bytes} (listed : entry ∈ response.fields) : Wordly entry := by
  rcases mem_fields listed with policy | own
  · exact (securityHeaders_harmless entry policy).2
  · exact wordly entry own

theorem harmless_of_mem_fields (harmless : ∀ entry ∈ response.headers.toList, Harmless entry)
    {entry : Bytes × Bytes} (listed : entry ∈ response.fields) : Harmless entry := by
  rcases mem_fields listed with policy | own
  · exact (securityHeaders_harmless entry policy).1
  · exact harmless entry own

theorem mem_upperLines {line : Bytes} : line ∈ response.upperLines ↔
    line = response.statusLine ∨ (∃ entry ∈ response.fields, headerLine entry = line) ∨
      line = response.lengthLine := by
  simp [upperLines]

theorem upperLines_free (wordly : ∀ entry ∈ response.headers.toList, Wordly entry) :
    ∀ line ∈ response.upperLines, line ≠ [] ∧ 10 ∉ line := by
  intro line listed
  rcases mem_upperLines.mp listed with rfl | ⟨entry, own, rfl⟩ | rfl
  · exact ⟨response.statusLine_plain.1, response.statusLine_plain.2.2⟩
  · have words := wordly_of_mem_fields wordly own
    have colon : 10 ∉ ascii ": " := by decide
    refine ⟨by simp [headerLine, ascii], ?_⟩
    simp only [headerLine, List.mem_append, not_or]
    exact ⟨⟨words.1, colon⟩, words.2.1⟩
  · exact ⟨response.lengthLine_plain.1, response.lengthLine_plain.2.2⟩

theorem upperLines_unbroken (harmless : ∀ entry ∈ response.headers.toList, Harmless entry) :
    ∀ line ∈ response.upperLines, 13 ∉ line := by
  intro line listed
  rcases mem_upperLines.mp listed with rfl | ⟨entry, own, rfl⟩ | rfl
  · exact response.statusLine_plain.2.1
  · exact headerLine_unbroken (harmless_of_mem_fields harmless own)
  · exact response.lengthLine_plain.2.1

/-! ## The block of a response -/

/-- What stands before the blank line of a response. -/
def block (response : Response) : Bytes := endedLines response.upperLines ++ closeLine

theorem serialize_block (response : Response) :
    response.serialize = response.block ++ (blankLine ++ response.body) := by
  rw [serialize_eq, block, List.append_assoc (endedLines _ ++ closeLine)]

/-- The blank line behind the fields is the first one. -/
theorem findFrom_serialize (wordly : ∀ entry ∈ response.headers.toList, Wordly entry) :
    findFrom blankLine response.serialize 0 = some response.block.length := by
  rw [findFrom, List.drop_zero, serialize_block, block,
    indexOf_blankLine_ended (upperLines_free wordly) closeLine_plain.1 closeLine_plain.2.2,
    Option.map_some, Nat.zero_add]

/-- A response is one message when the block before its body frames it. -/
theorem singleMessage_iff (wordly : ∀ entry ∈ response.headers.toList, Wordly entry) :
    SingleMessage response.serialize response.body ↔
      HeaderBlock response.block response.body.length := by
  have blankLength : blankLine.length = 4 := rfl
  have body : response.serialize.drop (response.block.length + 4) = response.body := by
    rw [serialize_block, ← blankLength, ← List.drop_drop, List.drop_left, List.drop_left]
  have front : response.serialize.take response.block.length = response.block := by
    rw [serialize_block, List.take_left]
  unfold SingleMessage
  rw [findFrom_serialize wordly]
  simp only [Option.some.injEq, exists_eq_left', body, front, true_and]

theorem crlfLines_block (wordly : ∀ entry ∈ response.headers.toList, Wordly entry) :
    crlfLines response.block = response.upperLines ++ [closeLine] :=
  crlfLines_ended (fun line listed => (upperLines_free wordly line listed).2) closeLine_plain.2.2

theorem tail_crlfLines_block (wordly : ∀ entry ∈ response.headers.toList, Wordly entry) :
    (crlfLines response.block).tail =
      response.fields.map headerLine ++ [response.lengthLine, closeLine] := by
  rw [crlfLines_block wordly]
  simp [upperLines]

theorem headerName_lengthLine (response : Response) :
    headerName response.lengthLine = ascii "content-length" := by
  have word : byte ':' ∉ ascii "Content-Length" := by decide
  have spelled : lower (ascii "Content-Length") = ascii "content-length" := by decide
  have line : response.lengthLine =
      headerLine (ascii "Content-Length", decimal response.body.length) := by
    simp [lengthLine, headerLine, ascii]
  rw [line, headerName_headerLine word]
  exact spelled

theorem headerName_closeLine : headerName closeLine = ascii "connection" := by
  decide

/-- The lines of a name in the block. -/
theorem named_block (wordly : ∀ entry ∈ response.headers.toList, Wordly entry) (name : Bytes) :
    (crlfLines response.block).tail.filter (fun line => headerName line == name) =
      (response.fields.map headerLine).filter (fun line => headerName line == name) ++
        ((if ascii "content-length" = name then [response.lengthLine] else []) ++
          if ascii "connection" = name then [closeLine] else []) := by
  rw [tail_crlfLines_block wordly, List.filter_append]
  congr 1
  simp only [List.filter_cons, headerName_lengthLine, headerName_closeLine, beq_iff_eq,
    List.filter_nil]
  split <;> simp

/-- No line of a field has a name that no field has. -/
theorem filter_fieldLines (wordly : ∀ entry ∈ response.headers.toList, Wordly entry)
    (name : Bytes) :
    (response.fields.map headerLine).filter (fun line => headerName line == name) = [] ↔
      ∀ entry ∈ response.fields, lower entry.1 ≠ name := by
  rw [List.filter_eq_nil_iff, List.forall_mem_map]
  refine forall₂_congr fun entry own => ?_
  rw [headerName_headerLine (wordly_of_mem_fields wordly own).2.2, beq_iff_eq]

/-- The block frames the body when no field interferes, and only then. -/
theorem headerBlock_iff (wordly : ∀ entry ∈ response.headers.toList, Wordly entry) :
    HeaderBlock response.block response.body.length ↔
      ∀ entry ∈ response.headers.toList, Harmless entry := by
  constructor
  · intro head entry own
    have field : entry ∈ response.fields := List.mem_append_right _ own
    have line : headerLine entry ∈ response.fields.map headerLine := List.mem_map_of_mem field
    have whole : 13 ∉ headerLine entry := by
      refine (head.unbroken _ ?_).1
      rw [crlfLines_block wordly]
      exact List.mem_append_left _ (mem_upperLines.mpr (Or.inr (Or.inl ⟨entry, field, rfl⟩)))
    simp only [headerLine, List.mem_append, not_or] at whole
    have named := headerName_headerLine (wordly entry own).2.2
    refine ⟨whole.1.1, whole.2, ?_⟩
    have length := head.contentLength
    have connection := head.connection
    rw [named_block wordly] at length connection
    simp only [framingNames, List.mem_cons, List.not_mem_nil, or_false, not_or]
    -- a line of a field with one of the two names is one too many
    refine ⟨?_, ?_, ?_⟩
    · have single := congrArg List.length length
      rw [List.length_append, if_pos rfl, if_neg (by decide)] at single
      simp only [List.append_nil, List.length_singleton, Nat.add_eq_right] at single
      exact (filter_fieldLines wordly _).mp (List.eq_nil_of_length_eq_zero single) entry field
    · rw [List.length_append, if_neg (by decide), if_pos rfl] at connection
      simp only [List.nil_append, List.length_singleton, Nat.add_eq_right] at connection
      exact (filter_fieldLines wordly _).mp (List.eq_nil_of_length_eq_zero connection) entry field
    · rw [← named]
      refine head.transferEncoding _ ?_
      rw [tail_crlfLines_block wordly]
      exact List.mem_append_left _ line
  · intro harmless
    have free {name : Bytes} (framing : name ∈ framingNames) :
        (response.fields.map headerLine).filter (fun line => headerName line == name) = [] := by
      rw [filter_fieldLines wordly]
      rintro entry own rfl
      exact (harmless_of_mem_fields harmless own).free framing
    constructor
    · intro line listed
      rw [crlfLines_block wordly] at listed
      rcases List.mem_append.mp listed with upper | last
      · exact ⟨upperLines_unbroken harmless line upper, (upperLines_free wordly line upper).2⟩
      · rw [List.mem_singleton.mp last]
        exact closeLine_plain.2
    · rw [named_block wordly, free List.mem_cons_self, if_pos rfl, if_neg (by decide)]
      rfl
    · rw [named_block wordly, free (List.mem_cons_of_mem _ List.mem_cons_self),
        if_neg (by decide), if_pos rfl]
      rfl
    · intro line listed named
      have none_ := named_block wordly (ascii "transfer-encoding")
      rw [free (by decide), if_neg (by decide), if_neg (by decide), List.append_nil,
        List.append_nil, List.filter_eq_nil_iff] at none_
      exact none_ line listed (beq_iff_eq.mpr named)

/-- A response is one message when none of its fields interferes, and only then. -/
theorem framed_iff (wordly : ∀ entry ∈ response.headers.toList, Wordly entry) :
    SingleMessage response.serialize response.body ↔
      ∀ entry ∈ response.headers.toList, Harmless entry :=
  (singleMessage_iff wordly).trans (headerBlock_iff wordly)

end Response

end IrcPlatform.Webserv
