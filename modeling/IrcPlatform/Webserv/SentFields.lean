import IrcPlatform.Webserv.Outputs

/-!
# Fields on the wire

The header fields that a client reads from the bytes of a response, beside those that a script
wrote and the policies that every response has to carry.
-/

namespace IrcPlatform.Webserv

open Std

/-- The fields that are read from the bytes of a response. -/
def sentFields (raw : Bytes) : List (Bytes × Bytes) :=
  match findFrom blankLine raw 0 with
  | none => []
  | some headEnd => (crlfLines (raw.take headEnd)).tail.map CgiHandler.lineField

/-- White space around a name or a value is not read back. -/
def trimmed (entry : Bytes × Bytes) : Bytes × Bytes := (trim entry.1, trim entry.2)

theorem trim_trim (value : Bytes) : trim (trim value) = trim value :=
  strip_eq_self (fun _ => strip_head) (fun _ => strip_last)

namespace Response

variable {response : Response}

theorem lineField_headerLine {entry : Bytes × Bytes} (word : byte ':' ∉ entry.1) :
    CgiHandler.lineField (headerLine entry) = trimmed entry := by
  have blank : ∀ c ∈ ascii " ", isTrimmed c = true := by decide +kernel
  rcases headerLine_colon word with ⟨name, value⟩
  have behind : (ascii ": " ++ entry.2).drop 1 = ascii " " ++ entry.2 := rfl
  rw [CgiHandler.lineField, sentName, fieldValue, name, value, behind, trim_eq_strip (_ ++ _),
    strip_append_front blank]
  rfl

def lengthField (response : Response) : Bytes × Bytes :=
  (ascii "Content-Length", decimal response.body.length)

def closeField : Bytes × Bytes := (ascii "Connection", ascii "close")

/-- The fields are read back in the order in which they were written. -/
theorem sentFields_serialize (wordly : ∀ entry ∈ response.headers.toList, Wordly entry) :
    sentFields response.serialize =
      response.fields.map trimmed ++ [trimmed response.lengthField, closeField] := by
  have word : byte ':' ∉ ascii "Content-Length" := by decide
  have line : response.lengthLine = headerLine response.lengthField := by
    simp [lengthLine, headerLine, lengthField, ascii]
  have own : (response.fields.map headerLine).map CgiHandler.lineField =
      response.fields.map trimmed := by
    rw [List.map_map]
    exact List.map_congr_left fun entry listed =>
      lineField_headerLine (wordly_of_mem_fields wordly listed).2.2
  have length : CgiHandler.lineField response.lengthLine = trimmed response.lengthField := by
    rw [line]
    exact lineField_headerLine word
  rw [sentFields, findFrom_serialize wordly]
  dsimp only
  rw [serialize_block, List.take_left, tail_crlfLines_block wordly, List.map_append, own,
    List.map_cons, length]
  rfl

end Response

namespace CgiHandler

/-! ## The fields of a script -/

variable {lines : List Bytes} {response : Response} {body : Bytes}

theorem mem_headers_responseOf (made : responseOf lines body = some response)
    {entry : Bytes × Bytes} : entry ∈ response.headers.toList ↔
      entry ∈ (lastEntries compare (keptFields lines)).toList ∨
        (entry = textType ∧ (keptFields lines).any isContentType = false) := by
  rcases Option.map_eq_some_iff.mp made with ⟨state, added, rfl⟩
  exact mem_withContentType added

theorem wordly_responseOf (plain : ∀ line ∈ lines, 10 ∉ line)
    (made : responseOf lines body = some response) :
    ∀ entry ∈ response.headers.toList, Response.Wordly entry := by
  rcases Option.map_eq_some_iff.mp made with ⟨state, added, rfl⟩
  exact wordly_withContentType added plain

theorem lineField_trimmed (line : Bytes) : trimmed (lineField line) = lineField line := by
  rw [trimmed, lineField, sentName, trim_trim, trim_trim]

theorem trimmed_of_mem_headers (made : responseOf lines body = some response) :
    ∀ entry ∈ response.headers.toList, trimmed entry = entry := by
  intro entry listed
  rcases (mem_headers_responseOf made).mp listed with own | ⟨rfl, _⟩
  · rcases mem_keptFields.mp (mem_of_mem_lastEntries own) with ⟨line, _, _, rfl⟩
    exact lineField_trimmed line
  · decide

/-- The fields of an accepted output are read back after the policies that it leaves out. -/
theorem sentFields_responseOf (plain : ∀ line ∈ lines, 10 ∉ line)
    (made : responseOf lines body = some response) : sentFields response.serialize =
      response.fields ++ [trimmed response.lengthField, Response.closeField] := by
  have same : response.fields.map trimmed = response.fields := by
    refine List.map_congr_left (g := id) (fun entry listed => ?_) |>.trans (List.map_id _)
    rcases Response.mem_fields listed with policy | own
    · exact (by decide +kernel : ∀ entry ∈ securityHeaders, trimmed entry = entry) entry policy
    · exact trimmed_of_mem_headers made entry own
  rw [Response.sentFields_serialize (wordly_responseOf plain made), same]

/-! ## What a script writes -/

/-- The fields that are added to those of a script. -/
def defaultFields : List (Bytes × Bytes) := textType :: securityHeaders

/-- Every field of the lines is sent as often as it was written, and beside them only the two
fields of the framing and the defaults that the lines do not set. -/
structure SendsFields (lines : List Bytes) (raw : Bytes) : Prop where
  own : ∀ entry ∈ keptFields lines, (sentFields raw).count entry = (keptFields lines).count entry
  others : ∀ entry ∈ sentFields raw, entry ∈ keptFields lines ∨
    entry.1 ∈ [ascii "Content-Length", ascii "Connection"] ∨
    (entry ∈ defaultFields ∧ ∀ kept ∈ keptFields lines, lower kept.1 ≠ lower entry.1)

theorem hasHeader_iff {headers : ExtTreeMap Bytes Bytes} {name : Bytes} :
    hasHeader headers name = true ↔ ∃ entry ∈ headers.toList, lower entry.1 = name := by
  simp [hasHeader]

/-- A field that a line sets is in the headers under its name. -/
theorem exists_header_of_kept (made : responseOf lines body = some response)
    {entry : Bytes × Bytes} (kept : entry ∈ keptFields lines) :
    ∃ own ∈ response.headers.toList, own.1 = entry.1 := by
  rcases exists_mem_lastEntries compare kept with ⟨own, listed, same⟩
  exact ⟨own, (mem_headers_responseOf made).mpr (Or.inl listed), same⟩

/-- A policy that is added has a name that no line sets. -/
theorem name_ne_of_added (made : responseOf lines body = some response)
    {policy : Bytes × Bytes}
    (added : policy ∈ securityHeaders.filter fun entry => !hasHeader response.headers entry.1)
    {entry : Bytes × Bytes} (kept : entry ∈ keptFields lines) :
    lower entry.1 ≠ lower policy.1 := by
  rcases List.mem_filter.mp added with ⟨listed, absent⟩
  rcases exists_header_of_kept made kept with ⟨own, inHeaders, same⟩
  have small : ∀ entry ∈ securityHeaders, lower entry.1 = entry.1 := by decide +kernel
  intro equal
  have present : hasHeader response.headers policy.1 = true :=
    hasHeader_iff.mpr ⟨own, inHeaders, by rw [same, equal, small policy listed]⟩
  rw [present] at absent
  exact Bool.false_ne_true absent

theorem count_sentFields (plain : ∀ line ∈ lines, 10 ∉ line)
    (made : responseOf lines body = some response) {entry : Bytes × Bytes}
    (kept : entry ∈ keptFields lines) : (sentFields response.serialize).count entry =
      (lastEntries compare (keptFields lines)).toList.count entry := by
  have policies : (securityHeaders.filter fun entry =>
      !hasHeader response.headers entry.1).count entry = 0 :=
    List.count_eq_zero_of_not_mem fun added => name_ne_of_added made added kept rfl
  have framing : [trimmed response.lengthField, Response.closeField].count entry = 0 := by
    rcases mem_keptFields.mp kept with ⟨line, _, keeps, rfl⟩
    have spelled : lower (ascii "Content-Length") = ascii "content-length" ∧
        lower (ascii "Connection") = ascii "connection" := by
      decide
    have name : lower (lineField line).1 ∉ [ascii "status", ascii "content-length",
      ascii "connection"] := keeps
    refine List.count_eq_zero_of_not_mem fun listed => name ?_
    rcases List.mem_cons.mp listed with same | listed
    · rw [same]
      exact List.mem_cons_of_mem _ (spelled.1 ▸ List.mem_cons_self)
    · rw [List.mem_singleton.mp listed]
      exact List.mem_cons_of_mem _ (List.mem_cons_of_mem _ (spelled.2 ▸ List.mem_cons_self))
  have own : response.headers.toList.count entry =
      (lastEntries compare (keptFields lines)).toList.count entry := by
    have same : entry ∈ response.headers.toList ↔
        entry ∈ (lastEntries compare (keptFields lines)).toList := by
      refine (mem_headers_responseOf made).trans (or_iff_left ?_)
      rintro ⟨rfl, untyped⟩
      rw [List.any_eq_false] at untyped
      exact untyped textType kept (by decide)
    rw [(nodup_toList _).count, (nodup_toList _).count]
    simp only [same]
  rw [sentFields_responseOf plain made, Response.fields, List.count_append, List.count_append,
    policies, framing, own, Nat.zero_add, Nat.add_zero]

theorem others_of_responseOf (plain : ∀ line ∈ lines, 10 ∉ line)
    (made : responseOf lines body = some response) {entry : Bytes × Bytes}
    (sent : entry ∈ sentFields response.serialize) : entry ∈ keptFields lines ∨
      entry.1 ∈ [ascii "Content-Length", ascii "Connection"] ∨
      (entry ∈ defaultFields ∧ ∀ kept ∈ keptFields lines, lower kept.1 ≠ lower entry.1) := by
  rw [sentFields_responseOf plain made, Response.fields, List.append_assoc, List.mem_append,
    List.mem_append] at sent
  rcases sent with policy | own | framing
  · refine Or.inr (Or.inr ⟨List.mem_cons_of_mem _ (List.mem_of_mem_filter policy), ?_⟩)
    exact fun kept listed => name_ne_of_added made policy listed
  · rcases (mem_headers_responseOf made).mp own with kept | ⟨rfl, untyped⟩
    · exact Or.inl (mem_of_mem_lastEntries kept)
    · refine Or.inr (Or.inr ⟨List.mem_cons_self, fun kept listed same => ?_⟩)
      rw [List.any_eq_false] at untyped
      refine untyped kept listed ?_
      rw [isContentType, same]
      decide
  · refine Or.inr (Or.inl ?_)
    rcases List.mem_cons.mp framing with same | last
    · rw [same]
      exact List.mem_cons_self
    · rw [List.mem_singleton.mp last]
      exact List.mem_cons_of_mem _ List.mem_cons_self

theorem lineFeed_not_mem_headLines (block : Bytes) : ∀ line ∈ headLines block, 10 ∉ line := by
  rw [← linesOf_eq_headLines le_rfl]
  exact fun line => lineFeed_not_mem_linesOf

/-- The fields of an accepted output are sent as the script wrote them exactly when no two of
them have the same name in the same spelling. -/
theorem makeResponse_sendsFields_iff {output block : Bytes}
    (split : splitOutput output = some (block, body))
    (accepted : ∀ line ∈ headLines block, ¬Refused line) (disk : Disk) (server : ServerConfig) :
    SendsFields (headLines block) (makeResponse disk output server).serialize ↔
      ((keptFields (headLines block)).map Prod.fst).Nodup := by
  have plain := lineFeed_not_mem_headLines block
  have some_ : responseOf (headLines block) body ≠ none := by
    rw [ne_eq, responseOf_eq_none_iff]
    rintro ⟨line, listed, refused⟩
    exact accepted line listed refused
  rcases Option.ne_none_iff_exists'.mp some_ with ⟨response, made⟩
  rw [makeResponse_of_split split, made, Option.getD_some,
    ← count_lastEntries_iff compare]
  constructor
  · intro sends entry kept
    rw [← count_sentFields plain made kept]
    exact sends.own entry kept
  · intro counts
    refine ⟨fun entry kept => ?_, fun entry sent => others_of_responseOf plain made sent⟩
    rw [count_sentFields plain made kept]
    exact counts entry kept

/-- The header lines of a script that sets two cookies. -/
def cookieBlock : Bytes := ascii "Set-Cookie: a=1\r\nSet-Cookie: b=2"

def cookieOutput : Bytes := cookieBlock ++ blankLine ++ ascii "hi"

theorem splitOutput_cookieOutput : splitOutput cookieOutput = some (cookieBlock, ascii "hi") ∧
    ∀ line ∈ headLines cookieBlock, ¬Refused line := by
  decide +kernel

theorem makeResponse_sendsFields_iff_cookies :
    SendsFields (headLines cookieBlock) (makeResponse faultFiles cookieOutput {}).serialize ↔
      ((keptFields (headLines cookieBlock)).map Prod.fst).Nodup :=
  makeResponse_sendsFields_iff splitOutput_cookieOutput.1 splitOutput_cookieOutput.2 faultFiles {}

/-- The second cookie takes the place of the first. -/
theorem makeResponse_cookie_lost : splitOutput cookieOutput = some (cookieBlock, ascii "hi") ∧
    (∀ line ∈ headLines cookieBlock, ¬Refused line) ∧
    ¬SendsFields (headLines cookieBlock) (makeResponse faultFiles cookieOutput {}).serialize := by
  have run : (ascii "Set-Cookie", ascii "a=1") ∈ keptFields (headLines cookieBlock) ∧
      (sentFields (makeResponse faultFiles cookieOutput {}).serialize).count
        (ascii "Set-Cookie", ascii "a=1") ≠
        (keptFields (headLines cookieBlock)).count (ascii "Set-Cookie", ascii "a=1") := by
    decide +kernel
  refine ⟨splitOutput_cookieOutput.1, splitOutput_cookieOutput.2, fun sends => ?_⟩
  exact run.2 (sends.own _ run.1)

end CgiHandler

end IrcPlatform.Webserv
