import IrcPlatform.Library.Stripping
import IrcPlatform.Webserv.Paths

/-!
# Announced lengths

The parser keeps the trimmed values of the header fields and reads the announced length by
`strtoul`. `trim` also removes carriage returns, and `strtoul` skips the white space that it
knows and stops at a NUL, so the length is the number in the header only where none of these
bytes is in the way.
-/

namespace IrcPlatform.Webserv

open Std

/-! ## The header as it stands -/

def fieldName (line : Bytes) : Bytes := lower (trim (line.takeWhile (· != byte ':')))

/-- What stands behind the first colon of a line. -/
def fieldValue (line : Bytes) : Bytes := (line.dropWhile (· != byte ':')).drop 1

/-- The lines of a text; every line takes a byte. -/
def linesOf : Nat → Bytes → List Bytes
  | 0, _ => []
  | fuel + 1, text =>
      match nextLine text with
      | none => []
      | some (line, rest) => line :: linesOf fuel rest

/-- The lines between the request line and the blank line. -/
def fieldLines (raw : Bytes) : List Bytes :=
  match (findFrom blankLine raw 0).bind fun headerEnd => nextLine (raw.take headerEnd) with
  | none => []
  | some (_, rest) => linesOf rest.length rest

/-- The value of a header field as it was sent. -/
def rawField (raw name : Bytes) : Option Bytes :=
  ((fieldLines raw).find? fun line => fieldName line == name).map fieldValue

/-- What follows the blank line. -/
def payload (raw : Bytes) : Bytes :=
  match findFrom blankLine raw 0 with
  | none => []
  | some headerEnd => raw.drop (headerEnd + 4)

def isBlank (c : UInt8) : Bool := c == 32 || c == 9

def decimalValue (digits : Bytes) : Nat :=
  digits.foldl (fun value c => value * 10 + (c - byte '0').toNat) 0

/-- A text of digits that denotes a number. -/
structure Denotes (text : Bytes) (length : Nat) : Prop where
  nonempty : text ≠ []
  digits : ∀ c ∈ text, isAsciiDigit c = true
  value : decimalValue text = length

/-- What the header of an accepted request says about its body. -/
structure LengthLaw (raw : Bytes) (maxBody : Nat) (request : Request) : Prop where
  exclusive : (rawField raw (ascii "transfer-encoding")).isSome →
    rawField raw (ascii "content-length") = none
  announced : ∀ value, rawField raw (ascii "content-length") = some value →
    ∃ length, Denotes (strip isBlank value) length ∧ length < 2 ^ 64 ∧
      length ≤ (payload raw).length ∧ request.body = (payload raw).take length
  without : rawField raw (ascii "transfer-encoding") = none →
    rawField raw (ascii "content-length") = none →
    request.body = [] ∧ request.method ≠ ascii "POST"
  bounded : request.body.length ≤ maxBody

/-- The announced length holds no NUL, vertical tab, form feed or carriage return. -/
def PlainLength (raw : Bytes) : Prop :=
  ∀ value, rawField raw (ascii "content-length") = some value →
    ∀ c ∈ strip isBlank value, c ≠ 0 ∧ c ≠ 11 ∧ c ≠ 12 ∧ c ≠ 13

/-! ## The header fields that the parser keeps -/

variable {raw name value text line rest : Bytes} {maxBody fuel length : Nat} {request : Request}

theorem lineFeed_not_mem_nextLine (taken : nextLine text = some (line, rest)) : 10 ∉ line := by
  simp only [nextLine, getline, Option.map_eq_some_iff] at taken
  rcases taken with ⟨⟨whole, after⟩, found, cut⟩
  split at found
  · simp at found
  · rcases Prod.mk.inj (Option.some.inj found) with ⟨rfl, rfl⟩
    rcases Prod.mk.inj cut with ⟨rfl, rfl⟩
    intro listed
    have inside : (10 : UInt8) ∈ text.takeWhile (· != 10) := by
      split at listed
      · exact List.mem_of_mem_dropLast listed
      · exact listed
    simpa using List.mem_takeWhile_imp inside

theorem lineFeed_not_mem_linesOf (listed : line ∈ linesOf fuel text) : 10 ∉ line := by
  induction fuel generalizing text with
  | zero => simp [linesOf] at listed
  | succ fuel ih =>
      rw [linesOf] at listed
      split at listed
      · simp at listed
      next first after taken =>
        rcases List.mem_cons.mp listed with rfl | later
        · exact lineFeed_not_mem_nextLine taken
        · exact ih later

theorem lineFeed_not_mem_rawField (found : rawField raw name = some value) : 10 ∉ value := by
  simp only [rawField, Option.map_eq_some_iff] at found
  rcases found with ⟨line, found, rfl⟩
  have listed := List.mem_of_find?_eq_some found
  intro inside
  have inLine : (10 : UInt8) ∈ line :=
    (List.dropWhile_suffix _).mem ((List.drop_suffix _ _).mem inside)
  simp only [fieldLines] at listed
  split at listed
  · simp at listed
  · exact lineFeed_not_mem_linesOf listed inLine

/-- The parser keeps the trimmed value of the first field of each name. -/
theorem readHeaders_lookup {headers result : ExtTreeMap Bytes Bytes}
    (read : readHeaders fuel text headers = some result) (name : Bytes) :
    result[name]? = headers[name]?.or
      (((linesOf fuel text).find? fun line => fieldName line == name).map
        fun line => trim (fieldValue line)) := by
  induction fuel generalizing text headers with
  | zero =>
      rw [readHeaders, Option.some.injEq] at read
      simp [linesOf, read]
  | succ fuel ih =>
      rw [readHeaders] at read
      rw [linesOf]
      rcases taken : nextLine text with _ | ⟨line, rest⟩
      · rw [taken] at read
        simp only [Option.some.injEq] at read
        rw [← read]
        simp
      · rw [taken] at read
        simp only at read ⊢
        split at read
        · simp at read
        · have kept : (if !validToken (fieldName line) || headers.contains (fieldName line)
              then none
              else readHeaders fuel rest
                (headers.insert (fieldName line) (trim (fieldValue line)))) = some result := read
          split at kept
          · simp at kept
          next fresh =>
            simp only [Bool.or_eq_true, not_or, Bool.not_eq_true] at fresh
            rw [ih kept, ExtTreeMap.getElem?_insert]
            simp only [List.find?_cons]
            by_cases same : fieldName line = name
            · have absent : headers[name]? = none := by
                rw [← same]
                exact ExtTreeMap.getElem?_eq_none_of_contains_eq_false fresh.2
              simp [same, absent]
            · have different : (fieldName line == name) = false := beq_eq_false_iff_ne.mpr same
              rw [different]
              simp [same]

theorem parseHead_lookup {headerEnd : Nat} (found : findFrom blankLine raw 0 = some headerEnd)
    (head : parseHead (raw.take headerEnd) = .ok request) (name : Bytes) :
    request.headers[name]? = (rawField raw name).map trim := by
  unfold parseHead at head
  split at head
  · simp at head
  next line rest taken =>
    have lines : fieldLines raw = linesOf rest.length rest := by
      rw [fieldLines, found, Option.bind_some, taken]
    rw [rawField, lines]
    split at head
    · simp at head
    · split at head
      · simp at head
      · split at head
        · simp at head
        · split at head
          · simp at head
          · split at head
            · simp at head
            next headers read =>
              split at head
              · simp at head
              · split at head
                · simp at head
                · rw [← Except.ok.inj head]
                  simp [readHeaders_lookup read name, Option.map_map, Function.comp_def]

/-! ## Reading the announced length -/

/-- A text whose first byte is neither white space nor a sign, and without a NUL, is a number
where `strtoul` leaves nothing of it. -/
theorem strtoul_plain (first : ∀ c, text.head? = some c → isStreamSpace c = false ∧
      c ≠ byte '-' ∧ c ≠ byte '+') (noNul : 0 ∉ text) :
    strtoul text =
      if (text.takeWhile isAsciiDigit).isEmpty then ⟨0, text, false⟩
      else if 2 ^ 64 ≤ decimalValue (text.takeWhile isAsciiDigit) then
        ⟨2 ^ 64 - 1, text.drop (text.takeWhile isAsciiDigit).length, true⟩
      else ⟨decimalValue (text.takeWhile isAsciiDigit),
        text.drop (text.takeWhile isAsciiDigit).length, false⟩ := by
  have cString : text.takeWhile (· != 0) = text := by
    refine List.takeWhile_eq_self_iff.mpr ?_
    intro c listed
    simpa using fun (same : c = 0) => noNul (same ▸ listed)
  have unsigned : takeSign (skipStreamSpaces text) = (false, text) := by
    cases text with
    | nil => rfl
    | cons c rest =>
        rcases first c rfl with ⟨visible, notMinus, notPlus⟩
        rw [skipStreamSpaces, List.dropWhile_cons, visible, if_neg Bool.false_ne_true, takeSign,
          if_neg notMinus, if_neg notPlus]
  simp only [strtoul, cString, unsigned]
  rfl

/-- The white space that `strtoul` skips and `trim` leaves. -/
theorem visible_of_kept (c : UInt8) (kept : isTrimmed c = false) (plain : c ≠ 11 ∧ c ≠ 12) :
    isStreamSpace c = false := by
  revert c
  apply forall_byte
  decide +kernel

theorem denotes_of_contentLength (plain : ∀ c ∈ text, c ≠ 0 ∧ c ≠ 11 ∧ c ≠ 12)
    (first : ∀ c, text.head? = some c → isTrimmed c = false)
    (accepted : contentLength text = some length) : Denotes text length ∧ length < 2 ^ 64 := by
  unfold contentLength at accepted
  split at accepted
  · simp at accepted
  next signed =>
    simp only [not_or] at signed
    have noNul : 0 ∉ text := fun listed => (plain 0 listed).1 rfl
    simp only at accepted
    rw [strtoul_plain (fun c begins => ⟨visible_of_kept c (first c begins)
        (plain c (List.mem_of_mem_head? begins)).2,
      fun same => signed.2.1 (same ▸ begins), fun same => signed.2.2 (same ▸ begins)⟩) noNul]
      at accepted
    split at accepted
    next none =>
      split at accepted
      · simp at accepted
      · simp_all
    next some_ =>
      split at accepted
      · simp at accepted
      next small =>
        split at accepted
        · simp at accepted
        next complete =>
          simp only [Bool.or_eq_true, Bool.not_eq_true', not_or, Bool.not_eq_false,
            List.isEmpty_iff, List.drop_eq_nil_iff] at complete
          have whole : text.takeWhile isAsciiDigit = text :=
            (List.takeWhile_prefix _).eq_of_length_le complete.2
          rw [whole, Option.some.injEq] at accepted
          rw [whole, Nat.not_le] at small
          have value : decimalValue text = length := accepted
          refine ⟨⟨?_, ?_, value⟩, value ▸ small⟩
          · rintro rfl
            exact signed.1 rfl
          · intro c listed
            rw [← whole] at listed
            exact List.mem_takeWhile_imp listed

/-- Nothing is passed over in a text of digits. -/
theorem digit_visible (c : UInt8) (digit : isAsciiDigit c = true) :
    isStreamSpace c = false ∧ isTrimmed c = false ∧ c ≠ byte '-' ∧ c ≠ byte '+' ∧ c ≠ 0 ∧
      c ≠ 11 ∧ c ≠ 12 ∧ c ≠ 13 := by
  revert c
  apply forall_byte
  decide +kernel

theorem strtoul_of_denotes (denotes : Denotes text length) (small : length < 2 ^ 64) :
    strtoul text = ⟨length, [], false⟩ := by
  rcases denotes with ⟨nonempty, digits, value⟩
  have first : ∀ c, text.head? = some c → isAsciiDigit c = true :=
    fun c begins => digits c (List.mem_of_mem_head? begins)
  have whole : text.takeWhile isAsciiDigit = text := List.takeWhile_eq_self_iff.mpr digits
  rw [strtoul_plain
    (fun c begins => ⟨(digit_visible _ (first c begins)).1,
      (digit_visible _ (first c begins)).2.2.1, (digit_visible _ (first c begins)).2.2.2.1⟩)
    (fun listed => (digit_visible _ (digits 0 listed)).2.2.2.2.1 rfl), whole, value,
    if_neg (by simpa using nonempty), if_neg (by omega), List.drop_length]

theorem unsigned_of_denotes (denotes : Denotes text length) :
    ¬(text.head? = none ∨ text.head? = some (byte '-') ∨ text.head? = some (byte '+')) := by
  have first : ∀ c, text.head? = some c → isAsciiDigit c = true :=
    fun c begins => denotes.digits c (List.mem_of_mem_head? begins)
  simp only [not_or]
  refine ⟨by simpa using denotes.nonempty, ?_, ?_⟩
  · exact fun begins => (digit_visible _ (first _ begins)).2.2.1 rfl
  · exact fun begins => (digit_visible _ (first _ begins)).2.2.2.1 rfl

theorem contentLength_of_denotes (denotes : Denotes text length) (small : length < 2 ^ 64) :
    contentLength text = some length := by
  rw [contentLength, if_neg (unsigned_of_denotes denotes)]
  simp [strtoul_of_denotes denotes small]

/-! ## The law -/

theorem trim_eq_strip (value : Bytes) : trim value = strip isTrimmed value := rfl

theorem isTrimmed_of_isBlank (c : UInt8) (blank : isBlank c = true) : isTrimmed c = true := by
  simp only [isBlank, Bool.or_eq_true, beq_iff_eq] at blank
  rcases blank with rfl | rfl <;> rfl

/-- Without line breaks inside, `trim` only takes off spaces and tabs. -/
theorem trim_eq_stripBlanks
    (plain : ∀ c ∈ strip isBlank value, c ≠ 13 ∧ c ≠ 10) : trim value = strip isBlank value := by
  apply strip_eq_of_weaker isTrimmed_of_isBlank
  intro c listed trimmed
  rcases plain c listed with ⟨notReturn, notFeed⟩
  simpa [isTrimmed, isBlank, notReturn, notFeed] using trimmed

theorem denotes_of_plain (found : rawField raw name = some value)
    (plain : ∀ c ∈ strip isBlank value, c ≠ 0 ∧ c ≠ 11 ∧ c ≠ 12 ∧ c ≠ 13)
    (accepted : contentLength (trim value) = some length) :
    Denotes (strip isBlank value) length ∧ length < 2 ^ 64 := by
  have same : trim value = strip isBlank value := by
    apply trim_eq_stripBlanks
    intro c listed
    refine ⟨(plain c listed).2.2.2, ?_⟩
    rintro rfl
    exact lineFeed_not_mem_rawField found (mem_of_mem_strip listed)
  have first : ∀ c, (trim value).head? = some c → isTrimmed c = false := fun c begins =>
    strip_head begins
  rw [same] at accepted first
  apply denotes_of_contentLength _ first accepted
  intro c listed
  exact ⟨(plain c listed).1, (plain c listed).2.1, (plain c listed).2.2.1⟩

theorem trim_of_denotes (denotes : Denotes (strip isBlank value) length) :
    trim value = strip isBlank value := by
  apply trim_eq_stripBlanks
  intro c listed
  have digit := digit_visible c (denotes.digits c listed)
  refine ⟨digit.2.2.2.2.2.2.2, ?_⟩
  rintro rfl
  exact absurd digit.2.1 (by decide)

theorem parseRequest_cases (accepted : parseRequest raw maxBody = .ok request) :
    ∃ headerEnd parsed, findFrom blankLine raw 0 = some headerEnd ∧
      parseHead (raw.take headerEnd) = .ok parsed ∧
      parseBody maxBody parsed (payload raw) = .ok request := by
  unfold parseRequest at accepted
  split at accepted
  · split at accepted <;> simp at accepted
  next headerEnd found =>
    split at accepted
    next verdict failed =>
      rcases parseHead_error failed with bad | version
      · exact absurd (bad.symm.trans accepted) (by simp)
      · exact absurd (version.symm.trans accepted) (by simp)
    next parsed head =>
      refine ⟨headerEnd, parsed, found, head, ?_⟩
      rw [payload, found]
      exact accepted

/-- The three ways in which a body is framed. -/
inductive BodyCase (maxBody : Nat) (parsed : Request) (rest : Bytes) : Bytes → Prop where
  | chunked {coding body : Bytes} (named : parsed.headers[ascii "transfer-encoding"]? = some coding)
      (single : parsed.headers[ascii "content-length"]? = none)
      (decoded : parseChunked rest = .complete body) (fits : body.length ≤ maxBody) :
      BodyCase maxBody parsed rest body
  | announced {text : Bytes} {length : Nat}
      (plain : parsed.headers[ascii "transfer-encoding"]? = none)
      (named : parsed.headers[ascii "content-length"]? = some text)
      (read : contentLength text = some length) (fits : length ≤ maxBody)
      (arrived : length ≤ rest.length) : BodyCase maxBody parsed rest (rest.take length)
  | without (plain : parsed.headers[ascii "transfer-encoding"]? = none)
      (silent : parsed.headers[ascii "content-length"]? = none)
      (bodiless : parsed.method ≠ ascii "POST") : BodyCase maxBody parsed rest []

theorem parseBody_cases {parsed : Request}
    (accepted : parseBody maxBody parsed rest = .ok request) :
    ∃ body, request = { parsed with body := body } ∧ BodyCase maxBody parsed rest body := by
  unfold parseBody at accepted
  split at accepted
  · simp at accepted
  next coding named single =>
    split at accepted
    · simp at accepted
    · cases decoded : parseChunked rest with
      | complete body =>
          rw [decoded, ParseResult.ofChunked] at accepted
          split at accepted
          · simp at accepted
          next fits =>
            exact ⟨body, (ParseResult.ok.inj accepted).symm,
              .chunked named single decoded (by omega)⟩
      | incomplete body =>
          rw [decoded, ParseResult.ofChunked] at accepted
          split at accepted <;> simp at accepted
      | rejected | outOfRange | spins => simp [decoded, ParseResult.ofChunked] at accepted
  next text plain named =>
    split at accepted
    · simp at accepted
    next length read =>
      rw [takeBody] at accepted
      split at accepted
      · simp at accepted
      · split at accepted
        · simp at accepted
        · exact ⟨_, (ParseResult.ok.inj accepted).symm,
            .announced plain named read (by omega) (by omega)⟩
  next plain silent =>
    split at accepted
    · simp at accepted
    next bodiless =>
      simp only [takeBody, Nat.not_lt_zero, if_false, List.take_zero] at accepted
      exact ⟨[], (ParseResult.ok.inj accepted).symm, .without plain silent bodiless⟩

/-- A length with none of these bytes is the number that the header shows. -/
theorem lengthLaw_of_plain (accepted : parseRequest raw maxBody = .ok request)
    (plain : PlainLength raw) : LengthLaw raw maxBody request := by
  rcases parseRequest_cases accepted with ⟨headerEnd, parsed, found, head, taken⟩
  have fields := parseHead_lookup found head
  rcases parseBody_cases taken with ⟨body, rfl, framed⟩
  cases framed with
  | chunked named single decoded fits =>
      rw [fields] at named single
      refine ⟨fun _ => Option.map_eq_none_iff.mp single, ?_, ?_, fits⟩
      · intro value sent
        simp [sent] at single
      · intro missing
        simp [missing] at named
  | @announced text length codingless named read fits arrived =>
      rw [fields] at codingless named
      rcases Option.map_eq_some_iff.mp named with ⟨value, sent, rfl⟩
      rcases denotes_of_plain sent (plain value sent) read with ⟨denotes, small⟩
      refine ⟨?_, ?_, ?_, ?_⟩
      · intro coded
        simp [Option.map_eq_none_iff.mp codingless] at coded
      · intro other again
        rw [sent, Option.some.injEq] at again
        exact again ▸ ⟨length, denotes, small, arrived, rfl⟩
      · intro _ silent
        simp [silent] at sent
      · simp only [List.length_take]
        omega
  | without codingless silent bodiless =>
      rw [fields] at codingless silent
      refine ⟨fun _ => Option.map_eq_none_iff.mp silent, ?_, fun _ _ => ⟨rfl, bodiless⟩,
        Nat.zero_le _⟩
      intro value sent
      simp [sent] at silent

theorem plain_of_lengthLaw (law : LengthLaw raw maxBody request) : PlainLength raw := by
  intro value sent c listed
  rcases law.announced value sent with ⟨length, denotes, _⟩
  have digit := digit_visible c (denotes.digits c listed)
  exact digit.2.2.2.2

/-- An accepted request is framed as its header says just where the announced length holds
none of the bytes that `trim` and `strtoul` pass over; and a request with a length of digits
is accepted when the head is valid, the length allowed and the payload there. -/
theorem parseRequest_lengths (raw : Bytes) (maxBody : Nat) :
    (∀ request, parseRequest raw maxBody = .ok request →
      (LengthLaw raw maxBody request ↔ PlainLength raw)) ∧
    ∀ headerEnd parsed value length, maxBody < 2 ^ 64 →
      findFrom blankLine raw 0 = some headerEnd → parseHead (raw.take headerEnd) = .ok parsed →
      rawField raw (ascii "transfer-encoding") = none →
      rawField raw (ascii "content-length") = some value → Denotes (strip isBlank value) length →
      length ≤ maxBody → length ≤ (payload raw).length →
      parseRequest raw maxBody = .ok { parsed with body := (payload raw).take length } := by
  constructor
  · intro request accepted
    exact ⟨plain_of_lengthLaw, lengthLaw_of_plain accepted⟩
  · intro headerEnd parsed value length word found head codingless sent denotes fits arrived
    have fields := parseHead_lookup found head
    have read : contentLength (trim value) = some length := by
      rw [trim_of_denotes denotes]
      exact contentLength_of_denotes denotes (by omega)
    have rest : payload raw = raw.drop (headerEnd + 4) := by rw [payload, found]
    rw [rest] at arrived ⊢
    unfold parseRequest
    simp only [found, head, parseBody, fields, codingless, sent, Option.map_none, Option.map_some,
      read, takeBody]
    rw [if_neg (by omega), if_neg (by omega)]

/-- A request with five bytes of payload and some announced length. -/
def posted (announced : String) : Bytes :=
  ascii "POST / HTTP/1.1\r\nHost: a\r\nContent-Length:" ++ ascii announced ++
    ascii "\r\n\r\nhello"

theorem parseRequest_lengths_posted : ∃ request,
    parseRequest (posted " 5 ") 5 = .ok request ∧ LengthLaw (posted " 5 ") 5 request := by
  have sent : rawField (posted " 5 ") (ascii "content-length") = some (ascii " 5 ") := by
    decide +kernel
  have denotes : Denotes (strip isBlank (ascii " 5 ")) 5 := by
    exact ⟨by decide +kernel, by decide +kernel, by decide +kernel⟩
  have valid : (match parseHead ((posted " 5 ").take 44) with
      | .ok _ => true
      | .error _ => false) = true := by
    decide +kernel
  split at valid
  next parsed head =>
    have accepted := (parseRequest_lengths (posted " 5 ") 5).2 44 parsed _ 5 (by decide)
      (by decide +kernel) head (by decide +kernel) sent denotes (by decide) (by decide +kernel)
    refine ⟨_, accepted, ((parseRequest_lengths _ _).1 _ accepted).mpr ?_⟩
    intro value again
    rw [sent, Option.some.injEq] at again
    exact again ▸ by decide +kernel
  · cases valid

/-- A vertical tab before the number, and a NUL behind it. -/
theorem lengths_passed_over :
    (∃ request, parseRequest (posted "\x0b5") 5 = .ok request ∧ request.body = ascii "hello") ∧
    (∃ request, parseRequest (posted "2\x001") 5 = .ok request ∧ request.body = ascii "he") ∧
    ¬∀ raw maxBody request, parseRequest raw maxBody = .ok request →
      LengthLaw raw maxBody request := by
  have tab : (match parseRequest (posted "\x0b5") 5 with
      | .ok request => request.body == ascii "hello"
      | _ => false) = true := by
    decide +kernel
  have nul : (match parseRequest (posted "2\x001") 5 with
      | .ok request => request.body == ascii "he"
      | _ => false) = true := by
    decide +kernel
  split at tab
  next request accepted =>
    refine ⟨⟨request, accepted, by simpa using tab⟩, ?_, ?_⟩
    · split at nul
      next other acceptedOther => exact ⟨other, acceptedOther, by simpa using nul⟩
      · cases nul
    · intro law
      have sent : rawField (posted "\x0b5") (ascii "content-length") = some (ascii "\x0b5") := by
        decide +kernel
      have plain := plain_of_lengthLaw (law _ _ _ accepted) _ sent 11 (by decide)
      exact plain.2.1 rfl
  · cases tab

end IrcPlatform.Webserv
