import IrcPlatform.Library.Stripping
import IrcPlatform.Webserv.ChunkedAppend

/-!
# The grammar of chunked bodies

What the decoder takes for a chunked body: chunks whose sizes are spelled in hexadecimal
digits, a last chunk without data, and trailer lines. White space around a size is allowed,
since the decoder trims it. Every encoding is decoded to its body; and what is decoded starts
with an encoding of the body, unless a size wraps around or is spelled in another way that the
stream extractor knows.
-/

namespace IrcPlatform.Webserv

variable {input line rest text : Bytes} {position lineEnd size fuel : Nat}

/-! ## Lines -/

/-- The first line break behind a position ends the line there. -/
theorem findFrom_crlf (split : input.drop position = line ++ crlf ++ rest)
    (unbroken : ¬crlf <:+: line) :
    findFrom crlf input position = some (position + line.length) := by
  refine (findFrom_eq_some_iff crlf_ne_nil).mpr ⟨by omega, ?_, ?_⟩
  · rw [OccursAt, ← List.drop_drop, split, List.append_assoc, List.drop_left]
    exact List.prefix_append _ _
  · intro earlier after before occurs
    rcases Nat.exists_eq_add_of_le after with ⟨offset, rfl⟩
    have inside : offset < line.length := by omega
    rw [OccursAt, ← List.drop_drop, split, List.append_assoc,
      List.drop_append_of_le_length (by omega), List.drop_eq_getElem_cons inside] at occurs
    -- the break would stand in the line, or its second byte in front of the line's own break
    cases tail : line.drop (offset + 1) with
    | nil =>
        rw [tail] at occurs
        simp [crlf] at occurs
    | cons c others =>
        rw [tail] at occurs
        simp only [crlf, List.cons_append, List.cons_prefix_cons, List.nil_prefix, and_true]
          at occurs
        apply unbroken
        refine ⟨line.take offset, others, ?_⟩
        have whole := List.take_append_drop offset line
        rw [List.drop_eq_getElem_cons inside, tail, ← occurs.1, ← occurs.2] at whole
        simpa [crlf] using whole

/-- The line that a found line break ends. -/
theorem line_of_findFrom (found : findFrom crlf input position = some lineEnd) :
    input.drop position =
        substr input position (lineEnd - position) ++ crlf ++ input.drop (lineEnd + 2) ∧
      ¬crlf <:+: substr input position (lineEnd - position) := by
  rcases (findFrom_eq_some_iff crlf_ne_nil).mp found with ⟨after, occurs, first⟩
  have bound := occurs.bound crlf_ne_nil
  have behind : (input.drop position).drop (lineEnd - position) =
      crlf ++ input.drop (lineEnd + 2) := by
    rw [List.drop_drop, Nat.add_sub_cancel' after]
    rcases occurs with ⟨others, same⟩
    rw [← same, ← List.drop_drop, ← same]
    rfl
  constructor
  · rw [substr, List.append_assoc, ← behind, List.take_append_drop]
  · rintro ⟨front, back, inside⟩
    have shorter := congrArg List.length inside
    simp only [List.length_append, substr, List.length_take, List.length_drop] at shorter
    have size : crlf.length = 2 := rfl
    apply first (position + front.length) (by omega) (by omega)
    rw [OccursAt, ← List.drop_drop, ← List.take_append_drop (lineEnd - position)
      (input.drop position)]
    have taken : (input.drop position).take (lineEnd - position) = front ++ crlf ++ back :=
      inside.symm
    rw [taken, List.append_assoc, List.append_assoc, List.drop_left]
    exact List.prefix_append _ _

/-! ## Sizes -/

def isHexDigit (c : UInt8) : Bool := (hexDigit c).isSome

/-- The number that hexadecimal digits spell. -/
def spelledValue (digits : Bytes) : Nat := hexValue (takeHexDigits digits).1

/-- The line of a chunk size: digits, white space around them, and an extension. -/
structure SizeText where
  front : Bytes
  digits : Bytes
  back : Bytes
  extension : Bytes
  nonempty : digits ≠ []
  spelled : ∀ c ∈ digits, isHexDigit c = true
  padded : ∀ c ∈ front ++ back, isTrimmed c = true
  extended : extension = [] ∨ extension.head? = some (byte ';')
  unbroken : ¬crlf <:+: front ++ digits ++ back ++ extension

def SizeText.bytes (size : SizeText) : Bytes :=
  size.front ++ size.digits ++ size.back ++ size.extension

def SizeText.value (size : SizeText) : Nat := spelledValue size.digits

/-- The size stands alone, as in the standard. -/
def SizeText.Bare (size : SizeText) : Prop := size.front = [] ∧ size.back = []

/-- The spellings that only the extractor knows: signs, the prefix `0x`, and the white space
that `trim` leaves. -/
def isForeign (c : UInt8) : Bool :=
  c == byte '+' || c == byte '-' || c == byte 'x' || c == byte 'X' || c == 11 || c == 12

theorem hexDigit_plain (c : UInt8) (digit : isHexDigit c = true) :
    isForeign c = false ∧ isTrimmed c = false ∧ isStreamSpace c = false ∧ c ≠ byte ';' := by
  revert c
  apply forall_byte
  decide +kernel

theorem trimmed_plain (c : UInt8) (trimmed : isTrimmed c = true) :
    isForeign c = false ∧ c ≠ byte ';' := by
  revert c
  apply forall_byte
  decide +kernel

theorem space_of_stream (c : UInt8) (space : isStreamSpace c = true) (own : isForeign c = false) :
    isTrimmed c = true := by
  revert c
  apply forall_byte
  decide +kernel

theorem takeHexDigits_all {digits : Bytes} (spelled : ∀ c ∈ digits, isHexDigit c = true) :
    (takeHexDigits digits).2 = [] ∧ (digits ≠ [] → (takeHexDigits digits).1 ≠ []) := by
  induction digits with
  | nil => simp [takeHexDigits]
  | cons c rest ih =>
      rcases Option.isSome_iff_exists.mp (spelled c List.mem_cons_self) with ⟨digit, value⟩
      have later := ih fun other listed => spelled other (List.mem_cons_of_mem _ listed)
      rw [takeHexDigits, value]
      exact ⟨later.1, fun _ => List.cons_ne_nil _ _⟩

/-- The digits at the front and the rest make up the text. -/
theorem takeHexDigits_split (text : Bytes) : ∃ digits, text = digits ++ (takeHexDigits text).2 ∧
    (∀ c ∈ digits, isHexDigit c = true) ∧
    (takeHexDigits digits).1 = (takeHexDigits text).1 := by
  induction text with
  | nil => exact ⟨[], rfl, by simp, rfl⟩
  | cons c rest ih =>
      cases value : hexDigit c with
      | none =>
          refine ⟨[], ?_, by simp, ?_⟩
          · rw [takeHexDigits, value]
            rfl
          · rw [takeHexDigits, takeHexDigits, value]
      | some digit =>
          rcases ih with ⟨digits, parts, spelled, same⟩
          refine ⟨c :: digits, ?_, ?_, ?_⟩
          · rw [takeHexDigits, value]
            exact congrArg (c :: ·) parts
          · intro other listed
            rcases List.mem_cons.mp listed with rfl | later
            · rw [isHexDigit, value]
              rfl
            · exact spelled other later
          · rw [takeHexDigits, takeHexDigits, value]
            exact congrArg (digit :: ·) same

/-- Without a foreign spelling the extractor starts with the digits. -/
theorem dropHexPrefix_plain (plain : ∀ c ∈ text, isForeign c = false) :
    dropHexPrefix text = text := by
  unfold dropHexPrefix
  split
  next zero x rest =>
    rw [if_neg]
    rintro ⟨_, rfl | rfl⟩
    · exact absurd (plain (byte 'x') (by simp)) (by decide)
    · exact absurd (plain (byte 'X') (by simp)) (by decide)
  · rfl

theorem takeSign_plain (plain : ∀ c ∈ text, isForeign c = false) :
    takeSign text = (false, text) := by
  cases text with
  | nil => rfl
  | cons c rest =>
      have own := plain c List.mem_cons_self
      rw [takeSign, if_neg, if_neg]
      · rintro rfl
        exact absurd own (by decide)
      · rintro rfl
        exact absurd own (by decide)

theorem readHex_plain (plain : ∀ c ∈ text, isForeign c = false)
    (first : ∀ c, text.head? = some c → isStreamSpace c = false) :
    readHex 64 text =
      if (takeHexDigits text).1.isEmpty || 2 ^ 64 ≤ hexValue (takeHexDigits text).1 then none
      else some (hexValue (takeHexDigits text).1, (takeHexDigits text).2) := by
  have visible : skipStreamSpaces text = text := by
    cases text with
    | nil => rfl
    | cons c rest => rw [skipStreamSpaces, List.dropWhile_cons, first c rfl, if_neg (by simp)]
  simp only [readHex, visible, takeSign_plain plain, dropHexPrefix_plain plain,
    Bool.false_eq_true, if_false]

/-- Digits are read as the number that they spell. -/
theorem wholeHex_digits {digits : Bytes} (nonempty : digits ≠ [])
    (spelled : ∀ c ∈ digits, isHexDigit c = true) (small : spelledValue digits < 2 ^ 64) :
    wholeHex 64 digits = some (spelledValue digits) := by
  have taken := takeHexDigits_all spelled
  have read := readHex_plain (fun c listed => (hexDigit_plain c (spelled c listed)).1)
    (fun c begins => (hexDigit_plain c (spelled c (List.mem_of_mem_head? begins))).2.2.1)
  rw [if_neg] at read
  · rw [wholeHex, read, Option.bind_some, taken.1]
    rfl
  · simp only [Bool.or_eq_true, List.isEmpty_iff, decide_eq_true_eq, not_or, Nat.not_le]
    exact ⟨taken.2 nonempty, small⟩

/-- What is read as a number, without a foreign spelling, is its digits. -/
theorem digits_of_wholeHex (plain : ∀ c ∈ text, isForeign c = false)
    (first : ∀ c, text.head? = some c → isTrimmed c = false)
    (last : ∀ c, text.getLast? = some c → isTrimmed c = false)
    (read : wholeHex 64 text = some size) :
    text ≠ [] ∧ (∀ c ∈ text, isHexDigit c = true) ∧ spelledValue text = size := by
  have visible : ∀ c ∈ text, isTrimmed c = false → isStreamSpace c = false := by
    intro c listed kept
    by_contra space
    rw [space_of_stream c (by simpa using space) (plain c listed)] at kept
    cases kept
  rcases Option.bind_eq_some_iff.mp read with ⟨⟨value, rest⟩, extracted, ended⟩
  rw [readHex_plain plain fun c begins =>
    visible c (List.mem_of_mem_head? begins) (first c begins)] at extracted
  split at extracted
  · simp at extracted
  next some_ =>
    rcases Prod.mk.inj (Option.some.inj extracted) with ⟨rfl, rfl⟩
    rcases takeHexDigits_split text with ⟨digits, parts, spelled, same⟩
    have nothing : (takeHexDigits text).2 = [] := by
      by_contra more
      -- the last byte would be white space that `trim` had taken
      have spaces : skipStreamSpaces (takeHexDigits text).2 = [] := by
        cases skipped : skipStreamSpaces (takeHexDigits text).2 with
        | nil => rfl
        | cons c others => simp [readCharacter, skipped] at ended
      have ending := List.getLast?_eq_some_getLast more
      have lastOfText : text.getLast? = some ((takeHexDigits text).2.getLast more) := by
        calc text.getLast? = (digits ++ (takeHexDigits text).2).getLast? := congrArg _ parts
          _ = _ := by rw [List.getLast?_append, ending, Option.some_or]
      have listed := List.mem_of_getLast? lastOfText
      have space := List.dropWhile_eq_nil_iff.mp spaces _ (List.getLast_mem more)
      rw [visible _ listed (last _ lastOfText)] at space
      cases space
    rw [nothing, List.append_nil] at parts
    simp only [nothing] at ended
    subst parts
    simp only [Bool.or_eq_true, List.isEmpty_iff, decide_eq_true_eq, not_or] at some_
    refine ⟨?_, spelled, ?_⟩
    · intro empty
      rw [empty] at some_
      exact some_.1 rfl
    · exact Option.some.inj ended

/-- What stands before the extension. -/
def beforeExtension (line : Bytes) : Bytes := line.takeWhile (· != byte ';')

namespace SizeText

variable (size : SizeText)

theorem beforeExtension_bytes :
    beforeExtension size.bytes = size.front ++ size.digits ++ size.back := by
  have plain : ∀ c ∈ size.front ++ size.digits ++ size.back, (c != byte ';') = true := by
    intro c listed
    simp only [List.mem_append] at listed
    rw [bne_iff_ne]
    rcases listed with (listed | listed) | listed
    · exact (trimmed_plain c (size.padded c (List.mem_append_left _ listed))).2
    · exact (hexDigit_plain c (size.spelled c listed)).2.2.2
    · exact (trimmed_plain c (size.padded c (List.mem_append_right _ listed))).2
  rw [beforeExtension, bytes, List.takeWhile_append_of_pos plain]
  rcases size.extended with none | semicolon
  · rw [none, List.takeWhile_nil, List.append_nil]
  · cases extension : size.extension with
    | nil => rw [List.takeWhile_nil, List.append_nil]
    | cons c others =>
        rw [extension, List.head?_cons, Option.some.injEq] at semicolon
        rw [List.takeWhile_cons, semicolon, if_neg (by simp), List.append_nil]

theorem trim_beforeExtension : trim (beforeExtension size.bytes) = size.digits := by
  rw [beforeExtension_bytes]
  apply strip_eq
  · exact fun c listed => size.padded c (List.mem_append_left _ listed)
  · exact fun c listed => size.padded c (List.mem_append_right _ listed)
  · exact fun c first =>
      (hexDigit_plain c (size.spelled c (List.mem_of_mem_head? first))).2.1
  · exact fun c last => (hexDigit_plain c (size.spelled c (List.mem_of_getLast? last))).2.1

theorem announces (small : size.value < 2 ^ 64) : chunkSize size.bytes = some size.value := by
  have trimmed : trim (size.bytes.takeWhile (· != byte ';')) = size.digits :=
    size.trim_beforeExtension
  simp only [chunkSize, trimmed]
  rw [if_neg (by simpa using size.nonempty)]
  exact wholeHex_digits size.nonempty size.spelled small

theorem own {c : UInt8} (listed : c ∈ beforeExtension size.bytes) : isForeign c = false := by
  rw [beforeExtension_bytes, List.append_assoc, List.mem_append] at listed
  rcases listed with listed | listed
  · exact (trimmed_plain c (size.padded c (List.mem_append_left _ listed))).1
  rcases List.mem_append.mp listed with listed | listed
  · exact (hexDigit_plain c (size.spelled c listed)).1
  · exact (trimmed_plain c (size.padded c (List.mem_append_right _ listed))).1

/-- Where such a line stands, the decoder finds its size. -/
theorem sizeLine (small : size.value < 2 ^ 64)
    (split : input.drop position = size.bytes ++ crlf ++ rest) :
    SizeLine input position (position + size.bytes.length) size.value := by
  refine ⟨findFrom_crlf split size.unbroken, ?_⟩
  have taken : substr input position (position + size.bytes.length - position) = size.bytes := by
    rw [substr, split, Nat.add_sub_cancel_left, List.append_assoc, List.take_left]
  rw [taken]
  exact size.announces small

end SizeText

/-- A line without foreign spellings on which the decoder finds a size. -/
theorem SizeLine.exists_sizeText (line : SizeLine input position lineEnd size)
    (plain : ∀ c ∈ beforeExtension (substr input position (lineEnd - position)),
      isForeign c = false) :
    ∃ spelling : SizeText, spelling.value = size ∧
      input.drop position = spelling.bytes ++ crlf ++ input.drop (lineEnd + 2) := by
  rcases line_of_findFrom line.ends with ⟨split, unbroken⟩
  have announces := line.announces
  revert split unbroken announces plain
  generalize substr input position (lineEnd - position) = text
  intro plain split unbroken announces
  rcases strip_parts isTrimmed (beforeExtension text) with ⟨front, back, parts, ofFront, ofBack⟩
  have whole : text = beforeExtension text ++ text.dropWhile (· != byte ';') :=
    (List.takeWhile_append_dropWhile).symm
  have composed : front ++ strip isTrimmed (beforeExtension text) ++ back ++
      text.dropWhile (· != byte ';') = text := by
    rw [← parts, ← whole]
  simp only [chunkSize] at announces
  split at announces
  · simp at announces
  have digits := digits_of_wholeHex
    (fun c listed => plain c (@mem_of_mem_strip isTrimmed _ c listed))
    (fun c first => strip_head first) (fun c last => strip_last last) announces
  refine ⟨⟨front, strip isTrimmed (beforeExtension text), back, text.dropWhile (· != byte ';'),
    digits.1, digits.2.1, ?_, ?_, ?_⟩, digits.2.2, ?_⟩
  · intro c listed
    rcases List.mem_append.mp listed with inFront | inBack
    · exact ofFront c inFront
    · exact ofBack c inBack
  · cases behind : text.dropWhile (· != byte ';') with
    | nil => exact Or.inl rfl
    | cons c others =>
        right
        have stopped := List.head?_dropWhile_not (· != byte ';') text
        rw [behind] at stopped
        simpa using stopped
  · rwa [composed]
  · exact split.trans (congrArg (· ++ crlf ++ input.drop (lineEnd + 2)) composed.symm)

/-! ## Trailers -/

/-- Trailer lines with their line breaks. -/
def trailerBytes (trailers : List Bytes) : Bytes := (trailers.map (· ++ crlf)).flatten

def Named (trailers : List Bytes) : Prop := ∀ line ∈ trailers, byte ':' ∈ line ∧ ¬crlf <:+: line

theorem named_nonempty {trailers : List Bytes} (named : Named trailers) (listed : line ∈ trailers) :
    line ≠ [] := by
  rintro rfl
  simpa using (named [] listed).1

section Trailers

variable {trailers : List Bytes} {trailersEnd : Nat}

theorem trailerBytes_cons (line : Bytes) (others : List Bytes) :
    trailerBytes (line :: others) = line ++ crlf ++ trailerBytes others := rfl

theorem drop_of_line {more : Bytes} (split : input.drop position = line ++ crlf ++ more) :
    input.drop (position + line.length + 2) = more := by
  have size : (line ++ crlf).length = line.length + 2 := by rw [List.length_append]; rfl
  rw [Nat.add_assoc, ← size, ← List.drop_drop, split, List.drop_left]

theorem crlf_of_blankLine (occurs : OccursAt blankLine input position) :
    OccursAt crlf input position ∧ OccursAt crlf input (position + 2) := by
  rcases occurs with ⟨others, same⟩
  refine ⟨⟨crlf ++ others, by rw [← same]; rfl⟩, ?_⟩
  rw [OccursAt, ← List.drop_drop, ← same]
  exact List.prefix_append crlf others

theorem blankLine_of_crlf (first : OccursAt crlf input position)
    (second : OccursAt crlf input (position + 2)) : OccursAt blankLine input position := by
  rcases first with ⟨others, same⟩
  rw [OccursAt, ← List.drop_drop, ← same] at second
  rcases second with ⟨more, sameMore⟩
  refine ⟨more, ?_⟩
  rw [← same, blankLine, List.append_assoc]
  exact congrArg (crlf ++ ·) sameMore

theorem not_occursAt_crlf_of_line (split : input.drop position = line ++ crlf ++ rest)
    (unbroken : ¬crlf <:+: line) {earlier : Nat} (after : position ≤ earlier)
    (before : earlier < position + line.length) : ¬OccursAt crlf input earlier :=
  ((findFrom_eq_some_iff crlf_ne_nil).mp (findFrom_crlf split unbroken)).2.2 earlier after before

theorem occursAt_crlf_of_line (split : input.drop position = line ++ crlf ++ rest)
    (unbroken : ¬crlf <:+: line) : OccursAt crlf input (position + line.length) :=
  ((findFrom_eq_some_iff crlf_ne_nil).mp (findFrom_crlf split unbroken)).2.1

/-- The trailer lines do not hold the blank line that ends them. -/
theorem not_occursAt_blankLine (named : Named trailers)
    (split : input.drop position = trailerBytes trailers ++ crlf ++ rest) {earlier : Nat}
    (after : position ≤ earlier)
    (before : earlier + 2 < position + (trailerBytes trailers).length) :
    ¬OccursAt blankLine input earlier := by
  induction trailers generalizing position with
  | nil =>
      simp only [trailerBytes, List.map_nil, List.flatten_nil, List.length_nil] at before
      omega
  | cons line others ih =>
      have namedOthers : Named others := fun other listed =>
        named other (List.mem_cons_of_mem _ listed)
      have unbroken := (named line List.mem_cons_self).2
      rw [trailerBytes_cons, List.append_assoc, List.append_assoc] at split
      have here : input.drop position = line ++ crlf ++ (trailerBytes others ++ crlf ++ rest) := by
        rw [split]
        simp only [List.append_assoc]
      have next := drop_of_line here
      have size : (line ++ crlf).length = line.length + 2 := by rw [List.length_append]; rfl
      rw [trailerBytes_cons, List.length_append, size] at before
      intro occurs
      rcases crlf_of_blankLine occurs with ⟨first, second⟩
      by_cases inside : earlier < position + line.length
      · exact not_occursAt_crlf_of_line here unbroken after inside first
      by_cases ends : earlier = position + line.length
      · -- the second half would stand at the start of the next line
        cases others with
        | nil =>
            simp only [trailerBytes, List.map_nil, List.flatten_nil, List.length_nil] at before
            omega
        | cons second_ others =>
            have nonempty := List.length_pos_iff.mpr
              (@named_nonempty second_ _ namedOthers List.mem_cons_self)
            have there : input.drop (position + line.length + 2) =
                second_ ++ crlf ++ (trailerBytes others ++ crlf ++ rest) := by
              rw [next, trailerBytes_cons]
              simp only [List.append_assoc]
            rw [ends] at second
            exact not_occursAt_crlf_of_line there
              (namedOthers second_ List.mem_cons_self).2 le_rfl (by omega) second
      by_cases overlap : earlier = position + line.length + 1
      · rw [overlap] at first
        exact not_occursAt_crlf_succ (occursAt_crlf_of_line here unbroken) first
      · exact ih namedOthers next (by omega) (by omega) occurs

/-- The loop over the trailer lines accepts them. -/
theorem run_trailers (named : Named trailers)
    (split : input.drop position = trailerBytes trailers ++ crlf ++ rest)
    (ends : position + (trailerBytes trailers).length = trailersEnd + 2)
    (enough : trailers.length < fuel) :
    Loop.run (trailerRound input trailersEnd) fuel position = some true := by
  induction trailers generalizing position fuel with
  | nil =>
      cases fuel with
      | zero => simp at enough
      | succ fuel =>
          simp only [trailerBytes, List.map_nil, List.flatten_nil, List.length_nil] at ends
          apply Loop.run_succ_of_done
          rw [trailerRound, if_pos (by omega)]
  | cons line others ih =>
      cases fuel with
      | zero => simp at enough
      | succ fuel =>
          have namedOthers : Named others := fun other listed =>
            named other (List.mem_cons_of_mem _ listed)
          rcases named line List.mem_cons_self with ⟨colon, unbroken⟩
          have nonempty := List.length_pos_iff.mpr (named_nonempty named List.mem_cons_self)
          have here : input.drop position =
              line ++ crlf ++ (trailerBytes others ++ crlf ++ rest) := by
            rw [split, trailerBytes_cons]
            simp only [List.append_assoc]
          have size : (line ++ crlf).length = line.length + 2 := by rw [List.length_append]; rfl
          rw [trailerBytes_cons, List.length_append, size] at ends
          rw [List.length_cons] at enough
          have goes : trailerRound input trailersEnd position =
              .next (position + line.length + 2) := by
            rw [trailerRound, if_neg (by omega), findFrom_crlf here unbroken]
            rcases List.append_of_mem colon with ⟨front, back, parts⟩
            cases found : findFrom [byte ':'] input position with
            | none =>
                have absent := (findFrom_eq_none_iff (by simp)).mp found (position + front.length)
                  (by omega)
                refine absurd ?_ absent
                rw [OccursAt, ← List.drop_drop, here, parts]
                simp
            | some later =>
                have first := ((findFrom_eq_some_iff (by simp)).mp found).2.2
                  (position + front.length) (by omega)
                have size := congrArg List.length parts
                rw [List.length_append, List.length_cons] at size
                simp only
                rw [if_neg]
                intro behind
                refine absurd ?_ (first (by omega))
                rw [OccursAt, ← List.drop_drop, here, parts]
                simp
          rw [Loop.run_succ_of_next goes]
          exact ih namedOthers (drop_of_line here) (by omega) (by omega)

theorem length_trailerBytes (named : Named trailers) :
    3 * trailers.length ≤ (trailerBytes trailers).length := by
  induction trailers with
  | nil => simp
  | cons line others ih =>
      have nonempty := List.length_pos_iff.mpr (named_nonempty named List.mem_cons_self)
      have later := ih fun other listed => named other (List.mem_cons_of_mem _ listed)
      have size : crlf.length = 2 := rfl
      rw [trailerBytes_cons, List.length_append, List.length_append, List.length_cons]
      omega

theorem trailerBytes_ends (nonempty : trailers ≠ []) :
    ∃ front, trailerBytes trailers = front ++ crlf := by
  rcases List.eq_nil_or_concat trailers with rfl | ⟨others, line, rfl⟩
  · exact absurd rfl nonempty
  · refine ⟨trailerBytes others ++ line, ?_⟩
    simp [trailerBytes]

theorem finishChunked_trailers (named : Named trailers)
    (split : input.drop position = trailerBytes trailers ++ crlf ++ rest) (body : Bytes) :
    finishChunked input position body = .complete body := by
  by_cases empty : trailers = []
  · subst empty
    rw [finishChunked, if_pos]
    rw [substr_eq_crlf_iff, OccursAt, split]
    exact List.prefix_append _ _
  · rcases trailerBytes_ends empty with ⟨front, ending⟩
    have size : (trailerBytes trailers).length = front.length + 2 := by
      rw [ending, List.length_append]
      rfl
    have lines := length_trailerBytes named
    have some_ := List.length_pos_iff.mpr empty
    have found : findFrom blankLine input position = some (position + front.length) := by
      refine (findFrom_eq_some_iff (by decide)).mpr ⟨by omega, ?_, ?_⟩
      · rw [OccursAt, ← List.drop_drop, split, ending, blankLine]
        simp only [List.append_assoc, List.drop_left]
        rw [← List.append_assoc crlf]
        exact List.prefix_append _ _
      · intro earlier after before
        exact not_occursAt_blankLine named split after (by omega)
    have noBreak : ¬substr input position 2 = crlf := by
      rw [substr_eq_crlf_iff]
      cases trailers with
      | nil => exact absurd rfl empty
      | cons line others =>
          have nonempty := List.length_pos_iff.mpr (named_nonempty named List.mem_cons_self)
          have here : input.drop position =
              line ++ crlf ++ (trailerBytes others ++ crlf ++ rest) := by
            rw [split, trailerBytes_cons]
            simp only [List.append_assoc]
          exact not_occursAt_crlf_of_line here (named line List.mem_cons_self).2 le_rfl (by omega)
    have accepted : Loop.run (trailerRound input (position + front.length))
        (position + front.length + 1) position = some true :=
      run_trailers named split (by omega) (by omega)
    rw [finishChunked, if_neg noBreak, found]
    simp only
    rw [accepted, Option.getD_some, if_pos rfl]

/-- The lines that the loop has accepted. -/
theorem exists_trailers (ends : findFrom blankLine input position = some trailersEnd)
    {trailer : Nat} (after : position ≤ trailer)
    (inside : trailer < trailersEnd ∨ trailer = trailersEnd + 2)
    (accepted : Loop.run (trailerRound input trailersEnd) fuel trailer = some true) :
    ∃ trailers, Named trailers ∧
      input.drop trailer = trailerBytes trailers ++ input.drop (trailersEnd + 2) := by
  rcases (findFrom_eq_some_iff (by decide)).mp ends with ⟨_, occurs, first⟩
  induction fuel generalizing trailer with
  | zero => simp [Loop.run] at accepted
  | succ fuel ih =>
      rcases inside with before | last
      · cases taken : trailerRound input trailersEnd trailer with
        | done result =>
            rw [Loop.run_succ_of_done taken, Option.some.injEq] at accepted
            rw [trailerRound, if_neg (by omega), accepted] at taken
            split at taken
            · simp at taken
            · split at taken
              · simp at taken
              · split at taken <;> simp at taken
        | next later =>
            rw [Loop.run_succ_of_next taken] at accepted
            rw [trailerRound, if_neg (by omega)] at taken
            split at taken
            · simp at taken
            next trailerEnd lineEnds =>
              split at taken
              · simp at taken
              next colon colonAt =>
                split at taken
                · simp at taken
                next colonInside =>
                  rw [Round.next.injEq] at taken
                  subst taken
                  rcases line_of_findFrom lineEnds with ⟨split, unbroken⟩
                  rcases (findFrom_eq_some_iff crlf_ne_nil).mp lineEnds with
                    ⟨behind, breaks, firstBreak⟩
                  have halves := crlf_of_blankLine occurs
                  -- the break of the line is the blank line's own, or comes well before it
                  have notBeyond : trailerEnd ≤ trailersEnd := by
                    by_contra beyond
                    exact firstBreak trailersEnd (by omega) (by omega) halves.1
                  have notOverlapping : trailerEnd + 1 ≠ trailersEnd := by
                    rintro rfl
                    exact not_occursAt_crlf_succ breaks halves.1
                  have notAdjacent : trailerEnd + 2 ≠ trailersEnd := by
                    rintro rfl
                    exact first trailerEnd (by omega) (by omega)
                      (blankLine_of_crlf breaks halves.1)
                  have next : trailerEnd + 2 < trailersEnd ∨
                      trailerEnd + 2 = trailersEnd + 2 := by omega
                  rcases ih (by omega) next accepted with ⟨trailers, named, rest⟩
                  refine ⟨substr input trailer (trailerEnd - trailer) :: trailers, ?_, ?_⟩
                  · intro line listed
                    rcases List.mem_cons.mp listed with rfl | later
                    · rcases (findFrom_eq_some_iff (by simp)).mp colonAt with ⟨later, there, _⟩
                      refine ⟨List.mem_of_getElem? (i := colon - trailer) ?_, unbroken⟩
                      rw [substr, List.getElem?_take_of_lt (by omega), List.getElem?_drop,
                        Nat.add_sub_cancel' later]
                      exact there.getElem?
                    · exact named line later
                  · rw [split, rest, trailerBytes_cons]
                    simp only [List.append_assoc]
      · refine ⟨[], by simp [Named], ?_⟩
        rw [last]
        rfl

theorem exists_trailers_of_finish {body decoded : Bytes}
    (complete : finishChunked input position body = .complete decoded) :
    decoded = body ∧ ∃ trailers rest, Named trailers ∧
      input.drop position = trailerBytes trailers ++ crlf ++ rest := by
  rw [finishChunked] at complete
  split at complete
  next ends =>
    rcases (substr_eq_crlf_iff input position).mp ends with ⟨rest, same⟩
    exact ⟨(ChunkedResult.complete.inj complete).symm, [], rest, by simp [Named], same.symm⟩
  next more =>
    split at complete
    · simp at complete
    next trailersEnd ends =>
      rcases (findFrom_eq_some_iff (by decide)).mp ends with ⟨after, occurs, _⟩
      have halves := crlf_of_blankLine occurs
      have before : position < trailersEnd := by
        by_contra here
        have same : position = trailersEnd := by omega
        exact more ((substr_eq_crlf_iff input position).mpr (same ▸ halves.1))
      split at complete
      next accepted =>
        rw [Option.getD_eq_iff] at accepted
        have ran : Loop.run (trailerRound input trailersEnd) (trailersEnd + 1) position =
            some true := by simpa using accepted
        rcases exists_trailers ends le_rfl (Or.inl before) ran with ⟨trailers, named, split⟩
        rcases halves.2 with ⟨rest, same⟩
        refine ⟨(ChunkedResult.complete.inj complete).symm, trailers, rest, named, ?_⟩
        rw [split, ← same, List.append_assoc]
      · simp at complete

end Trailers

/-! ## Encodings -/

structure Chunk where
  size : SizeText
  data : Bytes
  nonempty : data ≠ []
  announced : size.value = data.length

def Chunk.bytes (chunk : Chunk) : Bytes := chunk.size.bytes ++ crlf ++ chunk.data ++ crlf

/-- A chunked body: chunks with data, a last one without, and trailer lines. -/
structure Encoding where
  chunks : List Chunk
  last : SizeText
  trailers : List Bytes
  ended : last.value = 0
  named : Named trailers

namespace Encoding

def closing (encoding : Encoding) : Bytes :=
  encoding.last.bytes ++ crlf ++ trailerBytes encoding.trailers ++ crlf

def bytes (encoding : Encoding) : Bytes :=
  (encoding.chunks.map Chunk.bytes).flatten ++ encoding.closing

def body (encoding : Encoding) : Bytes := (encoding.chunks.map Chunk.data).flatten

/-- Every size stands alone on its line. -/
def Bare (encoding : Encoding) : Prop :=
  (∀ chunk ∈ encoding.chunks, chunk.size.Bare) ∧ encoding.last.Bare

/-- The encoding with another chunk in front. -/
def cons (chunk : Chunk) (encoding : Encoding) : Encoding :=
  { encoding with chunks := chunk :: encoding.chunks }

theorem bytes_cons (chunk : Chunk) (encoding : Encoding) :
    (cons chunk encoding).bytes = chunk.bytes ++ encoding.bytes := by
  simp [bytes, cons, closing, List.append_assoc]

theorem body_cons (chunk : Chunk) (encoding : Encoding) :
    (cons chunk encoding).body = chunk.data ++ encoding.body := rfl

/-- Chunks come off an encoding one by one. -/
theorem induction {property : Encoding → Prop}
    (closing : ∀ encoding, encoding.chunks = [] → property encoding)
    (cons : ∀ chunk encoding, property encoding → property (cons chunk encoding))
    (encoding : Encoding) : property encoding := by
  rcases encoding with ⟨chunks, last, trailers, ended, named⟩
  induction chunks with
  | nil => exact closing _ rfl
  | cons chunk chunks ih => exact cons chunk ⟨chunks, last, trailers, ended, named⟩ ih

end Encoding

/-! ## From encodings to bodies -/

variable {encoding : Encoding} {chunk : Chunk} {body : Bytes}

/-- Where a chunk stands, with what follows it. -/
structure Chunk.At (chunk : Chunk) (input : Bytes) (position : Nat) (rest : Bytes) : Prop where
  line : SizeLine input position (position + chunk.size.bytes.length) chunk.data.length
  data : substr input (position + chunk.size.bytes.length + 2) chunk.data.length = chunk.data
  closed : OccursAt crlf input
    (position + chunk.size.bytes.length + 2 + chunk.data.length)
  after : input.drop (position + chunk.bytes.length) = rest

theorem Chunk.length_bytes (chunk : Chunk) :
    chunk.bytes.length = chunk.size.bytes.length + 2 + chunk.data.length + 2 := by
  have size : crlf.length = 2 := rfl
  simp only [bytes, List.length_append, size]

theorem Chunk.at_of_drop (fits : input.length < 2 ^ 64)
    (split : input.drop position = chunk.bytes ++ rest) : chunk.At input position rest := by
  have here : input.drop position =
      chunk.size.bytes ++ crlf ++ (chunk.data ++ crlf ++ rest) := by
    rw [split, bytes]
    simp only [List.append_assoc]
  have lengths := congrArg List.length split
  rw [List.length_drop, List.length_append, chunk.length_bytes] at lengths
  have behind : input.drop (position + chunk.size.bytes.length + 2) = chunk.data ++ crlf ++ rest :=
    drop_of_line here
  refine ⟨?_, ?_, ?_, ?_⟩
  · rw [← chunk.announced]
    exact chunk.size.sizeLine (by rw [chunk.announced]; omega) here
  · rw [substr, behind, List.append_assoc, List.take_left]
  · rw [OccursAt, ← List.drop_drop, behind, List.append_assoc, List.drop_left]
    exact List.prefix_append _ _
  · rw [← List.drop_drop, split, List.drop_left]

/-- The decoder on an encoding returns its body. -/
theorem returns_of_encoding (fits : input.length < 2 ^ 64) (encoding : Encoding) :
    ∀ position body, input.drop position = encoding.bytes ++ rest →
      Loop.Returns (chunkRound input) (position, body) (.complete (body ++ encoding.body)) := by
  induction encoding using Encoding.induction with
  | closing encoding empty =>
      intro position body split
      have here : input.drop position = encoding.last.bytes ++ crlf ++
          (trailerBytes encoding.trailers ++ crlf ++ rest) := by
        rw [split, Encoding.bytes, empty, Encoding.closing]
        simp only [List.map_nil, List.flatten_nil, List.nil_append, List.append_assoc]
      have line := encoding.last.sizeLine (by rw [encoding.ended]; omega) here
      rw [encoding.ended] at line
      refine ⟨1, Loop.run_succ_of_done ?_ 0⟩
      simp only [chunkRound, line.ends, line.announces, if_true]
      rw [finishChunked_trailers encoding.named (drop_of_line here), Encoding.body, empty]
      simp
  | cons chunk encoding ih =>
      intro position body split
      rw [Encoding.bytes_cons, List.append_assoc] at split
      have there := Chunk.at_of_drop fits split
      have inside := crlf_inside there.closed
      have nonempty := List.length_pos_iff.mpr chunk.nonempty
      have goes : chunkRound input (position, body) =
          .next (position + chunk.bytes.length, body ++ chunk.data) := by
        refine chunkRound_eq_next_iff.mpr ⟨_, _, there.line, by omega, ?_, ?_, ?_, ?_⟩
        · rw [Nat.mod_eq_of_lt (by omega)]
          exact inside
        · rw [Nat.mod_eq_of_lt (by omega)]
          exact there.closed
        · rw [Nat.mod_eq_of_lt (by omega), chunk.length_bytes]
          omega
        · rw [there.data]
      rcases ih _ (body ++ chunk.data) there.after with ⟨fuel, ran⟩
      refine ⟨fuel + 1, ?_⟩
      rw [Loop.run_succ_of_next goes, ran, Encoding.body_cons, List.append_assoc]

/-! ## From bodies to encodings -/

/-- No size that the decoder reaches is spelled in a way that only the extractor knows. -/
def SizesPlain (input : Bytes) : Prop :=
  ∀ position lineEnd size, Framed input position → SizeLine input position lineEnd size →
    ∀ c ∈ beforeExtension (substr input position (lineEnd - position)), isForeign c = false

/-- The first line of an encoding. -/
theorem Encoding.exists_first (encoding : Encoding) : ∃ (size : SizeText) (more : Bytes),
    encoding.bytes = size.bytes ++ crlf ++ more ∧ size.value + 2 ≤ more.length ∧
      (encoding.Bare → size.Bare) ∧ ((encoding.chunks = [] ∧ size.value = 0) ∨
        ∃ chunk remaining, encoding = cons chunk remaining ∧ size = chunk.size) := by
  have length : crlf.length = 2 := rfl
  rcases encoding with ⟨chunks, last, trailers, ended, named⟩
  cases chunks with
  | nil =>
      refine ⟨last, trailerBytes trailers ++ crlf, ?_, ?_, And.right, Or.inl ⟨rfl, ended⟩⟩
      · simp [bytes, closing]
      · rw [ended, List.length_append]
        omega
  | cons chunk chunks =>
      refine ⟨chunk.size, chunk.data ++ crlf ++ (mk chunks last trailers ended named).bytes, ?_, ?_,
        fun bare => bare.1 chunk List.mem_cons_self,
        Or.inr ⟨chunk, ⟨chunks, last, trailers, ended, named⟩, rfl, rfl⟩⟩
      · simp [bytes, Chunk.bytes, closing]
      · rw [chunk.announced, List.length_append, List.length_append]
        omega

/-- The line at the start of an encoding. -/
theorem sizeLine_of_encoding (fits : input.length < 2 ^ 64)
    (split : input.drop position = encoding.bytes ++ rest)
    (line : SizeLine input position lineEnd size) :
    lineEnd + 2 + size + 2 ≤ input.length ∧
      (∀ c ∈ beforeExtension (substr input position (lineEnd - position)), isForeign c = false) ∧
      ((encoding.chunks = [] ∧ size = 0) ∨ ∃ chunk remaining, encoding = .cons chunk remaining ∧
        lineEnd = position + chunk.size.bytes.length ∧ size = chunk.data.length) := by
  rcases encoding.exists_first with ⟨first, more, bytes, long, _, shape⟩
  have here : input.drop position = first.bytes ++ crlf ++ (more ++ rest) := by
    rw [split, bytes]
    simp only [List.append_assoc]
  have lengths := congrArg List.length here
  have two : crlf.length = 2 := rfl
  simp only [List.length_drop, List.length_append, two] at lengths
  have found := first.sizeLine (by omega) here
  rcases line.unique found with ⟨rfl, rfl⟩
  refine ⟨by omega, ?_, ?_⟩
  · have taken : substr input position (position + first.bytes.length - position) =
        first.bytes := by
      rw [substr, here, Nat.add_sub_cancel_left, List.append_assoc, List.take_left]
    rw [taken]
    exact fun c => first.own
  · rcases shape with ⟨empty, zero⟩ | ⟨chunk, remaining, same, rfl⟩
    · exact Or.inl ⟨empty, zero⟩
    · exact Or.inr ⟨chunk, remaining, same, rfl, chunk.announced⟩

/-- The chunks that the decoder reaches are those of the encoding. -/
theorem encoding_of_framed (fits : input.length < 2 ^ 64)
    (split : input = encoding.bytes ++ rest) (framed : Framed input position) :
    ∃ remaining : Encoding, input.drop position = remaining.bytes ++ rest := by
  induction framed with
  | first => exact ⟨encoding, split⟩
  | @chunk position lineEnd size _ line positive closed ih =>
      rcases ih with ⟨current, here⟩
      rcases (sizeLine_of_encoding fits here line).2.2 with
        ⟨_, zero⟩ | ⟨chunk, remaining, rfl, rfl, rfl⟩
      · exact absurd zero positive
      · rw [Encoding.bytes_cons, List.append_assoc] at here
        have there := Chunk.at_of_drop fits here
        refine ⟨remaining, ?_⟩
        rw [← there.after, chunk.length_bytes]
        congr 1
        omega
  | @hollow position lineEnd size _ line wraps ih =>
      rcases ih with ⟨current, here⟩
      have inside := (sizeLine_of_encoding fits here line).1
      omega

theorem fit_of_encoding (fits : input.length < 2 ^ 64) (split : input = encoding.bytes ++ rest) :
    SizesFit input ∧ SizesPlain input := by
  constructor
  · intro position lineEnd size framed line
    rcases encoding_of_framed fits split framed with ⟨remaining, here⟩
    have inside := (sizeLine_of_encoding fits here line).1
    omega
  · intro position lineEnd size framed line
    rcases encoding_of_framed fits split framed with ⟨remaining, here⟩
    exact (sizeLine_of_encoding fits here line).2.1

/-- A decoder that completes a body has read an encoding of the rest of it. -/
theorem exists_encoding (fit : SizesFit input) (plain : SizesPlain input)
    {state : Nat × Bytes} {decoded : Bytes} (framed : Framed input state.1)
    (ran : Loop.run (chunkRound input) fuel state = some (.complete decoded)) :
    ∃ (encoding : Encoding) (rest : Bytes), input.drop state.1 = encoding.bytes ++ rest ∧
      decoded = state.2 ++ encoding.body := by
  rcases state with ⟨position, body⟩
  induction fuel generalizing position body with
  | zero => simp [Loop.run] at ran
  | succ fuel ih =>
      cases taken : chunkRound input (position, body) with
      | done result =>
          rw [Loop.run_succ_of_done taken, Option.some.injEq] at ran
          subst ran
          unfold chunkRound at taken
          simp only at taken
          split at taken
          · simp at taken
          next lineEnd ends =>
            split at taken
            · simp at taken
            next size announces =>
              have line : SizeLine input position lineEnd size := ⟨ends, announces⟩
              split at taken
              next zero =>
                rcases line.exists_sizeText (plain position lineEnd size framed line) with
                  ⟨last, value, here⟩
                rcases exists_trailers_of_finish (Round.done.inj taken) with
                  ⟨rfl, trailers, rest, named, behind⟩
                refine ⟨⟨[], last, trailers, value.trans zero, named⟩, rest, ?_, ?_⟩
                · rw [here, behind]
                  simp [Encoding.bytes, Encoding.closing]
                · simp [Encoding.body]
              · split at taken
                · simp at taken
                · split at taken
                  · simp at taken
                  · split at taken <;> simp at taken
      | next after =>
          rcases after with ⟨after, grown⟩
          rw [Loop.run_succ_of_next taken] at ran
          have framedNext := (framed_of_next fit framed taken).2
          obtain ⟨lineEnd, size, line, positive, inside, closed, rfl, rfl⟩ :=
            chunkRound_next_of_fit fit framed taken
          rcases line.exists_sizeText (plain position lineEnd size framed line) with
            ⟨spelling, value, here⟩
          have length : (substr input (lineEnd + 2) size).length = size := by
            rw [substr, List.length_take, List.length_drop]
            omega
          have data : input.drop (lineEnd + 2) = substr input (lineEnd + 2) size ++ crlf ++
              input.drop (lineEnd + 2 + size + 2) := by
            rcases closed with ⟨others, same⟩
            have behind : (input.drop (lineEnd + 2)).drop size = crlf ++ others := by
              rw [List.drop_drop, same]
            have last : input.drop (lineEnd + 2 + size + 2) = others := by
              rw [← List.drop_drop, ← same]
              rfl
            rw [substr, last, List.append_assoc, ← behind, List.take_append_drop]
          rcases ih (lineEnd + 2 + size + 2) (body ++ substr input (lineEnd + 2) size)
            framedNext ran with ⟨encoding, rest, later, whole⟩
          refine ⟨.cons ⟨spelling, substr input (lineEnd + 2) size, ?_, by rw [value, length]⟩
            encoding, rest, ?_, ?_⟩
          · rw [← List.length_pos_iff, length]
            omega
          · rw [here, data, later, Encoding.bytes_cons, Chunk.bytes]
            simp only [List.append_assoc]
          · rw [whole, Encoding.body_cons, List.append_assoc]

/-- Every encoding is decoded to its body, whatever follows it. What is decoded starts with an
encoding of the body, just where no size wraps around or has a spelling that only the
extractor knows. -/
theorem parseChunked_encodings :
    (∀ (encoding : Encoding) (rest : Bytes), (encoding.bytes ++ rest).length < 2 ^ 64 →
      parseChunked (encoding.bytes ++ rest) = .complete encoding.body) ∧
    ∀ input body, input.length < 2 ^ 64 → parseChunked input = .complete body →
      ((∃ encoding : Encoding, encoding.bytes <+: input ∧ encoding.body = body) ↔
        SizesFit input ∧ SizesPlain input) := by
  constructor
  · intro encoding rest fits
    have returns := @returns_of_encoding _ rest fits encoding 0 [] rfl
    exact parseChunked_eq_of_returns returns
  · intro input body fits complete
    constructor
    · rintro ⟨encoding, ⟨rest, split⟩, _⟩
      exact fit_of_encoding fits split.symm
    · rintro ⟨fit, plain⟩
      rcases exists_returns fit with ⟨result, fuel, ran⟩
      have same := parseChunked_eq_of_returns ⟨fuel, ran⟩
      rw [complete] at same
      subst same
      rcases @exists_encoding _ _ fit plain (0, []) _ .first ran with
        ⟨encoding, rest, split, whole⟩
      exact ⟨encoding, ⟨rest, split.symm⟩, whole.symm⟩

/-- A chunk with an extension, and a trailer line. -/
def helloEncoding : Encoding where
  chunks := [⟨⟨[], ascii "5", [], ascii ";name=value", by decide, by decide +kernel,
    by decide +kernel, by decide +kernel, by decide +kernel⟩, ascii "hello", by decide,
    by decide +kernel⟩]
  last := ⟨[], ascii "0", [], [], by decide, by decide +kernel, by decide +kernel,
    by decide +kernel, by decide +kernel⟩
  trailers := [ascii "X-Trailer: yes"]
  ended := by decide
  named := by
    intro line listed
    rw [List.mem_singleton.mp listed]
    decide +kernel

theorem parseChunked_encodings_hello :
    parseChunked (helloEncoding.bytes ++ ascii "GET") = .complete (ascii "hello") ∧
      SizesFit (helloEncoding.bytes ++ ascii "GET") := by
  have complete := parseChunked_encodings.1 helloEncoding (ascii "GET") (by decide +kernel)
  have fits := (parseChunked_encodings.2 _ _ (by decide +kernel) complete).mp
    ⟨helloEncoding, List.prefix_append _ _, rfl⟩
  exact ⟨complete, fits.1⟩

/-! ## Spellings that are not in the grammar -/

/-- An encoding whose sizes stand alone starts with a digit. -/
theorem Encoding.Bare.first_digit (bare : encoding.Bare) :
    ∃ c, encoding.bytes.head? = some c ∧ isHexDigit c = true := by
  rcases encoding.exists_first with ⟨size, more, bytes, _, alone, _⟩
  cases digits : size.digits with
  | nil => exact absurd digits size.nonempty
  | cons c others =>
      refine ⟨c, ?_, size.spelled c (by simp [digits])⟩
      rw [bytes, SizeText.bytes, (alone bare).1, digits]
      rfl

/-- White space around a size, a sign, a prefix, and a size that swallows the line break
behind it: the first is in the grammar of the decoder, the others are in none. -/
theorem spellings_accepted :
    (parseChunked (ascii " 5 \r\nhello\r\n0\r\n\r\n") = .complete (ascii "hello") ∧
      ¬∃ encoding : Encoding, encoding.Bare ∧
        encoding.bytes <+: ascii " 5 \r\nhello\r\n0\r\n\r\n") ∧
    (parseChunked (ascii "+5\r\nhello\r\n0\r\n\r\n") = .complete (ascii "hello") ∧
      ¬∃ encoding : Encoding, encoding.bytes <+: ascii "+5\r\nhello\r\n0\r\n\r\n") ∧
    (parseChunked (ascii "FFFFFFFFFFFFFFFE\r\n0\r\n\r\n") =
        .complete (ascii "0\r\n\r\n") ∧
      ¬∃ encoding : Encoding, encoding.bytes <+: ascii "FFFFFFFFFFFFFFFE\r\n0\r\n\r\n") ∧
    ¬∀ input body, parseChunked input = .complete body →
      ∃ encoding : Encoding, encoding.Bare ∧ encoding.bytes <+: input ∧ encoding.body = body := by
  have padded : parseChunked (ascii " 5 \r\nhello\r\n0\r\n\r\n") = .complete (ascii "hello") := by
    decide +kernel
  have signed : parseChunked (ascii "+5\r\nhello\r\n0\r\n\r\n") = .complete (ascii "hello") := by
    decide +kernel
  have hollow : parseChunked (ascii "FFFFFFFFFFFFFFFE\r\n0\r\n\r\n") =
      .complete (ascii "0\r\n\r\n") := by
    decide +kernel
  have noBare : ¬∃ encoding : Encoding, encoding.Bare ∧
      encoding.bytes <+: ascii " 5 \r\nhello\r\n0\r\n\r\n" := by
    rintro ⟨encoding, bare, rest, split⟩
    rcases bare.first_digit with ⟨c, first, digit⟩
    have head := congrArg List.head? split
    rw [List.head?_append, first, Option.some_or] at head
    have space : c = byte ' ' := Option.some.inj head
    rw [space] at digit
    exact absurd digit (by decide)
  refine ⟨⟨padded, noBare⟩, ⟨signed, ?_⟩, ⟨hollow, ?_⟩, ?_⟩
  · rintro ⟨encoding, rest, split⟩
    have line : SizeLine (ascii "+5\r\nhello\r\n0\r\n\r\n") 0 2 5 :=
      ⟨by decide +kernel, by decide +kernel⟩
    have own := (fit_of_encoding (by decide) split.symm).2 0 2 5 .first line (byte '+')
      (by decide +kernel)
    exact absurd own (by decide)
  · rintro ⟨encoding, rest, split⟩
    have line : SizeLine (ascii "FFFFFFFFFFFFFFFE\r\n0\r\n\r\n") 0 16 (2 ^ 64 - 2) :=
      ⟨by decide +kernel, by decide +kernel⟩
    have small := (fit_of_encoding (by decide) split.symm).1 0 16 (2 ^ 64 - 2) .first line
    omega
  · intro law
    rcases law _ _ padded with ⟨encoding, bare, start, _⟩
    exact noBare ⟨encoding, bare, start⟩

end IrcPlatform.Webserv
