import IrcPlatform.Library.Splitting
import IrcPlatform.Webserv.Lengths

/-!
# The form of a request head

The head of an accepted request is cut into lines at line feeds, its first line has three
words, and each of the others has a token for a name. White space around the words and around
the names is passed over, and a line may hold any byte but a line feed.
-/

namespace IrcPlatform.Webserv

open Std

/-! ## The accepted form -/

/-- What stands before the first blank line. -/
def requestHead (raw : Bytes) : Bytes :=
  match findFrom blankLine raw 0 with
  | none => []
  | some headerEnd => raw.take headerEnd

/-- The line without the carriage return at its end. -/
def dropReturn (line : Bytes) : Bytes := if line.getLast? = some 13 then line.dropLast else line

/-- The lines of a text; the last one need not be ended. -/
def headLines (text : Bytes) : List Bytes :=
  (if (text.splitOn 10).getLast? = some [] then (text.splitOn 10).dropLast
    else text.splitOn 10).map dropReturn

/-- Three words with white space between them, and maybe around them. -/
structure RequestLine (line : Bytes) (request : Request) : Prop where
  words : ∃ before between after behind,
    line = before ++ request.method ++ between ++ request.target ++ after ++ request.version ++
      behind ∧
    (∀ c ∈ before ++ between ++ after ++ behind, isStreamSpace c = true) ∧
    between ≠ [] ∧ after ≠ []
  method : validToken request.method = true
  target : request.target.head? = some (byte '/') ∧
    ∀ c ∈ request.target, isStreamSpace c = false
  version : request.version = ascii "HTTP/1.1"

/-- A token with white space around it, a colon, and the value. -/
structure FieldLine (line name value : Bytes) : Prop where
  parts : ∃ front back, line = front ++ name ++ back ++ byte ':' :: value ∧
    ∀ c ∈ front ++ back, isTrimmed c = true
  token : validToken name = true

/-- The head of an accepted request: the lines, and what the request keeps of them. -/
structure HeadForm (head : Bytes) (request : Request) (first : Bytes) (lines : List Bytes)
    (fields : List (Bytes × Bytes)) : Prop where
  cutLines : headLines head = first :: lines
  requestLine : RequestLine first request
  readFields : List.Forall₂ (fun line field => FieldLine line field.1 field.2) lines fields
  distinct : (fields.map fun field => lower field.1).Nodup
  headers (key value : Bytes) : request.headers[key]? = some value ↔
    ∃ field ∈ fields, lower field.1 = key ∧ trim field.2 = value

/-! ## Lines -/

theorem getline_splitOn {text line rest : Bytes} (taken : getline text = some (line, rest)) :
    text.splitOn 10 = line :: rest.splitOn 10 ∨
      (text.splitOn 10 = [line] ∧ rest = [] ∧ line ≠ []) := by
  rw [getline] at taken
  split at taken
  · simp at taken
  next nonempty =>
    rw [Option.some.injEq, Prod.mk.injEq] at taken
    rcases taken with ⟨rfl, rfl⟩
    have parts : text.takeWhile (· != 10) ++ text.dropWhile (· != 10) = text :=
      List.takeWhile_append_dropWhile
    have outside : (10 : UInt8) ∉ text.takeWhile (· != 10) := by
      intro listed
      simpa using List.mem_takeWhile_imp listed
    cases remaining : text.dropWhile (· != 10) with
    | nil =>
        right
        rw [remaining, List.append_nil] at parts
        rw [parts] at outside ⊢
        exact ⟨List.splitOn_eq_singleton outside, rfl, by simpa using nonempty⟩
    | cons c rest =>
        left
        have stopped := List.head?_dropWhile_not (· != 10) text
        rw [remaining] at stopped
        have feed : c = 10 := by simpa using stopped
        rw [List.drop_one, List.tail_cons]
        conv => lhs; rw [← parts, remaining, feed]
        exact List.splitOn_append_cons_self_of_not_mem outside rest

theorem headLines_of_nextLine {text line rest : Bytes} (taken : nextLine text = some (line, rest)) :
    headLines text = line :: headLines rest := by
  rcases Option.map_eq_some_iff.mp taken with ⟨⟨whole, after⟩, found, same⟩
  rw [Prod.mk.injEq] at same
  rcases same with ⟨rfl, rfl⟩
  rcases getline_splitOn found with split | ⟨split, rfl, nonempty⟩
  · rw [headLines, split, headLines]
    rcases List.exists_cons_of_ne_nil (List.splitOn_ne_nil 10 after) with ⟨next, others, pieces⟩
    rw [pieces, List.getLast?_cons_cons]
    by_cases ended : (next :: others).getLast? = some []
    · rw [if_pos ended, if_pos ended, List.dropLast_cons_cons, List.map_cons]
      rfl
    · rw [if_neg ended, if_neg ended, List.map_cons]
      rfl
  · have full : ¬([whole].getLast? = some []) := by simpa using nonempty
    rw [headLines, split, if_neg full]
    rfl

theorem headLines_of_none {text : Bytes} (ended : nextLine text = none) : headLines text = [] := by
  have empty : text = [] := by
    rw [nextLine, Option.map_eq_none_iff, getline] at ended
    split at ended
    next empty => exact List.isEmpty_iff.mp empty
    · simp at ended
  rw [empty]
  rfl

theorem nextLine_shorter {text line rest : Bytes} (taken : nextLine text = some (line, rest)) :
    rest.length < text.length := by
  rcases Option.map_eq_some_iff.mp taken with ⟨⟨whole, after⟩, found, same⟩
  rw [Prod.mk.injEq] at same
  rcases same with ⟨rfl, rfl⟩
  rw [getline] at found
  split at found
  · simp at found
  next nonempty =>
    rw [Option.some.injEq, Prod.mk.injEq] at found
    rcases found with ⟨rfl, rfl⟩
    have positive : 0 < text.length := List.length_pos_of_ne_nil (by simpa using nonempty)
    have parts : (text.takeWhile (· != 10) ++ text.dropWhile (· != 10)).length = text.length := by
      rw [List.takeWhile_append_dropWhile]
    rw [List.length_append] at parts
    rw [List.length_drop]
    omega

theorem dropReturn_of_plain {line : Bytes} (plain : 13 ∉ line) : dropReturn line = line := by
  rw [dropReturn, if_neg]
  exact fun last => plain (List.mem_of_getLast? last)

theorem dropReturn_concat (line : Bytes) : dropReturn (line ++ [13]) = line := by
  rw [dropReturn, if_pos List.getLast?_concat, List.dropLast_concat]

theorem nextLine_feed {piece : Bytes} (plain : 10 ∉ piece) (rest : Bytes) :
    nextLine (piece ++ 10 :: rest) = some (dropReturn piece, rest) := by
  have inside : ∀ c ∈ piece, (c != 10) = true := by
    intro c listed
    rw [bne_iff_ne]
    rintro rfl
    exact plain listed
  have nonempty : ¬(piece ++ 10 :: rest).isEmpty = true := by simp
  rw [nextLine, getline, if_neg nonempty, List.takeWhile_append_of_pos inside,
    List.dropWhile_append_of_pos inside, List.takeWhile_cons_of_neg (by simp),
    List.dropWhile_cons_of_neg (by simp), List.append_nil]
  rfl

theorem nextLine_end {piece : Bytes} (plain : 10 ∉ piece) (nonempty : piece ≠ []) :
    nextLine piece = some (dropReturn piece, []) := by
  have inside : ∀ c ∈ piece, (c != 10) = true := by
    intro c listed
    rw [bne_iff_ne]
    rintro rfl
    exact plain listed
  rw [nextLine, getline, if_neg (by simpa using nonempty), List.takeWhile_eq_self_iff.mpr inside,
    List.dropWhile_eq_nil_iff.mpr inside]
  rfl

theorem linesOf_eq_headLines {fuel : Nat} {text : Bytes} (enough : text.length ≤ fuel) :
    linesOf fuel text = headLines text := by
  induction fuel generalizing text with
  | zero =>
      rw [List.eq_nil_of_length_eq_zero (Nat.le_zero.mp enough)]
      rfl
  | succ fuel ih =>
      rw [linesOf]
      cases taken : nextLine text with
      | none => exact (headLines_of_none taken).symm
      | some pair =>
          have shorter := nextLine_shorter taken
          rw [headLines_of_nextLine taken]
          exact congrArg (pair.1 :: ·) (ih (by omega))

/-! ## The request line -/

theorem requestWords_parts {line method target version : Bytes}
    (words : requestWords line = some (method, target, version)) :
    (∃ before between after behind,
      line = before ++ method ++ between ++ target ++ after ++ version ++ behind ∧
      (∀ c ∈ before ++ between ++ after ++ behind, isStreamSpace c = true) ∧
      between ≠ [] ∧ after ≠ []) ∧
    ∀ c ∈ target, isStreamSpace c = false := by
  rcases Option.bind_eq_some_iff.mp words with ⟨⟨first, rest⟩, readFirst, words⟩
  rcases Option.bind_eq_some_iff.mp words with ⟨⟨second, more⟩, readSecond, words⟩
  rcases Option.bind_eq_some_iff.mp words with ⟨⟨third, last⟩, readThird, words⟩
  simp only at readSecond readThird words
  cases ended : readWord last with
  | some _ =>
      rw [ended] at words
      simp at words
  | none =>
      rw [ended] at words
      simp only [Option.some.injEq, Prod.mk.injEq] at words
      rcases words with ⟨rfl, rfl, rfl⟩
      rcases readWord_parts readFirst with ⟨before, rfl, spaces, _, _, stops⟩
      rcases readWord_parts readSecond with ⟨between, rfl, spacesSecond, full, plain, stopsSecond⟩
      rcases readWord_parts readThird with ⟨after, rfl, spacesThird, fullThird, plainThird, _⟩
      -- a word ends at white space, so the next one starts behind some
      have apart {word spaces rest : Bytes} (full : word ≠ [])
          (plain : ∀ c ∈ word, isStreamSpace c = false)
          (stops : ∀ c, (spaces ++ word ++ rest).head? = some c → isStreamSpace c = true) :
          spaces ≠ [] := by
        rintro rfl
        rcases List.exists_cons_of_ne_nil full with ⟨c, others, rfl⟩
        have space := stops c rfl
        rw [plain c List.mem_cons_self] at space
        cases space
      refine ⟨⟨before, between, after, last, ?_, ?_, apart full plain stops,
        apart fullThird plainThird stopsSecond⟩, plain⟩
      · simp only [List.append_assoc]
      · intro c listed
        simp only [List.mem_append] at listed
        rcases listed with ((listed | listed) | listed) | listed
        · exact spaces c listed
        · exact spacesSecond c listed
        · exact spacesThird c listed
        · exact space_of_readWord_none ended c listed

/-! ## The header lines -/

/-- The name of a line as it was sent. -/
def sentName (line : Bytes) : Bytes := trim (line.takeWhile (· != byte ':'))

theorem tokenCharacter_lowerByte (c : UInt8) :
    tokenCharacter (lowerByte c) = tokenCharacter c := by
  revert c
  apply forall_byte
  decide +kernel

theorem validToken_lower (value : Bytes) : validToken (lower value) = validToken value := by
  have same : tokenCharacter ∘ lowerByte = tokenCharacter := funext tokenCharacter_lowerByte
  rw [validToken, validToken, lower, List.all_map, same, List.isEmpty_map]

theorem fieldLine_of_colon {line : Bytes} (colon : byte ':' ∈ line)
    (token : validToken (fieldName line) = true) :
    FieldLine line (sentName line) (fieldValue line) := by
  constructor
  · rcases strip_parts isTrimmed (line.takeWhile (· != byte ':')) with
      ⟨front, back, parts, ofFront, ofBack⟩
    have cut : line.takeWhile (· != byte ':') ++ line.dropWhile (· != byte ':') = line :=
      List.takeWhile_append_dropWhile
    have begins : line.dropWhile (· != byte ':') = byte ':' :: fieldValue line := by
      rw [fieldValue]
      cases remaining : line.dropWhile (· != byte ':') with
      | nil =>
          have all := List.dropWhile_eq_nil_iff.mp remaining (byte ':') colon
          simp at all
      | cons c rest =>
          have stopped := List.head?_dropWhile_not (· != byte ':') line
          rw [remaining] at stopped
          have same : c = byte ':' := by simpa using stopped
          rw [same, List.drop_one, List.tail_cons]
    refine ⟨front, back, ?_, ?_⟩
    · rw [sentName, trim_eq_strip, ← parts, ← begins, cut]
    · intro c listed
      rcases List.mem_append.mp listed with early | late
      · exact ofFront c early
      · exact ofBack c late
  · rw [← validToken_lower]
    exact token

/-- Lines that the loop goes through have different names, and tokens for them. -/
theorem readHeaders_names {fuel : Nat} {text : Bytes} {headers result : ExtTreeMap Bytes Bytes}
    (read : readHeaders fuel text headers = some result) :
    (∀ line ∈ linesOf fuel text, byte ':' ∈ line ∧ validToken (fieldName line) = true ∧
      headers.contains (fieldName line) = false) ∧
    ((linesOf fuel text).map fieldName).Nodup := by
  induction fuel generalizing text headers with
  | zero => exact ⟨fun line listed => absurd listed List.not_mem_nil, List.nodup_nil⟩
  | succ fuel ih =>
      rw [readHeaders] at read
      rw [linesOf]
      cases taken : nextLine text with
      | none => exact ⟨fun line listed => absurd listed List.not_mem_nil, List.nodup_nil⟩
      | some pair =>
          rw [taken] at read
          dsimp only at read ⊢
          by_cases colon : pair.1.contains (byte ':') = true
          · rw [if_neg (by rw [colon]; exact Bool.false_ne_true)] at read
            have kept : (if !validToken (fieldName pair.1) || headers.contains (fieldName pair.1)
                then none
                else readHeaders fuel pair.2
                  (headers.insert (fieldName pair.1) (trim (fieldValue pair.1)))) =
                    some result := read
            by_cases refused :
                (!validToken (fieldName pair.1) || headers.contains (fieldName pair.1)) = true
            · rw [if_pos refused] at kept
              simp at kept
            · rw [if_neg refused] at kept
              simp only [Bool.or_eq_true, Bool.not_eq_true', not_or, Bool.not_eq_true,
                Bool.not_eq_false] at refused
              rcases ih kept with ⟨later, distinct⟩
              have different (line : Bytes) (listed : line ∈ linesOf fuel pair.2) :
                  fieldName line ≠ fieldName pair.1 ∧
                    headers.contains (fieldName line) = false := by
                have absent := (later line listed).2.2
                rw [ExtTreeMap.contains_insert, Bool.or_eq_false_iff] at absent
                refine ⟨?_, absent.2⟩
                intro same
                rw [same] at absent
                simp at absent
              refine ⟨?_, ?_⟩
              · rw [List.forall_mem_cons]
                refine ⟨⟨by simpa using colon, refused.1, refused.2⟩, ?_⟩
                intro line listed
                exact ⟨(later line listed).1, (later line listed).2.1, (different line listed).2⟩
              · rw [List.map_cons, List.nodup_cons]
                refine ⟨?_, distinct⟩
                intro listed
                rcases List.mem_map.mp listed with ⟨line, inside, same⟩
                exact (different line inside).1 same
          · rw [if_pos (by simpa using colon)] at read
            simp at read

/-- With different names, the first line of a name is the only one. -/
theorem find?_eq_some_iff_of_nodup {lines : List Bytes} {name line : Bytes}
    (distinct : (lines.map fieldName).Nodup) :
    lines.find? (fun line => fieldName line == name) = some line ↔
      line ∈ lines ∧ fieldName line = name := by
  constructor
  · intro found
    exact ⟨List.mem_of_find?_eq_some found, by simpa using List.find?_some found⟩
  · rintro ⟨listed, same⟩
    have some_ : (lines.find? fun line => fieldName line == name).isSome = true := by
      rw [List.find?_isSome]
      exact ⟨line, listed, by simpa using same⟩
    rcases Option.isSome_iff_exists.mp some_ with ⟨other, found⟩
    have named : fieldName other = name := by simpa using List.find?_some found
    have equal := List.inj_on_of_nodup_map distinct (List.mem_of_find?_eq_some found) listed
      (named.trans same.symm)
    rw [found, equal]

/-! ## The head -/

/-- What an accepted head goes through. -/
structure HeadRead (head : Bytes) (request : Request) : Prop where
  parts : ∃ first rest, nextLine head = some (first, rest) ∧
    requestWords first = some (request.method, request.target, request.version) ∧
    readHeaders rest.length rest ∅ = some request.headers
  method : validToken request.method = true
  version : request.version = ascii "HTTP/1.1"
  target : request.target.head? = some (byte '/')

theorem headRead_of_parseHead {head : Bytes} {request : Request}
    (parsed : parseHead head = .ok request) : HeadRead head request := by
  rw [parseHead] at parsed
  cases taken : nextLine head with
  | none => simp [taken] at parsed
  | some pair =>
      rw [taken] at parsed
      dsimp only at parsed
      cases words : requestWords pair.1 with
      | none => simp [words] at parsed
      | some spelled =>
          rw [words] at parsed
          dsimp only at parsed
          by_cases method : validToken spelled.1 = true
          · rw [if_neg (by simp [method])] at parsed
            by_cases version : spelled.2.2 = ascii "HTTP/1.1"
            · rw [if_neg (by simp [version])] at parsed
              by_cases target : spelled.2.1.head? = some (byte '/')
              · rw [if_neg (by simp [target])] at parsed
                cases read : readHeaders pair.2.length pair.2 ∅ with
                | none => simp [read] at parsed
                | some headers =>
                    rw [read] at parsed
                    dsimp only at parsed
                    split at parsed
                    · simp at parsed
                    · split at parsed
                      · simp at parsed
                      · rw [Except.ok.injEq] at parsed
                        subst parsed
                        exact ⟨⟨pair.1, pair.2, taken, words, read⟩, method, version, target⟩
              · rw [if_pos target] at parsed
                simp at parsed
            · rw [if_pos version] at parsed
              simp at parsed
          · rw [if_pos (by simpa using method)] at parsed
            simp at parsed

theorem headForm_of_read {head : Bytes} {request : Request} (read : HeadRead head request) :
    ∃ first lines fields, HeadForm head request first lines fields := by
  rcases read.parts with ⟨first, rest, taken, words, headers⟩
  have names := readHeaders_names headers
  have lookup := readHeaders_lookup headers
  rw [linesOf_eq_headLines le_rfl] at names
  simp only [linesOf_eq_headLines le_rfl] at lookup
  rcases requestWords_parts words with ⟨parts, visible⟩
  refine ⟨first, headLines rest,
    (headLines rest).map fun line => (sentName line, fieldValue line), ?_⟩
  constructor
  · exact headLines_of_nextLine taken
  · exact ⟨parts, read.method, ⟨read.target, visible⟩, read.version⟩
  · rw [List.forall₂_map_right_iff, List.forall₂_same]
    intro line listed
    exact fieldLine_of_colon (names.1 line listed).1 (names.1 line listed).2.1
  · rw [List.map_map]
    exact names.2
  · intro key value
    rw [lookup key, ExtTreeMap.getElem?_empty, Option.none_or, Option.map_eq_some_iff]
    constructor
    · rintro ⟨line, found, same⟩
      rcases (find?_eq_some_iff_of_nodup names.2).mp found with ⟨listed, named⟩
      exact ⟨_, List.mem_map_of_mem listed, named, same⟩
    · rintro ⟨field, listed, named, same⟩
      rcases List.mem_map.mp listed with ⟨line, inside, rfl⟩
      exact ⟨line, (find?_eq_some_iff_of_nodup names.2).mpr ⟨inside, named⟩, same⟩

/-- The head of an accepted request is a request line and header lines with different tokens
for names, and the headers are their lower-cased names with the trimmed values. -/
theorem accepted_headForm {raw : Bytes} {maxBody : Nat} {request : Request}
    (accepted : parseRequest raw maxBody = .ok request) :
    ∃ first lines fields, HeadForm (requestHead raw) request first lines fields := by
  rcases parseRequest_cases accepted with ⟨headerEnd, parsed, found, head, body⟩
  rcases parseBody_cases body with ⟨bytes, rfl, _⟩
  rcases headForm_of_read (headRead_of_parseHead head) with ⟨first, lines, fields, form⟩
  have here : requestHead raw = raw.take headerEnd := by rw [requestHead, found]
  rw [here]
  exact ⟨first, lines, fields, form.cutLines,
    ⟨form.requestLine.words, form.requestLine.method, form.requestLine.target,
      form.requestLine.version⟩, form.readFields, form.distinct, form.headers⟩

/-- A head with white space before a name, behind it and around the words. -/
def spacedRaw : Bytes := ascii " GET\t/  HTTP/1.1\n\tHost : a\r\n\r\n"

theorem accepted_headForm_spaced : ∃ request, parseRequest spacedRaw 0 = .ok request ∧
    ∃ first lines fields, HeadForm (requestHead spacedRaw) request first lines fields := by
  have parsed : parseRequest spacedRaw 0 = .ok
      { method := ascii "GET", target := ascii "/", path := ascii "/"
        version := ascii "HTTP/1.1"
        headers := (∅ : ExtTreeMap Bytes Bytes).insert (ascii "host") (ascii "a") } := by
    decide +kernel
  exact ⟨_, parsed, accepted_headForm parsed⟩

/-! ## The form of the standard -/

/-- The lines of a text between the pairs of carriage return and line feed. -/
def crlfLines : Bytes → List Bytes
  | [] => [[]]
  | c :: rest =>
      match c, rest with
      | 13, 10 :: more => [] :: crlfLines more
      | c, rest => (crlfLines rest).modifyHead (c :: ·)

/-- The head as the standard has it. -/
structure StandardHead (head : Bytes) (request : Request) : Prop where
  plain : ∀ line ∈ crlfLines head, 13 ∉ line ∧ 10 ∉ line ∧ 0 ∉ line
  requestLine : (crlfLines head).head? =
    some (request.method ++ byte ' ' :: request.target ++ ascii " HTTP/1.1")
  fields : ∀ line ∈ (crlfLines head).tail, byte ':' ∈ line ∧
    validToken (line.takeWhile (· != byte ':')) = true
  distinct : ((crlfLines head).tail.map fun line =>
    lower (line.takeWhile (· != byte ':'))).Nodup
  headers (key value : Bytes) : request.headers[key]? = some value ↔
    ∃ line ∈ (crlfLines head).tail, lower (line.takeWhile (· != byte ':')) = key ∧
      trim (fieldValue line) = value

/-- The request of a client that only names its host. -/
def hostRequest (host : Bytes) : Request where
  method := ascii "GET"
  target := ascii "/"
  path := ascii "/"
  version := ascii "HTTP/1.1"
  headers := (∅ : ExtTreeMap Bytes Bytes).insert (ascii "host") host

/-- The head is accepted without the form of the standard. -/
def Departs (raw host : Bytes) : Prop :=
  parseRequest raw 0 = .ok (hostRequest host) ∧ ¬StandardHead (requestHead raw) (hostRequest host)

/-- A line without a carriage return, a space behind a name, two spaces between words, and a
carriage return and a NUL in a value. -/
theorem standardHead_fails :
    Departs (ascii "GET / HTTP/1.1\nHost: a\r\n\r\n") (ascii "a") ∧
    Departs (ascii "GET / HTTP/1.1\r\nHost : a\r\n\r\n") (ascii "a") ∧
    Departs (ascii "GET  / HTTP/1.1\r\nHost: a\r\n\r\n") (ascii "a") ∧
    Departs (ascii "GET / HTTP/1.1\r\nHost: a\rb\x00c\r\n\r\n") (ascii "a\rb\x00c") := by
  refine ⟨⟨by decide +kernel, ?_⟩, ⟨by decide +kernel, ?_⟩, ⟨by decide +kernel, ?_⟩,
    by decide +kernel, ?_⟩
  · intro standard
    exact absurd standard.plain (by decide +kernel)
  · intro standard
    exact absurd standard.fields (by decide +kernel)
  · intro standard
    exact absurd standard.requestLine (by decide +kernel)
  · intro standard
    exact absurd standard.plain (by decide +kernel)

end IrcPlatform.Webserv
