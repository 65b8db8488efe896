import IrcPlatform.Library.LongerPaths
import IrcPlatform.Webserv.Outputs

/-!
# Targets

A request with a given target: what the parser takes of it. The target is a word, its path ends
at the first question mark, and a path of the same length as its text has lost nothing to
escapes and to normalisation.
-/

namespace IrcPlatform.Webserv

open Std

/-- A request without a body, which only names its host. -/
def requestFor (method target host : Bytes) : Bytes :=
  method ++ ascii " " ++ target ++ ascii " HTTP/1.1\r\nHost: " ++ host ++ blankLine

/-- The text of the path of a target. -/
def encodedPath (target : Bytes) : Bytes := target.takeWhile (· != byte '?')

/-! ## The request line -/

theorem visible_of_validToken {method : Bytes} (token : validToken method = true) :
    method ≠ [] ∧ ∀ c ∈ method, isStreamSpace c = false := by
  have visible (c : UInt8) : tokenCharacter c = true → isStreamSpace c = false := by
    revert c
    apply forall_byte
    decide +kernel
  rw [validToken, Bool.and_eq_true, Bool.not_eq_true', List.all_eq_true] at token
  exact ⟨List.isEmpty_eq_false_iff.mp token.1, fun c listed => visible c (token.2 c listed)⟩

/-- The line that asks for a target. -/
def requestLine (method target : Bytes) : Bytes :=
  method ++ ascii " " ++ target ++ ascii " HTTP/1.1"

variable {method target host : Bytes}

theorem readWord_method (token : validToken method = true) :
    readWord (requestLine method target) =
      some (method, ascii " " ++ (target ++ ascii " HTTP/1.1")) := by
  rcases visible_of_validToken token with ⟨filled, visible⟩
  have read := @readWord_append [] method (ascii " " ++ (target ++ ascii " HTTP/1.1"))
    (fun _ listed => absurd listed List.not_mem_nil) filled visible
    (fun c first => Option.some.inj first ▸ rfl)
  simpa only [requestLine, List.nil_append, List.append_assoc] using read

/-- The target is cut at the first white space in it. -/
theorem readWord_target (begins : target.head? = some (byte '/')) :
    ∃ rest, readWord (ascii " " ++ (target ++ ascii " HTTP/1.1")) =
      some (target.takeWhile (fun c => !isStreamSpace c), rest) ∧
      ((∀ c ∈ target, isStreamSpace c = false) → rest = ascii " HTTP/1.1") := by
  rcases List.head?_eq_some_iff.mp begins with ⟨others, rfl⟩
  have parts : (byte '/' :: others).takeWhile (fun c => !isStreamSpace c) ++
      (byte '/' :: others).dropWhile (fun c => !isStreamSpace c) = byte '/' :: others :=
    List.takeWhile_append_dropWhile
  refine ⟨(byte '/' :: others).dropWhile (fun c => !isStreamSpace c) ++ ascii " HTTP/1.1", ?_, ?_⟩
  · have read := @readWord_append (ascii " ")
      ((byte '/' :: others).takeWhile (fun c => !isStreamSpace c))
      ((byte '/' :: others).dropWhile (fun c => !isStreamSpace c) ++ ascii " HTTP/1.1")
      (List.forall_mem_singleton.mpr rfl) ?_ ?_ ?_
    · rw [← read]
      congr 1
      conv => lhs; rw [← parts]
      simp only [List.append_assoc]
    · rw [List.takeWhile_cons_of_pos (by decide)]
      exact List.cons_ne_nil _ _
    · intro c listed
      simpa using List.mem_takeWhile_imp listed
    · intro c first
      have stopped := List.head?_dropWhile_not (fun c => !isStreamSpace c) (byte '/' :: others)
      cases remaining : (byte '/' :: others).dropWhile (fun c => !isStreamSpace c) with
      | nil =>
          rw [remaining] at first
          exact Option.some.inj first ▸ rfl
      | cons next later =>
          rw [remaining] at first stopped
          rw [← Option.some.inj first]
          simpa using stopped
  · intro visible
    have spent : (byte '/' :: others).dropWhile (fun c => !isStreamSpace c) = [] :=
      List.dropWhile_eq_nil_iff.mpr (by simpa using visible)
    rw [spent, List.nil_append]

theorem requestWords_visible (token : validToken method = true)
    (begins : target.head? = some (byte '/')) (visible : ∀ c ∈ target, isStreamSpace c = false) :
    requestWords (requestLine method target) = some (method, target, ascii "HTTP/1.1") := by
  rcases readWord_target begins with ⟨rest, read, same⟩
  rw [same visible, List.takeWhile_eq_self_iff.mpr (by simpa using visible)] at read
  have version : readWord (ascii " HTTP/1.1") = some (ascii "HTTP/1.1", []) := rfl
  simp only [requestWords, readWord_method token, read, version, Option.bind_some]
  rfl

theorem requestWords_target {words : Bytes × Bytes × Bytes} (token : validToken method = true)
    (begins : target.head? = some (byte '/'))
    (read : requestWords (requestLine method target) = some words) :
    words.1 = method ∧ words.2.1 = target.takeWhile (fun c => !isStreamSpace c) := by
  rcases readWord_target begins with ⟨rest, second, _⟩
  rw [requestWords, readWord_method token, Option.bind_some] at read
  dsimp only at read
  rw [second, Option.bind_some] at read
  rcases Option.bind_eq_some_iff.mp read with ⟨_, _, last⟩
  dsimp only at last
  split at last
  · cases last
  · rw [← Option.some.inj last]
    exact ⟨rfl, rfl⟩

/-! ## The request -/

/-- A text that can stand in a line. -/
def InLine (text : Bytes) : Prop := 13 ∉ text ∧ 10 ∉ text

instance (text : Bytes) : Decidable (InLine text) := inferInstanceAs (Decidable (_ ∧ _))

theorem InLine.append {first second : Bytes} (front : InLine first) (back : InLine second) :
    InLine (first ++ second) := by
  constructor
  · rw [List.mem_append, not_or]
    exact ⟨front.1, back.1⟩
  · rw [List.mem_append, not_or]
    exact ⟨front.2, back.2⟩

theorem inLine_of_visible {text : Bytes} (visible : ∀ c ∈ text, isStreamSpace c = false) :
    InLine text := by
  constructor
  · exact fun listed => absurd (visible 13 listed) (by decide)
  · exact fun listed => absurd (visible 10 listed) (by decide)

def hostLine (host : Bytes) : Bytes := ascii "Host: " ++ host

theorem inLine_hostLine (plain : InLine host) : InLine (hostLine host) :=
  InLine.append (by decide) plain

theorem requestFor_eq : requestFor method target host =
    endedLines [requestLine method target] ++ hostLine host ++ (blankLine ++ []) := by
  have cut : ascii " HTTP/1.1\r\nHost: " = ascii " HTTP/1.1" ++ (crlf ++ ascii "Host: ") := rfl
  simp only [requestFor, cut, endedLines, requestLine, hostLine, List.map_cons, List.map_nil,
    List.flatten_cons, List.flatten_nil, List.append_assoc, List.append_nil]

theorem requestLine_ne_nil : requestLine method target ≠ [] :=
  List.append_ne_nil_of_right_ne_nil _ (by decide)

theorem inLine_requestLine (token : validToken method = true) (plain : InLine target) :
    InLine (requestLine method target) :=
  (((inLine_of_visible (visible_of_validToken token).2).append (by decide)).append plain).append
    (by decide)

theorem findFrom_requestFor (token : validToken method = true) (plainTarget : InLine target)
    (plain : InLine host) : findFrom blankLine (requestFor method target host) 0 =
      some (endedLines [requestLine method target] ++ hostLine host).length := by
  rw [findFrom_zero, requestFor_eq]
  refine indexOf_blankLine_ended ?_ ?_ (inLine_hostLine plain).2 []
  · rw [List.forall_mem_singleton]
    exact ⟨requestLine_ne_nil, (inLine_requestLine token plainTarget).2⟩
  · exact List.append_ne_nil_of_left_ne_nil (by decide) _

/-- The headers of a request that only names its host. -/
def hostHeaders (host : Bytes) : ExtTreeMap Bytes Bytes :=
  (∅ : ExtTreeMap Bytes Bytes).insert (ascii "host") (trim (ascii " " ++ host))

theorem readHeaders_host (plain : InLine host) :
    readHeaders (hostLine host).length (hostLine host) ∅ = some (hostHeaders host) := by
  have size : (hostLine host).length = host.length + 4 + 1 + 1 := by
    rw [hostLine, List.length_append]
    have six : (ascii "Host: ").length = 6 := rfl
    omega
  have line : nextLine (hostLine host) = some (hostLine host, []) := by
    have filled : hostLine host ≠ [] := List.append_ne_nil_of_left_ne_nil (by decide) _
    rw [nextLine_end (inLine_hostLine plain).2 filled,
      dropReturn_of_plain (inLine_hostLine plain).1]
  have colon : (hostLine host).contains (byte ':') = true := rfl
  have key : lower (trim ((hostLine host).takeWhile (· != byte ':'))) = ascii "host" := rfl
  have value : ((hostLine host).dropWhile (· != byte ':')).drop 1 = ascii " " ++ host := rfl
  have token : validToken (ascii "host") = true := by decide
  have spent : nextLine [] = none := rfl
  rw [size]
  simp only [readHeaders, line, colon, key, value, token, spent]
  simp [hostHeaders]

theorem nextLine_requestFor (token : validToken method = true) (plainTarget : InLine target) :
    nextLine (endedLines [requestLine method target] ++ hostLine host) =
      some (requestLine method target, hostLine host) := by
  have plain := inLine_requestLine token plainTarget
  have parts : endedLines [requestLine method target] ++ hostLine host =
      (requestLine method target ++ [13]) ++ 10 :: hostLine host := by
    simp only [endedLines, crlf, List.map_cons, List.map_nil, List.flatten_cons, List.flatten_nil,
      List.append_nil, List.append_assoc]
    rfl
  have free : 10 ∉ requestLine method target ++ [13] := by
    rw [List.mem_append, not_or]
    exact ⟨plain.2, by decide⟩
  rw [parts, nextLine_feed free, dropReturn_concat]

theorem parseHead_decoded {head : Bytes} {request : Request}
    (parsed : parseHead head = .ok request) :
    decodePath (encodedPath request.target) = some request.path := by
  unfold parseHead at parsed
  repeat' split at parsed
  all_goals try simp at parsed
  rcases parsed with rfl
  assumption

/-- The target of an accepted request is a word, and its path is the decoded one. -/
theorem target_of_parseRequest {raw : Bytes} {maxBody : Nat} {request : Request}
    (accepted : parseRequest raw maxBody = .ok request) :
    request.target.head? = some (byte '/') ∧
      (∀ c ∈ request.target, isStreamSpace c = false) ∧
      decodePath (encodedPath request.target) = some request.path := by
  rcases parseRequest_cases accepted with ⟨headerEnd, parsed, _, head, body⟩
  rcases parseBody_cases body with ⟨bytes, rfl, _⟩
  have read := headRead_of_parseHead head
  have decoded := parseHead_decoded head
  rcases read.parts with ⟨first, rest, _, words, _⟩
  exact ⟨read.target, (requestWords_parts words).2, decoded⟩

/-- The request that a target asks for. -/
theorem parseRequest_requestFor {path : Bytes} (token : validToken method = true)
    (bodiless : method ≠ ascii "POST") (begins : target.head? = some (byte '/'))
    (visible : ∀ c ∈ target, isStreamSpace c = false) (plain : InLine host)
    (decoded : decodePath (encodedPath target) = some path) (maxBody : Nat) :
    parseRequest (requestFor method target host) maxBody = .ok
      { method := method, target := target, path := path
        query := (target.dropWhile (· != byte '?')).drop 1
        version := ascii "HTTP/1.1", headers := hostHeaders host } := by
  have plainTarget := inLine_of_visible visible
  have head : parseHead (endedLines [requestLine method target] ++ hostLine host) = .ok
      { method := method, target := target, path := path
        query := (target.dropWhile (· != byte '?')).drop 1
        version := ascii "HTTP/1.1", headers := hostHeaders host } := by
    have named : (hostHeaders host).contains (ascii "host") = true := by simp [hostHeaders]
    rw [encodedPath] at decoded
    rw [parseHead, nextLine_requestFor token plainTarget]
    simp only [requestWords_visible token begins visible, token, readHeaders_host plain, named,
      decoded, begins, ne_eq, not_true_eq_false, Bool.not_true, Bool.false_eq_true, if_false]
  have kept : (requestFor method target host).take
      (endedLines [requestLine method target] ++ hostLine host).length =
      endedLines [requestLine method target] ++ hostLine host := by
    rw [requestFor_eq, List.take_left]
  have uncoded : (hostHeaders host)[ascii "transfer-encoding"]? = none := by
    rw [hostHeaders, ExtTreeMap.getElem?_insert, if_neg (by decide)]
    rfl
  have unannounced : (hostHeaders host)[ascii "content-length"]? = none := by
    rw [hostHeaders, ExtTreeMap.getElem?_insert, if_neg (by decide)]
    rfl
  rw [parseRequest, findFrom_requestFor token plainTarget plain]
  simp only [kept, head]
  rw [parseBody]
  simp only [uncoded, unannounced]
  rw [if_neg bodiless, takeBody]
  simp

/-- What an accepted request has for its target. -/
theorem target_of_accepted {maxBody : Nat} {next : Request} (token : validToken method = true)
    (begins : target.head? = some (byte '/')) (plainTarget : InLine target) (plain : InLine host)
    (accepted : parseRequest (requestFor method target host) maxBody = .ok next) :
    next.method = method ∧ next.target = target.takeWhile (fun c => !isStreamSpace c) ∧
      decodePath (encodedPath next.target) = some next.path := by
  rcases parseRequest_cases accepted with ⟨headerEnd, parsed, found, head, body⟩
  rcases parseBody_cases body with ⟨bytes, rfl, _⟩
  rw [findFrom_requestFor token plainTarget plain, Option.some.injEq] at found
  rw [← found, requestFor_eq, List.take_left] at head
  have decoded := parseHead_decoded head
  rcases (headRead_of_parseHead head).parts with ⟨first, rest, line, words, _⟩
  rw [nextLine_requestFor token plainTarget, Option.some.injEq, Prod.mk.injEq] at line
  rw [← line.1] at words
  have same := requestWords_target token begins words
  exact ⟨same.1, same.2, decoded⟩

/-! ## The end of a path -/

theorem restoreSlash_of_getLast? {decoded : Bytes} (output : Bytes)
    (noSlash : decoded.getLast? ≠ some (byte '/')) : restoreSlash decoded output = output := by
  rw [restoreSlash, if_neg]
  simp only [Bool.and_eq_true, beq_iff_eq, not_and]
  exact fun ends => absurd ends.2 noSlash

theorem getLast?_name {name : Bytes} (front : Bytes) (segment : Segment name) :
    (front ++ name).getLast? ≠ some (byte '/') := by
  rw [List.getLast?_append_of_ne_nil _ segment.nonempty]
  exact fun last => segment.no_slash (List.mem_of_getLast? last)

/-! ## The length of a path -/

/-- Escapes are longer than what they stand for. -/
theorem length_decodeCharacters {input decoded : Bytes}
    (result : decodeCharacters input = some decoded) :
    decoded.length ≤ input.length ∧
      (decoded.length = input.length → byte '%' ∉ input ∧ byte '\\' ∉ input) := by
  induction input using decodeCharacters.induct generalizing decoded with
  | case1 =>
      rw [decodeCharacters, Option.some.injEq] at result
      simp [← result]
  | case2 first second rest ih =>
      rw [decodeCharacters, if_pos rfl] at result
      rcases Option.bind_eq_some_iff.mp result with ⟨value, _, result⟩
      rcases Option.map_eq_some_iff.mp result with ⟨later, decodedRest, rfl⟩
      have shorter := (ih decodedRest).1
      simp only [List.length_cons]
      omega
  | case3 rest short =>
      rw [decodeCharacters, if_pos rfl] at result
      · simp at result
      · exact short
  | case4 c rest notEscape refused =>
      rw [decodeCharacters_cons rest notEscape, if_pos refused] at result
      simp at result
  | case5 c rest notEscape plain ih =>
      rw [decodeCharacters_cons rest notEscape, if_neg plain] at result
      rcases Option.map_eq_some_iff.mp result with ⟨later, decodedRest, rfl⟩
      rcases ih decodedRest with ⟨shorter, same⟩
      simp only [Bool.or_eq_true, beq_iff_eq, not_or] at plain
      simp only [List.length_cons, Nat.add_right_cancel_iff, List.mem_cons, not_or]
      refine ⟨by omega, fun equal => ⟨⟨Ne.symm notEscape, (same equal).1⟩, ?_⟩⟩
      exact ⟨Ne.symm plain.2, (same equal).2⟩

theorem rooted_eq_flatMap {segments : List Bytes} (nonempty : segments ≠ []) :
    rooted segments = segments.flatMap (byte '/' :: ·) := by
  rcases List.exists_cons_of_ne_nil nonempty with ⟨first, rest, rfl⟩
  rw [rooted, intercalate_cons, List.flatMap_cons, List.cons_append]

theorem length_rooted_kept {segments : List Bytes} (nonempty : segments ≠ []) :
    (rooted (kept segments)).length ≤ (rooted segments).length := by
  rw [rooted_eq_flatMap nonempty]
  by_cases empty : kept segments = []
  · rcases List.exists_cons_of_ne_nil nonempty with ⟨first, rest, rfl⟩
    rw [empty, List.flatMap_cons]
    simp [rooted]
  · rw [rooted_eq_flatMap empty]
    exact (List.filter_sublist.flatMap _).length_le

/-- Normalisation makes no path longer. -/
theorem length_normalised (rest : Bytes) :
    (restoreSlash (byte '/' :: rest) (rooted (kept (rest.splitOn (byte '/'))))).length ≤
      rest.length + 1 := by
  have whole (text : Bytes) : rooted (text.splitOn (byte '/')) = byte '/' :: text := by
    rw [rooted, List.intercalate_splitOn]
  unfold restoreSlash
  split
  next ends =>
    simp only [Bool.and_eq_true, decide_eq_true_eq, beq_iff_eq] at ends
    rcases List.eq_nil_or_concat' rest with rfl | ⟨front, last, rfl⟩
    · exact absurd ends.1.1 (by decide)
    · rw [List.getLast?_cons_of_ne_nil (by simp), List.getLast?_concat, Option.some.injEq] at ends
      have split : (front ++ [last]).splitOn (byte '/') = front.splitOn (byte '/') ++ [[]] := by
        rw [ends.1.2]
        exact splitOn_slash front
      have dropped : kept (front.splitOn (byte '/') ++ [[]]) = kept (front.splitOn (byte '/')) := by
        simp [kept]
      have shorter := length_rooted_kept (List.splitOn_ne_nil (byte '/') front)
      rw [whole] at shorter
      rw [split, dropped]
      simp only [List.length_append, List.length_cons, List.length_nil] at shorter ⊢
      have one : (ascii "/").length = 1 := rfl
      omega
  · have shorter := length_rooted_kept (List.splitOn_ne_nil (byte '/') rest)
    rwa [whole] at shorter

/-- A path as long as its text has lost nothing. -/
theorem length_decodePath {input path : Bytes} (begins : input.head? = some (byte '/'))
    (result : decodePath input = some path) :
    path.length ≤ input.length ∧
      (path.length = input.length → byte '%' ∉ input ∧ byte '\\' ∉ input) := by
  rcases List.head?_eq_some_iff.mp begins with ⟨others, rfl⟩
  rcases Option.bind_eq_some_iff.mp result with ⟨decoded, characters, _⟩
  rw [decodePath_eq characters] at result
  split at result
  · cases result
  have lengths := length_decodeCharacters characters
  rw [decodeCharacters_cons others (by decide), if_neg (by decide)] at characters
  rcases Option.map_eq_some_iff.mp characters with ⟨later, _, rfl⟩
  rw [← Option.some.inj result]
  have shorter := length_normalised later
  rw [List.drop_one, List.tail_cons]
  rw [List.length_cons, List.length_cons] at lengths
  rw [List.length_cons]
  exact ⟨by omega, fun equal => lengths.2 (by omega)⟩

end IrcPlatform.Webserv
