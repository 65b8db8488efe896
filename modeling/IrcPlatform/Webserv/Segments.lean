import Mathlib.Data.List.TakeWhile
import IrcPlatform.Webserv.ChunkedAppend
import IrcPlatform.Webserv.Http

/-!
# Requests cut into segments

The server parses all bytes received so far each time more arrive, and acts on
the first verdict other than incomplete. A request that is accepted is accepted
with the same result however its bytes arrive. The refusals can differ: a body is
too large before its next chunk turns out to be malformed, and a head without an
end is refused at a length that a head with an end may have.
-/

namespace IrcPlatform.Webserv

open Std

variable {raw more : Bytes} {maxBody : Nat} {request : Request}

/-- The chunk sizes of a request with a chunked body do not wrap around. -/
def ChunksFit (raw : Bytes) : Prop :=
  ∀ headerEnd request, findFrom blankLine raw 0 = some headerEnd →
    parseHead (raw.take headerEnd) = .ok request →
    request.headers.contains (ascii "transfer-encoding") = true →
    SizesFit (raw.drop (headerEnd + 4))

theorem blankLine_ne_nil : blankLine ≠ [] := by decide

/-- The head of a text is the head of a longer text, whose payload is longer. -/
theorem head_append {headerEnd : Nat} (found : findFrom blankLine raw 0 = some headerEnd)
    (more : Bytes) : findFrom blankLine (raw ++ more) 0 = some headerEnd ∧
      (raw ++ more).take headerEnd = raw.take headerEnd ∧
      (raw ++ more).drop (headerEnd + 4) = raw.drop (headerEnd + 4) ++ more := by
  have bound : headerEnd + 4 ≤ raw.length := (le_of_findFrom blankLine_ne_nil found).2
  exact ⟨findFrom_append blankLine_ne_nil found more,
    List.take_append_of_le_length (by omega), List.drop_append_of_le_length bound⟩

theorem ChunksFit.of_append (fit : ChunksFit (raw ++ more)) : ChunksFit raw := by
  intro headerEnd request found head chunked
  rcases head_append found more with ⟨foundLonger, sameHead, payload⟩
  have fitLonger := fit headerEnd request foundLonger (sameHead.symm ▸ head) chunked
  rw [payload] at fitLonger
  exact fitLonger.of_append

/-! ## One more segment -/

/-- How the verdict on a longer text follows a verdict other than incomplete. -/
def Succeeds (before after : ParseResult) : Prop :=
  after = before ∨ before = .incomplete ∨ (before = .tooLarge ∧ after = .bad)

theorem takeBody_append (length : Nat) (payload more : Bytes) :
    Succeeds (takeBody maxBody length request payload)
      (takeBody maxBody length request (payload ++ more)) := by
  unfold takeBody
  split
  · exact Or.inl rfl
  · split
    · exact Or.inr (Or.inl rfl)
    next complete =>
      rw [if_neg (by rw [List.length_append]; omega), List.take_append_of_le_length (by omega)]
      exact Or.inl rfl

theorem ofChunked_follows {before after : ChunkedResult} (follows : Follows before after) :
    Succeeds (.ofChunked maxBody request before) (.ofChunked maxBody request after) := by
  rcases follows with rfl | ⟨body, rfl, continues⟩
  · exact Or.inl rfl
  · rw [ParseResult.ofChunked]
    split
    next large =>
      have stays : ∀ longer : Bytes, body <+: longer → maxBody < longer.length :=
        fun longer start => Nat.lt_of_lt_of_le large start.length_le
      cases after with
      | rejected => exact Or.inr (Or.inr ⟨rfl, rfl⟩)
      | incomplete longer | complete longer =>
          left
          rw [ParseResult.ofChunked, if_pos (stays longer continues)]
      | outOfRange | spins => exact continues.elim
    · exact Or.inr (Or.inl rfl)

theorem parseBody_append {payload : Bytes}
    (fit : request.headers.contains (ascii "transfer-encoding") = true →
      SizesFit (payload ++ more)) :
    Succeeds (parseBody maxBody request payload)
      (parseBody maxBody request (payload ++ more)) := by
  unfold parseBody
  split
  · exact Or.inl rfl
  next coding chunked _ =>
    split
    · exact Or.inl rfl
    · refine ofChunked_follows (parseChunked_append (fit ?_))
      rw [ExtTreeMap.contains_eq_isSome_getElem?, chunked]
      rfl
  · split
    · exact Or.inl rfl
    · exact takeBody_append _ _ _
  · split
    · exact Or.inl rfl
    · exact takeBody_append _ _ _

theorem parseRequest_succeeds (fit : ChunksFit (raw ++ more))
    (ended : (findFrom blankLine raw 0).isSome) :
    Succeeds (parseRequest raw maxBody) (parseRequest (raw ++ more) maxBody) := by
  rcases Option.isSome_iff_exists.mp ended with ⟨headerEnd, found⟩
  rcases head_append found more with ⟨foundLonger, sameHead, payload⟩
  unfold parseRequest
  simp only [found, foundLonger, sameHead, payload]
  cases head : parseHead (raw.take headerEnd) with
  | error verdict => exact Or.inl rfl
  | ok request =>
      refine parseBody_append fun chunked => ?_
      have fitPayload := fit headerEnd request foundLonger (sameHead.symm ▸ head) chunked
      rwa [payload] at fitPayload

/-! ## The first verdict -/

/-- A verdict that the server acts on. -/
def ParseResult.decided : ParseResult → Option ParseResult
  | incomplete => none
  | verdict => some verdict

theorem ParseResult.decided_of_ne {verdict : ParseResult} (other : verdict ≠ incomplete) :
    verdict.decided = some verdict := by
  cases verdict with
  | incomplete => exact absurd rfl other
  | ok | bad | tooLarge | versionNotSupported | outOfRange | spins => rfl

/-- The verdict that the server acts on, with the segments as they arrive. -/
def firstVerdict (maxBody : Nat) : Bytes → List Bytes → Option ParseResult
  | _, [] => none
  | received, segment :: rest =>
      match (parseRequest (received ++ segment) maxBody).decided with
      | none => firstVerdict maxBody (received ++ segment) rest
      | some verdict => some verdict

/-- A verdict, with the two kinds of refusal that depend on the segments taken as one. -/
def ParseResult.settle : ParseResult → ParseResult
  | tooLarge => bad
  | verdict => verdict

theorem Succeeds.settle_eq {before after : ParseResult} (succeeds : Succeeds before after)
    (verdict : before ≠ .incomplete) : before.settle = after.settle := by
  rcases succeeds with rfl | open_ | ⟨rfl, rfl⟩
  · rfl
  · exact absurd open_ verdict
  · rfl

/-- The verdict on a prefix of a stream whose head, if it ends, ends in time. -/
theorem settle_append {raw more : Bytes} {maxBody : Nat} (fit : ChunksFit (raw ++ more))
    (inTime : ∀ headerEnd, findFrom blankLine (raw ++ more) 0 = some headerEnd →
      headerEnd + 3 ≤ maxOpenHead)
    (verdict : parseRequest raw maxBody ≠ .incomplete) :
    (parseRequest raw maxBody).settle = (parseRequest (raw ++ more) maxBody).settle := by
  cases found : findFrom blankLine raw 0 with
  | some headerEnd =>
      exact (parseRequest_succeeds fit (by simp [found])).settle_eq verdict
  | none =>
      have long : maxOpenHead < raw.length := by
        by_contra short
        simp [parseRequest, found, short] at verdict
      cases foundLonger : findFrom blankLine (raw ++ more) 0 with
      | none =>
          simp only [parseRequest, found, foundLonger, long, if_true, List.length_append]
          rw [if_pos (by omega)]
      | some headerEnd =>
          -- the head would have ended inside the prefix
          have early := inTime headerEnd foundLonger
          have occurs := ((findFrom_eq_some_iff blankLine_ne_nil).mp foundLonger).2.1
          have size : blankLine.length = 4 := rfl
          exact absurd ((occursAt_append_iff (by omega) more).mp occurs)
            ((findFrom_eq_none_iff blankLine_ne_nil).mp found headerEnd (Nat.zero_le _))

theorem parseRequest_incomplete_of_append (fit : ChunksFit (raw ++ more))
    (inTime : ∀ headerEnd, findFrom blankLine (raw ++ more) 0 = some headerEnd →
      headerEnd + 3 ≤ maxOpenHead)
    (open_ : parseRequest (raw ++ more) maxBody = .incomplete) :
    parseRequest raw maxBody = .incomplete := by
  by_contra verdict
  have same := settle_append fit inTime verdict
  rw [open_] at same
  cases result : parseRequest raw maxBody with
  | incomplete => exact verdict result
  | ok | bad | tooLarge | versionNotSupported | outOfRange | spins =>
      rw [result] at same
      cases same

/-- The first verdict on a stream is, up to the kind of refusal, the one on all of it. -/
theorem firstVerdict_settle (segments : List Bytes) (received : Bytes)
    (fit : ChunksFit (received ++ segments.flatten))
    (inTime : ∀ headerEnd, findFrom blankLine (received ++ segments.flatten) 0 = some headerEnd →
      headerEnd + 3 ≤ maxOpenHead)
    (sofar : parseRequest received maxBody = .incomplete) :
    (firstVerdict maxBody received segments).map (·.settle) =
      (parseRequest (received ++ segments.flatten) maxBody).decided.map (·.settle) := by
  induction segments generalizing received with
  | nil => simp [firstVerdict, sofar, ParseResult.decided]
  | cons segment rest ih =>
      rw [List.flatten_cons, ← List.append_assoc] at fit inTime ⊢
      rw [firstVerdict]
      by_cases open_ : parseRequest (received ++ segment) maxBody = .incomplete
      · rw [open_]
        exact ih (received ++ segment) fit inTime open_
      · have whole : parseRequest (received ++ segment ++ rest.flatten) maxBody ≠
            .incomplete := fun wholeOpen =>
          open_ (parseRequest_incomplete_of_append fit inTime wholeOpen)
        rw [ParseResult.decided_of_ne open_, ParseResult.decided_of_ne whole]
        exact congrArg some (settle_append fit inTime open_)

theorem parseRequest_nil (maxBody : Nat) : parseRequest [] maxBody = .incomplete := rfl

/-- An accepted request stays accepted as it is, a refused version and a malformed request
whose head has ended stay refused, and a body that is too large is refused. The first
verdict on a stream depends on the segments only in the kind of refusal. -/
theorem parseRequest_segments (maxBody : Nat) :
    (∀ raw more, ChunksFit (raw ++ more) →
      (∀ request, parseRequest raw maxBody = .ok request →
        parseRequest (raw ++ more) maxBody = .ok request) ∧
      (parseRequest raw maxBody = .versionNotSupported →
        parseRequest (raw ++ more) maxBody = .versionNotSupported) ∧
      (parseRequest raw maxBody = .bad → (findFrom blankLine raw 0).isSome →
        parseRequest (raw ++ more) maxBody = .bad) ∧
      (parseRequest raw maxBody = .tooLarge →
        parseRequest (raw ++ more) maxBody = .tooLarge ∨
          parseRequest (raw ++ more) maxBody = .bad)) ∧
    ∀ first second : List Bytes, first.flatten = second.flatten → ChunksFit first.flatten →
      (∀ headerEnd, findFrom blankLine first.flatten 0 = some headerEnd →
        headerEnd + 3 ≤ maxOpenHead) →
      (firstVerdict maxBody [] first).map (·.settle) =
        (firstVerdict maxBody [] second).map (·.settle) := by
  constructor
  · intro raw more fit
    have ends : ∀ {verdict : ParseResult}, parseRequest raw maxBody = verdict →
        verdict ≠ .incomplete → verdict ≠ .bad → (findFrom blankLine raw 0).isSome := by
      intro verdict result notOpen notBad
      cases found : findFrom blankLine raw 0 with
      | some headerEnd => rfl
      | none =>
          simp only [parseRequest, found] at result
          split at result
          · exact absurd result.symm notBad
          · exact absurd result.symm notOpen
    have succeeds : ∀ {verdict : ParseResult}, parseRequest raw maxBody = verdict →
        (findFrom blankLine raw 0).isSome →
        Succeeds verdict (parseRequest (raw ++ more) maxBody) :=
      fun result ended => result ▸ parseRequest_succeeds fit ended
    refine ⟨?_, ?_, ?_, ?_⟩
    · intro request result
      rcases succeeds result (ends result ParseResult.noConfusion ParseResult.noConfusion) with
        same | open_ | ⟨large, _⟩
      · exact same
      · cases open_
      · cases large
    · intro result
      rcases succeeds result (ends result ParseResult.noConfusion ParseResult.noConfusion) with
        same | open_ | ⟨large, _⟩
      · exact same
      · cases open_
      · cases large
    · intro result ended
      rcases succeeds result ended with same | open_ | ⟨large, _⟩
      · exact same
      · cases open_
      · cases large
    · intro result
      rcases succeeds result (ends result ParseResult.noConfusion ParseResult.noConfusion) with
        same | open_ | ⟨_, bad⟩
      · exact Or.inl same
      · cases open_
      · exact Or.inr bad
  · intro first second same fit inTime
    rw [firstVerdict_settle first [] fit inTime (parseRequest_nil maxBody),
      firstVerdict_settle second [] (same ▸ fit) (same ▸ inTime) (parseRequest_nil maxBody), same]

theorem chunksFit_of_head {raw : Bytes} {headerEnd : Nat}
    (found : findFrom blankLine raw 0 = some headerEnd)
    (plain : (match parseHead (raw.take headerEnd) with
      | .ok request => request.headers.contains (ascii "transfer-encoding")
      | .error _ => false) = false) : ChunksFit raw := by
  intro other request foundAgain head chunked
  rcases Option.some.inj (found.symm.trans foundAgain) with rfl
  simp [head, chunked] at plain

/-- A request that arrives in one piece or in two. -/
theorem parseRequest_segments_get :
    (firstVerdict 1024 [] [ascii "GET / HTTP/1.1\r\nHost: a\r\n\r\n"]).map (·.settle) =
      (firstVerdict 1024 [] [ascii "GET / HTTP/1.1\r\nHo", ascii "st: a\r\n\r\n"]).map
        (·.settle) := by
  have found : findFrom blankLine (ascii "GET / HTTP/1.1\r\nHost: a\r\n\r\n") 0 = some 23 := by
    decide +kernel
  refine (parseRequest_segments 1024).2 _ _ rfl (chunksFit_of_head found (by decide +kernel)) ?_
  intro headerEnd foundAgain
  have : headerEnd = 23 := Option.some.inj (foundAgain.symm.trans found)
  rw [this, maxOpenHead]
  omega

/-! ## Verdicts that change -/

/-- A head without an end, whose last word is not a version of HTTP. -/
def openHead (length : Nat) : Bytes := ascii "a / " ++ List.replicate length (byte 'b')

theorem mem_openHead {length : Nat} {c : UInt8} (listed : c ∈ openHead length) :
    c ≠ 13 ∧ c ≠ 10 := by
  rcases List.mem_append.mp listed with listed | listed
  · exact (by decide +kernel : ∀ c ∈ ascii "a / ", c ≠ 13 ∧ c ≠ 10) c listed
  · rw [List.eq_of_mem_replicate listed]
    decide

theorem nextLine_openHead (length : Nat) : nextLine (openHead (length + 1)) =
    some (openHead (length + 1), []) := by
  have noBreak : ∀ c ∈ openHead (length + 1), (c != 10) = true := fun c listed => by
    simpa using (mem_openHead listed).2
  have last : (openHead (length + 1)).getLast? = some (byte 'b') := by
    rw [openHead, List.replicate_succ', ← List.append_assoc, List.getLast?_concat]
  have nonempty : (openHead (length + 1)).isEmpty = false := rfl
  unfold nextLine getline
  rw [nonempty, List.takeWhile_eq_self_iff.mpr noBreak, List.dropWhile_eq_nil_iff.mpr noBreak]
  simp [last, show byte 'b' ≠ 13 by decide]

theorem requestWords_openHead (length : Nat) : requestWords (openHead (length + 1)) =
    some (ascii "a", ascii "/", List.replicate (length + 1) (byte 'b')) := by
  have visible : ∀ c ∈ List.replicate (length + 1) (byte 'b'), (!isStreamSpace c) = true := by
    intro c listed
    rw [List.eq_of_mem_replicate listed]
    decide
  have first : readWord (openHead (length + 1)) =
      some (ascii "a", ascii " / " ++ List.replicate (length + 1) (byte 'b')) := rfl
  have second : readWord (ascii " / " ++ List.replicate (length + 1) (byte 'b')) =
      some (ascii "/", byte ' ' :: List.replicate (length + 1) (byte 'b')) := rfl
  have third : readWord (byte ' ' :: List.replicate (length + 1) (byte 'b')) =
      some (List.replicate (length + 1) (byte 'b'), []) := by
    have skipped : skipStreamSpaces (byte ' ' :: List.replicate (length + 1) (byte 'b')) =
        byte 'b' :: List.replicate length (byte 'b') := rfl
    unfold readWord
    rw [skipped]
    simp only [List.span_eq_takeWhile_dropWhile]
    rw [← List.replicate_succ, List.takeWhile_eq_self_iff.mpr visible,
      List.dropWhile_eq_nil_iff.mpr visible]
  simp only [requestWords, first, second, third, Option.bind_some]
  rfl

theorem parseHead_openHead {length : Nat} (long : 8 < length) :
    parseHead (openHead length) = .error .versionNotSupported := by
  rcases Nat.exists_eq_add_of_lt (Nat.zero_lt_of_lt long) with ⟨length, rfl⟩
  rw [Nat.zero_add] at long ⊢
  unfold parseHead
  rw [nextLine_openHead]
  simp only [requestWords_openHead]
  rw [if_neg (by decide), if_pos]
  intro same
  have lengths := congrArg List.length same
  rw [List.length_replicate] at lengths
  have : (ascii "HTTP/1.1").length = 8 := by decide
  omega

theorem parseRequest_openHead {length : Nat} (long : maxOpenHead < length) (maxBody : Nat) :
    parseRequest (openHead length) maxBody = .bad ∧
      parseRequest (openHead length ++ blankLine) maxBody = .versionNotSupported := by
  have absent : findFrom blankLine (openHead length) 0 = none :=
    (findFrom_eq_none_iff blankLine_ne_nil).mpr fun position _ occurs =>
      (mem_openHead (List.mem_of_getElem? occurs.getElem?)).1 rfl
  have size : (openHead length).length = 4 + length := by
    rw [openHead, List.length_append, List.length_replicate]
    rfl
  have ends : findFrom blankLine (openHead length ++ blankLine) 0 =
      some (openHead length).length := by
    refine (findFrom_eq_some_iff blankLine_ne_nil).mpr ⟨Nat.zero_le _, ?_, ?_⟩
    · rw [OccursAt, List.drop_left]
    · intro earlier _ before occurs
      have there := occurs.getElem?
      rw [List.getElem?_append_left before] at there
      exact (mem_openHead (List.mem_of_getElem? there)).1 rfl
  constructor
  · rw [parseRequest, absent]
    simp only
    rw [if_pos (by omega)]
  · rw [parseRequest, ends]
    simp only [List.take_left]
    rw [parseHead_openHead (by rw [maxOpenHead] at long; omega)]

def chunkedHead : Bytes :=
  ascii "POST / HTTP/1.1\r\nHost: a\r\nTransfer-Encoding: chunked\r\n\r\n"

/-- A body that is too large before it is malformed, a head that is refused before it ends,
and a hollow chunk, which swallows whatever has arrived. -/
theorem verdict_changes :
    parseRequest (chunkedHead ++ ascii "2\r\nab\r\n") 1 = .tooLarge ∧
    parseRequest (chunkedHead ++ ascii "2\r\nab\r\n" ++ ascii "z\r\n") 1 = .bad ∧
    parseRequest (openHead 65537) 1 = .bad ∧
    parseRequest (openHead 65537 ++ blankLine) 1 = .versionNotSupported ∧
    (∃ request other,
      parseRequest (chunkedHead ++ ascii "FFFFFFFFFFFFFFFE\r\n0\r\n\r\n") 99 = .ok request ∧
      parseRequest (chunkedHead ++ ascii "FFFFFFFFFFFFFFFE\r\n0\r\n\r\n" ++ ascii "x") 99 =
        .ok other ∧ request.body ≠ other.body) ∧
    ¬∀ (raw more : Bytes) (maxBody : Nat), parseRequest raw maxBody ≠ .incomplete →
      parseRequest (raw ++ more) maxBody = parseRequest raw maxBody := by
  have large : parseRequest (chunkedHead ++ ascii "2\r\nab\r\n") 1 = .tooLarge := by
    decide +kernel
  have malformed : parseRequest (chunkedHead ++ ascii "2\r\nab\r\n" ++ ascii "z\r\n") 1 =
      .bad := by
    decide +kernel
  obtain ⟨openBad, endedVersion⟩ :=
    parseRequest_openHead (show maxOpenHead < 65537 by decide) 1
  have bodies : (match
      parseRequest (chunkedHead ++ ascii "FFFFFFFFFFFFFFFE\r\n0\r\n\r\n") 99,
      parseRequest (chunkedHead ++ ascii "FFFFFFFFFFFFFFFE\r\n0\r\n\r\n" ++ ascii "x") 99 with
    | .ok request, .ok other => decide (request.body ≠ other.body)
    | _, _ => false) = true := by
    decide +kernel
  refine ⟨large, malformed, openBad, endedVersion, ?_, ?_⟩
  · split at bodies
    next request other first second => exact ⟨request, other, first, second, by simpa using bodies⟩
    · simp at bodies
  · intro law
    have same := law (chunkedHead ++ ascii "2\r\nab\r\n") (ascii "z\r\n") 1 (by simp [large])
    rw [large, malformed] at same
    cases same

end IrcPlatform.Webserv
