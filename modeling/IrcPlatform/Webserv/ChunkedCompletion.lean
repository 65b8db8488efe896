import IrcPlatform.Webserv.ChunkedAppend

/-!
# Complete chunked bodies

How the decoder comes to the end of a body, and what it makes of a part of the text and of a
longer text. A chunk whose size wraps around takes all that has arrived for its data, so a body
with one grows with every byte that follows.
-/

namespace IrcPlatform.Webserv

variable {input late more : Bytes} {position lineEnd size wrapping : Nat} {body start : Bytes}

/-- The decoder goes from a position to the end of the body and decodes the rest of it, with so
many sizes that wrap around. -/
inductive Decodes (input : Bytes) : Nat → Nat → Bytes → Prop where
  | last {position lineEnd : Nat} (line : SizeLine input position lineEnd 0)
      (ends : ∀ body, finishChunked input (lineEnd + 2) body = .complete body) :
      Decodes input 0 position []
  | chunk {wrapping position lineEnd size : Nat} {body : Bytes}
      (line : SizeLine input position lineEnd size) (positive : size ≠ 0)
      (closed : OccursAt crlf input (lineEnd + 2 + size))
      (rest : Decodes input wrapping (lineEnd + 2 + size + 2) body) :
      Decodes input wrapping position (substr input (lineEnd + 2) size ++ body)
  | wraps {wrapping position lineEnd size back : Nat} {body : Bytes}
      (line : SizeLine input position lineEnd size) (sum : back + 2 ^ 64 = lineEnd + 2 + size)
      (closed : OccursAt crlf input back) (rest : Decodes input wrapping (back + 2) body) :
      Decodes input (wrapping + 1) position (input.drop (lineEnd + 2) ++ body)

theorem finishChunked_complete {decoded : Bytes}
    (complete : finishChunked input position body = .complete decoded) :
    decoded = body ∧ position + 2 ≤ input.length ∧
      ∀ other, finishChunked input position other = .complete other := by
  unfold finishChunked at complete ⊢
  split at complete
  next ends =>
    have occurs := (substr_eq_crlf_iff input position).mp ends
    exact ⟨(ChunkedResult.complete.inj complete).symm, crlf_inside occurs,
      fun other => by rw [if_pos ends]⟩
  next still =>
    cases found : findFrom blankLine input position with
    | none => simp [found] at complete
    | some trailersEnd =>
        simp only [found] at complete ⊢
        split at complete
        next ended =>
          have bounds := le_of_findFrom (show blankLine ≠ [] by decide) found
          have size : blankLine.length = 4 := rfl
          exact ⟨(ChunkedResult.complete.inj complete).symm, by omega,
            fun other => by rw [if_neg still, if_pos ended]⟩
        · cases complete

/-- A round that returns a body is at the last chunk. -/
theorem chunkRound_complete {decoded : Bytes}
    (returns : chunkRound input (position, body) = .done (.complete decoded)) :
    ∃ lineEnd, SizeLine input position lineEnd 0 ∧
      finishChunked input (lineEnd + 2) body = .complete decoded := by
  unfold chunkRound at returns
  simp only at returns
  split at returns
  · simp at returns
  next lineEnd ends =>
    split at returns
    · simp at returns
    next size announces =>
      split at returns
      next last =>
        subst last
        exact ⟨lineEnd, ⟨ends, announces⟩, Round.done.inj returns⟩
      · split at returns
        · simp at returns
        · split at returns
          · simp at returns
          · split at returns <;> simp at returns

/-- A size that wraps around is larger than what is left. -/
theorem substr_wraps {back : Nat} (fits : input.length < 2 ^ 64)
    (sum : back + 2 ^ 64 = position + size) : substr input position size = input.drop position := by
  rw [substr, List.take_of_length_le]
  rw [List.length_drop]
  omega

/-- A body that is returned has been decoded. -/
theorem exists_decodes {fuel : Nat} (fits : input.length < 2 ^ 64) {decoded : Bytes}
    (ran : Loop.run (chunkRound input) fuel (position, start) = some (.complete decoded)) :
    ∃ wrapping body, Decodes input wrapping position body ∧ decoded = start ++ body := by
  induction fuel generalizing position start with
  | zero => simp [Loop.run] at ran
  | succ fuel ih =>
      cases taken : chunkRound input (position, start) with
      | done returned =>
          rw [Loop.run_succ_of_done taken, Option.some.injEq] at ran
          subst ran
          rcases chunkRound_complete taken with ⟨lineEnd, line, ends⟩
          rcases finishChunked_complete ends with ⟨rfl, _, always⟩
          exact ⟨0, [], .last line always, (List.append_nil _).symm⟩
      | next after =>
          rw [Loop.run_succ_of_next taken] at ran
          rcases after with ⟨after, grown⟩
          rcases ih ran with ⟨wrapping, body, rest, rfl⟩
          rcases chunkRound_eq_next_iff.mp taken with
            ⟨lineEnd, size, line, positive, inside, closed, rfl, rfl⟩
          have small := line.size_lt
          have bounds := line.bounds
          by_cases wraps : lineEnd + 2 + size < 2 ^ 64
          · rw [Nat.mod_eq_of_lt wraps] at closed rest
            exact ⟨wrapping, _, .chunk line positive closed rest, List.append_assoc _ _ _⟩
          · rcases Nat.exists_eq_add_of_le (Nat.not_lt.mp wraps) with ⟨back, sum⟩
            have remainder : (lineEnd + 2 + size) % 2 ^ 64 = back := by omega
            rw [remainder] at closed rest
            have sum : back + 2 ^ 64 = lineEnd + 2 + size := by omega
            rw [substr_wraps fits sum]
            exact ⟨wrapping + 1, _, .wraps line sum closed rest, List.append_assoc _ _ _⟩

theorem decodes_of_complete (fits : input.length < 2 ^ 64)
    (complete : parseChunked input = .complete body) :
    ∃ wrapping, Decodes input wrapping 0 body := by
  cases ran : Loop.run (chunkRound input) (input.length + 1) (0, []) with
  | none => simp [parseChunked, ran] at complete
  | some returned =>
      rw [parseChunked, ran, Option.getD_some] at complete
      subst complete
      rcases exists_decodes fits ran with ⟨wrapping, decoded, decodes, rfl⟩
      exact ⟨wrapping, decodes⟩

namespace Decodes

/-- A chunk that the decoder goes on behind, with its data. -/
theorem next_of_chunk (line : SizeLine input position lineEnd size) (positive : size ≠ 0)
    (fits : input.length < 2 ^ 64) (closed : OccursAt crlf input (lineEnd + 2 + size))
    (body : Bytes) : chunkRound input (position, body) =
      .next (lineEnd + 2 + size + 2, body ++ substr input (lineEnd + 2) size) := by
  have inside := crlf_inside closed
  refine chunkRound_eq_next_iff.mpr ⟨lineEnd, size, line, positive, ?_, ?_, ?_, rfl⟩
  · rwa [Nat.mod_eq_of_lt (by omega)]
  · rwa [Nat.mod_eq_of_lt (by omega)]
  · rw [Nat.mod_eq_of_lt (by omega)]

theorem next_of_wraps {back : Nat} (line : SizeLine input position lineEnd size)
    (sum : back + 2 ^ 64 = lineEnd + 2 + size) (fits : input.length < 2 ^ 64)
    (closed : OccursAt crlf input back) (body : Bytes) : chunkRound input (position, body) =
      .next (back + 2, body ++ input.drop (lineEnd + 2)) := by
  have inside := crlf_inside closed
  have bounds := line.bounds
  have remainder : (lineEnd + 2 + size) % 2 ^ 64 = back := by omega
  refine chunkRound_eq_next_iff.mpr ⟨lineEnd, size, line, by omega, by omega, ?_, ?_, ?_⟩
  · rwa [remainder]
  · rw [remainder]
  · rw [substr_wraps fits sum]

/-- The decoder returns what has been decoded. -/
theorem returns (fits : input.length < 2 ^ 64) (decodes : Decodes input wrapping position body)
    (start : Bytes) :
    Loop.Returns (chunkRound input) (position, start) (.complete (start ++ body)) := by
  induction decodes generalizing start with
  | last line ends =>
      refine ⟨1, ?_⟩
      apply Loop.run_succ_of_done
      unfold chunkRound
      simp only [line.ends, line.announces, if_true, ends, List.append_nil]
  | @chunk wrapping position lineEnd size body line positive closed rest ih =>
      rcases ih (start ++ substr input (lineEnd + 2) size) with ⟨fuel, ran⟩
      refine ⟨fuel + 1, ?_⟩
      rw [Loop.run_succ_of_next (next_of_chunk line positive fits closed start), ran,
        List.append_assoc]
  | @wraps wrapping position lineEnd size back body line sum closed rest ih =>
      rcases ih (start ++ input.drop (lineEnd + 2)) with ⟨fuel, ran⟩
      refine ⟨fuel + 1, ?_⟩
      rw [Loop.run_succ_of_next (next_of_wraps line sum fits closed start), ran, List.append_assoc]

theorem parseChunked_eq (fits : input.length < 2 ^ 64) (decodes : Decodes input wrapping 0 body) :
    parseChunked input = .complete body :=
  parseChunked_eq_of_returns (decodes.returns fits [])

/-- On a longer text every size that wraps around takes what has come to it. -/
theorem append (decodes : Decodes input wrapping position body) (more : Bytes) :
    ∃ longer, Decodes (input ++ more) wrapping position longer ∧
      longer.length = body.length + wrapping * more.length ∧
      (wrapping = 0 → longer = body) := by
  induction decodes with
  | @last position lineEnd line ends =>
      refine ⟨[], .last (line.append more) fun body => ?_, by simp, fun _ => rfl⟩
      rcases finishChunked_append more (lineEnd + 2) body with same | open_
      · rw [same, ends]
      · rw [ends] at open_
        cases open_
  | @chunk wrapping position lineEnd size body line positive closed rest ih =>
      rcases ih with ⟨longer, decodes, length, same⟩
      have inside := crlf_inside closed
      refine ⟨_, .chunk (line.append more) positive (closed.append crlf_ne_nil more) decodes,
        ?_, ?_⟩
      · rw [substr_append (by omega), List.length_append, List.length_append, length]
        omega
      · intro plain
        rw [substr_append (by omega), same plain]
  | @wraps wrapping position lineEnd size back body line sum closed rest ih =>
      rcases ih with ⟨longer, decodes, length, _⟩
      have bounds := line.bounds
      refine ⟨_, .wraps (line.append more) sum (closed.append crlf_ne_nil more) decodes, ?_,
        by simp⟩
      rw [List.length_append, List.length_append, length, List.drop_append_of_le_length bounds.2,
        List.length_append, Nat.succ_mul]
      omega

/-- Without the line break, more input is wanted. -/
theorem returns_of_none (absent : findFrom crlf input position = none) (start : Bytes) :
    Loop.Returns (chunkRound input) (position, start) (.incomplete start) := by
  refine ⟨1, Loop.run_succ_of_done ?_ 0⟩
  unfold chunkRound
  simp only [absent]

/-- Without the whole chunk, more input is wanted. -/
theorem returns_of_short (line : SizeLine input position lineEnd size) (positive : size ≠ 0)
    (fits : lineEnd + 2 + size + 2 < 2 ^ 64) (short : input.length < lineEnd + 2 + size + 2)
    (start : Bytes) :
    Loop.Returns (chunkRound input) (position, start) (.incomplete start) := by
  refine ⟨1, Loop.run_succ_of_done ?_ 0⟩
  unfold chunkRound
  simp only [line.ends, line.announces]
  rw [if_neg positive, Nat.mod_eq_of_lt fits, if_pos short]

theorem returns_of_next {after : Nat × Bytes} {result : ChunkedResult}
    (goes : chunkRound input (position, start) = .next after)
    (returns : Loop.Returns (chunkRound input) after result) :
    Loop.Returns (chunkRound input) (position, start) result := by
  rcases returns with ⟨fuel, ran⟩
  exact ⟨fuel + 1, (Loop.run_succ_of_next goes fuel).trans ran⟩

/-- A line that ends in a part of the text is the line in all of it. -/
theorem sizeLine_of_append {found : Nat} (ends : findFrom crlf input position = some found)
    (line : SizeLine (input ++ late) position lineEnd size) :
    SizeLine input position lineEnd size := by
  have bounds := le_of_findFrom crlf_ne_nil ends
  have length : crlf.length = 2 := rfl
  have same := Option.some.inj ((findFrom_append crlf_ne_nil ends late).symm.trans line.ends)
  subst same
  refine ⟨ends, ?_⟩
  rw [← line.announces, substr_append (by omega)]

/-- A part of the text is not decoded further than all of it. -/
theorem of_append (decodes : Decodes (input ++ late) wrapping position body)
    (fits : (input ++ late).length < 2 ^ 64) (start : Bytes) :
    ∃ decoded : Bytes, decoded.length ≤ start.length + body.length ∧
      (Loop.Returns (chunkRound input) (position, start) (.complete decoded) ∨
        Loop.Returns (chunkRound input) (position, start) (.incomplete decoded)) := by
  have short : input.length < 2 ^ 64 := by
    rw [List.length_append] at fits
    omega
  have size : crlf.length = 2 := rfl
  generalize whole : input ++ late = text at decodes
  induction decodes generalizing start with
  | @last position lineEnd line ends =>
      subst whole
      refine ⟨start, by omega, ?_⟩
      cases found : findFrom crlf input position with
      | none => exact .inr (returns_of_none found start)
      | some _ =>
          have line := sizeLine_of_append found line
          have returns : Loop.Returns (chunkRound input) (position, start)
              (finishChunked input (lineEnd + 2) start) := by
            refine ⟨1, Loop.run_succ_of_done ?_ 0⟩
            unfold chunkRound
            simp only [line.ends, line.announces, if_true]
          rcases @finishChunked_append input late (lineEnd + 2) start with same | open_
          · rw [ends] at same
            exact .inl (same ▸ returns)
          · exact .inr (open_ ▸ returns)
  | @chunk wrapping position lineEnd size body line positive closed rest ih =>
      subst whole
      have inside := crlf_inside closed
      cases found : findFrom crlf input position with
      | none => exact ⟨start, by omega, .inr (returns_of_none found start)⟩
      | some _ =>
          have line := sizeLine_of_append found line
          by_cases part : input.length < lineEnd + 2 + size + 2
          · exact ⟨start, by omega, .inr (returns_of_short line positive (by omega) part start)⟩
          · have still := (occursAt_append_iff (by omega) late).mp closed
            have goes := next_of_chunk line positive short still start
            rcases ih (start ++ substr input (lineEnd + 2) size) with
              ⟨decoded, length, result⟩
            refine ⟨decoded, ?_, result.imp (returns_of_next goes) (returns_of_next goes)⟩
            rw [substr_append (by omega)]
            simp only [List.length_append] at length ⊢
            omega
  | @wraps wrapping position lineEnd size back body line sum closed rest ih =>
      subst whole
      have notLast : back ≠ lineEnd + 1 := fun same =>
        not_occursAt_crlf_succ line.occurs (same ▸ closed)
      have small := line.size_lt
      cases found : findFrom crlf input position with
      | none => exact ⟨start, by omega, .inr (returns_of_none found start)⟩
      | some _ =>
          have line := sizeLine_of_append found line
          have bounds := line.bounds
          have still := (occursAt_append_iff (by omega) late).mp closed
          have goes := next_of_wraps line sum short still start
          rcases ih (start ++ input.drop (lineEnd + 2)) with ⟨decoded, length, result⟩
          refine ⟨decoded, ?_, result.imp (returns_of_next goes) (returns_of_next goes)⟩
          rw [List.drop_append_of_le_length bounds.2]
          simp only [List.length_append] at length ⊢
          omega

/-- Where no size wraps around, every framed position is one that the decoder comes to. -/
theorem exists_of_framed (decodes : Decodes input 0 0 body) (fits : input.length < 2 ^ 64)
    (framed : Framed input position) : ∃ rest, Decodes input 0 position rest := by
  induction framed with
  | first => exact ⟨body, decodes⟩
  | @chunk position lineEnd size _ line positive closed ih =>
      rcases ih with ⟨rest, decodes⟩
      cases decodes with
      | last other => exact absurd (line.unique other).2 positive
      | chunk other _ _ rest =>
          rcases line.unique other with ⟨rfl, rfl⟩
          exact ⟨_, rest⟩
  | @hollow position lineEnd size _ line wraps ih =>
      rcases ih with ⟨rest, decodes⟩
      cases decodes with
      | last other =>
          have none := (line.unique other).2
          omega
      | chunk other _ closed =>
          rcases line.unique other with ⟨rfl, rfl⟩
          have inside := crlf_inside closed
          omega

/-- The sizes of a complete body fit if none wraps around. -/
theorem sizesFit (decodes : Decodes input 0 0 body) (fits : input.length < 2 ^ 64) :
    SizesFit input := by
  intro position lineEnd size framed line
  rcases decodes.exists_of_framed fits framed with ⟨rest, decodes⟩
  cases decodes with
  | last other ends =>
      rcases line.unique other with ⟨rfl, rfl⟩
      have inside := (finishChunked_complete (ends [])).2.1
      omega
  | chunk other _ closed =>
      rcases line.unique other with ⟨rfl, rfl⟩
      have inside := crlf_inside closed
      omega

theorem plain_of_fit (fit : SizesFit input) (framed : Framed input position)
    (decodes : Decodes input wrapping position body) : wrapping = 0 := by
  induction decodes with
  | last => rfl
  | chunk line positive closed rest ih => exact ih (.chunk framed line positive closed)
  | wraps line sum =>
      have := fit _ _ _ framed line
      omega

end Decodes

/-- A complete body of sizes that fit is the same on a longer text; any other grows. -/
theorem parseChunked_longer (complete : parseChunked input = .complete body)
    (fits : (input ++ more).length < 2 ^ 64) :
    ∃ longer, parseChunked (input ++ more) = .complete longer ∧
      (longer = body ↔ SizesFit input ∨ more = []) := by
  have short : input.length < 2 ^ 64 := by
    rw [List.length_append] at fits
    omega
  rcases decodes_of_complete short complete with ⟨wrapping, decodes⟩
  rcases decodes.append more with ⟨longer, grown, length, same⟩
  refine ⟨longer, grown.parseChunked_eq fits, ?_⟩
  constructor
  · rintro rfl
    have none : wrapping * more.length = 0 := by omega
    rcases Nat.mul_eq_zero.mp none with rfl | empty
    · exact .inl (decodes.sizesFit short)
    · exact .inr (List.eq_nil_of_length_eq_zero empty)
  · rintro (fit | rfl)
    · exact same (Decodes.plain_of_fit fit .first decodes)
    · rw [List.append_nil] at grown
      have again := grown.parseChunked_eq short
      rw [complete] at again
      exact (ChunkedResult.complete.inj again).symm

/-- A part of a complete body is complete or wants more input, and is no longer. -/
theorem parseChunked_shorter (complete : parseChunked (input ++ late) = .complete body)
    (fits : (input ++ late).length < 2 ^ 64) :
    ∃ decoded, decoded.length ≤ body.length ∧
      (parseChunked input = .complete decoded ∨ parseChunked input = .incomplete decoded) := by
  rcases decodes_of_complete fits complete with ⟨wrapping, decodes⟩
  rcases decodes.of_append fits [] with ⟨decoded, length, result⟩
  rw [List.length_nil, Nat.zero_add] at length
  exact ⟨decoded, length, result.imp parseChunked_eq_of_returns parseChunked_eq_of_returns⟩

end IrcPlatform.Webserv
