import IrcPlatform.Webserv.ChunkedProgress

/-!
# Chunked bodies that grow

The decoder on a text and on a longer text: it returns the same, or wanted more
and goes on from there. Chunk sizes whose sum with the position wraps around are
left out.
-/

namespace IrcPlatform.Webserv

variable {input more : Bytes} {position lineEnd size fuel : Nat} {body : Bytes}

/-! ## Rounds -/

/-- No chunk size that the decoder reaches wraps around. -/
def SizesFit (input : Bytes) : Prop :=
  ∀ position lineEnd size, Framed input position → SizeLine input position lineEnd size →
    lineEnd + 2 + size + 2 < 2 ^ 64

theorem SizeLine.append (line : SizeLine input position lineEnd size) (more : Bytes) :
    SizeLine (input ++ more) position lineEnd size := by
  have inside := line.bounds
  refine ⟨findFrom_append crlf_ne_nil line.ends more, ?_⟩
  rw [substr_append (by omega)]
  exact line.announces

theorem Framed.append (framed : Framed input position) (more : Bytes) :
    Framed (input ++ more) position := by
  induction framed with
  | first => exact .first
  | chunk _ line positive closed ih =>
      exact .chunk ih (line.append more) positive (closed.append crlf_ne_nil more)
  | hollow _ line wraps ih => exact .hollow ih (line.append more) wraps

theorem SizesFit.of_append (fit : SizesFit (input ++ more)) : SizesFit input :=
  fun position lineEnd size framed line =>
    fit position lineEnd size (framed.append more) (line.append more)

/-- Without wrapping around, a round that goes on ends its chunk. -/
theorem chunkRound_next_of_fit {after : Nat} {grown : Bytes} (fit : SizesFit input)
    (framed : Framed input position)
    (goes : chunkRound input (position, body) = .next (after, grown)) :
    ∃ lineEnd size, SizeLine input position lineEnd size ∧ size ≠ 0 ∧
      lineEnd + 2 + size + 2 ≤ input.length ∧ OccursAt crlf input (lineEnd + 2 + size) ∧
      after = lineEnd + 2 + size + 2 ∧ grown = body ++ substr input (lineEnd + 2) size := by
  obtain ⟨lineEnd, size, line, positive, inside, occurs, rfl, rfl⟩ :=
    chunkRound_eq_next_iff.mp goes
  have := fit position lineEnd size framed line
  rw [Nat.mod_eq_of_lt (by omega)] at inside occurs ⊢
  exact ⟨lineEnd, size, line, positive, inside, occurs, rfl, rfl⟩

theorem framed_of_next {after : Nat} {grown : Bytes} (fit : SizesFit input)
    (framed : Framed input position)
    (goes : chunkRound input (position, body) = .next (after, grown)) :
    position < after ∧ Framed input after := by
  obtain ⟨lineEnd, size, line, positive, inside, occurs, rfl, rfl⟩ :=
    chunkRound_next_of_fit fit framed goes
  have := line.bounds
  exact ⟨by omega, .chunk framed line positive occurs⟩

/-- The colon and the line break of a trailer line are found again in a longer text. -/
theorem trailerRound_append {trailersEnd : Nat} (occurs : OccursAt blankLine input trailersEnd)
    (more : Bytes) (trailer : Nat) :
    trailerRound (input ++ more) trailersEnd trailer = trailerRound input trailersEnd trailer := by
  unfold trailerRound
  split
  · rfl
  next before =>
    have breaks : OccursAt crlf input trailersEnd := by
      rcases occurs with ⟨rest, split⟩
      exact ⟨crlf ++ rest, by rw [← split, blankLine, List.append_assoc]⟩
    cases ends : findFrom crlf input trailer with
    | none =>
        exact absurd breaks ((findFrom_eq_none_iff crlf_ne_nil).mp ends trailersEnd (by omega))
    | some trailerEnd =>
        have bound := (le_of_findFrom crlf_ne_nil ends).2
        simp only [findFrom_append crlf_ne_nil ends more]
        cases colons : findFrom [byte ':'] input trailer with
        | some colon => simp only [findFrom_append (by simp) colons more]
        | none =>
            -- a colon that only the longer text has comes after the line
            cases later : findFrom [byte ':'] (input ++ more) trailer with
            | none => rfl
            | some colon =>
                obtain ⟨after, there, _⟩ := (findFrom_eq_some_iff (by simp)).mp later
                have beyond : input.length ≤ colon := by
                  by_contra inside
                  refine (findFrom_eq_none_iff (by simp)).mp colons colon after ?_
                  exact (occursAt_append_iff (by simp; omega) more).mp there
                have crlfLength : crlf.length = 2 := rfl
                simp only
                rw [if_pos (by omega)]

/-- What ends the body ends it in a longer text as well. -/
theorem finishChunked_append (more : Bytes) (position : Nat) (body : Bytes) :
    finishChunked (input ++ more) position body = finishChunked input position body ∨
      finishChunked input position body = .incomplete body := by
  unfold finishChunked
  by_cases ends : substr input position 2 = crlf
  · have occurs := (substr_eq_crlf_iff input position).mp ends
    left
    rw [if_pos ends, if_pos ((substr_eq_crlf_iff _ _).mpr (occurs.append crlf_ne_nil more))]
  · rw [if_neg ends]
    cases trailers : findFrom blankLine input position with
    | none => exact Or.inr rfl
    | some trailersEnd =>
        left
        have blank : blankLine ≠ [] := by decide
        rcases (findFrom_eq_some_iff blank).mp trailers with ⟨after, occurs, _⟩
        have bound := occurs.bound blank
        have blankLength : blankLine.length = 4 := rfl
        have still : substr (input ++ more) position 2 ≠ crlf := by
          rwa [substr_append (by omega)]
        rw [if_neg still, findFrom_append blank trailers more]
        have same : trailerRound (input ++ more) trailersEnd = trailerRound input trailersEnd :=
          funext (trailerRound_append occurs more)
        simp only [same]

theorem chunkRound_append_next {after : Nat × Bytes} (fit : SizesFit input)
    (framed : Framed input position)
    (goes : chunkRound input (position, body) = .next after) (more : Bytes) :
    chunkRound (input ++ more) (position, body) = .next after := by
  rcases after with ⟨after, grown⟩
  obtain ⟨lineEnd, size, line, positive, inside, occurs, rfl, rfl⟩ :=
    chunkRound_next_of_fit fit framed goes
  have small := fit position lineEnd size framed line
  refine chunkRound_eq_next_iff.mpr ⟨lineEnd, size, line.append more, positive, ?_, ?_, ?_, ?_⟩
  · rw [Nat.mod_eq_of_lt small, List.length_append]
    omega
  · rw [Nat.mod_eq_of_lt (by omega)]
    exact occurs.append crlf_ne_nil more
  · rw [Nat.mod_eq_of_lt (by omega)]
  · rw [substr_append (by omega)]

/-- A round that returns, other than for want of more input, returns the same. -/
theorem chunkRound_append_done {result : ChunkedResult} (fit : SizesFit input)
    (framed : Framed input position)
    (returns : chunkRound input (position, body) = .done result) (more : Bytes) :
    chunkRound (input ++ more) (position, body) = .done result ∨ result = .incomplete body := by
  unfold chunkRound at returns ⊢
  simp only at returns ⊢
  cases ends : findFrom crlf input position with
  | none =>
      simp only [ends, Round.done.injEq] at returns
      exact Or.inr returns.symm
  | some lineEnd =>
      have inside := le_of_findFrom crlf_ne_nil ends
      have crlfLength : crlf.length = 2 := rfl
      rw [findFrom_append crlf_ne_nil ends more]
      simp only [ends] at returns
      simp only
      rw [substr_append (by omega)]
      cases announces : chunkSize (substr input position (lineEnd - position)) with
      | none =>
          simp only [announces] at returns
          exact Or.inl returns
      | some size =>
          have small := fit position lineEnd size framed ⟨ends, announces⟩
          simp only [announces, Nat.mod_eq_of_lt small,
            Nat.mod_eq_of_lt (show lineEnd + 2 + size < 2 ^ 64 by omega)] at returns ⊢
          split at returns
          next last =>
            rw [if_pos last]
            rw [Round.done.injEq] at returns
            rcases finishChunked_append more (lineEnd + 2) body with same | open_
            · exact Or.inl (by rw [same, returns])
            · exact Or.inr (returns.symm.trans open_)
          next positive =>
            rw [if_neg positive]
            split at returns
            · exact Or.inr (Round.done.inj returns).symm
            next fits =>
              rw [if_neg (by rw [List.length_append]; omega)]
              split at returns
              · omega
              · rw [if_neg (by rw [List.length_append]; omega), substr_append (by omega)]
                split at returns
                next open_ =>
                  rw [if_pos open_]
                  exact Or.inl returns
                · simp at returns

/-! ## Results -/

theorem framed_of_visits_of_fit (fit : SizesFit input) {state : Nat × Bytes}
    (visited : Loop.Visits (chunkRound input) (0, []) state) : Framed input state.1 :=
  visited.invariant (fun state => Framed input state.1) .first
    fun _ _ _ framed goes => (framed_of_next fit framed goes).2

theorem parseChunked_eq_of_returns {result : ChunkedResult}
    (returns : Loop.Returns (chunkRound input) (0, []) result) : parseChunked input = result := by
  cases ran : Loop.run (chunkRound input) (input.length + 1) (0, []) with
  | none =>
      have spins : parseChunked input = .spins := by rw [parseChunked, ran, Option.getD_none]
      exact absurd ⟨result, returns⟩ (parseChunked_eq_spins_iff.mp spins)
  | some returned =>
      rw [parseChunked, ran, Option.getD_some]
      exact Loop.Returns.unique ⟨_, ran⟩ returns

/-- Without wrapping around, the decoder returns. -/
theorem exists_returns (fit : SizesFit input) :
    ∃ result, Loop.Returns (chunkRound input) (0, []) result := by
  have returns : (Loop.run (chunkRound input) (input.length + 1) (0, [])).isSome :=
    Loop.run_isSome_of_measure Prod.fst chunkRound_bounded
      (fun state after visited goes =>
        (framed_of_next fit (framed_of_visits_of_fit fit visited) goes).1)
      .start (by omega) (by omega)
  rcases Option.isSome_iff_exists.mp returns with ⟨result, ran⟩
  exact ⟨result, _, ran⟩

/-- The bodies of a result continue the one that the run started with. -/
def Continues (body : Bytes) : ChunkedResult → Prop
  | .incomplete longer | .complete longer => body <+: longer
  | .rejected => True
  | .outOfRange | .spins => False

theorem finishChunked_continues (position : Nat) (body : Bytes) :
    Continues body (finishChunked input position body) := by
  unfold finishChunked
  split
  · exact List.prefix_rfl
  · split
    · exact List.prefix_rfl
    · split
      · exact List.prefix_rfl
      · trivial

theorem chunkRound_continues {result : ChunkedResult} (fit : SizesFit input)
    (framed : Framed input position)
    (returns : chunkRound input (position, body) = .done result) : Continues body result := by
  unfold chunkRound at returns
  simp only at returns
  split at returns
  · rw [← Round.done.inj returns]
    exact List.prefix_rfl
  next lineEnd ends =>
    split at returns
    · rw [← Round.done.inj returns]
      trivial
    next size announces =>
      have small := fit position lineEnd size framed ⟨ends, announces⟩
      rw [Nat.mod_eq_of_lt small, Nat.mod_eq_of_lt (by omega)] at returns
      split at returns
      · rw [← Round.done.inj returns]
        exact finishChunked_continues _ _
      · split at returns
        · rw [← Round.done.inj returns]
          exact List.prefix_rfl
        next fits =>
          rw [if_neg (by omega)] at returns
          split at returns
          · rw [← Round.done.inj returns]
            trivial
          · simp at returns

theorem Continues.shorten {longer : Bytes} {result : ChunkedResult}
    (continues : Continues longer result) (start : body <+: longer) : Continues body result := by
  cases result with
  | incomplete rest | complete rest => exact start.trans continues
  | rejected => trivial
  | outOfRange | spins => exact continues

theorem run_continues {state : Nat × Bytes} {result : ChunkedResult} (fit : SizesFit input)
    (framed : Framed input state.1)
    (ran : Loop.run (chunkRound input) fuel state = some result) : Continues state.2 result := by
  induction fuel generalizing state with
  | zero => simp [Loop.run] at ran
  | succ fuel ih =>
      cases taken : chunkRound input state with
      | done returned =>
          rw [Loop.run_succ_of_done taken, Option.some.injEq] at ran
          exact ran ▸ chunkRound_continues fit framed taken
      | next after =>
          rw [Loop.run_succ_of_next taken] at ran
          refine (ih (framed_of_next fit framed taken).2 ran).shorten ?_
          rcases chunkRound_eq_next_iff.mp taken with ⟨_, _, _, _, _, _, _, same⟩
          rw [same]
          exact List.prefix_append _ _

/-- On a longer text the decoder returns the same, or goes on where it wanted more. -/
theorem run_append {state : Nat × Bytes} {result : ChunkedResult} (fit : SizesFit input)
    (framed : Framed input state.1)
    (ran : Loop.run (chunkRound input) fuel state = some result) (more : Bytes) :
    Loop.run (chunkRound (input ++ more)) fuel state = some result ∨
      ∃ last, result = .incomplete last.2 ∧
        Loop.Visits (chunkRound (input ++ more)) state last := by
  induction fuel generalizing state with
  | zero => simp [Loop.run] at ran
  | succ fuel ih =>
      cases taken : chunkRound input state with
      | done returned =>
          rw [Loop.run_succ_of_done taken, Option.some.injEq] at ran
          subst ran
          rcases chunkRound_append_done fit framed taken more with same | open_
          · exact Or.inl (Loop.run_succ_of_done same fuel)
          · exact Or.inr ⟨state, open_, .start⟩
      | next after =>
          rw [Loop.run_succ_of_next taken] at ran
          have goes := chunkRound_append_next fit framed taken more
          rcases ih (framed_of_next fit framed taken).2 ran with same | ⟨last, open_, visited⟩
          · exact Or.inl ((Loop.run_succ_of_next goes fuel).trans same)
          · exact Or.inr ⟨last, open_, visited.head goes⟩

/-- How the result on a longer text follows the one on a text. -/
def Follows (before after : ChunkedResult) : Prop :=
  after = before ∨ ∃ body, before = .incomplete body ∧ Continues body after

theorem parseChunked_append (fit : SizesFit (input ++ more)) :
    Follows (parseChunked input) (parseChunked (input ++ more)) := by
  rcases exists_returns fit.of_append with ⟨result, returns⟩
  rcases exists_returns fit with ⟨longer, returnsLonger⟩
  rw [parseChunked_eq_of_returns returns, parseChunked_eq_of_returns returnsLonger]
  rcases returns with ⟨fuel, ran⟩
  rcases run_append fit.of_append .first ran more with same | ⟨last, open_, visited⟩
  · exact Or.inl (Loop.Returns.unique returnsLonger ⟨fuel, same⟩)
  · rcases returnsLonger.of_visits visited with ⟨rest, ranRest⟩
    exact Or.inr ⟨last.2, open_, run_continues fit (framed_of_visits_of_fit fit visited) ranRest⟩

theorem parseChunked_continues (fit : SizesFit input) : Continues [] (parseChunked input) := by
  rcases exists_returns fit with ⟨result, fuel, ran⟩
  rw [parseChunked_eq_of_returns ⟨fuel, ran⟩]
  exact run_continues fit .first ran

end IrcPlatform.Webserv
