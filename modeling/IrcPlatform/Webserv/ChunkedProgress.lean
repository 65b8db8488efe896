import IrcPlatform.Webserv.Chunked

/-!
# Progress of the chunked decoder

The decoder reads the chunks in the order in which they stand, unless a chunk
size close to `2 ^ 64` makes the sum of position and size wrap around. A size
that leads back to the line break of an earlier line makes the decoder read that
part again; this is the only way to keep it from making progress.
-/

namespace IrcPlatform.Webserv

variable {input : Bytes} {position lineEnd size : Nat} {body : Bytes}

/-! ## Line breaks -/

theorem crlf_ne_nil : crlf ≠ [] := by decide

/-- Two line breaks do not overlap. -/
theorem not_occursAt_crlf_succ (occurs : OccursAt crlf input position) :
    ¬OccursAt crlf input (position + 1) := by
  intro again
  have next : (input.drop position).drop 1 = input.drop (position + 1) := by rw [List.drop_drop]
  rcases occurs with ⟨rest, split⟩
  rcases again with ⟨other, splitAgain⟩
  rw [← next, ← split] at splitAgain
  simp [crlf] at splitAgain

theorem crlf_inside (occurs : OccursAt crlf input position) :
    position + 2 ≤ input.length := occurs.bound crlf_ne_nil

theorem substr_eq_crlf_iff (input : Bytes) (position : Nat) :
    substr input position 2 = crlf ↔ OccursAt crlf input position :=
  substr_eq_iff crlf input position

/-! ## One round -/

/-- A line that announces a chunk size starts at a position. -/
structure SizeLine (input : Bytes) (position lineEnd size : Nat) : Prop where
  ends : findFrom crlf input position = some lineEnd
  announces : chunkSize (substr input position (lineEnd - position)) = some size

theorem chunkSize_lt {line : Bytes} (announces : chunkSize line = some size) : size < 2 ^ 64 := by
  unfold chunkSize at announces
  simp only at announces
  split at announces
  · simp at announces
  · exact wholeHex_lt announces

namespace SizeLine

theorem size_lt (line : SizeLine input position lineEnd size) : size < 2 ^ 64 :=
  chunkSize_lt line.announces

theorem bounds (line : SizeLine input position lineEnd size) :
    position ≤ lineEnd ∧ lineEnd + 2 ≤ input.length := le_of_findFrom crlf_ne_nil line.ends

theorem occurs (line : SizeLine input position lineEnd size) : OccursAt crlf input lineEnd :=
  ((findFrom_eq_some_iff crlf_ne_nil).mp line.ends).2.1

theorem first (line : SizeLine input position lineEnd size) {earlier : Nat}
    (after : position ≤ earlier) (before : earlier < lineEnd) : ¬OccursAt crlf input earlier :=
  ((findFrom_eq_some_iff crlf_ne_nil).mp line.ends).2.2 earlier after before

theorem unique {otherEnd otherSize : Nat} (line : SizeLine input position lineEnd size)
    (other : SizeLine input position otherEnd otherSize) :
    lineEnd = otherEnd ∧ size = otherSize := by
  have sameEnd := Option.some.inj (line.ends.symm.trans other.ends)
  subst sameEnd
  exact ⟨rfl, Option.some.inj (line.announces.symm.trans other.announces)⟩

end SizeLine

/-- When a round goes on, and where. -/
theorem chunkRound_eq_next_iff {after : Nat} {more : Bytes} :
    chunkRound input (position, body) = .next (after, more) ↔
      ∃ lineEnd size, SizeLine input position lineEnd size ∧ size ≠ 0 ∧
        (lineEnd + 2 + size + 2) % 2 ^ 64 ≤ input.length ∧
        OccursAt crlf input ((lineEnd + 2 + size) % 2 ^ 64) ∧
        after = (lineEnd + 2 + size) % 2 ^ 64 + 2 ∧
        more = body ++ substr input (lineEnd + 2) size := by
  constructor
  · intro goes
    unfold chunkRound at goes
    simp only at goes
    split at goes
    · simp at goes
    next lineEnd ends =>
      split at goes
      · simp at goes
      next size announces =>
        split at goes
        · simp at goes
        next positive =>
          split at goes
          · simp at goes
          next fits =>
            split at goes
            · simp at goes
            · split at goes
              · simp at goes
              next closed =>
                rcases Prod.mk.inj (Round.next.inj goes) with ⟨rfl, rfl⟩
                exact ⟨lineEnd, size, ⟨ends, announces⟩, positive, by omega,
                  (substr_eq_crlf_iff input _).mp (not_not.mp closed), rfl, rfl⟩
  · rintro ⟨lineEnd, size, line, positive, fits, occurs, rfl, rfl⟩
    have bound := crlf_inside occurs
    unfold chunkRound
    simp only [line.ends, line.announces]
    rw [if_neg positive, if_neg (by omega), if_neg (by omega),
      if_neg (not_not.mpr ((substr_eq_crlf_iff input _).mpr occurs))]

theorem chunkRound_bounded (state after : Nat × Bytes)
    (goes : chunkRound input state = .next after) : after.1 ≤ input.length := by
  rcases chunkRound_eq_next_iff.mp goes with ⟨_, _, _, _, _, occurs, same, _⟩
  rw [same]
  exact crlf_inside occurs

/-- The decoder that has not returned after a round for each position never returns. -/
theorem parseChunked_eq_spins_iff :
    parseChunked input = .spins ↔ ¬Loop.Terminates (chunkRound input) (0, []) := by
  have determined : ∀ state after other : Nat × Bytes, state.1 = other.1 →
      chunkRound input state = .next after →
      ∃ next, chunkRound input other = .next next ∧ next.1 = after.1 := by
    rintro ⟨position, body⟩ ⟨after, more⟩ ⟨_, other⟩ rfl goes
    rcases chunkRound_eq_next_iff.mp goes with
      ⟨lineEnd, size, line, positive, fits, occurs, rfl, rfl⟩
    exact ⟨(_, _), chunkRound_eq_next_iff.mpr
      ⟨lineEnd, size, line, positive, fits, occurs, rfl, rfl⟩, rfl⟩
  have notSpins : ∀ fuel state result,
      Loop.run (chunkRound input) fuel state = some result → result ≠ .spins := by
    intro fuel
    induction fuel with
    | zero => simp [Loop.run]
    | succ fuel ih =>
        rintro ⟨position, body⟩ result ran
        cases taken : chunkRound input (position, body) with
        | next after =>
            rw [Loop.run_succ_of_next taken] at ran
            exact ih _ _ ran
        | done returned =>
            rw [Loop.run_succ_of_done taken, Option.some.injEq] at ran
            subst ran
            intro spins
            subst spins
            unfold chunkRound finishChunked at taken
            simp only at taken
            grind
  unfold parseChunked
  constructor
  · rintro spins ⟨result, fuel, ran⟩
    cases run : Loop.run (chunkRound input) (input.length + 1) (0, []) with
    | some returned =>
        rw [run, Option.getD_some] at spins
        exact notSpins _ _ _ run spins
    | none =>
        have never := Loop.run_eq_none_of_positions Prod.fst chunkRound_bounded determined
          (Nat.zero_le _) run fuel
        rw [never] at ran
        cases ran
  · intro never
    cases run : Loop.run (chunkRound input) (input.length + 1) (0, []) with
    | none => rfl
    | some returned => exact absurd ⟨returned, _, run⟩ never

/-! ## The lines that the decoder reaches -/

/-- The chunks up to a position follow each other. A chunk of size `2 ^ 64 - 2` counts as
one without data: the line break after its size is taken for the one after its data. -/
inductive Framed (input : Bytes) : Nat → Prop where
  | first : Framed input 0
  | chunk {position lineEnd size : Nat} (framed : Framed input position)
      (line : SizeLine input position lineEnd size) (positive : size ≠ 0)
      (closed : OccursAt crlf input (lineEnd + 2 + size)) : Framed input (lineEnd + 2 + size + 2)
  | hollow {position lineEnd size : Nat} (framed : Framed input position)
      (line : SizeLine input position lineEnd size) (wraps : size + 2 = 2 ^ 64) :
      Framed input (lineEnd + 2)

/-- The sum of position and size wraps around to a line break before the line. -/
def JumpsBack (input : Bytes) (position lineEnd size : Nat) : Prop :=
  ∃ back, back + 2 ≤ position ∧ back + 2 ^ 64 = lineEnd + 2 + size ∧ OccursAt crlf input back

theorem Framed.crlf_before (framed : Framed input position) :
    position = 0 ∨ ∃ before, position = before + 2 ∧ OccursAt crlf input before := by
  cases framed with
  | first => exact Or.inl rfl
  | chunk _ _ _ closed => exact Or.inr ⟨_, rfl, closed⟩
  | hollow _ line _ => exact Or.inr ⟨_, rfl, line.occurs⟩

/-- A round that goes on ends its chunk, skips a hollow one or jumps back. -/
theorem chunkRound_next_cases {after : Nat} {more : Bytes} (fits : input.length < 2 ^ 64)
    (framed : Framed input position)
    (goes : chunkRound input (position, body) = .next (after, more)) :
    (position < after ∧ Framed input after) ∨
      ∃ lineEnd size, SizeLine input position lineEnd size ∧
        JumpsBack input position lineEnd size := by
  rcases chunkRound_eq_next_iff.mp goes with ⟨lineEnd, size, line, positive, _, occurs, rfl, rfl⟩
  have small := line.size_lt
  rcases line.bounds with ⟨forward, inside⟩
  by_cases wraps : lineEnd + 2 + size < 2 ^ 64
  · rw [Nat.mod_eq_of_lt wraps] at occurs ⊢
    exact Or.inl ⟨by omega, .chunk framed line positive occurs⟩
  · rcases Nat.exists_eq_add_of_le (Nat.not_lt.mp wraps) with ⟨back, sum⟩
    have remainder : (lineEnd + 2 + size) % 2 ^ 64 = back := by omega
    rw [remainder] at occurs ⊢
    have notLast : back ≠ lineEnd + 1 := fun same =>
      not_occursAt_crlf_succ line.occurs (same ▸ occurs)
    by_cases here : back = lineEnd
    · subst here
      exact Or.inl ⟨by omega, .hollow framed line (by omega)⟩
    · by_cases behind : position ≤ back
      · exact absurd occurs (line.first behind (by omega))
      · refine Or.inr ⟨lineEnd, size, line, back, ?_, by omega, occurs⟩
        rcases framed.crlf_before with start | ⟨before, rfl, breaks⟩
        · omega
        · have : back ≠ before + 1 := fun same => not_occursAt_crlf_succ breaks (same ▸ occurs)
          omega

/-! ## Progress -/

/-- The decoder returns, and every round leads to a later position. -/
def Progresses (input : Bytes) : Prop :=
  Loop.Terminates (chunkRound input) (0, []) ∧
    ∀ position body after more, Loop.Visits (chunkRound input) (0, []) (position, body) →
      chunkRound input (position, body) = .next (after, more) → position < after

/-- No chunk size line that the chunks before it lead to jumps back. -/
def NoJump (input : Bytes) : Prop :=
  ∀ position lineEnd size, Framed input position → SizeLine input position lineEnd size →
    ¬JumpsBack input position lineEnd size

theorem framed_of_visits (fits : input.length < 2 ^ 64) (noJump : NoJump input)
    {state : Nat × Bytes} (visited : Loop.Visits (chunkRound input) (0, []) state) :
    Framed input state.1 := by
  refine visited.invariant (fun state => Framed input state.1) .first ?_
  rintro ⟨position, body⟩ ⟨after, more⟩ _ framed goes
  rcases chunkRound_next_cases fits framed goes with ⟨_, later⟩ | ⟨lineEnd, size, line, jumps⟩
  · exact later
  · exact absurd jumps (noJump position lineEnd size framed line)

theorem progresses_of_noJump (fits : input.length < 2 ^ 64) (noJump : NoJump input) :
    Progresses input := by
  have grows : ∀ position body after more,
      Loop.Visits (chunkRound input) (0, []) (position, body) →
      chunkRound input (position, body) = .next (after, more) → position < after := by
    intro position body after more visited goes
    have framed : Framed input position := framed_of_visits fits noJump visited
    rcases chunkRound_next_cases fits framed goes with ⟨later, _⟩ | ⟨lineEnd, size, line, jumps⟩
    · exact later
    · exact absurd jumps (noJump position lineEnd size framed line)
  refine ⟨?_, grows⟩
  have returns : (Loop.run (chunkRound input) (input.length + 1) (0, [])).isSome :=
    Loop.run_isSome_of_measure Prod.fst chunkRound_bounded
      (fun ⟨position, body⟩ ⟨after, more⟩ => grows position body after more)
      .start (by omega) (by omega)
  rcases Option.isSome_iff_exists.mp returns with ⟨result, ran⟩
  exact ⟨result, _, ran⟩

/-- Every framed position is met by a decoder whose rounds all lead forward. -/
theorem visits_of_framed (fits : input.length < 2 ^ 64) (framed : Framed input position) :
    ∃ body, Loop.Visits (chunkRound input) (0, []) (position, body) := by
  induction framed with
  | first => exact ⟨[], .start⟩
  | @chunk position lineEnd size _ line positive closed ih =>
      rcases ih with ⟨body, visited⟩
      have bound := crlf_inside closed
      refine ⟨_, .next visited (chunkRound_eq_next_iff.mpr
        ⟨lineEnd, size, line, positive, ?_, ?_, ?_, rfl⟩)⟩
      · rw [Nat.mod_eq_of_lt (by omega)]
        exact bound
      · rwa [Nat.mod_eq_of_lt (by omega)]
      · rw [Nat.mod_eq_of_lt (by omega)]
  | @hollow position lineEnd size _ line wraps ih =>
      rcases ih with ⟨body, visited⟩
      have inside := line.bounds.2
      have sum : (lineEnd + 2 + size) % 2 ^ 64 = lineEnd := by omega
      refine ⟨_, .next visited (chunkRound_eq_next_iff.mpr
        ⟨lineEnd, size, line, by omega, by omega, ?_, ?_, rfl⟩)⟩
      · rw [sum]
        exact line.occurs
      · rw [sum]

/-- The decoder makes progress exactly on the inputs in which no chunk size jumps back. -/
theorem progresses_iff_noJump (fits : input.length < 2 ^ 64) :
    Progresses input ↔ NoJump input := by
  refine ⟨?_, progresses_of_noJump fits⟩
  rintro ⟨_, grows⟩ position lineEnd size framed line ⟨back, before, sum, occurs⟩
  rcases visits_of_framed fits framed with ⟨body, visited⟩
  have bound := crlf_inside occurs
  have remainder : (lineEnd + 2 + size) % 2 ^ 64 = back := by omega
  have inside := line.bounds
  have goes : chunkRound input (position, body) =
      .next (back + 2, body ++ substr input (lineEnd + 2) size) := by
    refine chunkRound_eq_next_iff.mpr ⟨lineEnd, size, line, by omega, by omega, ?_, ?_, rfl⟩
    · rwa [remainder]
    · rw [remainder]
  have := grows position body _ _ visited goes
  omega

theorem progresses_iff_noJump_hello :
    Progresses (ascii "5\r\nhello\r\n0\r\n\r\n") ↔ NoJump (ascii "5\r\nhello\r\n0\r\n\r\n") :=
  progresses_iff_noJump (by decide)

/-- One chunk, and a size that leads back to the line break after its data. -/
def spinning : Bytes := ascii "1\r\nA\r\nFFFFFFFFFFFFFFEC\r\n"

/-- The decoder never returns on this input, whose rounds all start at position 6 from the
second on. -/
theorem spinning_spins :
    (∀ fuel, Loop.run (chunkRound spinning) fuel (0, []) = none) ∧ ¬Progresses spinning := by
  have again : ∀ state : Nat × Bytes, state.1 = 0 ∨ state.1 = 6 →
      ∃ after, chunkRound spinning state = .next after ∧ (after.1 = 0 ∨ after.1 = 6) := by
    rintro ⟨position, body⟩ here
    rcases here with rfl | rfl
    · exact ⟨(6, body ++ ascii "A"), rfl, Or.inr rfl⟩
    · exact ⟨(6, body ++ []), rfl, Or.inr rfl⟩
  have never : ∀ fuel, Loop.run (chunkRound spinning) fuel (0, []) = none :=
    Loop.run_eq_none_of_invariant (fun state => state.1 = 0 ∨ state.1 = 6) again (Or.inl rfl)
  refine ⟨never, ?_⟩
  rintro ⟨⟨result, fuel, ran⟩, _⟩
  rw [never fuel] at ran
  cases ran

end IrcPlatform.Webserv
