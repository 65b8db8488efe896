import Mathlib.Data.Fintype.Pigeonhole
import Mathlib.Tactic.Common

/-!
# Loops

A loop is given by what one round does: it returns a result or goes on in a new
state. `run` bounds the number of rounds. A loop whose rounds depend only on a
position below a bound returns within as many rounds as there are positions, or
never.
-/

namespace IrcPlatform

universe u v

inductive Round (State : Type u) (Result : Type v) where
  | done (result : Result)
  | next (state : State)

namespace Loop

variable {State : Type u} {Result : Type v} (round : State → Round State Result)

/-- The result of the loop, or `none` after as many rounds as the fuel allows. -/
def run : Nat → State → Option Result
  | 0, _ => none
  | fuel + 1, state =>
      match round state with
      | .done result => some result
      | .next after => run fuel after

/-- The states at the start of the rounds of a run. -/
inductive Visits (start : State) : State → Prop where
  | start : Visits start start
  | next {state after : State} (visited : Visits start state) (goes : round state = .next after) :
      Visits start after

def Returns (state : State) (result : Result) : Prop := ∃ fuel, run round fuel state = some result

def Terminates (state : State) : Prop := ∃ result, Returns round state result

variable {round} {state after start : State} {result : Result} {fuel : Nat}

theorem run_succ_of_next (goes : round state = .next after) (fuel : Nat) :
    run round (fuel + 1) state = run round fuel after := by
  rw [run, goes]

theorem run_succ_of_done (returns : round state = .done result) (fuel : Nat) :
    run round (fuel + 1) state = some result := by
  rw [run, returns]

theorem run_add (ran : run round fuel state = some result) (more : Nat) :
    run round (fuel + more) state = some result := by
  induction fuel generalizing state with
  | zero => simp [run] at ran
  | succ fuel ih =>
      rw [Nat.add_right_comm]
      cases taken : round state with
      | done returned =>
          rw [run_succ_of_done taken] at ran ⊢
          exact ran
      | next after =>
          rw [run_succ_of_next taken] at ran ⊢
          exact ih ran

theorem run_of_le (ran : run round fuel state = some result) {more : Nat} (enough : fuel ≤ more) :
    run round more state = some result := by
  rcases Nat.exists_eq_add_of_le enough with ⟨extra, rfl⟩
  exact run_add ran extra

theorem Returns.unique {other : Result} (first : Returns round state result)
    (second : Returns round state other) : result = other := by
  rcases first with ⟨fuel, ran⟩
  rcases second with ⟨more, ranAgain⟩
  have early := run_of_le ran (Nat.le_max_left fuel more)
  have late := run_of_le ranAgain (Nat.le_max_right fuel more)
  exact Option.some.inj (early.symm.trans late)

theorem Visits.trans {middle : State} (first : Visits round start middle)
    (second : Visits round middle state) : Visits round start state := by
  induction second with
  | start => exact first
  | next _ goes ih => exact .next ih goes

theorem Visits.head (goes : round start = .next after) (rest : Visits round after state) :
    Visits round start state :=
  (Visits.next .start goes).trans rest

/-- The result of a loop is the one from any state it meets. -/
theorem Returns.of_visits (returns : Returns round start result)
    (visited : Visits round start state) : Returns round state result := by
  induction visited with
  | start => exact returns
  | next visited goes ih =>
      rcases ih with ⟨fuel, ran⟩
      cases fuel with
      | zero => simp [run] at ran
      | succ fuel => exact ⟨fuel, by rwa [run_succ_of_next goes] at ran⟩

/-- A property of the states at the start of rounds. -/
theorem Visits.invariant (property : State → Prop) (initially : property start)
    (preserved : ∀ state after, Visits round start state → property state →
      round state = .next after → property after)
    (visited : Visits round start state) : property state := by
  induction visited with
  | start => exact initially
  | next visited goes ih => exact preserved _ _ visited ih goes

/-- A position that grows in every round and stays below a bound ends the loop. -/
theorem run_isSome_of_measure (position : State → Nat) {bound : Nat}
    (bounded : ∀ state after, round state = .next after → position after ≤ bound)
    (grows : ∀ state after, Visits round start state → round state = .next after →
      position state < position after)
    (visited : Visits round start state) (enough : bound < position state + fuel)
    (positive : 0 < fuel) : (run round fuel state).isSome := by
  induction fuel generalizing state with
  | zero => omega
  | succ fuel ih =>
      cases taken : round state with
      | done returned =>
          rw [run_succ_of_done taken]
          rfl
      | next after =>
          rw [run_succ_of_next taken]
          have := grows state after visited taken
          have := bounded state after taken
          exact ih (.next visited taken) (by omega) (by omega)

/-- A loop that never leaves a set of states in which it goes on does not return. -/
theorem run_eq_none_of_invariant (property : State → Prop)
    (goesOn : ∀ state, property state → ∃ after, round state = .next after ∧ property after)
    (holds : property state) (fuel : Nat) : run round fuel state = none := by
  induction fuel generalizing state with
  | zero => rfl
  | succ fuel ih =>
      rcases goesOn state holds with ⟨after, goes, again⟩
      rw [run_succ_of_next goes]
      exact ih again

/-- Without a result, the run has visited a state for every unit of fuel. -/
theorem exists_visits_of_run_eq_none (ran : run round fuel start = none) :
    ∃ states : Nat → State, states 0 = start ∧
      ∀ index < fuel, round (states index) = .next (states (index + 1)) := by
  induction fuel generalizing start with
  | zero => exact ⟨fun _ => start, rfl, by simp⟩
  | succ fuel ih =>
      cases taken : round start with
      | done returned => simp [run_succ_of_done taken] at ran
      | next after =>
          rw [run_succ_of_next taken] at ran
          rcases ih ran with ⟨states, first, steps⟩
          refine ⟨fun index => Nat.rec start (fun previous _ => states previous) index, rfl, ?_⟩
          intro index before
          cases index with
          | zero => exact taken.trans (congrArg Round.next first.symm)
          | succ index => exact steps index (by omega)

/-- Rounds that depend only on a position: when no result came within as many rounds as
there are positions, a position was met twice and the loop never returns. -/
theorem run_eq_none_of_positions (position : State → Nat) {bound : Nat}
    (bounded : ∀ state after, round state = .next after → position after ≤ bound)
    (determined : ∀ state after other, position state = position other →
      round state = .next after →
      ∃ next, round other = .next next ∧ position next = position after)
    (inside : position start ≤ bound) (ran : run round (bound + 1) start = none) (fuel : Nat) :
    run round fuel start = none := by
  rcases exists_visits_of_run_eq_none ran with ⟨states, first, steps⟩
  have below : ∀ index ≤ bound + 1, position (states index) ≤ bound := by
    intro index small
    cases index with
    | zero => exact first ▸ inside
    | succ index => exact bounded _ _ (steps index (by omega))
  -- two of the `bound + 2` states have the same of the `bound + 1` positions
  obtain ⟨one, other, different, same⟩ := Fintype.exists_ne_map_eq_of_card_lt
    (fun index : Fin (bound + 2) =>
      (⟨position (states index), by have := below index (by omega); omega⟩ : Fin (bound + 1)))
    (by simp)
  simp only [Fin.mk.injEq] at same
  wlog ordered : one < other generalizing one other with swapped
  · exact swapped other one different.symm same.symm (by omega)
  have bounds := other.isLt
  refine run_eq_none_of_invariant
    (fun state => ∃ index < other.val, position state = position (states index)) ?_
    ⟨0, by omega, by rw [first]⟩ fuel
  rintro state ⟨index, before, met⟩
  rcases determined _ _ state met.symm (steps index (by omega)) with ⟨after, goes, there⟩
  refine ⟨after, goes, ?_⟩
  by_cases last : index + 1 = other.val
  · exact ⟨one.val, by omega, by rw [there, last, same]⟩
  · exact ⟨index + 1, by omega, there⟩

end Loop

end IrcPlatform
