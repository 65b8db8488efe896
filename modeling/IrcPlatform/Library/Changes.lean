import IrcPlatform.Library.Agreement

/-!
# Changes of a state

A guarded change is made where its guard accepts the state. Guarded changes commute when the
guards do not see the other change. A computation that decides between changes without looking
at the state commutes with another one when all their changes do.
-/

namespace IrcPlatform

universe u v w

variable {ε : Type u} {σ : Type v}

/-- A change of a state that is refused where the guard does not accept the state. -/
def guarded (failure : ε) (accepts : σ → Bool) (update : σ → σ) (state : σ) : Except ε σ :=
  if accepts state then .ok (update state) else .error failure

section Guarded

variable {failure failure' : ε} {accepts accepts' : σ → Bool} {update update' : σ → σ}

theorem guarded_bind (state : σ) :
    (guarded failure accepts update state).bind (guarded failure' accepts' update') =
      if accepts state then
        if accepts' (update state) then .ok (update' (update state)) else .error failure'
      else .error failure := by
  unfold guarded
  split
  · rfl
  · rfl

theorem guarded_commute (unseen : ∀ state, accepts' (update state) = accepts' state)
    (unseen' : ∀ state, accepts (update' state) = accepts state)
    (apart : ∀ state, update' (update state) = update (update' state)) (state : σ) :
    Agree Eq ((guarded failure accepts update state).bind (guarded failure' accepts' update'))
      ((guarded failure' accepts' update' state).bind (guarded failure accepts update)) := by
  rw [guarded_bind, guarded_bind, unseen, unseen', apart]
  by_cases first : accepts state = true
  · by_cases second : accepts' state = true
    · rw [if_pos first, if_pos second, if_pos second, if_pos first]
      exact .ok rfl
    · rw [if_pos first, if_neg second, if_neg second]
      exact .error _ _
  · by_cases second : accepts' state = true
    · rw [if_neg first, if_pos second, if_neg first]
      exact .error _ _
    · rw [if_neg first, if_neg second]
      exact .error _ _

/-- Changes that exclude each other fail in either order. -/
theorem guarded_exclude (excludes : ∀ state, accepts' (update state) = false)
    (excludes' : ∀ state, accepts (update' state) = false) (state : σ) :
    Agree Eq ((guarded failure accepts update state).bind (guarded failure' accepts' update'))
      ((guarded failure' accepts' update' state).bind (guarded failure accepts update)) := by
  rw [guarded_bind, guarded_bind, excludes, excludes']
  refine Agree.trans eq_equivalence (?_ : Agree Eq _ (.error failure')) ?_
  · split
    · exact .error _ _
    · exact .error _ _
  · split
    · exact .error _ _
    · exact .error _ _

end Guarded

/-! ## Parts of a state -/

section Parts

variable {τ : Type v}

def onFirst (change : σ → Except ε σ) (state : σ × τ) : Except ε (σ × τ) :=
  (change state.1).map (·, state.2)

def onSecond (change : τ → Except ε τ) (state : σ × τ) : Except ε (σ × τ) :=
  (change state.2).map (state.1, ·)

theorem onFirst_bind (change change' : σ → Except ε σ) (state : σ × τ) :
    (onFirst change state).bind (onFirst change') =
      ((change state.1).bind change').map (·, state.2) := by
  unfold onFirst
  cases change state.1 with
  | ok next => rfl
  | error failure => rfl

theorem onFirst_commute {change change' : σ → Except ε σ}
    (commute : ∀ state, Agree Eq ((change state).bind change') ((change' state).bind change))
    (state : σ × τ) :
    Agree Eq ((onFirst change state).bind (onFirst change'))
      ((onFirst change' state).bind (onFirst change)) := by
  rw [onFirst_bind, onFirst_bind]
  refine (commute state.1).map ?_
  rintro next _ rfl
  rfl

/-- Changes of two parts commute. -/
theorem onFirst_onSecond (change : σ → Except ε σ) (change' : τ → Except ε τ) (state : σ × τ) :
    Agree Eq ((onFirst change state).bind (onSecond change'))
      ((onSecond change' state).bind (onFirst change)) := by
  rcases state with ⟨one, other⟩
  unfold onFirst onSecond
  rw [map_bind, map_bind]
  dsimp only
  cases change one with
  | ok next =>
      cases change' other with
      | ok next' => exact .ok rfl
      | error failure => exact .error _ _
  | error failure =>
      cases change' other with
      | ok next' => exact .error _ _
      | error failure' => exact .error _ _

end Parts

/-! ## Choices -/

/-- The computation always fails, or it makes one of the allowed changes. -/
def OneOf {ι : Type w} (change : ι → σ → Except ε σ) (allowed : ι → Prop)
    (computation : σ → Except ε σ) : Prop :=
  (∀ state, ∃ failure, computation state = .error failure) ∨
    ∃ choice, allowed choice ∧ ∀ state, Agree Eq (computation state) (change choice state)

namespace OneOf

variable {ι : Type w} {change : ι → σ → Except ε σ} {allowed allowed' : ι → Prop}
  {first second : σ → Except ε σ}

theorem one (choice : ι) (may : allowed choice)
    (same : ∀ state, Agree Eq (first state) (change choice state)) : OneOf change allowed first :=
  Or.inr ⟨choice, may, same⟩

theorem none {failure : ε} : OneOf change allowed fun _ => .error failure :=
  Or.inl fun _ => ⟨failure, rfl⟩

theorem ite {condition : Prop} [Decidable condition]
    (holds : condition → OneOf change allowed first)
    (fails : ¬condition → OneOf change allowed second) :
    OneOf change allowed fun state => if condition then first state else second state := by
  by_cases given : condition
  · simp only [if_pos given]
    exact holds given
  · simp only [if_neg given]
    exact fails given

theorem bind {α : Type v} (read : Except ε α) {next : α → σ → Except ε σ}
    (each : ∀ result, read = .ok result → OneOf change allowed (next result)) :
    OneOf change allowed fun state => read.bind fun result => next result state := by
  cases read with
  | ok result => exact each result rfl
  | error failure => exact none

theorem map {α : Type v} (read : Except ε α) {update : α → σ → σ}
    (each : ∀ result, read = .ok result →
      OneOf change allowed fun state => .ok (update result state)) :
    OneOf change allowed fun state => read.map fun result => update result state := by
  cases read with
  | ok result => exact each result rfl
  | error failure => exact none

theorem commute (one : OneOf change allowed first) (other : OneOf change allowed' second)
    (changes : ∀ choice choice', allowed choice → allowed' choice' → ∀ state,
      Agree Eq ((change choice state).bind (change choice'))
        ((change choice' state).bind (change choice))) (state : σ) :
    Agree Eq ((first state).bind second) ((second state).bind first) := by
  have fails {front back : σ → Except ε σ}
      (always : ∀ state, ∃ failure, front state = .error failure) (state : σ) :
      Agree Eq ((front state).bind back) ((back state).bind front) := by
    rcases always state with ⟨failure, now⟩
    rw [now]
    cases back state with
    | ok next =>
        rcases always next with ⟨later, fails⟩
        dsimp only [Except.bind]
        rw [fails]
        exact .error _ _
    | error later => exact .error _ _
  rcases one with one | ⟨choice, may, same⟩
  · exact fails one state
  · rcases other with other | ⟨choice', may', same'⟩
    · exact (fails other state).symm eq_equivalence
    · have through {front back : σ → Except ε σ} {choice choice' : ι}
          (same : ∀ state, Agree Eq (front state) (change choice state))
          (same' : ∀ state, Agree Eq (back state) (change choice' state)) :
          Agree Eq ((front state).bind back) ((change choice state).bind (change choice')) := by
        refine (same state).bind ?_
        rintro next _ rfl
        exact same' next
      refine (through same same').trans eq_equivalence ?_
      refine (changes choice choice' may may' state).trans eq_equivalence ?_
      exact (through same' same).symm eq_equivalence

end OneOf

end IrcPlatform
