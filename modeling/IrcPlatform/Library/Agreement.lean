import Mathlib.Data.List.Perm.Basic
import Mathlib.Tactic.Common

/-!
# Agreement of fallible computations

Two computations agree when they fail together or return related results. A loop whose steps
commute agrees with the loop over the same elements in another order.
-/

namespace IrcPlatform

universe u v w

variable {ε : Type u} {α β γ δ : Type v}

theorem ok_bind (result : α) (next : α → Except ε β) :
    (Except.ok result).bind next = next result := rfl

theorem bind_bind (start : Except ε α) (next : α → Except ε β) (last : β → Except ε γ) :
    (start.bind next).bind last = start.bind fun result => (next result).bind last := by
  cases start with
  | ok result => rfl
  | error failure => rfl

theorem map_bind (start : Except ε α) (change : α → β) (next : β → Except ε γ) :
    (start.map change).bind next = start.bind fun result => next (change result) := by
  cases start with
  | ok result => rfl
  | error failure => rfl

/-- The computations fail together, or their results are related. -/
inductive Agree (rel : α → β → Prop) : Except ε α → Except ε β → Prop
  | ok {first : α} {second : β} (related : rel first second) : Agree rel (.ok first) (.ok second)
  | error (first second : ε) : Agree rel (.error first) (.error second)

namespace Agree

section Two

variable {rel : α → β → Prop} {post : γ → δ → Prop} {first : Except ε α} {second : Except ε β}

theorem bind {next : α → Except ε γ} {next' : β → Except ε δ} (start : Agree rel first second)
    (rest : ∀ result result', rel result result' → Agree post (next result) (next' result')) :
    Agree post (first.bind next) (second.bind next') := by
  cases start with
  | ok related => exact rest _ _ related
  | error failure failure' => exact .error failure failure'

theorem map {change : α → γ} {change' : β → δ} (start : Agree rel first second)
    (changed : ∀ result result', rel result result' → post (change result) (change' result')) :
    Agree post (first.map change) (second.map change') := by
  cases start with
  | ok related => exact .ok (changed _ _ related)
  | error failure failure' => exact .error failure failure'

theorem mono {weaker : α → β → Prop} (start : Agree rel first second)
    (weaken : ∀ result result', rel result result' → weaker result result') :
    Agree weaker first second := by
  cases start with
  | ok related => exact .ok (weaken _ _ related)
  | error failure failure' => exact .error failure failure'

theorem between {first' : Except ε α} {second' : Except ε β} (left : Agree Eq first' first)
    (middle : Agree rel first second) (right : Agree Eq second' second) :
    Agree rel first' second' := by
  cases middle with
  | ok related =>
      cases left with
      | ok same =>
          cases right with
          | ok same' =>
              rw [same, same']
              exact .ok related
  | error =>
      cases left with
      | error failure _ =>
          cases right with
          | error failure' _ => exact .error failure failure'

theorem ite {condition : Prop} [Decidable condition] {first' : Except ε α} {second' : Except ε β}
    (holds : condition → Agree rel first second)
    (fails : ¬condition → Agree rel first' second') :
    Agree rel (if condition then first else first') (if condition then second else second') := by
  by_cases case : condition
  · rw [if_pos case, if_pos case]
    exact holds case
  · rw [if_neg case, if_neg case]
    exact fails case

end Two

section One

variable {rel : α → α → Prop} {first second third : Except ε α}

theorem refl (equivalence : Equivalence rel) (computation : Except ε α) :
    Agree rel computation computation := by
  cases computation with
  | ok result => exact .ok (equivalence.refl result)
  | error failure => exact .error failure failure

theorem symm (equivalence : Equivalence rel) (start : Agree rel first second) :
    Agree rel second first := by
  cases start with
  | ok related => exact .ok (equivalence.symm related)
  | error failure failure' => exact .error failure' failure

theorem trans (equivalence : Equivalence rel) (start : Agree rel first second)
    (rest : Agree rel second third) : Agree rel first third := by
  cases start with
  | ok related =>
      cases rest with
      | ok more => exact .ok (equivalence.trans related more)
  | error failure _ =>
      cases rest with
      | error _ other => exact .error failure other

theorem bind_same (same : Agree Eq first second) (next : α → Except ε β) :
    Agree Eq (first.bind next) (second.bind next) := by
  cases same with
  | ok related =>
      rw [related]
      exact refl eq_equivalence _
  | error failure failure' => exact .error failure failure'

end One

end Agree

/-! ## Failure -/

def Fails (computation : Except ε α) : Prop := ∃ failure, computation = .error failure

theorem Fails.bind {first : Except ε α} (fails : Fails first) (next : α → Except ε β) :
    Fails (first.bind next) := by
  rcases fails with ⟨failure, rfl⟩
  exact ⟨failure, rfl⟩

theorem Fails.map {first : Except ε α} (fails : Fails first) (change : α → β) :
    Fails (first.map change) := by
  rcases fails with ⟨failure, rfl⟩
  exact ⟨failure, rfl⟩

theorem fails_bind {next : α → Except ε β} (first : Except ε α)
    (fails : ∀ result, Fails (next result)) : Fails (first.bind next) := by
  cases first with
  | ok result => exact fails result
  | error failure => exact ⟨failure, rfl⟩

theorem Agree.fails {rel : α → β → Prop} {first : Except ε α} {second : Except ε β}
    (agree : Agree rel first second) (fails : Fails second) : Fails first := by
  rcases fails with ⟨failure, rfl⟩
  cases agree with
  | error failure _ => exact ⟨failure, rfl⟩

theorem Agree.eq_ok {first : Except ε α} {result : α} (agree : Agree Eq first (.ok result)) :
    first = .ok result := by
  cases agree with
  | ok same => rw [same]

/-! ## Loops -/

section Loop

variable {σ : Type v} {ι : Type w} {step : σ → ι → Except ε σ} {rel : σ → σ → Prop}

/-- The two steps may be taken in either order. -/
def Commute (rel : σ → σ → Prop) (step : σ → ι → Except ε σ) (one other : ι) : Prop :=
  ∀ state, Agree rel ((step state one).bind (step · other)) ((step state other).bind (step · one))

theorem foldlM_agree (respects : ∀ state state' element, rel state state' →
      Agree rel (step state element) (step state' element))
    (elements : List ι) {state state' : σ} (related : rel state state') :
    Agree rel (elements.foldlM step state) (elements.foldlM step state') := by
  induction elements generalizing state state' with
  | nil => exact .ok related
  | cons element elements ih =>
      rw [List.foldlM_cons, List.foldlM_cons]
      exact (respects state state' element related).bind fun _ _ => ih

theorem foldlM_two (first second : ι) (rest : List ι) (state : σ) :
    (first :: second :: rest).foldlM step state =
      ((step state first).bind (step · second)).bind (rest.foldlM step) := by
  rw [List.foldlM_cons]
  cases step state first with
  | ok next => rfl
  | error failure => rfl

theorem foldlM_cons_agree {element : ι} {elements others : List ι}
    (later : ∀ state, Agree rel (elements.foldlM step state) (others.foldlM step state))
    (state : σ) :
    Agree rel ((element :: elements).foldlM step state)
      ((element :: others).foldlM step state) := by
  rw [List.foldlM_cons, List.foldlM_cons]
  cases step state element with
  | ok next => exact later next
  | error failure => exact .error failure failure

variable (equivalence : Equivalence rel) (respects : ∀ state state' element, rel state state' →
  Agree rel (step state element) (step state' element))

include respects

theorem foldlM_swap {first second : ι} (commute : Commute rel step first second) (rest : List ι)
    (state : σ) :
    Agree rel ((first :: second :: rest).foldlM step state)
      ((second :: first :: rest).foldlM step state) := by
  rw [foldlM_two, foldlM_two]
  exact (commute state).bind fun _ _ related => foldlM_agree respects rest related

include equivalence

theorem foldlM_perm {elements others : List ι} (perm : elements.Perm others)
    (commutes : ∀ one ∈ elements, ∀ other ∈ elements, Commute rel step one other) (state : σ) :
    Agree rel (elements.foldlM step state) (others.foldlM step state) := by
  induction perm generalizing state with
  | nil => exact .ok (equivalence.refl state)
  | cons element perm ih =>
      refine foldlM_cons_agree (ih fun one inOne other inOther => ?_) state
      exact commutes one (List.mem_cons_of_mem _ inOne) other (List.mem_cons_of_mem _ inOther)
  | swap first second rest =>
      refine foldlM_swap respects (commutes second List.mem_cons_self first ?_) rest state
      exact List.mem_cons_of_mem _ List.mem_cons_self
  | trans one other ihOne ihOther =>
      refine (ihOne commutes state).trans equivalence (ihOther ?_ state)
      intro first inFirst second inSecond
      exact commutes first (one.mem_iff.mpr inFirst) second (one.mem_iff.mpr inSecond)

/-- A step moves behind steps that it commutes with. -/
theorem foldlM_move {element : ι} {passed : List ι}
    (commutes : ∀ other ∈ passed, Commute rel step element other) (rest : List ι) (state : σ) :
    Agree rel ((element :: (passed ++ rest)).foldlM step state)
      ((passed ++ element :: rest).foldlM step state) := by
  induction passed generalizing state with
  | nil => exact .refl equivalence _
  | cons other passed ih =>
      rw [List.forall_mem_cons] at commutes
      refine (foldlM_swap respects commutes.1 (passed ++ rest) state).trans equivalence ?_
      exact foldlM_cons_agree (ih commutes.2) state

/-- Steps of one kind may all be taken first. -/
theorem foldlM_partition {first : ι → Bool} {elements : List ι}
    (commutes : ∀ one ∈ elements, ∀ other ∈ elements, first other = true →
      Commute rel step one other) (state : σ) :
    Agree rel (elements.foldlM step state)
      ((elements.filter first ++ elements.filter (!first ·)).foldlM step state) := by
  induction elements generalizing state with
  | nil => exact .refl equivalence _
  | cons element elements ih =>
      have later := ih fun one inOne other inOther =>
        commutes one (List.mem_cons_of_mem _ inOne) other (List.mem_cons_of_mem _ inOther)
      have kept : Agree rel ((element :: elements).foldlM step state)
          ((element :: (elements.filter first ++ elements.filter (!first ·))).foldlM step state) :=
        foldlM_cons_agree later state
      by_cases early : first element = true
      · rw [List.filter_cons_of_pos early, List.filter_cons_of_neg (by simpa using early)]
        exact kept
      · rw [List.filter_cons_of_neg early, List.filter_cons_of_pos (by simpa using early)]
        refine kept.trans equivalence (foldlM_move equivalence respects ?_ _ state)
        intro other listed
        rcases List.mem_filter.mp listed with ⟨inside, other⟩
        exact commutes element List.mem_cons_self _ (List.mem_cons_of_mem _ inside) other

/-- Elements that commute with all others may stand anywhere, as long as the rest stays in its
order. -/
theorem foldlM_reorder {free : ι → Bool} {elements others : List ι} (perm : elements.Perm others)
    (fixed : elements.filter (!free ·) = others.filter (!free ·))
    (commutes : ∀ one ∈ elements, ∀ other ∈ elements, free other = true →
      Commute rel step one other) (state : σ) :
    Agree rel (elements.foldlM step state) (others.foldlM step state) := by
  have front : Agree rel ((elements.filter free).foldlM step state)
      ((others.filter free).foldlM step state) := by
    refine foldlM_perm equivalence respects (perm.filter free) ?_ state
    intro one inOne other inOther
    rcases List.mem_filter.mp inOne with ⟨oneIn, _⟩
    rcases List.mem_filter.mp inOther with ⟨otherIn, otherFree⟩
    exact commutes one oneIn other otherIn otherFree
  have middle : Agree rel
      ((elements.filter free ++ elements.filter (!free ·)).foldlM step state)
      ((others.filter free ++ others.filter (!free ·)).foldlM step state) := by
    rw [List.foldlM_append, List.foldlM_append, fixed]
    exact front.bind fun _ _ related => foldlM_agree respects _ related
  have whole : Agree rel (elements.foldlM step state)
      ((elements.filter free ++ elements.filter (!free ·)).foldlM step state) :=
    foldlM_partition equivalence respects commutes state
  have back : Agree rel (others.foldlM step state)
      ((others.filter free ++ others.filter (!free ·)).foldlM step state) := by
    refine foldlM_partition equivalence respects ?_ state
    intro one inOne other inOther
    exact commutes one (perm.mem_iff.mpr inOne) other (perm.mem_iff.mpr inOther)
  have through := whole.trans equivalence middle
  exact through.trans equivalence (back.symm equivalence)

end Loop

end IrcPlatform
