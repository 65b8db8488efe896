import Mathlib.Tactic.Common
import Mathlib.Data.List.Basic

/-!
# Postconditions of fallible computations

What holds of the result of a computation that may fail, with a rule for every way of
composing such computations.
-/

namespace IrcPlatform

universe u v w

variable {ε : Type u} {α : Type v} {β : Type w}

/-- Whatever the computation returns has the property. -/
def Ensures (computation : Except ε α) (post : α → Prop) : Prop :=
  ∀ result, computation = .ok result → post result

theorem Ensures.ok {result : α} {post : α → Prop} (holds : post result) :
    Ensures (.ok result : Except ε α) post := by
  intro other same
  exact Except.ok.inj same ▸ holds

theorem Ensures.error {failure : ε} {post : α → Prop} :
    Ensures (.error failure : Except ε α) post := by
  intro result failed
  cases failed

theorem Ensures.bind {computation : Except ε α} {next : α → Except ε β} {mid : α → Prop}
    {post : β → Prop} (first : Ensures computation mid)
    (rest : ∀ result, mid result → Ensures (next result) post) :
    Ensures (computation.bind next) post := by
  cases computation with
  | error failure => exact .error
  | ok result => exact rest result (first result rfl)

theorem Ensures.map {computation : Except ε α} {change : α → β} {post : β → Prop}
    (changed : Ensures computation fun result => post (change result)) :
    Ensures (computation.map change) post := by
  cases computation with
  | error failure => exact .error
  | ok result => exact .ok (changed result rfl)

theorem Ensures.mono {computation : Except ε α} {post weaker : α → Prop}
    (holds : Ensures computation post) (weaken : ∀ result, post result → weaker result) :
    Ensures computation weaker :=
  fun result same => weaken result (holds result same)

theorem Ensures.trivial {computation : Except ε α} : Ensures computation fun _ => True :=
  fun _ _ => True.intro

theorem Ensures.ite {condition : Prop} [Decidable condition] {first second : Except ε α}
    {post : α → Prop} (holds : condition → Ensures first post)
    (fails : ¬condition → Ensures second post) :
    Ensures (if condition then first else second) post := by
  by_cases case : condition
  · rw [if_pos case]
    exact holds case
  · rw [if_neg case]
    exact fails case

/-- What every step of a loop preserves holds after the loop. -/
theorem Ensures.foldlM {step : β → α → Except ε β} (invariant : β → Prop)
    (preserved : ∀ state element, invariant state → Ensures (step state element) invariant)
    (elements : List α) {start : β} (initially : invariant start) :
    Ensures (elements.foldlM step start) invariant := by
  induction elements generalizing start with
  | nil => exact .ok initially
  | cons element elements ih =>
      rw [List.foldlM_cons]
      exact (preserved start element initially).bind fun state kept => ih kept

end IrcPlatform
