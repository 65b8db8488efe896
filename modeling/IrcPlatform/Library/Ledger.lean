import Mathlib.Data.List.Induction

/-!
# Ledgers

A list of entries that only grows at its end, each of which was allowed by those before it.
-/

namespace IrcPlatform

universe u

/-- Every entry was allowed by the ones before it. -/
def Lawful {Entry : Type u} (allowed : List Entry → Entry → Prop) (ledger : List Entry) : Prop :=
  ∀ early entry late, ledger = early ++ entry :: late → allowed early entry

namespace Lawful

variable {Entry : Type u} {allowed : List Entry → Entry → Prop} {ledger : List Entry}
  {entry : Entry}

theorem nil : Lawful allowed [] := by
  intro early entry late split
  simp at split

theorem concat (lawful : Lawful allowed ledger) (here : allowed ledger entry) :
    Lawful allowed (ledger ++ [entry]) := by
  intro early other late split
  rcases List.eq_nil_or_concat late with rfl | ⟨rest, last, rfl⟩
  · rcases List.append_inj' split rfl with ⟨rfl, same⟩
    rw [List.singleton_inj] at same
    exact same ▸ here
  · rw [List.concat_eq_append, ← List.cons_append, ← List.append_assoc] at split
    exact lawful early other rest (List.append_inj_left' split rfl)

/-- Entries that are allowed everywhere. -/
theorem append {more : List Entry} (lawful : Lawful allowed ledger)
    (free : ∀ early, ∀ entry ∈ more, allowed early entry) : Lawful allowed (ledger ++ more) := by
  induction more using List.reverseRecOn with
  | nil => rwa [List.append_nil]
  | append_singleton more entry ih =>
      rw [← List.append_assoc]
      apply concat
      · exact ih fun early other listed => free early other (List.mem_append_left _ listed)
      · exact free _ entry (List.mem_append_right _ List.mem_cons_self)

end Lawful

end IrcPlatform
