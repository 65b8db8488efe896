import Mathlib.Data.List.Basic
import Std.Data.ExtTreeMap

/-!
# Counting maps

A map that holds, for each key, how often it occurs in a list; a key that does not occur
has no entry. It is kept by one insertion when a key comes in, and by one insertion or
removal when a key goes.
-/

namespace IrcPlatform

open Std

universe u

variable {Key : Type u} {cmp : Key → Key → Ordering} [TransCmp cmp] [BEq Key]

def Tallies (counts : ExtTreeMap Key Int cmp) (keys : List Key) : Prop :=
  ∀ key, counts[key]? = if keys.count key = 0 then none else some (keys.count key : Int)

namespace Tallies

variable {counts : ExtTreeMap Key Int cmp} {keys front back : List Key}

theorem empty : Tallies (∅ : ExtTreeMap Key Int cmp) [] := by
  intro key
  simp

variable [LawfulEqCmp cmp] [LawfulBEq Key]

theorem insert (tallies : Tallies counts keys) (key : Key) :
    Tallies (counts.insert key ((keys.count key : Int) + 1)) (key :: keys) := by
  intro other
  rw [ExtTreeMap.getElem?_insert]
  split
  next same =>
    have equal := LawfulEqCmp.eq_of_compare same
    subst equal
    rw [List.count_cons_self, if_neg (Nat.succ_ne_zero _)]
    rfl
  next distinct =>
    have different : key ≠ other := by
      rintro rfl
      exact distinct ReflCmp.compare_self
    rw [List.count_cons_of_ne different]
    exact tallies other

/-- The last occurrence of a key takes its entry away. -/
theorem remove {key : Key} (tallies : Tallies counts (front ++ key :: back)) :
    Tallies
      (if 1 < (front ++ key :: back).count key then
        counts.insert key (((front ++ key :: back).count key : Int) - 1)
      else counts.erase key) (front ++ back) := by
  have whole : (front ++ key :: back).count key = (front ++ back).count key + 1 := by
    simp [Nat.add_assoc]
  have others {other : Key} (distinct : key ≠ other) :
      (front ++ key :: back).count other = (front ++ back).count other := by
    simp [List.count_cons_of_ne distinct]
  intro other
  by_cases same : key = other
  · subst same
    split
    next more =>
      rw [whole] at more ⊢
      rw [ExtTreeMap.getElem?_insert_self, if_neg (by omega)]
      congr 1
      omega
    next last =>
      rw [whole] at last
      rw [ExtTreeMap.getElem?_erase_self, if_pos (by omega)]
  · have distinct : cmp key other ≠ .eq := fun equal => same (LawfulEqCmp.eq_of_compare equal)
    rw [← others same, ← tallies other]
    split
    · rw [ExtTreeMap.getElem?_insert, if_neg distinct]
    · rw [ExtTreeMap.getElem?_erase, if_neg distinct]

end Tallies

end IrcPlatform
