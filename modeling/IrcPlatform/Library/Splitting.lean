import Mathlib.Tactic.Common
import Mathlib.Data.List.Basic

/-!
# Splitting and joining

Lists split at a separator and joined with it again: the pieces are free of the
separator, and the pieces of a suffix that starts behind a separator are pieces of
the whole list.
-/

namespace IrcPlatform

universe u

variable {α : Type u} {separator : α}

/-- What stands before the first occurrence of an element is determined by the list. -/
theorem first_occurrence_inj {first second rest other : List α} (outside : separator ∉ first)
    (outsideSecond : separator ∉ second)
    (same : first ++ separator :: rest = second ++ separator :: other) :
    first = second ∧ rest = other := by
  induction first generalizing second with
  | nil =>
      cases second with
      | nil =>
          rw [List.nil_append, List.nil_append, List.cons.injEq] at same
          exact ⟨rfl, same.2⟩
      | cons head tail =>
          rw [List.nil_append, List.cons_append, List.cons.injEq] at same
          exact absurd (same.1 ▸ List.mem_cons_self) outsideSecond
  | cons head tail ih =>
      cases second with
      | nil =>
          rw [List.nil_append, List.cons_append, List.cons.injEq] at same
          exact absurd (same.1 ▸ List.mem_cons_self) outside
      | cons headSecond tailSecond =>
          rw [List.cons_append, List.cons_append, List.cons.injEq] at same
          rw [List.mem_cons, not_or] at outside outsideSecond
          rcases ih outside.2 outsideSecond.2 same.2 with ⟨rfl, sameRest⟩
          exact ⟨by rw [same.1], sameRest⟩

theorem intercalate_concat (pieces : List (List α)) (last : List α) (nonempty : pieces ≠ []) :
    [separator].intercalate (pieces ++ [last]) =
      [separator].intercalate pieces ++ separator :: last := by
  induction pieces with
  | nil => exact absurd rfl nonempty
  | cons first rest ih =>
      cases rest with
      | nil => simp [List.intercalate_cons_cons]
      | cons second rest =>
          rw [List.cons_append, List.cons_append, List.intercalate_cons_cons,
            List.intercalate_cons_cons, ← List.cons_append, ih (List.cons_ne_nil _ _)]
          simp

theorem intercalate_cons (first : List α) (rest : List (List α)) :
    [separator].intercalate (first :: rest) = first ++ rest.flatMap (separator :: ·) := by
  induction rest generalizing first with
  | nil => simp
  | cons second rest ih =>
      rw [List.intercalate_cons_cons, ih second, List.flatMap_cons]
      simp

theorem mem_of_mem_intercalate {pieces : List (List α)} {element : α}
    (mem : element ∈ [separator].intercalate pieces) :
    element = separator ∨ ∃ piece ∈ pieces, element ∈ piece := by
  induction pieces with
  | nil => simp at mem
  | cons first rest ih =>
      cases rest with
      | nil => exact Or.inr ⟨first, List.mem_cons_self, by simpa using mem⟩
      | cons second rest =>
          rw [List.intercalate_cons_cons, List.append_assoc, List.mem_append,
            List.mem_append, List.mem_singleton] at mem
          rcases mem with inFirst | same | later
          · exact Or.inr ⟨first, List.mem_cons_self, inFirst⟩
          · exact Or.inl same
          · rcases ih later with same | ⟨piece, inRest, inPiece⟩
            · exact Or.inl same
            · exact Or.inr ⟨piece, List.mem_cons_of_mem _ inRest, inPiece⟩

/-- Whether a list without the separator ends another one is decided behind the last
separator. -/
theorem suffix_append_cons_iff {ending : List α} (free : separator ∉ ending)
    (front last : List α) : ending <:+ front ++ separator :: last ↔ ending <:+ last := by
  constructor
  · intro ends
    rcases List.suffix_or_suffix_of_suffix ends (List.suffix_append front _) with short | long
    · rcases List.suffix_cons_iff.mp short with rfl | inside
      · exact absurd List.mem_cons_self free
      · exact inside
    · exact absurd (long.mem List.mem_cons_self) free
  · intro ends
    exact ends.trans ((List.suffix_cons _ _).trans (List.suffix_append _ _))

variable [BEq α] [LawfulBEq α]

theorem mem_of_mem_splitOn {text piece : List α} (mem : piece ∈ text.splitOn separator)
    {element : α} (inPiece : element ∈ piece) : element ∈ text ∧ element ≠ separator := by
  induction text generalizing piece with
  | nil =>
      rw [List.splitOn_nil, List.mem_singleton] at mem
      simp [mem] at inPiece
  | cons head tail ih =>
      obtain ⟨first, rest, pieces⟩ :=
        List.exists_cons_of_ne_nil (List.splitOn_ne_nil separator tail)
      rw [List.splitOn_cons_eq_if_modifyHead] at mem
      by_cases atSeparator : head == separator
      · rw [if_pos atSeparator, List.mem_cons] at mem
        rcases mem with rfl | mem
        · simp at inPiece
        · exact ⟨List.mem_cons_of_mem _ (ih mem inPiece).1, (ih mem inPiece).2⟩
      · rw [if_neg atSeparator, pieces, List.modifyHead_cons, List.mem_cons] at mem
        rcases mem with rfl | mem
        · rcases List.mem_cons.mp inPiece with rfl | inFirst
          · exact ⟨List.mem_cons_self, by simpa using atSeparator⟩
          · have later := ih (pieces ▸ List.mem_cons_self) inFirst
            exact ⟨List.mem_cons_of_mem _ later.1, later.2⟩
        · have later := ih (pieces ▸ List.mem_cons_of_mem _ mem) inPiece
          exact ⟨List.mem_cons_of_mem _ later.1, later.2⟩

/-- No piece contains the separator. -/
theorem not_mem_of_mem_splitOn {text piece : List α} (mem : piece ∈ text.splitOn separator) :
    separator ∉ piece :=
  fun inPiece => (mem_of_mem_splitOn mem inPiece).2 rfl

theorem suffix_iff_last_piece {ending text last : List α} (free : separator ∉ ending)
    (final : (text.splitOn separator).getLast? = some last) :
    ending <:+ text ↔ ending <:+ last := by
  rcases List.getLast?_eq_some_iff.mp final with ⟨pieces, split⟩
  have joined : [separator].intercalate (pieces ++ [last]) = text := by
    rw [← split, List.intercalate_splitOn]
  by_cases alone : pieces = []
  · rw [alone, List.nil_append, List.intercalate_singleton] at joined
    rw [joined]
  · rw [intercalate_concat pieces last alone] at joined
    rw [← joined, suffix_append_cons_iff free]

theorem dropLast_splitOn_append (front back : List α) :
    ((front ++ separator :: back).splitOn separator).dropLast =
      front.splitOn separator ++ (back.splitOn separator).dropLast := by
  rw [List.splitOn_append_cons_self, List.dropLast_append_of_ne_nil (List.splitOn_ne_nil _ _)]

end IrcPlatform
