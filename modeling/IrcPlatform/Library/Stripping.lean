import Mathlib.Data.List.TakeWhile
import IrcPlatform.Library.Bytes

/-!
# Stripping

A text without the bytes of some kind at its two ends.
-/

namespace IrcPlatform

/-- The text without the bytes of a kind at its ends. -/
def strip (kind : UInt8 → Bool) (text : Bytes) : Bytes :=
  ((text.dropWhile kind).reverse.dropWhile kind).reverse

variable {kind other : UInt8 → Bool} {text : Bytes}

/-- What is left, between the parts that were taken off. -/
theorem strip_parts (kind : UInt8 → Bool) (text : Bytes) :
    ∃ front back, text = front ++ strip kind text ++ back ∧
      (∀ c ∈ front, kind c = true) ∧ ∀ c ∈ back, kind c = true := by
  refine ⟨text.takeWhile kind, ((text.dropWhile kind).reverse.takeWhile kind).reverse, ?_, ?_, ?_⟩
  · have inner : strip kind text ++ ((text.dropWhile kind).reverse.takeWhile kind).reverse =
        text.dropWhile kind := by
      rw [strip, ← List.reverse_append, List.takeWhile_append_dropWhile, List.reverse_reverse]
    rw [List.append_assoc, inner, List.takeWhile_append_dropWhile]
  · intro c listed
    exact List.mem_takeWhile_imp listed
  · intro c listed
    exact List.mem_takeWhile_imp (List.mem_reverse.mp listed)

theorem mem_of_mem_strip {c : UInt8} (listed : c ∈ strip kind text) : c ∈ text := by
  rcases strip_parts kind text with ⟨front, back, parts, _, _⟩
  rw [parts]
  exact List.mem_append_left _ (List.mem_append_right _ listed)

theorem strip_prefix (kind : UInt8 → Bool) (text : Bytes) :
    strip kind text <+: text.dropWhile kind := by
  have ending := List.dropWhile_suffix (l := (text.dropWhile kind).reverse) kind
  rw [strip, ← List.reverse_suffix, List.reverse_reverse]
  exact ending

theorem strip_head {c : UInt8} (first : (strip kind text).head? = some c) : kind c = false := by
  rcases strip_prefix kind text with ⟨back, same⟩
  have begins : (text.dropWhile kind).head? = some c := by
    rw [← same, List.head?_append, first, Option.some_or]
  have stopped := List.head?_dropWhile_not kind text
  rw [begins] at stopped
  simpa using stopped

theorem strip_last {c : UInt8} (last : (strip kind text).getLast? = some c) : kind c = false := by
  rw [strip, List.getLast?_reverse] at last
  have stopped := List.head?_dropWhile_not kind (text.dropWhile kind).reverse
  rw [last] at stopped
  simpa using stopped

/-- A text whose ends are not of the kind is left as it is. -/
theorem strip_eq_self (first : ∀ c, text.head? = some c → kind c = false)
    (last : ∀ c, text.getLast? = some c → kind c = false) : strip kind text = text := by
  have front : text.dropWhile kind = text := by
    cases text with
    | nil => rfl
    | cons c rest => rw [List.dropWhile_cons, first c rfl, if_neg Bool.false_ne_true]
  have back : text.reverse.dropWhile kind = text.reverse := by
    rcases List.eq_nil_or_concat text with rfl | ⟨rest, c, rfl⟩
    · rfl
    · have ends := last c (by simp)
      simp [ends]
  rw [strip, front, back, List.reverse_reverse]

theorem strip_append_front {front : Bytes} (all : ∀ c ∈ front, kind c = true) (text : Bytes) :
    strip kind (front ++ text) = strip kind text := by
  rw [strip, strip, List.dropWhile_append_of_pos all]

theorem strip_append_back {back : Bytes} (all : ∀ c ∈ back, kind c = true) (text : Bytes) :
    strip kind (text ++ back) = strip kind text := by
  by_cases whole : ∀ c ∈ text, kind c = true
  · have empty : text.dropWhile kind = [] := List.dropWhile_eq_nil_iff.mpr whole
    have emptyLonger : (text ++ back).dropWhile kind = [] := by
      refine List.dropWhile_eq_nil_iff.mpr ?_
      intro c listed
      rcases List.mem_append.mp listed with early | late
      · exact whole c early
      · exact all c late
    rw [strip, strip, empty, emptyLonger]
  · have kept : (text ++ back).dropWhile kind = text.dropWhile kind ++ back := by
      rw [List.dropWhile_append, if_neg]
      rw [List.isEmpty_iff]
      exact fun empty => whole (List.dropWhile_eq_nil_iff.mp empty)
    rw [strip, strip, kept, List.reverse_append, List.dropWhile_append_of_pos]
    intro c listed
    exact all c (List.mem_reverse.mp listed)

/-- Where a text of this shape is cut, whatever else is taken for the kind. -/
theorem strip_eq {front middle back : Bytes} (ofFront : ∀ c ∈ front, kind c = true)
    (ofBack : ∀ c ∈ back, kind c = true)
    (first : ∀ c, middle.head? = some c → kind c = false)
    (last : ∀ c, middle.getLast? = some c → kind c = false) :
    strip kind (front ++ middle ++ back) = middle := by
  rw [strip_append_back ofBack, strip_append_front ofFront, strip_eq_self first last]

/-- Stripping more kinds of bytes, of which none is left inside, changes nothing. -/
theorem strip_eq_of_weaker (weaker : ∀ c, kind c = true → other c = true)
    (plain : ∀ c ∈ strip kind text, other c = true → kind c = true) :
    strip other text = strip kind text := by
  rcases strip_parts kind text with ⟨front, back, parts, ofFront, ofBack⟩
  have kept : ∀ c ∈ strip kind text, kind c = false → other c = false := by
    intro c listed notKind
    by_contra isOther
    rw [plain c listed (by simpa using isOther)] at notKind
    cases notKind
  conv => lhs; rw [parts]
  apply strip_eq
  · exact fun c listed => weaker c (ofFront c listed)
  · exact fun c listed => weaker c (ofBack c listed)
  · exact fun c first => kept c (List.mem_of_mem_head? first) (strip_head first)
  · exact fun c last => kept c (List.mem_of_getLast? last) (strip_last last)

end IrcPlatform
