import IrcPlatform.Library.Bytes

/-!
# Searching byte strings

`std::string::find`, `substr` and `compare` on a part of a string, with positions
as natural numbers and `none` for `npos`. What was found stays found when the
string grows at its end.
-/

namespace IrcPlatform

/-- The pattern occurs at a position. -/
def OccursAt (pattern text : Bytes) (position : Nat) : Prop := pattern <+: text.drop position

instance (pattern text : Bytes) (position : Nat) : Decidable (OccursAt pattern text position) :=
  inferInstanceAs (Decidable (_ <+: _))

/-- The position of the first occurrence. -/
def indexOf (pattern : Bytes) : Bytes → Option Nat
  | [] => if pattern.isEmpty then some 0 else none
  | c :: rest =>
      if pattern.isPrefixOf (c :: rest) then some 0 else (indexOf pattern rest).map (· + 1)

/-- `text.find(pattern, position)`. -/
def findFrom (pattern text : Bytes) (position : Nat) : Option Nat :=
  (indexOf pattern (text.drop position)).map (position + ·)

/-- `text.substr(position, count)`, for a position in the string. -/
def substr (text : Bytes) (position count : Nat) : Bytes := (text.drop position).take count

variable {pattern text : Bytes} {position found : Nat}

theorem occursAt_zero_iff : OccursAt pattern text 0 ↔ pattern.isPrefixOf text = true := by
  simp [OccursAt, List.isPrefixOf_iff_prefix]

theorem occursAt_cons_succ (c : UInt8) :
    OccursAt pattern (c :: text) (position + 1) ↔ OccursAt pattern text position := Iff.rfl

theorem occursAt_drop (start : Nat) :
    OccursAt pattern (text.drop start) position ↔ OccursAt pattern text (start + position) := by
  rw [OccursAt, OccursAt, List.drop_drop]

theorem OccursAt.bound (occurs : OccursAt pattern text position) (nonempty : pattern ≠ []) :
    position + pattern.length ≤ text.length := by
  have fits := occurs.length_le
  have := List.length_pos_iff.mpr nonempty
  rw [List.length_drop] at fits
  omega

theorem OccursAt.getElem?_add (occurs : OccursAt pattern text position) {offset : Nat}
    (inside : offset < pattern.length) : text[position + offset]? = pattern[offset]? := by
  rcases occurs with ⟨after, split⟩
  rw [← List.getElem?_drop, ← split, List.getElem?_append_left inside]

theorem OccursAt.getElem? {c : UInt8} {rest : Bytes} (occurs : OccursAt (c :: rest) text position) :
    text[position]? = some c :=
  occurs.getElem?_add (Nat.zero_lt_succ rest.length)

/-- Where the pattern fits, more text behind it changes nothing. -/
theorem occursAt_append_iff (fits : position + pattern.length ≤ text.length) (more : Bytes) :
    OccursAt pattern (text ++ more) position ↔ OccursAt pattern text position := by
  rw [OccursAt, OccursAt, List.drop_append_of_le_length (by omega)]
  refine ⟨fun occurs => ?_, fun occurs => occurs.trans (List.prefix_append _ _)⟩
  exact List.prefix_of_prefix_length_le occurs (List.prefix_append _ _)
    (by rw [List.length_drop]; omega)

theorem OccursAt.append (occurs : OccursAt pattern text position) (nonempty : pattern ≠ [])
    (more : Bytes) : OccursAt pattern (text ++ more) position :=
  (occursAt_append_iff (occurs.bound nonempty) more).mpr occurs

theorem indexOf_eq_some_iff (nonempty : pattern ≠ []) : indexOf pattern text = some found ↔
    OccursAt pattern text found ∧ ∀ earlier < found, ¬OccursAt pattern text earlier := by
  induction text generalizing found with
  | nil =>
      have absent : ∀ position, ¬OccursAt pattern [] position := by
        intro position occurs
        have := occurs.bound nonempty
        have := List.length_pos_iff.mpr nonempty
        simp only [List.length_nil] at *
        omega
      simp [indexOf, absent, nonempty]
  | cons c rest ih =>
      rw [indexOf]
      split
      next here =>
        constructor
        · rintro ⟨rfl⟩
          exact ⟨occursAt_zero_iff.mpr here, by simp⟩
        · rintro ⟨_, first⟩
          rcases Nat.eq_zero_or_pos found with rfl | positive
          · rfl
          · exact absurd (occursAt_zero_iff.mpr here) (first 0 positive)
      next missing =>
        cases found with
        | zero =>
            simp only [Option.map_eq_some_iff, Nat.add_eq_zero_iff, one_ne_zero, and_false,
              exists_const, false_iff, not_and]
            intro occurs
            exact absurd (occursAt_zero_iff.mp occurs) missing
        | succ found =>
            simp only [Option.map_eq_some_iff, Nat.add_right_cancel_iff, exists_eq_right, ih,
              occursAt_cons_succ]
            refine and_congr_right fun _ => ?_
            constructor
            · intro none earlier before
              cases earlier with
              | zero => exact fun occurs => missing (occursAt_zero_iff.mp occurs)
              | succ earlier => exact none earlier (by omega)
            · intro none earlier before
              exact none (earlier + 1) (by omega)

/-- A front in which nothing begins is passed over. -/
theorem indexOf_append {front : Bytes} (nothing : ∀ position < front.length,
    ¬OccursAt pattern (front ++ text) position) :
    indexOf pattern (front ++ text) = (indexOf pattern text).map (front.length + ·) := by
  induction front with
  | nil => simp
  | cons c front ih =>
      have missing : ¬pattern.isPrefixOf (c :: (front ++ text)) = true := fun here =>
        nothing 0 (by simp) (occursAt_zero_iff.mpr here)
      rw [List.cons_append, indexOf, if_neg missing, ih, Option.map_map]
      · congr 1
        funext position
        simp only [Function.comp_apply, List.length_cons]
        omega
      · intro position before
        exact nothing (position + 1) (by simpa using before)

/-- Nothing begins where its first byte does not stand. -/
theorem indexOf_append_of_free {c : UInt8} {front : Bytes} (first : pattern.head? = some c)
    (free : c ∉ front) :
    indexOf pattern (front ++ text) = (indexOf pattern text).map (front.length + ·) := by
  rcases List.head?_eq_some_iff.mp first with ⟨rest, rfl⟩
  refine indexOf_append fun position before occurs => free ?_
  have here := occurs.getElem?
  rw [List.getElem?_append_left before] at here
  exact List.mem_of_getElem? here

theorem findFrom_zero (pattern text : Bytes) : findFrom pattern text 0 = indexOf pattern text := by
  simp [findFrom]

theorem findFrom_eq_some_iff (nonempty : pattern ≠ []) :
    findFrom pattern text position = some found ↔ position ≤ found ∧
      OccursAt pattern text found ∧
      ∀ earlier, position ≤ earlier → earlier < found → ¬OccursAt pattern text earlier := by
  simp only [findFrom, Option.map_eq_some_iff, indexOf_eq_some_iff nonempty, occursAt_drop]
  constructor
  · rintro ⟨offset, ⟨occurs, first⟩, rfl⟩
    refine ⟨by omega, occurs, ?_⟩
    intro earlier after before
    have := first (earlier - position) (by omega)
    rwa [Nat.add_sub_cancel' after] at this
  · rintro ⟨after, occurs, first⟩
    refine ⟨found - position, ⟨by rwa [Nat.add_sub_cancel' after], ?_⟩, by omega⟩
    intro earlier before
    exact first _ (by omega) (by omega)

theorem findFrom_eq_none_iff (nonempty : pattern ≠ []) :
    findFrom pattern text position = none ↔
      ∀ later, position ≤ later → ¬OccursAt pattern text later := by
  constructor
  · intro absent later after occurs
    -- the least occurrence would have been found
    have some_occurs : ∃ later, position ≤ later ∧ OccursAt pattern text later :=
      ⟨later, after, occurs⟩
    have least := Nat.find_spec some_occurs
    have found : findFrom pattern text position = some (Nat.find some_occurs) := by
      refine (findFrom_eq_some_iff nonempty).mpr ⟨least.1, least.2, ?_⟩
      intro earlier behind before there
      exact Nat.find_min some_occurs before ⟨behind, there⟩
    rw [absent] at found
    cases found
  · intro absent
    cases result : findFrom pattern text position with
    | none => rfl
    | some found =>
        rcases (findFrom_eq_some_iff nonempty).mp result with ⟨after, occurs, _⟩
        exact absurd occurs (absent found after)

/-- What was found is found again when the text goes on. -/
theorem findFrom_append (nonempty : pattern ≠ [])
    (result : findFrom pattern text position = some found) (more : Bytes) :
    findFrom pattern (text ++ more) position = some found := by
  rcases (findFrom_eq_some_iff nonempty).mp result with ⟨after, occurs, first⟩
  have bound := occurs.bound nonempty
  refine (findFrom_eq_some_iff nonempty).mpr ⟨after, occurs.append nonempty more, ?_⟩
  intro earlier behind before there
  exact first earlier behind before ((occursAt_append_iff (by omega) more).mp there)

theorem le_of_findFrom (nonempty : pattern ≠ [])
    (result : findFrom pattern text position = some found) :
    position ≤ found ∧ found + pattern.length ≤ text.length := by
  rcases (findFrom_eq_some_iff nonempty).mp result with ⟨after, occurs, _⟩
  exact ⟨after, occurs.bound nonempty⟩

theorem substr_append {count : Nat} (fits : position + count ≤ text.length) (more : Bytes) :
    substr (text ++ more) position count = substr text position count := by
  rw [substr, substr, List.drop_append_of_le_length (by omega),
    List.take_append_of_le_length (by rw [List.length_drop]; omega)]

/-- Comparing a part as long as the pattern is looking for the pattern there. -/
theorem substr_eq_iff (pattern text : Bytes) (position : Nat) :
    substr text position pattern.length = pattern ↔ OccursAt pattern text position := by
  rw [substr, OccursAt, List.prefix_iff_eq_take, eq_comm]

end IrcPlatform
