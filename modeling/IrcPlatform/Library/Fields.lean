import Mathlib.Data.List.TakeWhile

/-!
# Fields

The fields of a list are its longest parts without a separator. A list is empty, starts
with a separator, or starts with a field; `fields_induction` is the induction over these
cases.
-/

namespace IrcPlatform

universe u

variable {α : Type u} {isSeparator : α → Bool}

def fields (isSeparator : α → Bool) (text : List α) : List (List α) :=
  (text.splitOnP isSeparator).filter (!·.isEmpty)

/-- Nothing follows, or a separator. -/
def EndsField (isSeparator : α → Bool) (rest : List α) : Prop :=
  rest = [] ∨ ∃ c others, rest = c :: others ∧ isSeparator c = true

@[simp] theorem fields_nil : fields isSeparator [] = [] := by
  simp [fields]

theorem fields_separator {c : α} (separates : isSeparator c = true) (rest : List α) :
    fields isSeparator (c :: rest) = fields isSeparator rest := by
  simp [fields, List.splitOnP_cons_eq_if_modifyHead, separates]

theorem fields_word {word rest : List α} (nonempty : word ≠ [])
    (whole : ∀ c ∈ word, isSeparator c = false) (ends : EndsField isSeparator rest) :
    fields isSeparator (word ++ rest) = word :: fields isSeparator rest := by
  have given : word.isEmpty = false := by simpa using nonempty
  rcases ends with rfl | ⟨c, others, rfl, separates⟩
  · rw [List.append_nil, fields, List.splitOnP_eq_singleton whole]
    simp [nonempty]
  · rw [fields_separator separates, fields,
      List.splitOnP_append_cons_of_forall_mem whole c separates]
    simp [fields, given]

/-- Every list starts with nothing, with a separator or with a field. -/
theorem fields_induction (isSeparator : α → Bool) {property : List α → Prop}
    (nothing : property [])
    (separator : ∀ c rest, isSeparator c = true → property rest → property (c :: rest))
    (word : ∀ word rest, word ≠ [] → (∀ c ∈ word, isSeparator c = false) →
      EndsField isSeparator rest → property rest → property (word ++ rest))
    (text : List α) : property text := by
  induction length : text.length using Nat.strong_induction_on generalizing text with
  | _ size ih =>
      subst length
      cases text with
      | nil => exact nothing
      | cons c rest =>
          cases separates : isSeparator c with
          | true => exact separator c rest separates (ih _ (by simp) rest rfl)
          | false =>
              have front := @List.takeWhile_append_dropWhile _ (fun c => !isSeparator c) (c :: rest)
              generalize taking : (c :: rest).takeWhile (fun c => !isSeparator c) = first at front
              generalize dropping : (c :: rest).dropWhile (fun c => !isSeparator c) = later at front
              have nonempty : first ≠ [] := by
                rw [← taking, List.takeWhile_cons, if_pos (by simp [separates])]
                exact List.cons_ne_nil _ _
              have shorter : later.length < (c :: rest).length := by
                rw [← front, List.length_append]
                have := List.length_pos_iff.mpr nonempty
                omega
              rw [← front]
              apply word first later nonempty _ _ (ih _ shorter later rfl)
              · intro d listed
                have passed := List.mem_takeWhile_imp (taking ▸ listed)
                simpa using passed
              · cases later with
                | nil => exact Or.inl rfl
                | cons d others =>
                    have stopped := List.head?_dropWhile_not (fun c => !isSeparator c) (c :: rest)
                    rw [dropping] at stopped
                    exact Or.inr ⟨d, others, rfl, by simpa using stopped⟩

theorem not_separator_of_mem_fields {text field : List α} (listed : field ∈ fields isSeparator text)
    {c : α} (inside : c ∈ field) : isSeparator c = false := by
  induction text using fields_induction isSeparator with
  | nothing => simp at listed
  | separator d rest separates ih =>
      rw [fields_separator separates] at listed
      exact ih listed
  | word word rest nonempty whole ends ih =>
      rw [fields_word nonempty whole ends, List.mem_cons] at listed
      rcases listed with rfl | later
      · exact whole c inside
      · exact ih later

/-- What separates nothing lies in a field. -/
theorem exists_field_of_mem {text : List α} {c : α} (listed : c ∈ text)
    (kept : isSeparator c = false) : ∃ field ∈ fields isSeparator text, c ∈ field := by
  induction text using fields_induction isSeparator with
  | nothing => simp at listed
  | separator d rest separates ih =>
      rw [fields_separator separates]
      rcases List.mem_cons.mp listed with rfl | later
      · rw [separates] at kept
        exact Bool.noConfusion kept
      · exact ih later
  | word word rest nonempty whole ends ih =>
      rw [fields_word nonempty whole ends]
      rcases List.mem_append.mp listed with inWord | later
      · exact ⟨word, List.mem_cons_self, inWord⟩
      · rcases ih later with ⟨field, member, inside⟩
        exact ⟨field, List.mem_cons_of_mem _ member, inside⟩

/-- Two notions of a separator give the same fields of a text on which they agree. -/
theorem fields_congr {other : α → Bool} {text : List α}
    (same : ∀ c ∈ text, isSeparator c = other c) : fields isSeparator text = fields other text := by
  induction text using fields_induction isSeparator with
  | nothing => simp
  | separator c rest separates ih =>
      have separatesToo : other c = true := same c List.mem_cons_self ▸ separates
      rw [fields_separator separates, fields_separator separatesToo,
        ih fun d listed => same d (List.mem_cons_of_mem _ listed)]
  | word word rest nonempty whole ends ih =>
      have wholeToo : ∀ c ∈ word, other c = false := fun c listed =>
        same c (List.mem_append_left _ listed) ▸ whole c listed
      have endsToo : EndsField other rest := by
        rcases ends with rfl | ⟨c, others, rfl, separates⟩
        · exact Or.inl rfl
        · exact Or.inr ⟨c, others, rfl,
            same c (List.mem_append_right _ List.mem_cons_self) ▸ separates⟩
      rw [fields_word nonempty whole ends, fields_word nonempty wholeToo endsToo,
        ih fun c listed => same c (List.mem_append_right _ listed)]

end IrcPlatform
