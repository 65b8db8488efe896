import IrcPlatform.Library.Agreement

/-!
# Blocks of settings

A block is read setting by setting. A setting may stand in it once, unless its key may be
repeated. Where the settings of different keys do not see each other, the block means the same
in every order.
-/

namespace IrcPlatform

universe u v

/-- How the settings of a block are applied to a state. -/
structure Block (ε : Type u) (σ ι κ : Type v) where
  key : ι → κ
  repeats : κ → Bool
  duplicate : ι → ε
  apply : σ → ι → Except ε σ

namespace Block

variable {ε : Type u} {σ ι κ : Type v} [BEq κ] (block : Block ε σ ι κ)

/-- The keys that have been seen after a setting. -/
def mark (seen : List κ) (setting : ι) : Except ε (List κ) :=
  if block.repeats (block.key setting) then .ok seen
  else if seen.contains (block.key setting) then .error (block.duplicate setting)
  else .ok (block.key setting :: seen)

def step (state : σ × List κ) (setting : ι) : Except ε (σ × List κ) :=
  (block.mark state.2 setting).bind fun seen =>
    (block.apply state.1 setting).map fun applied => (applied, seen)

theorem step_bind {γ : Type v} (state : σ × List κ) (setting : ι)
    (next : σ × List κ → Except ε γ) :
    (block.step state setting).bind next = (block.mark state.2 setting).bind fun seen =>
      (block.apply state.1 setting).bind fun applied => next (applied, seen) := by
  rw [step]
  cases block.mark state.2 setting with
  | ok seen =>
      dsimp only [Except.bind]
      cases block.apply state.1 setting with
      | ok applied => rfl
      | error failure => rfl
  | error failure => rfl

theorem step_error {state : σ × List κ} {setting : ι} {failure : ε}
    (rejected : block.apply state.1 setting = .error failure) :
    ∃ failure, block.step state setting = .error failure := by
  rw [step, rejected]
  cases block.mark state.2 setting with
  | ok seen => exact ⟨failure, rfl⟩
  | error earlier => exact ⟨earlier, rfl⟩

/-- The same state, and the same keys in any order. -/
def Same (first second : σ × List κ) : Prop := first.1 = second.1 ∧ first.2.Perm second.2

omit [BEq κ] in
theorem equivalence_same : Equivalence (Same : σ × List κ → σ × List κ → Prop) where
  refl _ := ⟨rfl, .refl _⟩
  symm same := ⟨same.1.symm, same.2.symm⟩
  trans first second := ⟨first.1.trans second.1, first.2.trans second.2⟩

variable {block} {one other setting : ι} {seen seen' : List κ}

theorem mark_perm (perm : seen.Perm seen') :
    Agree List.Perm (block.mark seen setting) (block.mark seen' setting) := by
  have same : seen.contains (block.key setting) = seen'.contains (block.key setting) :=
    perm.contains_eq
  rw [mark, mark, same]
  refine .ite (fun _ => .ok perm) fun _ => .ite (fun _ => .error _ _) fun _ => ?_
  exact .ok (perm.cons _)

theorem step_respects (state state' : σ × List κ) (setting : ι) (same : Same state state') :
    Agree Same (block.step state setting) (block.step state' setting) := by
  rcases state with ⟨state, seen⟩
  rcases same with ⟨rfl, perm⟩
  refine (mark_perm perm).bind fun next next' keys => ?_
  exact (Agree.refl eq_equivalence _).map fun _ _ equal => ⟨equal, keys⟩

variable (block) in
/-- The setting stands in the block already. -/
def Refuses (seen : List κ) (setting : ι) : Prop :=
  block.repeats (block.key setting) = false ∧ block.key setting ∈ seen

variable (block) in
def marked (seen : List κ) (setting : ι) : List κ :=
  if block.repeats (block.key setting) then seen else block.key setting :: seen

variable (block) in
/-- The settings have one key, and it may not be repeated. -/
def Clash (one other : ι) : Prop :=
  block.key one = block.key other ∧ block.repeats (block.key one) = false

variable [LawfulBEq κ]

theorem mark_of_refuses (refuses : block.Refuses seen setting) :
    block.mark seen setting = .error (block.duplicate setting) := by
  rw [mark, if_neg (Bool.eq_false_iff.mp refuses.1), if_pos (List.contains_iff_mem.mpr refuses.2)]

theorem mark_of_accepts (accepts : ¬block.Refuses seen setting) :
    block.mark seen setting = .ok (block.marked seen setting) := by
  rw [Refuses, not_and] at accepts
  rw [mark, marked]
  by_cases repeated : block.repeats (block.key setting) = true
  · rw [if_pos repeated, if_pos repeated]
  · rw [if_neg repeated, if_neg repeated, if_neg]
    exact fun listed => accepts (Bool.eq_false_iff.mpr repeated) (List.contains_iff_mem.mp listed)

omit [BEq κ] [LawfulBEq κ] in
theorem refuses_marked : block.Refuses (block.marked seen one) other ↔
    block.Refuses seen other ∨ block.Clash one other := by
  unfold Refuses Clash marked
  by_cases repeated : block.repeats (block.key one) = true
  · simp [repeated]
  · rw [if_neg repeated, List.mem_cons]
    constructor
    · rintro ⟨once, same | listed⟩
      · exact Or.inr ⟨same.symm, same ▸ once⟩
      · exact Or.inl ⟨once, listed⟩
    · rintro (⟨once, listed⟩ | ⟨same, once⟩)
      · exact ⟨once, Or.inr listed⟩
      · exact ⟨same ▸ once, Or.inl same.symm⟩

omit [BEq κ] [LawfulBEq κ] in
theorem marked_perm (one other : ι) (seen : List κ) :
    (block.marked (block.marked seen one) other).Perm
      (block.marked (block.marked seen other) one) := by
  unfold marked
  split
  · exact .refl _
  · split
    · exact .refl _
    · exact .swap _ _ _

omit [BEq κ] [LawfulBEq κ] in
theorem clash_symm : block.Clash one other ↔ block.Clash other one := by
  unfold Clash
  constructor
  · exact fun clash => ⟨clash.1.symm, clash.1 ▸ clash.2⟩
  · exact fun clash => ⟨clash.1.symm, clash.1 ▸ clash.2⟩

/-- One of two settings stands in the block already, or they have one key. -/
theorem mark_two_error (refuses : block.Refuses seen one ∨ block.Refuses seen other ∨
    block.Clash one other) :
    ∃ failure, (block.mark seen one).bind (block.mark · other) = .error failure := by
  by_cases first : block.Refuses seen one
  · exact ⟨_, by rw [mark_of_refuses first]; rfl⟩
  · have second : block.Refuses (block.marked seen one) other :=
      refuses_marked.mpr (refuses.resolve_left first)
    exact ⟨_, by rw [mark_of_accepts first]; exact mark_of_refuses second⟩

theorem mark_two_ok (accepts : ¬(block.Refuses seen one ∨ block.Refuses seen other ∨
    block.Clash one other)) : (block.mark seen one).bind (block.mark · other) =
      .ok (block.marked (block.marked seen one) other) := by
  rw [not_or] at accepts
  rw [mark_of_accepts accepts.1]
  exact mark_of_accepts fun refuses => accepts.2 (refuses_marked.mp refuses)

variable (block) in
omit [LawfulBEq κ] in
/-- The marks and the changes of two settings are made apart. -/
theorem step_two (state : σ) (seen : List κ) (one other : ι) :
    Agree Eq ((block.step (state, seen) one).bind (block.step · other))
      (((block.mark seen one).bind (block.mark · other)).bind fun seen =>
        ((block.apply state one).bind (block.apply · other)).map fun applied =>
          (applied, seen)) := by
  unfold step
  dsimp only
  cases block.mark seen one with
  | error failure => exact .error failure failure
  | ok marked =>
      cases block.apply state one with
      | ok applied => exact .refl eq_equivalence _
      | error failure =>
          dsimp only [Except.bind, Except.map]
          cases block.mark marked other with
          | ok _ => exact .error failure failure
          | error later => exact .error failure later

/-- Settings commute in a block when their changes do, unless they cannot both stand in it. -/
theorem step_commute (changes : ¬block.Clash one other → ∀ state,
    Agree Eq ((block.apply state one).bind (block.apply · other))
      ((block.apply state other).bind (block.apply · one))) :
    Commute Same block.step one other := by
  rintro ⟨state, seen⟩
  have weaken : ∀ first second : σ × List κ, first = second → Same first second := by
    rintro first _ rfl
    exact equivalence_same.refl first
  have left := (step_two block state seen one other).mono weaken
  have right := (step_two block state seen other one).mono weaken
  refine left.trans equivalence_same (Agree.trans equivalence_same ?_
    (right.symm equivalence_same))
  by_cases refuses : block.Refuses seen one ∨ block.Refuses seen other ∨ block.Clash one other
  · have again : block.Refuses seen other ∨ block.Refuses seen one ∨ block.Clash other one := by
      rwa [← clash_symm, or_left_comm]
    rcases mark_two_error refuses with ⟨failure, first⟩
    rcases mark_two_error again with ⟨failure', second⟩
    rw [first, second]
    exact .error failure failure'
  · have again : ¬(block.Refuses seen other ∨ block.Refuses seen one ∨
        block.Clash other one) := by
      rwa [← clash_symm, or_left_comm]
    rw [mark_two_ok refuses, mark_two_ok again]
    rw [not_or, not_or] at refuses
    exact (changes refuses.2.2 state).map fun _ _ same => ⟨same, marked_perm one other seen⟩

variable (block) in
/-- The keys of the settings that may stand in a block once. -/
def onceKeys (settings : List ι) : List κ :=
  (settings.map block.key).filter (!block.repeats ·)

/-- A block is read when its settings apply and no key stands in it twice that may not. -/
theorem foldlM_step {settings : List ι} {state final : σ} {seen : List κ}
    (applied : settings.foldlM block.apply state = .ok final)
    (distinct : (block.onceKeys settings).Nodup)
    (fresh : ∀ key ∈ block.onceKeys settings, key ∉ seen) :
    ∃ seen', settings.foldlM block.step (state, seen) = .ok (final, seen') ∧
      ∀ key, key ∈ seen' ↔ key ∈ seen ∨ key ∈ block.onceKeys settings := by
  induction settings generalizing state seen with
  | nil =>
      refine ⟨seen, ?_, fun key => by simp [onceKeys]⟩
      rw [← Except.ok.inj applied]
      rfl
  | cons setting settings ih =>
      rw [List.foldlM_cons] at applied
      cases first : block.apply state setting with
      | error failure =>
          rw [first] at applied
          cases applied
      | ok next =>
          rw [first] at applied
          by_cases repeated : block.repeats (block.key setting) = true
          · have keys : block.onceKeys (setting :: settings) = block.onceKeys settings :=
              List.filter_cons_of_neg (by simpa using repeated)
            have read : block.step (state, seen) setting = .ok (next, seen) := by
              rw [step, mark, if_pos repeated, first]
              rfl
            rw [keys] at distinct fresh ⊢
            rw [List.foldlM_cons, read]
            exact ih applied distinct fresh
          · have keys : block.onceKeys (setting :: settings) =
                block.key setting :: block.onceKeys settings :=
              List.filter_cons_of_pos (by simpa using repeated)
            rw [keys, List.nodup_cons] at distinct
            rw [keys, List.forall_mem_cons] at fresh
            have unseen : ¬seen.contains (block.key setting) = true :=
              fun listed => fresh.1 (List.contains_iff_mem.mp listed)
            have read : block.step (state, seen) setting =
                .ok (next, block.key setting :: seen) := by
              rw [step, mark, if_neg repeated, if_neg unseen, first]
              rfl
            have later : ∀ key ∈ block.onceKeys settings, key ∉ block.key setting :: seen := by
              intro key listed
              rw [List.mem_cons, not_or]
              exact ⟨fun same => distinct.1 (same ▸ listed), fresh.2 key listed⟩
            rcases ih applied distinct.2 later with ⟨seen', run, all⟩
            refine ⟨seen', ?_, fun key => ?_⟩
            · rw [List.foldlM_cons, read]
              exact run
            · rw [all, keys, List.mem_cons, List.mem_cons, or_assoc, or_left_comm]

end Block

end IrcPlatform
