import Mathlib.Data.Finset.Image
import Mathlib.Data.Set.Insert

/-!
# Rosters

Who is present in which room, and watchers that follow it. Every change of a room is told to
those who are in it. A watcher that enters a room is told the names that are present there,
and from then on what it is told keeps it informed of its rooms.
-/

namespace IrcPlatform

universe u v

/-- What is told to a watcher. -/
inductive Tiding (Room : Type u) (Name : Type v) where
  /-- The name of the watcher itself. -/
  | named (name : Name)
  | entered (room : Room) (name : Name)
  | left (room : Room) (name : Name)
  /-- Somebody left all rooms. -/
  | gone (name : Name)
  | renamed (old new : Name)
  /-- Names that are present in the room that the watcher has entered. -/
  | listed (room : Room) (names : List Name)
  | listedAll
deriving DecidableEq

/-- Who is present where. -/
abbrev Rosters (Room : Type u) (Name : Type v) := Set (Room × Name)

variable {Room : Type u} {Name : Type v}

namespace Tiding

/-- It tells of no change, but of the watcher itself or of the room that it has entered. -/
def isPersonal : Tiding Room Name → Bool
  | named _ | listed _ _ | listedAll => true
  | entered _ _ | left _ _ | gone _ | renamed _ _ => false

def opens : Tiding Room Name → Bool
  | entered _ _ => true
  | named _ | listed _ _ | listedAll | left _ _ | gone _ | renamed _ _ => false

/-- A name after what is told happened. -/
def nameAfter [DecidableEq Name] (name : Name) : Tiding Room Name → Name
  | renamed old new => if old = name then new else name
  | named _ | listed _ _ | listedAll | entered _ _ | left _ _ | gone _ => name

end Tiding

namespace Rosters

/-- The rosters after what is told happened. -/
def after (rosters : Rosters Room Name) : Tiding Room Name → Rosters Room Name
  | .entered room name => insert (room, name) rosters
  | .left room name => rosters \ {(room, name)}
  | .gone name => {place | place ∈ rosters ∧ place.2 ≠ name}
  | .renamed old new =>
      {place | place.2 = new ∧ (place.1, old) ∈ rosters ∨ place.2 ≠ old ∧ place ∈ rosters}
  | .named _ | .listed _ _ | .listedAll => rosters

/-- The watcher of a name is to be told: it is in a room that changes. -/
def Concerns (rosters : Rosters Room Name) (name : Name) : Tiding Room Name → Prop
  | .entered room _ | .left room _ => (room, name) ∈ rosters
  | .gone other => ∃ room, (room, other) ∈ rosters ∧ (room, name) ∈ rosters
  | .renamed old _ => old = name ∨ ∃ room, (room, old) ∈ rosters ∧ (room, name) ∈ rosters
  | .named _ | .listed _ _ | .listedAll => False

/-- What is told can happen, as far as the watcher of a name is concerned: it is not the
watcher itself that enters or goes, and a new name is nobody else's. -/
def Allows (rosters : Rosters Room Name) (name : Name) : Tiding Room Name → Prop
  | .entered _ other | .gone other => other ≠ name
  | .renamed old new => (∀ room, (room, new) ∈ rosters → new = old) ∧ (new = name → old = name)
  | .left _ _ | .named _ | .listed _ _ | .listedAll => True

end Rosters

structure Watcher (Room : Type u) (Name : Type v) where
  name : Option Name := none
  present : Finset (Room × Name) := ∅
  /-- The room whose names are being listed to it. -/
  entering : Option Room := none
deriving DecidableEq

namespace Watcher

variable [DecidableEq Room] [DecidableEq Name]

/-- What a watcher makes of what it is told. -/
def hear (watcher : Watcher Room Name) : Tiding Room Name → Watcher Room Name
  | .named name => if watcher.name.isNone then { watcher with name := some name } else watcher
  | .entered room name =>
      { watcher with
        present := insert (room, name) watcher.present
        entering := if watcher.name = some name then some room else watcher.entering }
  | .left room name =>
      if watcher.name = some name then
        { watcher with present := watcher.present.filter (·.1 ≠ room) }
      else { watcher with present := watcher.present.erase (room, name) }
  | .gone name => { watcher with present := watcher.present.filter (·.2 ≠ name) }
  | .renamed old new =>
      { watcher with
        name := if watcher.name = some old then some new else watcher.name
        present := watcher.present.image fun place =>
          (place.1, if place.2 = old then new else place.2) }
  | .listed room names =>
      if watcher.entering = some room then
        { watcher with present := watcher.present ∪ (names.map (room, ·)).toFinset }
      else watcher
  | .listedAll => { watcher with entering := none }

def hearAll (watcher : Watcher Room Name) (tidings : List (Tiding Room Name)) :
    Watcher Room Name :=
  tidings.foldl hear watcher

/-- The watcher knows its name and who is present in its rooms. -/
structure Follows (watcher : Watcher Room Name) (rosters : Rosters Room Name) (name : Name) :
    Prop where
  named : watcher.name = some name
  settled : watcher.entering = none
  present (room : Room) (other : Name) : (room, other) ∈ watcher.present ↔
    (room, name) ∈ rosters ∧ (room, other) ∈ rosters

variable {watcher : Watcher Room Name} {rosters : Rosters Room Name} {name : Name}
  {tiding : Tiding Room Name}

theorem hearAll_append (first second : List (Tiding Room Name)) :
    watcher.hearAll (first ++ second) = (watcher.hearAll first).hearAll second :=
  List.foldl_append

theorem hearAll_cons (first : Tiding Room Name) (rest : List (Tiding Room Name)) :
    watcher.hearAll (first :: rest) = (watcher.hear first).hearAll rest := rfl

/-! ## What is passed over -/

/-- A watcher that knows its name and enters no room passes over what is personal. -/
theorem hear_personal (named : watcher.name.isSome = true) (settled : watcher.entering = none)
    (personal : tiding.isPersonal = true) : watcher.hear tiding = watcher := by
  cases tiding with
  | named _ => simp [hear, Option.isNone_eq_false_iff.mpr named]
  | listed room names => simp [hear, settled]
  | listedAll =>
      rw [hear, ← settled]
  | entered _ _ | left _ _ | gone _ | renamed _ _ => simp [Tiding.isPersonal] at personal

theorem hear_settled (named : watcher.name.isSome = true) (settled : watcher.entering = none)
    (quiet : tiding.opens = false) :
    (watcher.hear tiding).name.isSome = true ∧ (watcher.hear tiding).entering = none := by
  cases tiding with
  | entered _ _ => simp [Tiding.opens] at quiet
  | named _ | listed _ _ | listedAll =>
      rw [hear_personal named settled rfl]
      exact ⟨named, settled⟩
  | left room other =>
      simp only [hear]
      split
      · exact ⟨named, settled⟩
      · exact ⟨named, settled⟩
  | gone _ => exact ⟨named, settled⟩
  | renamed old new =>
      refine ⟨?_, settled⟩
      simp only [hear]
      split
      · rfl
      · exact named

/-- As long as nobody enters a room, only what is not personal matters. -/
theorem hearAll_filter {tidings : List (Tiding Room Name)} (named : watcher.name.isSome = true)
    (settled : watcher.entering = none) (quiet : ∀ tiding ∈ tidings, tiding.opens = false) :
    watcher.hearAll (tidings.filter (!·.isPersonal)) = watcher.hearAll tidings := by
  induction tidings generalizing watcher with
  | nil => rfl
  | cons first rest ih =>
      rw [List.forall_mem_cons] at quiet
      cases personal : first.isPersonal with
      | true =>
          rw [List.filter_cons_of_neg (by simp [personal]), hearAll_cons,
            hear_personal named settled personal]
          exact ih named settled quiet.2
      | false =>
          rcases hear_settled named settled quiet.1 with ⟨still, calm⟩
          rw [List.filter_cons_of_pos (by simp [personal]), hearAll_cons, hearAll_cons]
          exact ih still calm quiet.2

namespace Follows

variable (follows : watcher.Follows rosters name)
include follows

/-! ## Changes of rooms -/

theorem entered {room : Room} {other : Name} (different : other ≠ name)
    (inside : (room, name) ∈ rosters) :
    (watcher.hear (.entered room other)).Follows (rosters.after (.entered room other)) name where
  named := follows.named
  settled := by
    have stranger : watcher.name ≠ some other := by
      rw [follows.named, ne_eq, Option.some.injEq]
      exact Ne.symm different
    simp only [hear, if_neg stranger, follows.settled]
  present place person := by
    simp only [hear, Rosters.after, Finset.mem_insert, Set.mem_insert_iff, Prod.mk.injEq,
      follows.present, Ne.symm different, and_false, false_or]
    constructor
    · rintro (⟨rfl, rfl⟩ | ⟨here, there⟩)
      · exact ⟨inside, Or.inl ⟨rfl, rfl⟩⟩
      · exact ⟨here, Or.inr there⟩
    · rintro ⟨here, entry | there⟩
      · exact Or.inl entry
      · exact Or.inr ⟨here, there⟩

theorem left_other {room : Room} {other : Name} (different : other ≠ name) :
    (watcher.hear (.left room other)).Follows (rosters.after (.left room other)) name := by
  have stranger : watcher.name ≠ some other := by
    rw [follows.named, ne_eq, Option.some.injEq]
    exact Ne.symm different
  simp only [hear, if_neg stranger]
  refine ⟨follows.named, follows.settled, ?_⟩
  intro place person
  simp only [Rosters.after, Finset.mem_erase, Set.mem_sdiff, Set.mem_singleton_iff, ne_eq,
    Prod.mk.injEq, follows.present, Ne.symm different, and_false, not_false_eq_true, and_true]
  tauto

/-- The watcher itself left a room. -/
theorem left_self (room : Room) :
    (watcher.hear (.left room name)).Follows (rosters.after (.left room name)) name := by
  simp only [hear, if_pos follows.named]
  refine ⟨follows.named, follows.settled, ?_⟩
  intro place person
  simp only [Rosters.after, Finset.mem_filter, Set.mem_sdiff, Set.mem_singleton_iff, ne_eq,
    Prod.mk.injEq, follows.present, and_true]
  tauto

theorem gone {other : Name} (different : other ≠ name) :
    (watcher.hear (.gone other)).Follows (rosters.after (.gone other)) name where
  named := follows.named
  settled := follows.settled
  present place person := by
    simp only [hear, Rosters.after, Finset.mem_filter, Set.mem_ofPred_eq, ne_eq, follows.present,
      Ne.symm different, not_false_eq_true, and_true]
    tauto

theorem renamed {old new : Name} (fresh : ∀ room, (room, new) ∈ rosters → new = old)
    (own : new = name → old = name) :
    (watcher.hear (.renamed old new)).Follows (rosters.after (.renamed old new))
      (Tiding.nameAfter name (.renamed old new : Tiding Room Name)) where
  named := by
    simp only [hear, Tiding.nameAfter, follows.named, Option.some.injEq]
    by_cases same : old = name
    · rw [if_pos same.symm, if_pos same]
    · rw [if_neg (Ne.symm same), if_neg same]
  settled := follows.settled
  present place person := by
    -- The image of a place is the place under the new name.
    have image : (place, person) ∈ (watcher.hear (.renamed old new)).present ↔
        person = new ∧ (place, old) ∈ watcher.present ∨
          person ≠ old ∧ (place, person) ∈ watcher.present := by
      simp only [hear, Finset.mem_image, Prod.exists, Prod.mk.injEq]
      constructor
      · rintro ⟨room, former, listed, rfl, rfl⟩
        split
        next same => exact Or.inl ⟨rfl, same ▸ listed⟩
        next other => exact Or.inr ⟨other, listed⟩
      · rintro (⟨rfl, listed⟩ | ⟨other, listed⟩)
        · exact ⟨place, old, listed, rfl, if_pos rfl⟩
        · exact ⟨place, person, listed, rfl, if_neg other⟩
    have inside : (place, Tiding.nameAfter name (.renamed old new : Tiding Room Name)) ∈
        rosters.after (.renamed old new) ↔ (place, name) ∈ rosters := by
      simp only [Tiding.nameAfter, Rosters.after, Set.mem_ofPred_eq]
      by_cases same : old = name
      · rw [if_pos same]
        subst same
        constructor
        · rintro (⟨_, there⟩ | ⟨other, there⟩)
          · exact there
          · exact absurd (fresh place there) other
        · intro there
          exact Or.inl ⟨rfl, there⟩
      · rw [if_neg same]
        constructor
        · rintro (⟨new_, _⟩ | ⟨_, there⟩)
          · exact absurd (own new_.symm) same
          · exact there
        · intro there
          exact Or.inr ⟨Ne.symm same, there⟩
    rw [image, inside, follows.present, follows.present]
    simp only [Rosters.after, Set.mem_ofPred_eq]
    tauto

/-! ## Everything that can be told -/

/-- What concerns the watcher is told, and it follows. -/
theorem told (concerned : rosters.Concerns name tiding) (allowed : rosters.Allows name tiding) :
    (watcher.hear tiding).Follows (rosters.after tiding) (Tiding.nameAfter name tiding) := by
  cases tiding with
  | named _ | listed _ _ | listedAll => exact concerned.elim
  | entered room other => exact follows.entered allowed concerned
  | left room other =>
      by_cases same : other = name
      · subst same
        exact follows.left_self room
      · exact follows.left_other same
  | gone other => exact follows.gone allowed
  | renamed old new => exact follows.renamed allowed.1 allowed.2

omit [DecidableEq Room] in
/-- What does not concern the watcher need not be told. -/
theorem untold (unconcerned : ¬rosters.Concerns name tiding)
    (allowed : rosters.Allows name tiding) :
    watcher.Follows (rosters.after tiding) (Tiding.nameAfter name tiding) := by
  cases tiding with
  | named _ | listed _ _ | listedAll => exact follows
  | entered room other =>
      refine ⟨follows.named, follows.settled, ?_⟩
      intro place person
      have elsewhere : (place, name) ∈ rosters → place ≠ room := by
        rintro there rfl
        exact unconcerned there
      have stranger : name ≠ other := Ne.symm allowed
      simp only [Tiding.nameAfter, Rosters.after, Set.mem_insert_iff, Prod.mk.injEq,
        follows.present, stranger, and_false, false_or]
      tauto
  | left room other =>
      refine ⟨follows.named, follows.settled, ?_⟩
      intro place person
      have elsewhere : (place, name) ∈ rosters → place ≠ room := by
        rintro there rfl
        exact unconcerned there
      simp only [Tiding.nameAfter, Rosters.after, Set.mem_sdiff, Set.mem_singleton_iff,
        Prod.mk.injEq, follows.present]
      tauto
  | gone other =>
      refine ⟨follows.named, follows.settled, ?_⟩
      intro place person
      have stranger : name ≠ other := Ne.symm allowed
      have apart : (place, name) ∈ rosters → (place, person) ∈ rosters → person ≠ other := by
        rintro here there rfl
        exact unconcerned ⟨place, there, here⟩
      simp only [Tiding.nameAfter, Rosters.after, Set.mem_ofPred_eq, ne_eq, follows.present,
        stranger, not_false_eq_true, and_true]
      tauto
  | renamed old new =>
      have other : old ≠ name := fun same => unconcerned (Or.inl same)
      refine ⟨by rw [Tiding.nameAfter, if_neg other, follows.named], follows.settled, ?_⟩
      intro place person
      have apart : (place, name) ∈ rosters → (place, old) ∉ rosters := by
        intro here there
        exact unconcerned (Or.inr ⟨place, there, here⟩)
      have stranger : name ≠ new := fun same => other (allowed.2 same.symm)
      have former : (place, name) ∈ rosters → (place, person) ∈ rosters → person ≠ old := by
        rintro here there rfl
        exact apart here there
      simp only [Tiding.nameAfter, if_neg other, Rosters.after, Set.mem_ofPred_eq,
        follows.present, stranger, false_and, false_or, ne_eq, Ne.symm other, not_false_eq_true,
        true_and]
      tauto

/-! ## The entry of the watcher -/

/-- The watcher itself enters a room, and the names in it are listed. -/
theorem opened {room : Room} (outside : (room, name) ∉ rosters) {names : List Name}
    (all : ∀ other, other ∈ names ↔ other = name ∨ (room, other) ∈ rosters) :
    (watcher.hearAll [.entered room name, .listed room names, .listedAll]).Follows
      (rosters.after (.entered room name)) name := by
  simp only [hearAll, List.foldl_cons, List.foldl_nil, hear, follows.named, if_true]
  refine ⟨rfl, rfl, ?_⟩
  intro place person
  simp only [Rosters.after, Finset.mem_union, Finset.mem_insert, List.mem_toFinset, List.mem_map,
    Set.mem_insert_iff, Prod.mk.injEq, follows.present, all, and_true]
  constructor
  · rintro ((⟨rfl, rfl⟩ | ⟨here, there⟩) | ⟨other, known, rfl, rfl⟩)
    · exact ⟨Or.inl rfl, Or.inl ⟨rfl, rfl⟩⟩
    · exact ⟨Or.inr here, Or.inr there⟩
    · refine ⟨Or.inl rfl, ?_⟩
      rcases known with same | there
      · exact Or.inl ⟨rfl, same⟩
      · exact Or.inr there
  · rintro ⟨same | here, ⟨rfl, rfl⟩ | there⟩
    · exact Or.inl (Or.inl ⟨rfl, rfl⟩)
    · exact Or.inr ⟨person, Or.inr (same ▸ there), same.symm, rfl⟩
    · exact absurd here outside
    · exact Or.inl (Or.inr ⟨here, there⟩)

end Follows

end Watcher

end IrcPlatform
