import IrcPlatform.Library.FileChanges

/-!
# Shapes of file trees

Directories and links are the shape of a tree. A path that leads to a directory leads to the
same directory in every tree of the same shape, whatever happens to the files.
-/

namespace IrcPlatform

open Std

def Node.isLink : Node → Bool
  | .link _ => true
  | _ => false

/-- An entry of this kind is part of the shape of a tree. -/
def Node.isFixed (node : Node) : Bool :=
  match node with
  | .directory _ | .link _ | .special => true
  | .file _ _ => false

namespace FileTree

variable {tree other third : FileTree}

/-- What the other tree has on the way to an entry, and at it. -/
def LeadsLike (tree other : FileTree) (found : Path) : Prop :=
  ∀ path node, tree.node path = some node →
    node.isDirectory = true ∨ node.isLink = true ∨ path = found → other.node path = some node

theorem walk_leadsLike {follow followed : Bytes → Path → List Bytes → Except Errno Path}
    {first last : Bool} {segments : List Bytes} {current found : Path}
    (like : tree.LeadsLike other found) (plain : ∀ target, tree.node found ≠ some (.link target))
    (modes : first = true → last = true)
    (linked : ∀ target current rest, followed target current rest = .ok found →
      follow target current rest = .ok found)
    (walked : tree.walk followed first segments current = .ok found) :
    other.walk follow last segments current = .ok found := by
  induction segments generalizing current with
  | nil =>
      rw [walk] at walked ⊢
      exact walked
  | cons segment rest ih =>
      rw [walk] at walked ⊢
      split at walked
      next access here =>
        rw [like _ _ here (.inl rfl)]
        dsimp only
        split at walked
        next empty => rw [if_pos empty, ih walked]
        next named =>
          rw [if_neg named]
          split at walked
          · cases walked
          next searched =>
            rw [if_neg searched]
            split at walked
            next dot => rw [if_pos dot, ih walked]
            next notDot =>
              rw [if_neg notDot]
              split at walked
              next dots => rw [if_pos dots, ih walked]
              next notDots =>
                rw [if_neg notDots]
                split at walked
                · cases walked
                next short =>
                  rw [if_neg short]
                  split at walked
                  · cases walked
                  next target link =>
                    rw [like _ _ link (.inr (.inl rfl))]
                    dsimp only
                    split at walked
                    next stops =>
                      rw [Except.ok.injEq] at walked
                      exact absurd (walked ▸ link) (plain target)
                    next goes =>
                      have onward : ¬(rest.isEmpty && !last) = true := by
                        intro stops
                        cases first with
                        | true => simp [modes rfl] at stops
                        | false => simp_all
                      rw [if_neg onward, linked _ _ _ walked]
                  next node noLink present =>
                    -- A walk that goes on from here stands at a directory.
                    have kept : other.node (current ++ [segment]) = some node := by
                      apply like _ _ present
                      cases rest with
                      | nil =>
                          rw [walk, Except.ok.injEq] at walked
                          exact .inr (.inr walked)
                      | cons next rest =>
                          left
                          rw [walk] at walked
                          split at walked
                          next access directory =>
                            rw [present, Option.some.injEq] at directory
                            rw [directory]
                            rfl
                          · cases walked
                    rw [kept]
                    cases node with
                    | link target => exact absurd rfl (noLink target)
                    | file content readable => exact ih walked
                    | directory access => exact ih walked
                    | special => exact ih walked
      · cases walked

theorem walkLinks_leadsLike {links : Nat} {first last : Bool} {segments : List Bytes}
    {current found : Path} (like : tree.LeadsLike other found)
    (plain : ∀ target, tree.node found ≠ some (.link target)) (modes : first = true → last = true)
    (walked : tree.walkLinks links first segments current = .ok found) :
    other.walkLinks links last segments current = .ok found := by
  induction links generalizing segments current with
  | zero =>
      refine walk_leadsLike like plain modes ?_ walked
      intro _ _ _ followed
      cases followed
  | succ links ih =>
      refine walk_leadsLike like plain modes ?_ walked
      intro target current rest followed
      split at followed
      · cases followed
      next named =>
        rw [if_neg named]
        exact ih followed

theorem resolve_leadsLike {working found : Path} {first last : Bool} {path : Bytes}
    (like : tree.LeadsLike other found) (plain : ∀ target, tree.node found ≠ some (.link target))
    (modes : first = true → last = true)
    (resolved : tree.resolve working first path = .ok found) :
    other.resolve working last path = .ok found := by
  unfold resolve at resolved ⊢
  dsimp only at resolved ⊢
  split at resolved
  · cases resolved
  next named =>
    rw [if_neg named]
    split at resolved
    · cases resolved
    next short =>
      rw [if_neg short]
      exact walkLinks_leadsLike like plain modes resolved

/-- What is found without following a link at the end is found by following it. -/
theorem resolve_followed {working found : Path} {last : Bool} {path : Bytes}
    (plain : ∀ target, tree.node found ≠ some (.link target))
    (resolved : tree.resolve working false path = .ok found) :
    tree.resolve working last path = .ok found :=
  resolve_leadsLike (fun _ _ present _ => present) plain (fun asked => by cases asked) resolved

/-! ## Trees of one shape -/

/-- The two trees differ in files only. -/
def SameShape (tree other : FileTree) : Prop :=
  ∀ path node, node.isFixed = true → (other.node path = some node ↔ tree.node path = some node)

namespace SameShape

theorem refl (tree : FileTree) : tree.SameShape tree := fun _ _ _ => Iff.rfl

theorem symm (same : tree.SameShape other) : other.SameShape tree :=
  fun path node fixed => (same path node fixed).symm

theorem trans (first : tree.SameShape other) (second : other.SameShape third) :
    tree.SameShape third :=
  fun path node fixed => (second path node fixed).trans (first path node fixed)

theorem directory (same : tree.SameShape other) {path : Path} {access : Access} :
    other.node path = some (.directory access) ↔ tree.node path = some (.directory access) :=
  same path _ rfl

theorem leadsLike (same : tree.SameShape other) {found : Path} {access : Access}
    (directory : tree.node found = some (.directory access)) : tree.LeadsLike other found := by
  intro path node present kind
  apply (same path node _).mpr present
  rcases kind with isDirectory | isLink | rfl
  · cases node <;> first | rfl | cases isDirectory
  · cases node <;> first | rfl | cases isLink
  · rw [directory, Option.some.injEq] at present
    rw [← present]
    rfl

/-- A path to a directory leads to the same directory. -/
theorem resolve (same : tree.SameShape other) {working found : Path} {followLast : Bool}
    {path : Bytes} {access : Access} (directory : tree.node found = some (.directory access))
    (resolved : tree.resolve working followLast path = .ok found) :
    other.resolve working followLast path = .ok found := by
  refine resolve_leadsLike (same.leadsLike directory) ?_ id resolved
  intro target link
  rw [directory] at link
  cases link

/-- A file becomes something else, or an entry that was not there a file. -/
theorem of_node {place : Path} {node : Option Node}
    (nodes : ∀ path, other.node path = if path = place then node else tree.node path)
    (before : ∀ former, tree.node place = some former → former.isFixed = false)
    (after : ∀ later, node = some later → later.isFixed = false) : tree.SameShape other := by
  intro path fixed isFixed
  rw [nodes]
  split
  next same =>
    subst same
    constructor
    · intro there
      rw [after fixed there] at isFixed
      cases isFixed
    · intro there
      rw [before fixed there] at isFixed
      cases isFixed
  · exact Iff.rfl

end SameShape

end FileTree

end IrcPlatform
