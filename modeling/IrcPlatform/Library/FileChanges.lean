import IrcPlatform.Library.FileTree

/-!
# Changes of file trees

A tree is its entries, and a file that is created and removed again leaves no trace. What a
path leads to does not change while entries are only added.
-/

namespace IrcPlatform

open Std

namespace FileTree

variable {tree other : FileTree}

theorem ext_node (same : ∀ path, tree.node path = other.node path) : tree = other := by
  have nodes : tree.nodes = other.nodes := ExtTreeMap.ext_getElem? same
  cases tree
  cases other
  cases nodes
  rfl

theorem node_erase {path : Path} (removable : ¬tree.isDirectory path) (elsewhere : Path) :
    (tree.erase path).node elsewhere =
      if elsewhere = path then none else tree.node elsewhere := by
  rw [erase, dif_neg removable, FileTree.node, FileTree.node, ExtTreeMap.getElem?_erase]
  simp only [LawfulEqOrd.compare_eq_iff_eq, eq_comm (b := elsewhere)]

/-- A new entry that is not a directory is removed again. -/
theorem erase_put {parent : Path} {name : Bytes} {node : Node}
    (valid : ValidName name) (directory : tree.isDirectory parent)
    (absent : tree.node (parent ++ [name]) = none) (plain : node.isDirectory = false) :
    (tree.put parent name node).erase (parent ++ [name]) = tree := by
  have accepts : tree.Accepts parent name := ⟨valid, directory, by simp [isDirectory, absent]⟩
  have removable : ¬(tree.put parent name node).isDirectory (parent ++ [name]) := by
    simp [isDirectory, node_put tree accepts, plain]
  apply ext_node
  intro path
  rw [node_erase removable, node_put tree accepts]
  split
  next same => rw [same, absent]
  · rfl

/-! ## Larger trees -/

/-- Another tree has every entry of this one. -/
def Within (tree other : FileTree) : Prop :=
  ∀ path node, tree.node path = some node → other.node path = some node

/-- What is found in a tree is found in a larger one. -/
theorem walk_within {follow followed : Bytes → Path → List Bytes → Except Errno Path}
    {followLast : Bool} {segments : List Bytes} {current found : Path}
    (within : tree.Within other)
    (linked : ∀ target current rest, followed target current rest = .ok found →
      follow target current rest = .ok found)
    (walked : tree.walk followed followLast segments current = .ok found) :
    other.walk follow followLast segments current = .ok found := by
  induction segments generalizing current with
  | nil =>
      rw [walk] at walked ⊢
      exact walked
  | cons segment rest ih =>
      rw [walk] at walked ⊢
      split at walked
      next access here =>
        rw [within _ _ here]
        dsimp only
        split at walked
        next empty => rw [if_pos empty, ih walked]
        next named =>
          rw [if_neg named]
          split at walked
          · cases walked
          next searched =>
            rw [if_neg searched]
            split at walked
            next dot => rw [if_pos dot, ih walked]
            next notDot =>
              rw [if_neg notDot]
              split at walked
              next dots => rw [if_pos dots, ih walked]
              next notDots =>
                rw [if_neg notDots]
                split at walked
                · cases walked
                next short =>
                  rw [if_neg short]
                  split at walked
                  · cases walked
                  next target link =>
                    rw [within _ _ link]
                    dsimp only
                    split at walked
                    next last => rw [if_pos last, walked]
                    next more => rw [if_neg more, linked _ _ _ walked]
                  next node plain present =>
                    rw [within _ _ present]
                    cases node with
                    | link target => exact absurd rfl (plain target)
                    | file content readable => exact ih walked
                    | directory access => exact ih walked
                    | special => exact ih walked
      · cases walked

theorem walkLinks_within {links : Nat} {followLast : Bool} {segments : List Bytes}
    {current found : Path} (within : tree.Within other)
    (walked : tree.walkLinks links followLast segments current = .ok found) :
    other.walkLinks links followLast segments current = .ok found := by
  induction links generalizing segments current with
  | zero =>
      refine walk_within within ?_ walked
      intro _ _ _ followed
      cases followed
  | succ links ih =>
      refine walk_within within ?_ walked
      intro target current rest followed
      split at followed
      · cases followed
      next named =>
        rw [if_neg named]
        exact ih followed

theorem resolve_within {working found : Path} {followLast : Bool} {path : Bytes}
    (within : tree.Within other)
    (resolved : tree.resolve working followLast path = .ok found) :
    other.resolve working followLast path = .ok found := by
  unfold resolve at resolved ⊢
  dsimp only at resolved ⊢
  split at resolved
  · cases resolved
  next named =>
    rw [if_neg named]
    split at resolved
    · cases resolved
    next short =>
      rw [if_neg short]
      exact walkLinks_within within resolved

end FileTree

theorem Disk.realpath_within {disk : Disk} {tree : FileTree} {path canonical : Bytes}
    (within : disk.tree.Within tree) (real : disk.realpath path = .ok canonical) :
    Disk.realpath { disk with tree := tree } path = .ok canonical := by
  unfold realpath at real ⊢
  cases resolved : disk.tree.resolve disk.directory true path with
  | error errno => simp [resolved, Except.bind] at real
  | ok found =>
      rw [resolved] at real
      rwa [FileTree.resolve_within within resolved]

end IrcPlatform
