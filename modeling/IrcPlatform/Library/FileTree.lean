import Std.Data.ExtTreeMap
import Mathlib.Data.List.Induction
import Mathlib.Data.List.Nodup
import Mathlib.Data.List.TakeWhile
import IrcPlatform.Library.Bytes
import IrcPlatform.Library.Splitting

/-!
# File trees

A tree of files, directories and symbolic links, and the POSIX calls that resolve
a path in it. Every entry but the root lies in a directory. An entry is named by its
canonical path, the list of the names that lead to it from the root.

Faults of the device are left out. Permissions are those of the one process that
makes the calls.
-/

namespace IrcPlatform

open Std

/-- A name that a directory entry can have. -/
def ValidName (name : Bytes) : Prop :=
  name ≠ [] ∧ name ≠ ascii "." ∧ name ≠ ascii ".." ∧ byte '/' ∉ name ∧ 0 ∉ name

instance (name : Bytes) : Decidable (ValidName name) := inferInstanceAs (Decidable (_ ∧ _))

structure EntryName where
  text : Bytes
  valid : ValidName text

/-- The names that lead to an entry from the root. -/
abbrev Path := List Bytes

/-- The order of the components is total, under a name of its own. -/
instance instTransOrdPath : TransOrd Path := inferInstanceAs (TransOrd (List Bytes))

structure Access where
  read : Bool := true
  write : Bool := true
  search : Bool := true
deriving DecidableEq

inductive Node where
  | file (content : Bytes) (readable : Bool)
  | directory (access : Access)
  | link (target : Bytes)
  | special
deriving DecidableEq

inductive Errno where
  | noEntry
  | notDirectory
  | accessDenied
  | loop
  | nameTooLong
  | exists
  | isDirectory
deriving DecidableEq

def Node.isDirectory : Node → Bool
  | .directory _ => true
  | _ => false

structure FileTree where
  nodes : ExtTreeMap Path Node
  rooted : ∃ access, nodes[([] : Path)]? = some (.directory access)
  closed : ∀ parent name, nodes[parent ++ [name]]?.isSome → ValidName name ∧
    ∃ access, nodes[parent]? = some (.directory access)

namespace FileTree

variable (tree : FileTree)

def node (path : Path) : Option Node := tree.nodes[path]?

def isDirectory (path : Path) : Bool := (tree.node path).any Node.isDirectory

theorem isDirectory_iff {path : Path} :
    tree.isDirectory path ↔ ∃ access, tree.node path = some (.directory access) := by
  unfold isDirectory
  cases tree.node path with
  | none => simp
  | some node => cases node <;> simp [Node.isDirectory]

theorem isDirectory_root : tree.isDirectory [] := tree.isDirectory_iff.mpr tree.rooted

/-! ## Changes -/

/-- The tree of an empty root directory. -/
def empty (access : Access) : FileTree where
  nodes := ExtTreeMap.empty.insert [] (.directory access)
  rooted := ⟨access, by simp⟩
  closed parent name present := by
    simp at present

/-- An entry with this name can be created or replaced. -/
def Accepts (parent : Path) (name : Bytes) : Prop :=
  ValidName name ∧ tree.isDirectory parent ∧ ¬ tree.isDirectory (parent ++ [name])

instance (parent : Path) (name : Bytes) : Decidable (tree.Accepts parent name) :=
  inferInstanceAs (Decidable (_ ∧ _))

/-- The entry with a name in a directory becomes this one, unless it is a directory. -/
def put (parent : Path) (name : Bytes) (node : Node) : FileTree :=
  if accepts : tree.Accepts parent name then
    { nodes := tree.nodes.insert (parent ++ [name]) node
      rooted := by
        rcases tree.rooted with ⟨access, root⟩
        refine ⟨access, ?_⟩
        rw [ExtTreeMap.getElem?_insert, if_neg (by simp), root]
      closed := by
        intro above entry present
        rw [ExtTreeMap.getElem?_insert] at present
        have upper : ValidName entry ∧ tree.isDirectory above := by
          split at present
          next same =>
            rw [LawfulEqOrd.compare_eq_iff_eq] at same
            rcases List.append_inj' same rfl with ⟨rfl, last⟩
            rcases List.singleton_inj.mp last with rfl
            exact ⟨accepts.1, accepts.2.1⟩
          · rcases tree.closed above entry present with ⟨valid, above⟩
            exact ⟨valid, tree.isDirectory_iff.mpr above⟩
        rcases tree.isDirectory_iff.mp upper.2 with ⟨access, directory⟩
        refine ⟨upper.1, access, ?_⟩
        rw [ExtTreeMap.getElem?_insert, if_neg]
        · exact directory
        · rw [LawfulEqOrd.compare_eq_iff_eq]
          exact fun same => accepts.2.2 (same ▸ upper.2) }
  else tree

/-- An entry other than a directory is removed. -/
def erase (path : Path) : FileTree :=
  if directory : tree.isDirectory path then tree
  else
    { nodes := tree.nodes.erase path
      rooted := by
        rcases tree.rooted with ⟨access, root⟩
        refine ⟨access, ?_⟩
        rw [ExtTreeMap.getElem?_erase, if_neg, root]
        rw [LawfulEqOrd.compare_eq_iff_eq]
        exact fun same => directory (same ▸ tree.isDirectory_root)
      closed := by
        intro above entry present
        rw [ExtTreeMap.getElem?_erase] at present
        split at present
        · simp at present
        rcases tree.closed above entry present with ⟨valid, access, upper⟩
        refine ⟨valid, access, ?_⟩
        rw [ExtTreeMap.getElem?_erase, if_neg, upper]
        rw [LawfulEqOrd.compare_eq_iff_eq]
        exact fun same => directory (same ▸ tree.isDirectory_iff.mpr ⟨access, upper⟩) }

theorem node_put {parent : Path} {name : Bytes} (accepts : tree.Accepts parent name) (node : Node)
    (path : Path) :
    (tree.put parent name node).node path =
      if path = parent ++ [name] then some node else tree.node path := by
  rw [put, dif_pos accepts, FileTree.node, FileTree.node, ExtTreeMap.getElem?_insert]
  simp only [LawfulEqOrd.compare_eq_iff_eq, eq_comm (b := path)]

/-- A file that is created and then written. -/
theorem node_put_put {parent : Path} {name : Bytes} {first second : Node} (valid : ValidName name)
    (directory : tree.isDirectory parent) (absent : tree.node (parent ++ [name]) = none)
    (path : Path) (plain : first.isDirectory = false := by rfl) :
    ((tree.put parent name first).put parent name second).node path =
      if path = parent ++ [name] then some second else tree.node path := by
  have accepts : tree.Accepts parent name := ⟨valid, directory, by simp [isDirectory, absent]⟩
  have again : (tree.put parent name first).Accepts parent name := by
    refine ⟨valid, ?_, ?_⟩
    · rw [isDirectory, node_put tree accepts, if_neg (by simp), ← isDirectory, directory]
    · simp [isDirectory, node_put tree accepts, plain]
  rw [node_put _ again, node_put tree accepts]
  split <;> rfl

/-! ## Resolution -/

/-- The longest name of an entry. -/
def maxName : Nat := 255

/-- The length that a path does not reach. -/
def maxPath : Nat := 4096

/-- One component after another, from a directory; a link is left to `follow`. -/
def walk (follow : Bytes → Path → List Bytes → Except Errno Path) (followLast : Bool) :
    List Bytes → Path → Except Errno Path
  | [], current => .ok current
  | segment :: rest, current =>
      match tree.node current with
      | some (.directory access) =>
          if segment = [] then walk follow followLast rest current
          else if !access.search then .error .accessDenied
          else if segment = ascii "." then walk follow followLast rest current
          else if segment = ascii ".." then walk follow followLast rest current.dropLast
          else if maxName < segment.length then .error .nameTooLong
          else
            match tree.node (current ++ [segment]) with
            | none => .error .noEntry
            | some (.link target) =>
                if rest.isEmpty && !followLast then .ok (current ++ [segment])
                else follow target current rest
            | some _ => walk follow followLast rest (current ++ [segment])
      | _ => .error .notDirectory

/-- Where a path starts: at the root or in a directory. -/
def origin (path : Bytes) (current : Path) : Path :=
  if path.head? = some (byte '/') then [] else current

/-- The walk with at most this many links. -/
def walkLinks : Nat → Bool → List Bytes → Path → Except Errno Path
  | 0, followLast => tree.walk (fun _ _ _ => .error .loop) followLast
  | links + 1, followLast =>
      tree.walk
        (fun target current rest =>
          if target.isEmpty then .error .noEntry
          else walkLinks links followLast (target.splitOn (byte '/') ++ rest)
            (origin target current))
        followLast

theorem directory_dropLast {path : Path} {node : Node} (present : tree.node path = some node) :
    ∃ access, tree.node path.dropLast = some (.directory access) := by
  rcases List.eq_nil_or_concat path with rfl | ⟨parent, name, rfl⟩
  · exact tree.rooted
  · rw [List.concat_eq_append] at present ⊢
    have listed : tree.nodes[parent ++ [name]]? = some node := present
    rw [List.dropLast_concat]
    exact (tree.closed parent name (by rw [listed]; rfl)).2

/-- The names on the way to an entry are valid, and lead through directories. -/
theorem entry_of_prefix {front back : Path} {node : Node}
    (present : tree.node (front ++ back) = some node) :
    (∃ node, tree.node front = some node) ∧
      (back ≠ [] → ∃ access, tree.node front = some (.directory access)) ∧
      ∀ name ∈ back, ValidName name := by
  induction back using List.reverseRecOn generalizing node with
  | nil =>
      rw [List.append_nil] at present
      exact ⟨⟨node, present⟩, fun more => absurd rfl more, fun _ listed => by cases listed⟩
  | append_singleton back name ih =>
      rw [← List.append_assoc] at present
      have listed : tree.nodes[front ++ back ++ [name]]? = some node := present
      rcases tree.closed (front ++ back) name (by rw [listed]; rfl) with ⟨valid, access, above⟩
      rcases ih above with ⟨before, directory, names⟩
      refine ⟨before, fun _ => ?_, ?_⟩
      · by_cases first : back = []
        · exact ⟨access, by rwa [first, List.append_nil] at above⟩
        · exact directory first
      · intro other inBack
        rcases List.mem_append.mp inBack with earlier | last
        · exact names other earlier
        · rw [List.mem_singleton.mp last]
          exact valid

/-- A walk along the names of an entry ends there, if at all. -/
theorem walk_names {tree : FileTree}
    {follow : Bytes → Path → List Bytes → Except Errno Path} {followLast : Bool}
    {names : List Bytes} {current found : Path} {node : Node}
    (present : tree.node (current ++ names) = some node)
    (noLink : ∀ target, node ≠ .link target)
    (walked : tree.walk follow followLast names current = .ok found) :
    found = current ++ names := by
  induction names generalizing current with
  | nil =>
      rw [walk, Except.ok.injEq] at walked
      rw [← walked, List.append_nil]
  | cons name rest ih =>
      have whole : tree.node (current ++ [name] ++ rest) = some node := by
        rw [List.append_assoc]
        exact present
      rcases (tree.entry_of_prefix present).2.2 name List.mem_cons_self with
        ⟨filled, notDot, notDots, _⟩
      rcases (tree.entry_of_prefix present).2.1 (List.cons_ne_nil _ _) with ⟨_, here⟩
      have next : ∃ onward, tree.node (current ++ [name]) = some onward ∧
          ∀ target, onward ≠ .link target := by
        by_cases last : rest = []
        · exact ⟨node, by rwa [last, List.append_nil] at whole, noLink⟩
        · rcases (tree.entry_of_prefix whole).2.1 last with ⟨access, directory⟩
          exact ⟨_, directory, fun _ same => Node.noConfusion same⟩
      rcases next with ⟨onward, next, plain⟩
      rw [walk, here] at walked
      simp only [next, if_neg filled, if_neg notDot, if_neg notDots] at walked
      split at walked
      · cases walked
      split at walked
      · cases walked
      rw [ih whole walked, List.append_assoc, List.singleton_append]

theorem walk_gap {tree : FileTree} {follow : Bytes → Path → List Bytes → Except Errno Path}
    {followLast : Bool} {current : Path} {access : Access} (rest : List Bytes)
    (directory : tree.node current = some (.directory access)) :
    tree.walk follow followLast ([] :: rest) current =
      tree.walk follow followLast rest current := by
  rw [walk, directory]
  simp only [if_pos]

/-- A walk to something other than a directory, whose last component is not a link, ends at
an entry with the name of that component. -/
theorem walk_last {tree : FileTree} {name : Bytes}
    {follow followed : Bytes → Path → List Bytes → Except Errno Path}
    (linked : ∀ target current rest unlinked found, rest.getLast? = some name →
      followed target current rest = .ok unlinked →
      (∀ target, tree.node unlinked ≠ some (.link target)) →
      follow target current rest = .ok found →
      (∀ access, tree.node found ≠ some (.directory access)) → ∃ parent, found = parent ++ [name])
    {segments : List Bytes} {current unlinked found : Path}
    (last : segments.getLast? = some name)
    (stopped : tree.walk followed false segments current = .ok unlinked)
    (noLink : ∀ target, tree.node unlinked ≠ some (.link target))
    (walked : tree.walk follow true segments current = .ok found)
    (noDirectory : ∀ access, tree.node found ≠ some (.directory access)) :
    ∃ parent, found = parent ++ [name] := by
  induction segments generalizing current with
  | nil => cases last
  | cons segment rest ih =>
      rw [walk] at stopped walked
      have onward {next : Path} (more : rest ≠ [])
          (stopped : tree.walk followed false rest next = .ok unlinked)
          (walked : tree.walk follow true rest next = .ok found) :
          ∃ parent, found = parent ++ [name] := by
        rw [List.getLast?_cons_of_ne_nil more] at last
        exact ih last stopped walked
      -- A walk that is over stands at something other than a directory.
      have more_of_directory {next : Path} {access : Access}
          (directory : tree.node next = some (.directory access))
          (walked : tree.walk follow true rest next = .ok found) : rest ≠ [] := by
        rintro rfl
        rw [walk, Except.ok.injEq] at walked
        exact noDirectory access (walked ▸ directory)
      split at stopped
      next access directory =>
        rw [directory] at walked
        simp only at walked
        split at stopped
        next empty =>
          rw [if_pos empty] at walked
          exact onward (more_of_directory directory walked) stopped walked
        next filled =>
          rw [if_neg filled] at walked
          split at stopped
          · cases stopped
          next searched =>
            rw [if_neg searched] at walked
            split at stopped
            next dot =>
              rw [if_pos dot] at walked
              exact onward (more_of_directory directory walked) stopped walked
            next notDot =>
              rw [if_neg notDot] at walked
              split at stopped
              next dots =>
                rw [if_pos dots] at walked
                rcases tree.directory_dropLast directory with ⟨_, above⟩
                exact onward (more_of_directory above walked) stopped walked
              next notDots =>
                rw [if_neg notDots] at walked
                split at stopped
                · cases stopped
                next short =>
                  rw [if_neg short] at walked
                  split at stopped
                  · cases stopped
                  next target link =>
                    rw [link] at walked
                    simp only [Bool.not_true, Bool.and_false, Bool.false_eq_true,
                      if_false] at walked
                    cases rest with
                    | nil =>
                        simp only [List.isEmpty_nil, Bool.not_false, Bool.and_self, if_true,
                          Except.ok.injEq] at stopped
                        exact absurd link (stopped ▸ noLink target)
                    | cons next rest =>
                        rw [List.getLast?_cons_of_ne_nil (List.cons_ne_nil _ _)] at last
                        exact linked _ _ _ _ _ last stopped noLink walked noDirectory
                  next node present notLink =>
                    have entry : tree.walk follow true rest (current ++ [segment]) = .ok found := by
                      revert walked
                      split
                      · intro walked
                        cases walked
                      next target link =>
                        exact (present target (Option.some.inj (notLink.symm.trans link))).elim
                      · exact id
                    cases rest with
                    | nil =>
                        rw [walk, Except.ok.injEq] at entry
                        rw [List.getLast?_singleton, Option.some.injEq] at last
                        exact ⟨current, by rw [← entry, last]⟩
                    | cons next rest => exact onward (List.cons_ne_nil _ _) stopped entry
      · cases stopped

theorem walkLinks_last {tree : FileTree} {name : Bytes} {links : Nat} {segments : List Bytes}
    {current unlinked found : Path} (last : segments.getLast? = some name)
    (stopped : tree.walkLinks links false segments current = .ok unlinked)
    (noLink : ∀ target, tree.node unlinked ≠ some (.link target))
    (walked : tree.walkLinks links true segments current = .ok found)
    (noDirectory : ∀ access, tree.node found ≠ some (.directory access)) :
    ∃ parent, found = parent ++ [name] := by
  induction links generalizing segments current unlinked found with
  | zero =>
      refine walk_last ?_ last stopped noLink walked noDirectory
      intro _ _ _ _ _ _ stopped
      cases stopped
  | succ links ih =>
      refine walk_last ?_ last stopped noLink walked noDirectory
      intro target current rest unlinked found last stopped noLink walked noDirectory
      split at stopped
      · cases stopped
      next filled =>
        rw [if_neg filled] at walked
        refine ih ?_ stopped noLink walked noDirectory
        rw [List.getLast?_append, last, Option.some_or]

def maxLinks : Nat := 40

theorem takeWhile_plain {path : Bytes} (plain : 0 ∉ path) : path.takeWhile (· != 0) = path := by
  rw [List.takeWhile_eq_self_iff]
  intro c listed
  rw [bne_iff_ne]
  rintro rfl
  exact plain listed

/-- The entry that a path names, from a working directory. -/
def resolve (directory : Path) (followLast : Bool) (path : Bytes) : Except Errno Path :=
  let cString := path.takeWhile (· != 0)
  if cString.isEmpty then .error .noEntry
  else if maxPath ≤ cString.length then .error .nameTooLong
  else tree.walkLinks maxLinks followLast (cString.splitOn (byte '/')) (origin cString directory)

theorem resolve_last {tree : FileTree} {directory unlinked found : Path} {path : Bytes}
    (stopped : tree.resolve directory false path = .ok unlinked)
    (noLink : ∀ target, tree.node unlinked ≠ some (.link target))
    (resolved : tree.resolve directory true path = .ok found)
    (noDirectory : ∀ access, tree.node found ≠ some (.directory access)) :
    ∃ parent name, found = parent ++ [name] ∧
      ((path.takeWhile (· != 0)).splitOn (byte '/')).getLast? = some name := by
  unfold resolve at stopped resolved
  simp only at stopped resolved
  split at stopped
  · cases stopped
  next filled =>
    rw [if_neg filled] at resolved
    split at stopped
    · cases stopped
    next short =>
      rw [if_neg short] at resolved
      have last := List.getLast?_eq_some_getLast
        (List.splitOn_ne_nil (byte '/') (path.takeWhile (· != 0)))
      rcases walkLinks_last last stopped noLink resolved noDirectory with ⟨parent, ends⟩
      exact ⟨parent, _, ends, last⟩

/-- A walk that follows every link ends at an entry other than a link. -/
theorem walk_present {tree : FileTree} {follow : Bytes → Path → List Bytes → Except Errno Path}
    {found : Path}
    (linked : ∀ target current rest, follow target current rest = .ok found →
      ∃ node, tree.node found = some node ∧ ∀ target, node ≠ .link target)
    {segments : List Bytes} {current : Path}
    (start : segments = [] → ∃ node, tree.node current = some node ∧ ∀ target, node ≠ .link target)
    (walked : tree.walk follow true segments current = .ok found) :
    ∃ node, tree.node found = some node ∧ ∀ target, node ≠ .link target := by
  induction segments generalizing current with
  | nil =>
      rw [walk, Except.ok.injEq] at walked
      rw [← walked]
      exact start rfl
  | cons segment rest ih =>
      have onward {next : Path} {access : Access}
          (directory : tree.node next = some (.directory access))
          (walked : tree.walk follow true rest next = .ok found) :
          ∃ node, tree.node found = some node ∧ ∀ target, node ≠ .link target :=
        ih (fun _ => ⟨_, directory, fun _ same => Node.noConfusion same⟩) walked
      rw [walk] at walked
      split at walked
      next access directory =>
        split at walked
        · exact onward directory walked
        split at walked
        · cases walked
        split at walked
        · exact onward directory walked
        split at walked
        · exact onward (tree.directory_dropLast directory).choose_spec walked
        split at walked
        · cases walked
        split at walked
        · cases walked
        · rw [if_neg (by simp)] at walked
          exact linked _ _ _ walked
        next node plain present =>
          refine ih (fun _ => ⟨node, present, fun target same => ?_⟩) walked
          exact plain target same
      · cases walked

theorem walkLinks_present {tree : FileTree} {links : Nat} {segments : List Bytes}
    {current found : Path} (nonempty : segments ≠ [])
    (walked : tree.walkLinks links true segments current = .ok found) :
    ∃ node, tree.node found = some node ∧ ∀ target, node ≠ .link target := by
  induction links generalizing segments current with
  | zero =>
      refine walk_present ?_ (fun none => absurd none nonempty) walked
      intro _ _ _ followed
      cases followed
  | succ links ih =>
      refine walk_present ?_ (fun none => absurd none nonempty) walked
      intro target current rest followed
      split at followed
      · cases followed
      · exact ih (List.append_ne_nil_of_left_ne_nil (List.splitOn_ne_nil _ _) _) followed

theorem resolve_present {tree : FileTree} {directory found : Path} {path : Bytes}
    (resolved : tree.resolve directory true path = .ok found) :
    ∃ node, tree.node found = some node ∧ ∀ target, node ≠ .link target := by
  unfold resolve at resolved
  simp only at resolved
  split at resolved
  · cases resolved
  split at resolved
  · cases resolved
  · exact walkLinks_present (List.splitOn_ne_nil _ _) resolved

/-- The text of a canonical path. -/
def render (path : Path) : Bytes :=
  if path.isEmpty then ascii "/" else path.flatMap (byte '/' :: ·)

theorem render_concat (parent : Path) (name : Bytes) :
    render (parent ++ [name]) = parent.flatMap (byte '/' :: ·) ++ byte '/' :: name := by
  rw [render, if_neg (by simp), List.flatMap_append, List.flatMap_singleton]

theorem splitOn_render {names : List Bytes} (nonempty : names ≠ [])
    (slashless : ∀ name ∈ names, byte '/' ∉ name) :
    (render names).splitOn (byte '/') = [] :: names := by
  have joined : [byte '/'].intercalate ([] :: names) = render names := by
    rw [intercalate_cons, List.nil_append, render, if_neg (by simpa using nonempty)]
  rw [← joined, List.splitOn_intercalate _ _ (List.cons_ne_nil _ _)]
  exact List.forall_mem_cons.mpr ⟨List.not_mem_nil, slashless⟩

theorem nul_not_mem_render {names : List Bytes} (valid : ∀ name ∈ names, ValidName name) :
    0 ∉ render names := by
  intro listed
  rw [render] at listed
  split at listed
  · exact absurd listed (by decide)
  · rcases List.mem_flatMap.mp listed with ⟨name, inPath, inName⟩
    rcases List.mem_cons.mp inName with slash | inName
    · exact absurd slash (by decide)
    · exact (valid name inPath).2.2.2.2 inName

/-- The text of a canonical path names the entry at that path, or nothing. -/
theorem resolve_render {tree : FileTree} {directory path found : Path} {node : Node}
    {followLast : Bool} (present : tree.node path = some node)
    (noLink : ∀ target, node ≠ .link target)
    (resolved : tree.resolve directory followLast (render path) = .ok found) : found = path := by
  have named : tree.node ([] ++ path) = some node := present
  have valid := (tree.entry_of_prefix named).2.2
  have fromRoot : origin (render path) directory = [] := by
    cases path <;> rfl
  unfold resolve at resolved
  simp only at resolved
  rw [takeWhile_plain (nul_not_mem_render valid), fromRoot] at resolved
  split at resolved
  · cases resolved
  split at resolved
  · cases resolved
  rcases tree.rooted with ⟨_, root⟩
  by_cases atRoot : path = []
  · subst atRoot
    have pieces : (render []).splitOn (byte '/') = [[], []] := by decide
    rw [pieces, maxLinks, walkLinks, walk_gap _ root, walk_gap _ root] at resolved
    exact walk_names named noLink resolved
  · rw [splitOn_render atRoot fun name listed => (valid name listed).2.2.2.1, maxLinks, walkLinks,
      walk_gap _ root] at resolved
    exact walk_names named noLink resolved

end FileTree

/-! ## System calls -/

/-- A file tree and the directory that a process works in. -/
structure Disk where
  tree : FileTree
  directory : Path

namespace Disk

variable (disk : Disk)

def realpath (path : Bytes) : Except Errno Bytes :=
  (disk.tree.resolve disk.directory true path).bind fun found =>
    if FileTree.maxPath ≤ (FileTree.render found).length then .error .nameTooLong
    else .ok (FileTree.render found)

/-- The entry that a path names and what it is. -/
def inspect (followLast : Bool) (path : Bytes) : Except Errno (Path × Node) :=
  (disk.tree.resolve disk.directory followLast path).bind fun found =>
    match disk.tree.node found with
    | some node => .ok (found, node)
    | none => .error .noEntry

def stat (path : Bytes) : Except Errno Node := (disk.inspect true path).map (·.2)

def lstat (path : Bytes) : Except Errno Node := (disk.inspect false path).map (·.2)

/-- `open` for reading; `O_NOFOLLOW` is set where the last component is not followed. -/
def openRead (followLast : Bool) (path : Bytes) : Except Errno (Path × Node) :=
  (disk.inspect followLast path).bind fun (found, node) =>
    match node with
    | .file _ false => .error .accessDenied
    | .directory { read := false, .. } => .error .accessDenied
    | .link _ => .error .loop
    | node => .ok (found, node)

/-- `open` with `O_DIRECTORY`; an opened directory keeps its permissions. -/
def openDirectory (followLast : Bool) (path : Bytes) : Except Errno (Path × Access) :=
  (disk.openRead followLast path).bind fun (found, node) =>
    match node with
    | .directory access => .ok (found, access)
    | _ => .error .notDirectory

/-- `openat(directory, name, O_WRONLY | O_CREAT | O_EXCL | O_NOFOLLOW)`. -/
def createNew (directory : Path) (access : Access) (name : EntryName) : Except Errno FileTree :=
  if !access.search then .error .accessDenied
  else if (disk.tree.node (directory ++ [name.text])).isSome then .error .exists
  else if !access.write then .error .accessDenied
  else .ok (disk.tree.put directory name.text (.file [] true))

def unlink (path : Bytes) : Except Errno FileTree :=
  (disk.inspect false path).bind fun (found, node) =>
    match node, disk.tree.node found.dropLast with
    | .directory _, _ => .error .isDirectory
    | _, some (.directory access) =>
        if access.write && access.search then .ok (disk.tree.erase found) else .error .accessDenied
    | _, _ => .error .notDirectory

/-- The names that a directory stream reads. Their order is that of the tree. -/
def entries (path : Path) : List Bytes :=
  [ascii ".", ascii ".."] ++ disk.tree.nodes.keys.filterMap fun entry =>
    if entry.isEmpty || entry.dropLast != path then none else entry.getLast?

/-! ## What a call has found -/

variable {disk}

theorem inspect_ok {followLast : Bool} {path : Bytes} {found : Path} {node : Node}
    (result : disk.inspect followLast path = .ok (found, node)) :
    disk.tree.resolve disk.directory followLast path = .ok found ∧
      disk.tree.node found = some node := by
  unfold inspect at result
  cases resolved : disk.tree.resolve disk.directory followLast path with
  | error errno => simp [resolved, Except.bind] at result
  | ok entry =>
      rw [resolved] at result
      simp only [Except.bind] at result
      split at result
      next present =>
        rcases Prod.mk.inj (Except.ok.inj result) with ⟨rfl, rfl⟩
        exact ⟨rfl, present⟩
      · simp at result

theorem openRead_ok {followLast : Bool} {path : Bytes} {found : Path} {node : Node}
    (result : disk.openRead followLast path = .ok (found, node)) :
    disk.tree.resolve disk.directory followLast path = .ok found ∧
      disk.tree.node found = some node := by
  unfold openRead at result
  cases inspected : disk.inspect followLast path with
  | error errno => simp [inspected, Except.bind] at result
  | ok entry =>
      rw [inspected] at result
      simp only [Except.bind] at result
      split at result
      all_goals simp only [Except.ok.injEq, Prod.mk.injEq, reduceCtorEq] at result
      rcases result with ⟨rfl, rfl⟩
      exact inspect_ok inspected

theorem openRead_node {followLast : Bool} {path : Bytes} {found : Path} {node : Node}
    (result : disk.openRead followLast path = .ok (found, node)) :
    disk.tree.node found = some node :=
  (openRead_ok result).2

theorem realpath_ok {path canonical : Bytes} (result : disk.realpath path = .ok canonical) :
    ∃ found, disk.tree.resolve disk.directory true path = .ok found ∧
      FileTree.render found = canonical := by
  unfold realpath at result
  cases resolved : disk.tree.resolve disk.directory true path with
  | error errno => simp [resolved, Except.bind] at result
  | ok found =>
      rw [resolved] at result
      simp only [Except.bind] at result
      split at result
      · cases result
      · exact ⟨found, rfl, Except.ok.inj result⟩

theorem inspect_of_resolve {followLast : Bool} {path : Bytes} {found : Path} {node : Node}
    (resolved : disk.tree.resolve disk.directory followLast path = .ok found)
    (present : disk.tree.node found = some node) :
    disk.inspect followLast path = .ok (found, node) := by
  rw [inspect, resolved]
  simp only [Except.bind, present]

theorem realpath_of_resolve {path : Bytes} {found : Path}
    (resolved : disk.tree.resolve disk.directory true path = .ok found)
    (short : (FileTree.render found).length < FileTree.maxPath) :
    disk.realpath path = .ok (FileTree.render found) := by
  rw [realpath, resolved]
  simp only [Except.bind]
  rw [if_neg (Nat.not_le.mpr short)]

/-- A file at a canonical path has the ending that it was asked for by. -/
theorem realpath_ending {path canonical ending content : Bytes} {found : Path} {node : Node}
    {followLast readable : Bool} (slashless : byte '/' ∉ ending)
    (asked : disk.lstat path = .ok node) (noLink : ∀ target, node ≠ .link target)
    (real : disk.realpath path = .ok canonical)
    (opened : disk.openRead followLast canonical = .ok (found, .file content readable)) :
    ending <:+ canonical ↔ ending <:+ path.takeWhile (· != 0) := by
  rcases realpath_ok real with ⟨entry, resolved, rfl⟩
  unfold lstat at asked
  cases inspected : disk.inspect false path with
  | error errno => simp [inspected, Except.map] at asked
  | ok unlinked =>
      rw [inspected] at asked
      rcases Except.ok.inj asked with rfl
      rcases inspect_ok inspected with ⟨stopped, here⟩
      rcases openRead_ok opened with ⟨again, file⟩
      have noDirectory (access : Access) : disk.tree.node entry ≠ some (.directory access) := by
        intro directory
        have here := FileTree.resolve_render directory (fun _ same => Node.noConfusion same) again
        rw [here, directory] at file
        cases file
      have plain (target : Bytes) : disk.tree.node unlinked.1 ≠ some (.link target) := by
        rw [here]
        exact fun same => noLink target (Option.some.inj same)
      rcases FileTree.resolve_last stopped plain resolved noDirectory with
        ⟨parent, name, rfl, last⟩
      rw [FileTree.render_concat, suffix_append_cons_iff slashless,
        suffix_iff_last_piece slashless last]

theorem openDirectory_ok {followLast : Bool} {path : Bytes} {found : Path} {access : Access}
    (result : disk.openDirectory followLast path = .ok (found, access)) :
    disk.tree.resolve disk.directory followLast path = .ok found ∧
      disk.tree.node found = some (.directory access) := by
  unfold openDirectory at result
  cases opened : disk.openRead followLast path with
  | error errno => simp [opened, Except.bind] at result
  | ok entry =>
      rw [opened] at result
      simp only [Except.bind] at result
      split at result
      next present =>
        rcases Prod.mk.inj (Except.ok.inj result) with ⟨rfl, rfl⟩
        exact present ▸ openRead_ok opened
      · simp at result

theorem createNew_ok {directory : Path} {access : Access} {name : EntryName} {tree : FileTree}
    (result : disk.createNew directory access name = .ok tree) :
    disk.tree.node (directory ++ [name.text]) = none ∧
      tree = disk.tree.put directory name.text (.file [] true) := by
  unfold createNew at result
  split at result
  · simp at result
  split at result
  · simp at result
  next absent =>
    split at result
    · simp at result
    · exact ⟨by simpa using absent, (Except.ok.inj result).symm⟩

/-! ## What a directory stream reads -/

section Entries

variable {directory : Path} {name : Bytes}

theorem entry_of_key {entry : Path} (inTree : entry ∈ disk.tree.nodes.keys)
    (last : (if entry.isEmpty || entry.dropLast != directory then none else entry.getLast?) =
      some name) : entry = directory ++ [name] ∧ ValidName name := by
  split at last
  · cases last
  next here =>
    rcases List.getLast?_eq_some_iff.mp last with ⟨parent, rfl⟩
    have same : parent = directory := by simpa using here
    rw [ExtTreeMap.mem_keys, ← ExtTreeMap.isSome_getElem?_iff_mem] at inTree
    exact ⟨by rw [same], (disk.tree.closed parent name inTree).1⟩

theorem mem_entries (listed : name ∈ disk.entries directory) :
    name = ascii "." ∨ name = ascii ".." ∨ ValidName name := by
  rcases List.mem_append.mp listed with own | other
  · rcases List.mem_cons.mp own with dot | rest
    · exact Or.inl dot
    · exact Or.inr (Or.inl (List.mem_singleton.mp rest))
  · rcases List.mem_filterMap.mp other with ⟨entry, inTree, last⟩
    exact Or.inr (Or.inr (entry_of_key inTree last).2)

theorem nodup_entries (directory : Path) : (disk.entries directory).Nodup := by
  rw [entries, List.nodup_append']
  refine ⟨by decide, ?_, ?_⟩
  · refine List.Pairwise.filterMap _ ?_ (List.Pairwise.and_mem.mp ExtTreeMap.nodup_keys)
    rintro first second ⟨inFirst, inSecond, apart⟩ name named other otherNamed rfl
    exact apart ((entry_of_key inFirst named).1.trans (entry_of_key inSecond otherNamed).1.symm)
  · intro name own other
    rcases List.mem_filterMap.mp other with ⟨entry, inTree, last⟩
    have valid := (entry_of_key inTree last).2
    rcases List.mem_cons.mp own with dot | rest
    · exact valid.2.1 dot
    · exact valid.2.2.1 (List.mem_singleton.mp rest)

end Entries

end Disk

end IrcPlatform
