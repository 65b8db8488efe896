import IrcPlatform.Library.FileTree

/-!
# Longer paths

A path goes on where a shorter one has ended, whatever links lie on the way. In the simplest
case it goes on with a slash, which only asks for a directory, or with the name of an entry.
-/

namespace IrcPlatform

theorem splitOn_slash (text : Bytes) :
    (text ++ ascii "/").splitOn (byte '/') = text.splitOn (byte '/') ++ [[]] := by
  have split : (text ++ byte '/' :: []).splitOn (byte '/') =
      text.splitOn (byte '/') ++ [].splitOn (byte '/') := List.splitOn_append_cons_self text []
  exact split

namespace FileTree

variable {tree : FileTree}

/-- The components that are left do not depend on the way to the place where they start. -/
theorem walk_more {follow followed : Bytes → Path → List Bytes → Except Errno Path}
    {first followLast : Bool} {segments more : List Bytes} {current found final : Path}
    (linked : ∀ target current rest, followed target current rest = .ok found →
      follow target current (rest ++ more) = .ok final)
    (filled : more ≠ []) (plain : ∀ target, tree.node found ≠ some (.link target))
    (walked : tree.walk followed first segments current = .ok found)
    (onward : tree.walk follow followLast more found = .ok final) :
    tree.walk follow followLast (segments ++ more) current = .ok final := by
  induction segments generalizing current with
  | nil =>
      rw [walk, Except.ok.injEq] at walked
      rw [walked]
      exact onward
  | cons segment rest ih =>
      rw [walk] at walked
      rw [List.cons_append, walk]
      split at walked
      next access here =>
        split at walked
        next empty => rw [if_pos empty, ih walked]
        next named =>
          rw [if_neg named]
          split at walked
          · cases walked
          next searched =>
            rw [if_neg searched]
            split at walked
            next dot => rw [if_pos dot, ih walked]
            next notDot =>
              rw [if_neg notDot]
              split at walked
              next dots => rw [if_pos dots, ih walked]
              next notDots =>
                rw [if_neg notDots]
                split at walked
                · cases walked
                next short =>
                  rw [if_neg short]
                  split at walked
                  · cases walked
                  next target link =>
                    rw [if_neg (by simp [filled])]
                    split at walked
                    · exact absurd link (Except.ok.inj walked ▸ plain target)
                    · exact linked _ _ _ walked
                  next node present => exact ih walked
      · cases walked

theorem walkLinks_more {links : Nat} {first followLast : Bool} {segments more : List Bytes}
    {current found final : Path} (filled : more ≠ [])
    (plain : ∀ target, tree.node found ≠ some (.link target))
    (onward : ∀ follow, tree.walk follow followLast more found = .ok final)
    (walked : tree.walkLinks links first segments current = .ok found) :
    tree.walkLinks links followLast (segments ++ more) current = .ok final := by
  induction links generalizing segments current with
  | zero =>
      refine walk_more ?_ filled plain walked (onward _)
      intro _ _ _ followed
      cases followed
  | succ links ih =>
      refine walk_more ?_ filled plain walked (onward _)
      intro target current rest followed
      split at followed
      · cases followed
      next named =>
        rw [if_neg named, ← List.append_assoc]
        exact ih followed

theorem takeWhile_slash {path : Bytes} (plain : 0 ∉ path) :
    (path ++ ascii "/").takeWhile (· != 0) = path ++ ascii "/" := by
  refine takeWhile_plain fun listed => ?_
  rcases List.mem_append.mp listed with inPath | slash
  · exact plain inPath
  · exact absurd slash (by decide)

/-- Nothing behind a NUL is read. -/
theorem takeWhile_cut {path : Bytes} (cut : 0 ∈ path) (rest : Bytes) :
    (path ++ rest).takeWhile (· != 0) = path.takeWhile (· != 0) := by
  induction path with
  | nil => cases cut
  | cons c path ih =>
      rw [List.cons_append, List.takeWhile_cons, List.takeWhile_cons]
      split
      next other =>
        rw [bne_iff_ne] at other
        rw [ih ((List.mem_cons.mp cut).resolve_left other.symm)]
      · rfl

theorem resolve_more {working found final : Path} {first followLast : Bool} {path below : Bytes}
    (plain : 0 ∉ path ++ byte '/' :: below)
    (short : (path ++ byte '/' :: below).length < maxPath)
    (resolved : tree.resolve working first path = .ok found)
    (noLink : ∀ target, tree.node found ≠ some (.link target))
    (onward : ∀ follow,
      tree.walk follow followLast (below.splitOn (byte '/')) found = .ok final) :
    tree.resolve working followLast (path ++ byte '/' :: below) = .ok final := by
  have plainPath : 0 ∉ path := fun listed => plain (List.mem_append_left _ listed)
  unfold resolve at resolved ⊢
  rw [takeWhile_plain plainPath] at resolved
  rw [takeWhile_plain plain]
  dsimp only at resolved ⊢
  split at resolved
  · cases resolved
  next nonempty =>
    have split : (path ++ byte '/' :: below).splitOn (byte '/') =
        path.splitOn (byte '/') ++ below.splitOn (byte '/') :=
      List.splitOn_append_cons_self path below
    rw [if_neg (by simp), if_neg (Nat.not_le.mpr short), split]
    split at resolved
    · cases resolved
    have filled : path ≠ [] := by simpa using nonempty
    have start : origin (path ++ byte '/' :: below) working = origin path working := by
      rw [origin, origin, List.head?_append_of_ne_nil _ filled]
    rw [start]
    exact walkLinks_more (List.splitOn_ne_nil _ _) noLink onward resolved

theorem resolve_long {working : Path} {followLast : Bool} {path : Bytes}
    (long : maxPath ≤ (path.takeWhile (· != 0)).length) :
    tree.resolve working followLast path = .error .nameTooLong := by
  unfold resolve
  dsimp only
  rw [if_neg, if_pos long]
  rw [List.isEmpty_iff]
  intro empty
  rw [empty] at long
  exact absurd long (by decide)

/-- A name that can be looked up in a directory. -/
theorem walk_child {follow : Bytes → Path → List Bytes → Except Errno Path} {followLast : Bool}
    {parent : Path} {access : Access} {name : Bytes} {node : Node}
    (here : tree.node parent = some (.directory access)) (searched : access.search = true)
    (valid : ValidName name) (short : name.length ≤ maxName)
    (present : tree.node (parent ++ [name]) = some node) (noLink : ∀ target, node ≠ .link target) :
    tree.walk follow followLast (name.splitOn (byte '/')) parent = .ok (parent ++ [name]) := by
  rcases valid with ⟨filled, notDot, notDots, noSlash, _⟩
  rw [List.splitOn_eq_singleton noSlash, walk, here]
  dsimp only
  rw [if_neg filled, if_neg (by simp [searched]), if_neg notDot, if_neg notDots,
    if_neg (Nat.not_lt.mpr short), present]
  cases node with
  | link target => exact absurd rfl (noLink target)
  | file content readable => rfl
  | directory access => rfl
  | special => rfl

/-- The canonical path of an entry leads to it where that of its directory leads there. -/
theorem resolve_render_child {working parent : Path} {first followLast : Bool} {name : Bytes}
    {node : Node} (present : tree.node (parent ++ [name]) = some node)
    (short : (render (parent ++ [name])).length < maxPath)
    (resolved : tree.resolve working first (render parent) = .ok parent)
    (noLink : ∀ target, tree.node parent ≠ some (.link target))
    (onward : ∀ follow, tree.walk follow followLast (name.splitOn (byte '/')) parent =
      .ok (parent ++ [name])) :
    tree.resolve working followLast (render (parent ++ [name])) = .ok (parent ++ [name]) := by
  have named : tree.node ([] ++ (parent ++ [name])) = some node := present
  have plain := nul_not_mem_render (tree.entry_of_prefix named).2.2
  rw [render_concat] at plain short ⊢
  cases parent with
  | nil =>
      rcases tree.rooted with ⟨access, root⟩
      have split : (byte '/' :: name).splitOn (byte '/') = [[]] ++ name.splitOn (byte '/') :=
        List.splitOn_append_cons_self [] name
      have start : tree.walkLinks maxLinks true [[]] [] = .ok [] := walk_gap [] root
      rw [List.flatMap_nil, List.nil_append] at plain short ⊢
      unfold resolve
      rw [takeWhile_plain plain]
      dsimp only
      rw [if_neg (by simp), if_neg (Nat.not_le.mpr short), split]
      exact walkLinks_more (List.splitOn_ne_nil _ _) noLink onward start
  | cons upper parent =>
      have upperText : render (upper :: parent) = (upper :: parent).flatMap (byte '/' :: ·) := by
        rw [render, if_neg (by simp)]
      rw [upperText] at resolved
      exact resolve_more plain short resolved noLink onward

/-! ## Slashes at the end -/

/-- Behind a slash every link is followed. -/
theorem walk_trailed {follow followed : Bytes → Path → List Bytes → Except Errno Path}
    {followLast : Bool} {segments : List Bytes} {current : Path}
    (linked : ∀ target current rest, rest.getLast? = some [] →
      follow target current rest = followed target current rest)
    (trailed : segments.getLast? = some []) :
    tree.walk follow followLast segments current = tree.walk followed true segments current := by
  induction segments generalizing current with
  | nil => cases trailed
  | cons segment rest ih =>
      cases rest with
      | nil =>
          rw [List.getLast?_singleton, Option.some.injEq] at trailed
          rw [walk, walk]
          simp only [trailed, if_true, walk]
      | cons next rest =>
          rw [List.getLast?_cons_of_ne_nil (List.cons_ne_nil _ _)] at trailed
          have onward (next : Path) := @ih next trailed
          conv_lhs => rw [walk]
          conv_rhs => rw [walk]
          simp only [onward, linked _ _ _ trailed, List.isEmpty_cons, Bool.false_and]

theorem walkLinks_trailed {links : Nat} {followLast : Bool} {segments : List Bytes}
    {current : Path} (trailed : segments.getLast? = some []) :
    tree.walkLinks links followLast segments current =
      tree.walkLinks links true segments current := by
  induction links generalizing segments current with
  | zero => exact walk_trailed (fun _ _ _ _ => rfl) trailed
  | succ links ih =>
      refine walk_trailed ?_ trailed
      intro target current rest trailed
      split
      · rfl
      · refine ih ?_
        rw [List.getLast?_append, trailed, Option.some_or]

theorem resolve_trailed {working : Path} {followLast : Bool} {path : Bytes}
    (trailed : (path.takeWhile (· != 0)).getLast? = some (byte '/')) :
    tree.resolve working followLast path = tree.resolve working true path := by
  rcases List.getLast?_eq_some_iff.mp trailed with ⟨front, ends⟩
  have pieces : ((path.takeWhile (· != 0)).splitOn (byte '/')).getLast? = some [] := by
    rw [ends]
    exact splitOn_slash front ▸ List.getLast?_concat
  unfold resolve
  dsimp only
  rw [walkLinks_trailed pieces]

/-- A path to a directory leads there too with a slash at its end. -/
theorem resolve_slash {working found : Path} {first followLast : Bool} {path : Bytes}
    (plain : 0 ∉ path) (short : (path ++ ascii "/").length < maxPath)
    (resolved : tree.resolve working first path = .ok found)
    (directory : tree.isDirectory found) :
    tree.resolve working followLast (path ++ ascii "/") = .ok found := by
  rcases tree.isDirectory_iff.mp directory with ⟨access, here⟩
  have noLink (target : Bytes) : tree.node found ≠ some (.link target) := by
    rw [here]
    exact fun same => Node.noConfusion (Option.some.inj same)
  have plainSlash : 0 ∉ path ++ ascii "/" := by
    rw [List.mem_append, not_or]
    exact ⟨plain, by decide⟩
  exact resolve_more plainSlash short resolved noLink fun follow => walk_gap [] here

end FileTree

namespace Disk

variable {disk : Disk}

/-- A canonical path of a directory names the entry that it was made for. -/
theorem isDirectory_of_stat {path canonical : Bytes} {found : Path} {access : Access}
    (resolved : disk.tree.resolve disk.directory true path = .ok found)
    (canonical_eq : FileTree.render found = canonical)
    (asked : disk.stat canonical = .ok (.directory access)) :
    disk.tree.isDirectory found := by
  rcases FileTree.resolve_present resolved with ⟨node, present, plain⟩
  unfold stat at asked
  cases inspected : disk.inspect true canonical with
  | error errno => simp [inspected, Except.map] at asked
  | ok pair =>
      rw [inspected] at asked
      have same : pair.2 = .directory access := Except.ok.inj asked
      rcases inspect_ok inspected with ⟨again, here⟩
      rw [← canonical_eq] at again
      rw [FileTree.resolve_render present plain again, same] at here
      exact disk.tree.isDirectory_iff.mpr ⟨access, here⟩

/-- A call asks for the entry of the C string at the front of a path. -/
theorem resolve_congr {first second : Bytes} (followLast : Bool)
    (same : first.takeWhile (· != 0) = second.takeWhile (· != 0)) :
    disk.tree.resolve disk.directory followLast first =
      disk.tree.resolve disk.directory followLast second := by
  unfold FileTree.resolve
  rw [same]

theorem realpath_congr {first second : Bytes}
    (same : first.takeWhile (· != 0) = second.takeWhile (· != 0)) :
    disk.realpath first = disk.realpath second := by
  unfold realpath
  rw [resolve_congr true same]

theorem lstat_congr {first second : Bytes}
    (same : first.takeWhile (· != 0) = second.takeWhile (· != 0)) :
    disk.lstat first = disk.lstat second := by
  unfold lstat inspect
  rw [resolve_congr false same]

theorem realpath_slash {path canonical : Bytes} {found : Path} (plain : 0 ∉ path)
    (short : (path ++ ascii "/").length < FileTree.maxPath)
    (resolved : disk.tree.resolve disk.directory true path = .ok found)
    (directory : disk.tree.isDirectory found) (real : disk.realpath path = .ok canonical) :
    disk.realpath (path ++ ascii "/") = .ok canonical := by
  unfold realpath at real ⊢
  rw [FileTree.resolve_slash plain short resolved directory]
  rwa [resolved] at real

theorem lstat_slash {path : Bytes} {found : Path} (plain : 0 ∉ path)
    (short : (path ++ ascii "/").length < FileTree.maxPath)
    (resolved : disk.tree.resolve disk.directory true path = .ok found)
    (directory : disk.tree.isDirectory found) :
    ∃ access, disk.lstat (path ++ ascii "/") = .ok (.directory access) := by
  rcases disk.tree.isDirectory_iff.mp directory with ⟨access, here⟩
  refine ⟨access, ?_⟩
  unfold lstat inspect
  rw [FileTree.resolve_slash plain short resolved directory]
  simp only [Except.bind, here, Except.map]

end Disk

end IrcPlatform
