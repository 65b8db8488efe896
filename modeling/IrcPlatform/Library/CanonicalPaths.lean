import IrcPlatform.Library.FileTree

/-!
# Canonical paths

The segments of a path, and the paths that `realpath` returns: absolute ones without empty,
`.` and `..` segments, which the segments determine.
-/

namespace IrcPlatform

/-- The segments of a path. Adjacent slashes enclose none. -/
def pathSegments (text : Bytes) : List Bytes := (text.splitOn (byte '/')).filter (· ≠ [])

/-- Only the path of the root has a slash at its end. -/
structure CanonicalText (text : Bytes) : Prop where
  absolute : text.head? = some (byte '/')
  plain : text = ascii "/" ∨ ∀ segment ∈ (text.splitOn (byte '/')).tail,
    segment ≠ [] ∧ segment ≠ ascii "." ∧ segment ≠ ascii ".."

theorem pathSegments_append (front back : Bytes) :
    pathSegments (front ++ byte '/' :: back) = pathSegments front ++ pathSegments back := by
  rw [pathSegments, List.splitOn_append_cons_self, List.filter_append]
  rfl

theorem segment_of_mem_pathSegments {text name : Bytes} (listed : name ∈ pathSegments text) :
    name ≠ [] ∧ byte '/' ∉ name := by
  rcases List.mem_filter.mp listed with ⟨piece, filled⟩
  exact ⟨by simpa using filled, not_mem_of_mem_splitOn piece⟩

namespace FileTree

variable {names : List Bytes}

theorem pathSegments_render (segment : ∀ name ∈ names, name ≠ [] ∧ byte '/' ∉ name) :
    pathSegments (render names) = names := by
  by_cases none : names = []
  · rw [none]
    decide
  · rw [pathSegments, splitOn_render none fun name listed => (segment name listed).2,
      List.filter_cons_of_neg (by simp), List.filter_eq_self]
    exact fun name listed => decide_eq_true (segment name listed).1

theorem canonicalText_render (valid : ∀ name ∈ names, ValidName name) :
    CanonicalText (render names) := by
  by_cases none : names = []
  · rw [none]
    exact ⟨by decide, Or.inl (by decide)⟩
  · constructor
    · rcases List.exists_cons_of_ne_nil none with ⟨first, rest, rfl⟩
      rfl
    · right
      rw [splitOn_render none fun name listed => (valid name listed).2.2.2.1, List.tail_cons]
      exact fun name listed =>
        ⟨(valid name listed).1, (valid name listed).2.1, (valid name listed).2.2.1⟩

theorem validName_of_resolve {tree : FileTree} {working found : Path} {path : Bytes}
    (resolved : tree.resolve working true path = .ok found) : ∀ name ∈ found, ValidName name := by
  rcases resolve_present resolved with ⟨node, present, _⟩
  have named : tree.node ([] ++ found) = some node := present
  exact (tree.entry_of_prefix named).2.2

end FileTree

namespace CanonicalText

variable {text : Bytes}

/-- A canonical path is the text of its segments. -/
theorem render_pathSegments (canonical : CanonicalText text) :
    FileTree.render (pathSegments text) = text := by
  rcases canonical.plain with rfl | plain
  · decide
  · rcases text with _ | ⟨first, rest⟩
    · exact absurd canonical.absolute (by simp)
    · have slash : first = byte '/' := Option.some.inj canonical.absolute
      have split : (first :: rest).splitOn (byte '/') = [] :: rest.splitOn (byte '/') := by
        rw [slash]
        exact List.splitOn_append_cons_self [] rest
      rw [split, List.tail_cons] at plain
      have kept : pathSegments (first :: rest) = rest.splitOn (byte '/') := by
        rw [pathSegments, split, List.filter_cons_of_neg (by simp), List.filter_eq_self]
        exact fun segment listed => decide_eq_true (plain segment listed).1
      rw [kept, FileTree.render, if_neg (by simp [List.splitOn_ne_nil])]
      have joined := @intercalate_cons _ (byte '/') [] (rest.splitOn (byte '/'))
      rw [List.nil_append] at joined
      rw [← joined, ← split, List.intercalate_splitOn]

end CanonicalText

theorem Disk.canonical_of_realpath {disk : Disk} {path canonical : Bytes}
    (real : disk.realpath path = .ok canonical) : CanonicalText canonical := by
  rcases realpath_ok real with ⟨found, resolved, rfl⟩
  exact FileTree.canonicalText_render (FileTree.validName_of_resolve resolved)

end IrcPlatform
