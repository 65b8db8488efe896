import Mathlib.Data.List.DropRight
import IrcPlatform.Library.CanonicalPaths
import IrcPlatform.Library.LongerPaths
import IrcPlatform.Webserv.FileSystem
import IrcPlatform.Webserv.Paths

/-!
# Containment in a root

The comparison of two canonical paths with a test for the slash between them coincides with the
order of their segments, so a resolved path never leaves its root. The test for a symbolic link
is passed by a path to a link with a slash at its end, which `lstat` follows.
-/

namespace IrcPlatform.Webserv.FileSystem

/-! ## Canonical paths inside a root -/

theorem pathInside_render {root path : List Bytes}
    (segment : ∀ name ∈ root, name ≠ [] ∧ byte '/' ∉ name)
    (segmentPath : ∀ name ∈ path, name ≠ [] ∧ byte '/' ∉ name) :
    pathInside (FileTree.render root) (FileTree.render path) = true ↔ root <+: path := by
  have rootSegments := FileTree.pathSegments_render segment
  have pathSegments := FileTree.pathSegments_render segmentPath
  unfold pathInside
  split
  next atRoot =>
    have none : root = [] := by
      rw [← rootSegments, atRoot]
      decide
    rw [none]
    refine iff_of_true ?_ List.nil_prefix
    cases path <;> rfl
  next below =>
    have nonempty : root ≠ [] := by
      rintro rfl
      exact below rfl
    have text : FileTree.render root = root.flatMap (byte '/' :: ·) := by
      rw [FileTree.render, if_neg (by simpa using nonempty)]
    rw [Bool.or_eq_true, Bool.and_eq_true, Bool.and_eq_true, decide_eq_true_eq, beginsWith_iff,
      beq_iff_eq, beq_iff_eq]
    constructor
    · rintro (same | ⟨⟨_, rest, joined⟩, slash⟩)
      · rw [← rootSegments, ← pathSegments, same]
      · -- the segments of the path are those before and those behind the slash
        rw [← joined, List.getElem?_append_right (Nat.le_refl _), Nat.sub_self] at slash
        rcases rest with _ | ⟨separator, rest⟩
        · cases slash
        · rw [List.getElem?_cons_zero, Option.some.injEq] at slash
          rw [slash] at joined
          rw [← pathSegments, ← joined, pathSegments_append, rootSegments]
          exact List.prefix_append _ _
    · rintro ⟨rest, rfl⟩
      rcases rest with _ | ⟨name, rest⟩
      · left
        rw [List.append_nil]
      · right
        have longer : FileTree.render (root ++ name :: rest) =
            FileTree.render root ++ byte '/' :: (name ++ rest.flatMap (byte '/' :: ·)) := by
          rw [text, FileTree.render, if_neg (by simp), List.flatMap_append, List.flatMap_cons,
            List.cons_append]
        rw [longer]
        refine ⟨⟨?_, List.prefix_append _ _⟩, ?_⟩
        · rw [List.length_append, List.length_cons]
          omega
        · rw [List.getElem?_append_right (Nat.le_refl _), Nat.sub_self]
          rfl

/-- Containment is the order of the segments, also for the root itself and for siblings one of
whose names begins with the other. -/
theorem pathInside_iff {root path : Bytes} (canonicalRoot : CanonicalText root)
    (canonical : CanonicalText path) :
    pathInside root path = true ↔ pathSegments root <+: pathSegments path := by
  have inside := @pathInside_render (pathSegments root) (pathSegments path)
    (fun _ => segment_of_mem_pathSegments) (fun _ => segment_of_mem_pathSegments)
  rwa [canonicalRoot.render_pathSegments, canonical.render_pathSegments] at inside

/-! ## Resolved paths -/

section Resolved

variable (disk : Disk) (root path : Bytes)

/-- The C string of a path has a slash at its end. -/
def Trailed : Prop := (path.takeWhile (· != 0)).getLast? = some (byte '/')

/-- The C string of a path up to its last non-empty component. -/
def untrailed : Bytes := (path.takeWhile (· != 0)).rdropWhile (· == byte '/')

def NamesLink : Prop := ∃ target, disk.lstat (untrailed path) = .ok (.link target)

/-- The root and the path exist, and the path leads to the root or below it. -/
def LeadsInside : Prop :=
  ∃ canonicalRoot canonical, disk.realpath root = .ok canonicalRoot ∧
    disk.realpath path = .ok canonical ∧
    pathSegments canonicalRoot <+: pathSegments canonical

/-- What static files, scripts and removals rest on. -/
structure Confined : Prop where
  resolved (canonical : Bytes) : resolveExisting disk root path = .ok canonical →
    disk.realpath path = .ok canonical ∧
      (∃ canonicalRoot, disk.realpath root = .ok canonicalRoot ∧
        pathSegments canonicalRoot <+: pathSegments canonical) ∧
      ¬NamesLink disk path
  inside (first second : Bytes) : CanonicalText first → CanonicalText second →
    (pathInside first second = true ↔ pathSegments first <+: pathSegments second)

variable {disk root path}

/-- The resolved path is the canonical one and lies inside the root. -/
theorem leadsInside_of_resolveExisting {canonical : Bytes}
    (resolved : resolveExisting disk root path = .ok canonical) :
    disk.realpath path = .ok canonical ∧ ∃ canonicalRoot,
      disk.realpath root = .ok canonicalRoot ∧
        pathSegments canonicalRoot <+: pathSegments canonical := by
  rcases resolveExisting_ok resolved with ⟨canonicalRoot, _, rootFound, _, _, real, inside⟩
  have realRoot := realpath_of_canonicalPath rootFound
  refine ⟨real, canonicalRoot, realRoot, ?_⟩
  exact (pathInside_iff (Disk.canonical_of_realpath realRoot)
    (Disk.canonical_of_realpath real)).mp inside

/-- Without a slash at the end, the test for a link is made on the last component. -/
theorem not_namesLink {canonical : Bytes}
    (resolved : resolveExisting disk root path = .ok canonical) (plain : ¬Trailed path) :
    ¬NamesLink disk path := by
  rintro ⟨target, link⟩
  rcases resolveExisting_ok resolved with ⟨_, node, _, asked, noLink, _, _⟩
  have whole : untrailed path = path.takeWhile (· != 0) := by
    rw [untrailed, List.rdropWhile_eq_self_iff]
    intro nonempty
    rw [beq_iff_eq]
    intro slash
    exact plain (by rw [Trailed, List.getLast?_eq_some_getLast nonempty, slash])
  have same : disk.lstat (untrailed path) = disk.lstat path := by
    rw [whole]
    exact Disk.lstat_congr List.takeWhile_idem
  rw [same, asked] at link
  exact noLink target (Except.ok.inj link)

/-- A slash at the end lets the test for a link pass. -/
theorem resolveExisting_trailed (trailed : Trailed path) (leads : LeadsInside disk root path) :
    ∃ canonical, resolveExisting disk root path = .ok canonical := by
  rcases leads with ⟨canonicalRoot, canonical, realRoot, real, inside⟩
  have sameText := pathInside_iff (Disk.canonical_of_realpath realRoot)
    (Disk.canonical_of_realpath real)
  rcases Disk.realpath_ok real with ⟨found, entry, _⟩
  rcases FileTree.resolve_present entry with ⟨node, present, noLink⟩
  have asked : disk.lstat path = .ok node := by
    rw [Disk.lstat, Disk.inspect, FileTree.resolve_trailed trailed, entry]
    simp only [Except.bind, present, Except.map]
  refine ⟨canonical, ?_⟩
  rw [resolveExisting, canonicalPath, realRoot]
  simp only [Except.mapError, asked]
  cases node with
  | link target => exact absurd rfl (noLink target)
  | file content readable =>
      simp only [canonicalPath, real, Except.mapError, Except.bind, sameText.mpr inside, if_true]
  | directory access =>
      simp only [canonicalPath, real, Except.mapError, Except.bind, sameText.mpr inside, if_true]
  | special =>
      simp only [canonicalPath, real, Except.mapError, Except.bind, sameText.mpr inside, if_true]

variable (disk root path)

/-- Only links named with a slash behind them are followed. -/
theorem confined_iff :
    Confined disk root path ↔
      ¬(Trailed path ∧ NamesLink disk path ∧ LeadsInside disk root path) := by
  constructor
  · rintro confined ⟨trailed, link, leads⟩
    rcases resolveExisting_trailed trailed leads with ⟨canonical, resolved⟩
    exact (confined.resolved canonical resolved).2.2 link
  · intro apart
    refine ⟨fun canonical resolved => ?_, fun _ _ => pathInside_iff⟩
    rcases leadsInside_of_resolveExisting resolved with ⟨real, canonicalRoot, realRoot, inside⟩
    refine ⟨real, ⟨canonicalRoot, realRoot, inside⟩, fun link => ?_⟩
    by_cases trailed : Trailed path
    · exact apart ⟨trailed, link, canonicalRoot, canonical, realRoot, real, inside⟩
    · exact not_namesLink resolved trailed link

end Resolved

/-- The default root with a directory and a link to it. -/
def linkedDisk : Disk where
  tree := (((FileTree.empty {}).put [] (ascii "www") (.directory {})).put [ascii "www"]
    (ascii "docs") (.directory {})).put [ascii "www"] (ascii "link") (.link (ascii "docs"))
  directory := []

/-- A link is refused under its name, and followed with a slash behind it. -/
theorem confined_fails_trailed :
    resolveExisting linkedDisk (ascii "/www") (ascii "/www/link") = .error .forbidden ∧
      ¬Confined linkedDisk (ascii "/www") (ascii "/www/link/") := by
  refine ⟨by decide +kernel, fun confined => ?_⟩
  have followed : resolveExisting linkedDisk (ascii "/www") (ascii "/www/link/") =
      .ok (ascii "/www/docs") := by decide +kernel
  exact (confined.resolved _ followed).2.2 ⟨ascii "docs", by decide +kernel⟩

end IrcPlatform.Webserv.FileSystem
