import IrcPlatform.Library.FileTree
import IrcPlatform.Webserv.Router

/-!
# Access to files

`FileSystem.cpp` on a file tree. A result other than `FILE_OK` is an error.
-/

namespace IrcPlatform.Webserv

inductive FileFailure where
  | notFound
  | forbidden
  | conflict
  | tooLarge
  | error
deriving DecidableEq

abbrev FileResult (α : Type) : Type := Except FileFailure α

/-- What one call of `write` does with the bytes that are left. -/
inductive WriteOutcome where
  /-- It takes this many and one more, or all of them. -/
  | wrote (count : Nat)
  | nothing
  | interrupted
  | failed
deriving DecidableEq

namespace FileSystem

def pathInside (root path : Bytes) : Bool :=
  if root = ascii "/" then path.head? == some (byte '/')
  else path == root ||
    (root.length < path.length && beginsWith path root && path[root.length]? == some (byte '/'))

/-- A path that leads nowhere is told from one that may not be followed. -/
def lookupFailure (errno : Errno) : FileFailure :=
  if errno = .noEntry ∨ errno = .notDirectory then .notFound else .forbidden

def canonicalPath (disk : Disk) (path : Bytes) : FileResult Bytes :=
  (disk.realpath path).mapError lookupFailure

def resolveExisting (disk : Disk) (root path : Bytes) : FileResult Bytes :=
  match canonicalPath disk root with
  | .error _ => .error .error
  | .ok canonicalRoot =>
      match disk.lstat path with
      | .error errno => .error (lookupFailure errno)
      | .ok (.link _) => .error .forbidden
      | .ok _ =>
          (canonicalPath disk path).bind fun resolved =>
            if pathInside canonicalRoot resolved then .ok resolved else .error .forbidden

def maxFile : Nat := 16 * 1024 * 1024

/-- The contents of a regular file, and where it was found. -/
def openRegular (disk : Disk) (path : Bytes) : FileResult (Path × Bytes) :=
  match disk.openRead false path with
  | .error errno => .error (if errno = .noEntry then .notFound else .forbidden)
  | .ok (found, .file content _) =>
      if maxFile < content.length then .error .tooLarge else .ok (found, content)
  | .ok _ => .error .forbidden

def readRegular (disk : Disk) (path : Bytes) : FileResult Bytes :=
  (openRegular disk path).map (·.2)

/-- The loop of writes: what the file holds in the end, if all bytes were written. -/
def writeAll : List WriteOutcome → Bytes → Bytes → Option Bytes
  | _, written, [] => some written
  | [], written, remaining => some (written ++ remaining)
  | .wrote count :: outcomes, written, remaining =>
      writeAll outcomes (written ++ remaining.take (count + 1)) (remaining.drop (count + 1))
  | .interrupted :: outcomes, written, remaining => writeAll outcomes written remaining
  | _ :: _, _, _ :: _ => none

def createExclusive (disk : Disk) (writes : List WriteOutcome) (directory : Bytes)
    (name : EntryName) (body : Bytes) : FileResult Unit × FileTree :=
  match canonicalPath disk directory with
  | .error _ => (.error .error, disk.tree)
  | .ok canonicalDirectory =>
      match disk.openDirectory false canonicalDirectory with
      | .error _ => (.error .forbidden, disk.tree)
      | .ok (opened, access) =>
          match disk.createNew opened access name with
          | .error errno =>
              (.error (if errno = .exists then .conflict else .forbidden), disk.tree)
          | .ok created =>
              match writeAll writes [] body with
              | some content => (.ok (), created.put opened name.text (.file content true))
              | none => (.error .error, created.erase (opened ++ [name.text]))

def removeRegular (disk : Disk) (root path : Bytes) : FileResult Unit × FileTree :=
  match resolveExisting disk root path with
  | .error failure => (.error failure, disk.tree)
  | .ok resolved =>
      match disk.openRead false resolved with
      | .ok (_, .file _ _) =>
          match disk.unlink path with
          | .ok removed => (.ok (), removed)
          | .error _ => (.error .forbidden, disk.tree)
      | _ => (.error .forbidden, disk.tree)

theorem realpath_of_canonicalPath {disk : Disk} {path canonical : Bytes}
    (found : canonicalPath disk path = .ok canonical) : disk.realpath path = .ok canonical := by
  unfold canonicalPath at found
  cases looked : disk.realpath path with
  | error errno => simp [looked, Except.mapError] at found
  | ok path => simpa [looked, Except.mapError] using found

theorem resolveExisting_ok {disk : Disk} {root path directory : Bytes}
    (resolved : resolveExisting disk root path = .ok directory) :
    ∃ canonicalRoot node, canonicalPath disk root = .ok canonicalRoot ∧
      disk.lstat path = .ok node ∧ (∀ target, node ≠ .link target) ∧
      disk.realpath path = .ok directory ∧ pathInside canonicalRoot directory = true := by
  unfold resolveExisting at resolved
  split at resolved
  · cases resolved
  next canonicalRoot rootFound =>
    split at resolved
    · cases resolved
    · cases resolved
    next node plain asked =>
      unfold canonicalPath at resolved
      cases real : disk.realpath path with
      | error errno => simp [real, Except.mapError, Except.bind] at resolved
      | ok canonical =>
          rw [real] at resolved
          simp only [Except.mapError, Except.bind] at resolved
          split at resolved
          next inside =>
            rw [Except.ok.injEq] at resolved
            rw [resolved] at inside
            exact ⟨canonicalRoot, node, rootFound, asked, plain, resolved ▸ rfl, inside⟩
          · cases resolved

end FileSystem

end IrcPlatform.Webserv
