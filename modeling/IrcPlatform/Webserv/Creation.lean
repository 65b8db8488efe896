import IrcPlatform.Library.FileChanges
import IrcPlatform.Webserv.Uploads

/-!
# Creation of files

An upload either adds one file with all its bytes or leaves the tree as it was, however the
calls of `write` come out.
-/

namespace IrcPlatform.Webserv

/-! ## The calls of write -/

/-- Some later call is not interrupted. -/
def Fair (oracle : Nat → WriteOutcome) : Prop :=
  ∀ call, ∃ later, call ≤ later ∧ oracle later ≠ .interrupted

def firstCalls (oracle : Nat → WriteOutcome) (calls : Nat) : List WriteOutcome :=
  (List.range calls).map oracle

theorem firstCalls_add (oracle : Nat → WriteOutcome) (first second : Nat) :
    firstCalls oracle (first + second) =
      firstCalls oracle first ++ firstCalls (fun call => oracle (first + call)) second := by
  rw [firstCalls, List.range_add, List.map_append, List.map_map]
  rfl

theorem firstCalls_one (oracle : Nat → WriteOutcome) : firstCalls oracle 1 = [oracle 0] := rfl

theorem Fair.later {oracle : Nat → WriteOutcome} (fair : Fair oracle) (first : Nat) :
    Fair fun call => oracle (first + call) := by
  intro call
  rcases fair (first + call) with ⟨later, after, other⟩
  refine ⟨later - first, by omega, ?_⟩
  have same : first + (later - first) = later := by omega
  simp only [same]
  exact other

/-- The calls up to the next one that is not interrupted. -/
theorem Fair.next {oracle : Nat → WriteOutcome} (fair : Fair oracle) :
    ∃ wait, oracle wait ≠ .interrupted ∧
      firstCalls oracle wait = List.replicate wait .interrupted := by
  have some : ∃ wait, oracle wait ≠ .interrupted := by
    rcases fair 0 with ⟨wait, _, other⟩
    exact ⟨wait, other⟩
  refine ⟨Nat.find some, Nat.find_spec some, List.eq_replicate_iff.mpr ⟨by simp [firstCalls], ?_⟩⟩
  intro outcome listed
  rcases List.mem_map.mp listed with ⟨call, before, rfl⟩
  exact not_not.mp (Nat.find_min some (List.mem_range.mp before))

namespace FileSystem

theorem writeAll_interrupted (wait : Nat) (outcomes : List WriteOutcome)
    (written remaining : Bytes) :
    writeAll (List.replicate wait .interrupted ++ outcomes) written remaining =
      writeAll outcomes written remaining := by
  induction wait with
  | zero => rfl
  | succ wait ih =>
      rw [List.replicate_succ, List.cons_append]
      cases remaining with
      | nil => rw [writeAll, writeAll]
      | cons first rest =>
          rw [writeAll, ih]
          exact List.cons_ne_nil first rest

/-- The loop is over after finitely many calls, whatever the later ones would do. -/
theorem exists_calls {oracle : Nat → WriteOutcome} (fair : Fair oracle)
    (written remaining : Bytes) : ∃ calls, ∀ later,
      writeAll (firstCalls oracle calls ++ later) written remaining =
        writeAll (firstCalls oracle calls) written remaining := by
  induction size : remaining.length using Nat.strong_induction_on
    generalizing oracle written remaining with
  | _ length ih =>
      cases remaining with
      | nil => exact ⟨0, fun later => by rw [writeAll, writeAll]⟩
      | cons first rest =>
          rcases fair.next with ⟨wait, other, waiting⟩
          cases outcome : oracle wait with
          | interrupted => exact absurd outcome other
          | wrote count =>
              have shorter : ((first :: rest).drop (count + 1)).length < length := by
                rw [← size, List.length_drop, List.length_cons]
                omega
              rcases ih _ shorter (fair.later (wait + 1))
                (written ++ (first :: rest).take (count + 1)) _ rfl with ⟨calls, same⟩
              refine ⟨wait + 1 + calls, fun later => ?_⟩
              simp only [firstCalls_add, firstCalls_one, Nat.add_zero, waiting, outcome,
                List.append_assoc, writeAll_interrupted, List.singleton_append, writeAll]
              exact same later
          | nothing =>
              refine ⟨wait + 1, fun later => ?_⟩
              simp only [firstCalls_add, firstCalls_one, Nat.add_zero, waiting, outcome,
                List.append_assoc, writeAll_interrupted, List.singleton_append, writeAll]
          | failed =>
              refine ⟨wait + 1, fun later => ?_⟩
              simp only [firstCalls_add, firstCalls_one, Nat.add_zero, waiting, outcome,
                List.append_assoc, writeAll_interrupted, List.singleton_append, writeAll]

/-! ## The result -/

/-- A file that could not be written whole is removed again. -/
theorem createExclusive_refused {disk : Disk} {writes : List WriteOutcome}
    {directory body : Bytes} {name : EntryName} {result : FileResult Unit} {tree : FileTree}
    (created : createExclusive disk writes directory name body = (result, tree))
    (refused : result ≠ .ok ()) : tree = disk.tree := by
  unfold createExclusive at created
  split at created
  · exact (Prod.mk.inj created).2.symm
  split at created
  · exact (Prod.mk.inj created).2.symm
  next opened access found =>
    split at created
    · exact (Prod.mk.inj created).2.symm
    next fresh new =>
      split at created
      · exact absurd (Prod.mk.inj created).1.symm refused
      · rcases Disk.createNew_ok new with ⟨absent, rfl⟩
        have inside : disk.tree.isDirectory opened :=
          disk.tree.isDirectory_iff.mpr ⟨access, (Disk.openDirectory_ok found).2⟩
        rw [← (Prod.mk.inj created).2]
        exact FileTree.erase_put name.valid inside absent rfl

/-- Whatever the calls of `write` do, the loop ends; then the directory has one new entry
with exactly the bytes of the body, or nothing has changed. -/
theorem createExclusive_atomic (disk : Disk) {oracle : Nat → WriteOutcome} (fair : Fair oracle)
    (directory : Bytes) (name : EntryName) (body : Bytes) :
    ∃ calls result tree,
      (∀ later, createExclusive disk (firstCalls oracle calls ++ later) directory name body =
        (result, tree)) ∧
      (result = .ok () → ∃ parent,
        disk.tree.resolve disk.directory true directory = .ok parent ∧
        disk.tree.node (parent ++ [name.text]) = none ∧
        ∀ path, tree.node path =
          if path = parent ++ [name.text] then some (.file body true)
          else disk.tree.node path) ∧
      (result ≠ .ok () → tree = disk.tree) ∧
      ∀ path node, disk.tree.node path = some node → tree.node path = some node := by
  rcases exists_calls fair [] body with ⟨calls, same⟩
  cases outcome : createExclusive disk (firstCalls oracle calls) directory name body with
  | mk result tree =>
      refine ⟨calls, result, tree, fun later => ?_, ?_, createExclusive_refused outcome, ?_⟩
      · rw [← outcome, createExclusive, createExclusive, same later]
      · rintro rfl
        exact createExclusive_ok outcome
      · intro path node present
        by_cases stored : result = .ok ()
        · subst stored
          rcases createExclusive_ok outcome with ⟨parent, _, absent, nodes⟩
          rw [nodes, if_neg, present]
          rintro rfl
          rw [absent] at present
          cases present
        · rw [createExclusive_refused outcome stored, present]

end FileSystem

/-- The second of three calls is interrupted. -/
def interruptedOnce : Nat → WriteOutcome
  | 0 => .wrote 0
  | 1 => .interrupted
  | _ => .wrote 8

theorem fair_interruptedOnce : Fair interruptedOnce := by
  intro call
  exact ⟨call + 2, by omega, fun same => WriteOutcome.noConfusion same⟩

/-- An upload in two writes with an interruption between them. -/
theorem createExclusive_atomic_interrupted :
    ∃ calls result tree,
      (∀ later, FileSystem.createExclusive defaultSite.disk
        (firstCalls interruptedOnce calls ++ later) (ascii "www/uploads")
        ⟨ascii "x.html", by decide⟩ (ascii "<script>") = (result, tree)) ∧
      (result = .ok () → ∃ parent,
        defaultSite.disk.tree.resolve [] true (ascii "www/uploads") = .ok parent ∧
        defaultSite.disk.tree.node (parent ++ [ascii "x.html"]) = none ∧
        ∀ path, tree.node path =
          if path = parent ++ [ascii "x.html"] then some (.file (ascii "<script>") true)
          else defaultSite.disk.tree.node path) ∧
      (result ≠ .ok () → tree = defaultSite.disk.tree) ∧
      ∀ path node, defaultSite.disk.tree.node path = some node → tree.node path = some node :=
  FileSystem.createExclusive_atomic defaultSite.disk fair_interruptedOnce (ascii "www/uploads")
    ⟨ascii "x.html", by decide⟩ (ascii "<script>")

end IrcPlatform.Webserv
