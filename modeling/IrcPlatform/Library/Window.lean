import Mathlib.Algebra.Order.Group.Defs
import Mathlib.Algebra.Order.Sub.Defs
import Mathlib.Data.List.Basic
import Mathlib.Data.List.Induction

/-!
# Sliding windows

A limiter that admits an event if fewer than a number of events have been admitted in a
closed window that ends with it. It remembers the times of admitted events only, and
forgets them from the front. While time does not run backwards, what it remembers is the
window.
-/

namespace IrcPlatform

universe u

/-- In a sorted list, the times before a bound stand in front. -/
theorem dropWhile_eq_filter {Time : Type u} [LinearOrder Time] {times : List Time}
    (sorted : times.Pairwise (· ≤ ·)) (bound : Time) :
    times.dropWhile (· < bound) = times.filter (bound ≤ ·) := by
  induction times with
  | nil => rfl
  | cons time rest ih =>
      rw [List.pairwise_cons] at sorted
      by_cases early : time < bound
      · rw [List.dropWhile_cons_of_pos (by simpa using early),
          List.filter_cons_of_neg (by simpa using early), ih sorted.2]
      · have all : ∀ other ∈ time :: rest, decide (bound ≤ other) = true := by
          intro other listed
          rw [decide_eq_true_eq]
          rcases List.mem_cons.mp listed with rfl | later
          · exact not_lt.mp early
          · exact (not_lt.mp early).trans (sorted.1 other later)
        rw [List.dropWhile_cons_of_neg (by simpa using early), List.filter_eq_self.mpr all]

structure Limiter (Time : Type u) where
  width : Time
  capacity : Nat

namespace Limiter

variable {Time : Type u} [AddCommGroup Time] [LinearOrder Time] (limiter : Limiter Time)

/-- The times that are still remembered at a time. -/
def expire (recent : List Time) (now : Time) : List Time :=
  recent.dropWhile (· < now - limiter.width)

def admits (recent : List Time) (now : Time) : Bool :=
  (limiter.expire recent now).length < limiter.capacity

def next (recent : List Time) (now : Time) : List Time :=
  if limiter.admits recent now then limiter.expire recent now ++ [now]
  else limiter.expire recent now

/-- What is remembered, and all times of admitted events. -/
structure Record (Time : Type u) where
  recent : List Time := []
  admitted : List Time := []

def observe (record : Record Time) (now : Time) : Record Time where
  recent := limiter.next record.recent now
  admitted := if limiter.admits record.recent now then record.admitted ++ [now]
    else record.admitted

def observeAll (arrivals : List Time) : Record Time := arrivals.foldl limiter.observe {}

/-- The times in a closed interval. -/
def within (first last : Time) (times : List Time) : List Time :=
  times.filter fun time => first ≤ time ∧ time ≤ last

theorem observeAll_concat (arrivals : List Time) (now : Time) :
    limiter.observeAll (arrivals ++ [now]) = limiter.observe (limiter.observeAll arrivals) now := by
  rw [observeAll, observeAll, List.foldl_append, List.foldl_cons, List.foldl_nil]

variable {limiter}

/-- What holds of a record at a time: the window is remembered, and no interval of its width
is over its capacity. -/
structure Sliding (limiter : Limiter Time) (record : Record Time) (latest : Time) : Prop where
  sorted : record.admitted.Pairwise (· ≤ ·)
  past : ∀ time ∈ record.admitted, time ≤ latest
  remembered : record.recent = record.admitted.filter (latest - limiter.width ≤ ·)
  bounded : record.recent.length ≤ limiter.capacity
  interval (first : Time) :
    (within first (first + limiter.width) record.admitted).length ≤ limiter.capacity

theorem sliding_empty (limiter : Limiter Time) (latest : Time) : Sliding limiter {} latest := by
  refine ⟨List.Pairwise.nil, ?_, rfl, Nat.zero_le _, fun _ => Nat.zero_le _⟩
  intro time listed
  cases listed

/-- Where the record forgets the same times at every later time, later events are treated
alike. -/
theorem admitted_foldl {record other : Record Time} {later : List Time}
    (same : record.admitted = other.admitted)
    (forgets : ∀ time ∈ later,
      limiter.expire record.recent time = limiter.expire other.recent time) :
    (later.foldl limiter.observe record).admitted =
      (later.foldl limiter.observe other).admitted := by
  cases later with
  | nil => exact same
  | cons time later =>
      have step : limiter.observe record time = limiter.observe other time := by
        rw [observe, observe, next, next, admits, admits, same, forgets time List.mem_cons_self]
      rw [List.foldl_cons, List.foldl_cons, step]

section
variable [IsOrderedAddMonoid Time] {record : Record Time} {latest now : Time}

theorem Sliding.expire_eq (sliding : Sliding limiter record latest) (later : latest ≤ now) :
    limiter.expire record.recent now = record.admitted.filter (now - limiter.width ≤ ·) := by
  have sortedRecent : record.recent.Pairwise (· ≤ ·) := by
    rw [sliding.remembered]
    exact sliding.sorted.filter _
  rw [expire, dropWhile_eq_filter sortedRecent, sliding.remembered, List.filter_filter]
  apply List.filter_congr
  intro time _
  rw [Bool.and_eq_left_iff_imp, decide_eq_true_eq, decide_eq_true_eq]
  exact (sub_le_sub_right later _).trans

/-- The window that ends now holds what is remembered now. -/
theorem Sliding.within_eq (sliding : Sliding limiter record latest) (later : latest ≤ now) :
    within (now - limiter.width) now record.admitted = limiter.expire record.recent now := by
  rw [sliding.expire_eq later, within]
  apply List.filter_congr
  intro time listed
  rw [decide_eq_decide, and_iff_left ((sliding.past time listed).trans later)]

theorem Sliding.observe (sliding : Sliding limiter record latest) (later : latest ≤ now)
    (wide : 0 ≤ limiter.width) : Sliding limiter (limiter.observe record now) now := by
  have expired := sliding.expire_eq later
  have shorter : (limiter.expire record.recent now).length ≤ limiter.capacity :=
    ((List.dropWhile_sublist _).length_le).trans sliding.bounded
  by_cases admitted : limiter.admits record.recent now = true
  · have after : limiter.observe record now =
        { recent := limiter.expire record.recent now ++ [now]
          admitted := record.admitted ++ [now] } := by
      rw [Limiter.observe, next, if_pos admitted, if_pos admitted]
    have room : (limiter.expire record.recent now).length < limiter.capacity := by
      simpa [admits] using admitted
    rw [after]
    constructor
    case sorted =>
      refine List.pairwise_append.mpr ⟨sliding.sorted, List.pairwise_singleton _ _, ?_⟩
      intro time listed other last
      rw [List.mem_singleton.mp last]
      exact (sliding.past time listed).trans later
    case past =>
      intro time listed
      rcases List.mem_append.mp listed with before | last
      · exact (sliding.past time before).trans later
      · exact (List.mem_singleton.mp last).le
    case remembered =>
      rw [List.filter_append, expired, List.filter_cons_of_pos, List.filter_nil]
      exact decide_eq_true (sub_le_self now wide)
    case bounded =>
      rw [List.length_append, List.length_singleton]
      exact room
    case interval =>
      intro first
      rw [within, List.filter_append, List.length_append]
      by_cases inside : first ≤ now ∧ now ≤ first + limiter.width
      · rw [List.filter_cons_of_pos (by simpa using inside), List.filter_nil, List.length_singleton]
        refine Nat.succ_le_of_lt (lt_of_le_of_lt ?_ room)
        rw [expired]
        apply List.Sublist.length_le
        apply List.monotone_filter_right _
        intro time listed
        rw [decide_eq_true_eq] at listed ⊢
        exact (sub_le_iff_le_add.mpr inside.2).trans listed.1
      · rw [List.filter_cons_of_neg (by simpa using inside), List.filter_nil]
        exact sliding.interval first
  · have after : limiter.observe record now =
        { recent := limiter.expire record.recent now, admitted := record.admitted } := by
      rw [Limiter.observe, next, if_neg admitted, if_neg admitted]
    rw [after]
    exact ⟨sliding.sorted, fun time listed => (sliding.past time listed).trans later, expired,
      shorter, sliding.interval⟩

/-- Before each arrival, the record holds the window of an earlier time. -/
theorem sliding_observeAll (wide : 0 ≤ limiter.width) {arrivals : List Time} {now : Time}
    (ordered : (arrivals ++ [now]).Pairwise (· ≤ ·)) :
    ∃ latest, latest ≤ now ∧ Sliding limiter (limiter.observeAll arrivals) latest := by
  induction arrivals using List.reverseRecOn generalizing now with
  | nil => exact ⟨now, le_rfl, sliding_empty limiter now⟩
  | append_singleton arrivals time ih =>
      rcases List.pairwise_append.mp ordered with ⟨before, _, below⟩
      rcases ih before with ⟨latest, later, sliding⟩
      refine ⟨time, below time (by simp) now (List.mem_singleton_self now), ?_⟩
      rw [observeAll_concat]
      exact sliding.observe later wide

theorem sliding_of_ordered (wide : 0 ≤ limiter.width) {arrivals : List Time}
    (ordered : arrivals.Pairwise (· ≤ ·)) :
    ∃ latest, Sliding limiter (limiter.observeAll arrivals) latest := by
  rcases List.eq_nil_or_concat arrivals with rfl | ⟨earlier, now, rfl⟩
  · exact ⟨0, sliding_empty limiter 0⟩
  · rw [List.concat_eq_append] at ordered ⊢
    rcases sliding_observeAll wide ordered with ⟨latest, later, sliding⟩
    rw [observeAll_concat]
    exact ⟨now, sliding.observe later wide⟩

/-- An event is refused exactly if the window that ends with it is full. -/
theorem admits_eq_false_iff (wide : 0 ≤ limiter.width) {arrivals : List Time} {now : Time}
    (ordered : (arrivals ++ [now]).Pairwise (· ≤ ·)) :
    limiter.admits (limiter.observeAll arrivals).recent now = false ↔
      (within (now - limiter.width) now (limiter.observeAll arrivals).admitted).length =
        limiter.capacity := by
  rcases sliding_observeAll wide ordered with ⟨latest, later, sliding⟩
  have bounded : (limiter.expire (limiter.observeAll arrivals).recent now).length ≤
      limiter.capacity := ((List.dropWhile_sublist _).length_le).trans sliding.bounded
  rw [sliding.within_eq later, admits, decide_eq_false_iff_not]
  omega

theorem expire_expire {recent : List Time} {now later : Time} (after : now ≤ later) :
    limiter.expire (limiter.expire recent now) later = limiter.expire recent later := by
  rw [expire, expire, expire]
  induction recent with
  | nil => rfl
  | cons time recent ih =>
      by_cases early : time < now - limiter.width
      · have earlier : time < later - limiter.width :=
          early.trans_le (sub_le_sub_right after _)
        rw [List.dropWhile_cons_of_pos (by simpa using early), ih,
          List.dropWhile_cons_of_pos (by simpa using earlier)]
      · rw [List.dropWhile_cons_of_neg (by simpa using early)]

/-- A refused event leaves no trace in what is admitted later. -/
theorem admitted_of_refused {arrivals later : List Time} {now : Time}
    (refused : limiter.admits (limiter.observeAll arrivals).recent now = false)
    (ordered : (now :: later).Pairwise (· ≤ ·)) :
    (limiter.observeAll (arrivals ++ now :: later)).admitted =
      (limiter.observeAll (arrivals ++ later)).admitted := by
  have dropped : limiter.observe (limiter.observeAll arrivals) now =
      { recent := limiter.expire (limiter.observeAll arrivals).recent now
        admitted := (limiter.observeAll arrivals).admitted } := by
    rw [observe, next, refused]
    rfl
  rw [observeAll, observeAll, List.foldl_append, List.foldl_append, List.foldl_cons, ← observeAll,
    dropped]
  refine @admitted_foldl _ _ _ _ _ (limiter.observeAll arrivals) later rfl ?_
  intro time listed
  exact expire_expire ((List.pairwise_cons.mp ordered).1 time listed)

end

end Limiter

end IrcPlatform
