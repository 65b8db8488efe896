import Mathlib.Data.List.Induction
import Mathlib.Data.List.Nodup
import Std.Data.ExtTreeMap

/-!
# Maps that are filled from a list

A map that a list of entries is inserted into keeps the last entry of each key. All entries
are in the map as often as in the list when their keys differ, and only then.
-/

namespace IrcPlatform

open Std

universe u v

variable {Key : Type u} {Value : Type v} {cmp : Key → Key → Ordering} [TransCmp cmp]
  [LawfulEqCmp cmp] {map : ExtTreeMap Key Value cmp} {holds : Key × Value → Prop}

theorem mem_toList_insert {key : Key} {value : Value} {entry : Key × Value} :
    entry ∈ (map.insert key value).toList ↔
      entry = (key, value) ∨ (entry.1 ≠ key ∧ entry ∈ map.toList) := by
  rcases entry with ⟨other, held⟩
  rw [ExtTreeMap.mem_toList_iff_getElem?_eq_some, ExtTreeMap.mem_toList_iff_getElem?_eq_some,
    ExtTreeMap.getElem?_insert, Prod.mk.injEq]
  by_cases same : key = other
  · subst same
    rw [if_pos ReflCmp.compare_self]
    simp [eq_comm]
  · rw [if_neg (fun equal => same (LawfulEqCmp.eq_of_compare equal))]
    simp [Ne.symm same]

theorem not_mem_empty {entry : Key × Value} :
    entry ∉ (∅ : ExtTreeMap Key Value cmp).toList := by
  rw [ExtTreeMap.mem_toList_iff_getElem?_eq_some, ExtTreeMap.getElem?_empty]
  exact (Option.some_ne_none _).symm

theorem forall_mem_empty : ∀ entry ∈ (∅ : ExtTreeMap Key Value cmp).toList, holds entry :=
  fun _ listed => absurd listed not_mem_empty

theorem forall_mem_insert (own : ∀ entry ∈ map.toList, holds entry) {key : Key} {value : Value}
    (added : holds (key, value)) : ∀ entry ∈ (map.insert key value).toList, holds entry := by
  intro entry listed
  rcases mem_toList_insert.mp listed with rfl | ⟨_, old⟩
  · exact added
  · exact own entry old

theorem forall_mem_insert_iff {key : Key} {value : Value} :
    (∀ entry ∈ (map.insert key value).toList, holds entry) ↔
      holds (key, value) ∧ ∀ entry ∈ map.toList, entry.1 ≠ key → holds entry := by
  constructor
  · intro every
    exact ⟨every _ (mem_toList_insert.mpr (Or.inl rfl)),
      fun entry own other => every entry (mem_toList_insert.mpr (Or.inr ⟨other, own⟩))⟩
  · rintro ⟨added, others⟩ entry listed
    rcases mem_toList_insert.mp listed with rfl | ⟨other, own⟩
    · exact added
    · exact others entry own other

theorem insert_comm {first second : Key} (different : first ≠ second) (value value' : Value) :
    (map.insert first value).insert second value' =
      (map.insert second value').insert first value := by
  refine ExtTreeMap.ext_getElem? fun key => ?_
  simp only [ExtTreeMap.getElem?_insert]
  by_cases one : cmp first key = .eq
  · have other : cmp second key ≠ .eq := fun other =>
      different ((LawfulEqCmp.eq_of_compare one).trans (LawfulEqCmp.eq_of_compare other).symm)
    rw [if_neg other, if_pos one, if_pos one]
  · rw [if_neg one, if_neg one]

theorem contains_insert_of_ne {first second : Key} (different : first ≠ second) (value : Value) :
    (map.insert first value).contains second = map.contains second := by
  rw [ExtTreeMap.contains_insert]
  have other : (cmp first second == .eq) = false :=
    beq_eq_false_iff_ne.mpr fun same => different (LawfulEqCmp.eq_of_compare same)
  rw [other, Bool.false_or]

theorem nodup_toList (map : ExtTreeMap Key Value cmp) : map.toList.Nodup := by
  refine ExtTreeMap.distinct_keys_toList.imp ?_
  rintro first _ different rfl
  exact different ReflCmp.compare_self

/-- Two entries of a map with one key are the same. -/
theorem eq_of_mem_toList {first second : Key × Value} (inFirst : first ∈ map.toList)
    (inSecond : second ∈ map.toList) (same : first.1 = second.1) : first = second := by
  rcases first with ⟨key, value⟩
  rcases second with ⟨other, held⟩
  dsimp only at same
  subst same
  rw [ExtTreeMap.mem_toList_iff_getElem?_eq_some] at inFirst inSecond
  rw [inFirst] at inSecond
  rw [Option.some.inj inSecond]

/-! ## Lists of entries -/

variable {entries : List (Key × Value)}

/-- The map that keeps the last entry of each key. -/
def lastEntries (cmp : Key → Key → Ordering) [TransCmp cmp] (entries : List (Key × Value)) :
    ExtTreeMap Key Value cmp :=
  (∅ : ExtTreeMap Key Value cmp).insertMany entries

omit [LawfulEqCmp cmp] in
theorem lastEntries_concat (entries : List (Key × Value)) (last : Key × Value) :
    lastEntries cmp (entries ++ [last]) = (lastEntries cmp entries).insert last.1 last.2 := by
  rw [lastEntries, ExtTreeMap.insertMany_append]
  rfl

theorem mem_of_mem_lastEntries {entry : Key × Value}
    (listed : entry ∈ (lastEntries cmp entries).toList) : entry ∈ entries := by
  induction entries using List.reverseRecOn with
  | nil => exact absurd listed not_mem_empty
  | append_singleton entries last ih =>
      rw [lastEntries_concat] at listed
      rcases mem_toList_insert.mp listed with rfl | ⟨_, old⟩
      · exact List.mem_append_right _ List.mem_cons_self
      · exact List.mem_append_left _ (ih old)

variable (cmp) in
theorem exists_mem_lastEntries {entry : Key × Value} (listed : entry ∈ entries) :
    ∃ kept ∈ (lastEntries cmp entries).toList, kept.1 = entry.1 := by
  induction entries using List.reverseRecOn with
  | nil => cases listed
  | append_singleton entries last ih =>
      rw [lastEntries_concat]
      by_cases same : entry.1 = last.1
      · exact ⟨last, mem_toList_insert.mpr (Or.inl rfl), same.symm⟩
      · rcases List.mem_append.mp listed with earlier | final
        · rcases ih earlier with ⟨kept, old, key⟩
          exact ⟨kept, mem_toList_insert.mpr (Or.inr ⟨key ▸ same, old⟩), key⟩
        · exact absurd (congrArg Prod.fst (List.mem_singleton.mp final)) same

variable (cmp) in
/-- Every entry is in the map as often as in the list when no key occurs twice. -/
theorem count_lastEntries_iff [BEq (Key × Value)] [LawfulBEq (Key × Value)] :
    (∀ entry ∈ entries, (lastEntries cmp entries).toList.count entry = entries.count entry) ↔
      (entries.map Prod.fst).Nodup := by
  have once := nodup_toList (lastEntries cmp entries)
  constructor
  · intro every
    have kept {entry : Key × Value} (listed : entry ∈ entries) :
        entry ∈ (lastEntries cmp entries).toList := by
      rw [← List.count_pos_iff, every entry listed]
      exact List.count_pos_iff.mpr listed
    have distinct : entries.Nodup := by
      refine List.nodup_iff_count_le_one.mpr fun entry => ?_
      by_cases listed : entry ∈ entries
      · rw [← every entry listed]
        exact List.nodup_iff_count_le_one.mp once entry
      · rw [List.count_eq_zero_of_not_mem listed]
        exact Nat.zero_le 1
    exact distinct.map_on fun first inFirst second inSecond same =>
      eq_of_mem_toList (kept inFirst) (kept inSecond) same
  · intro distinct entry listed
    rcases exists_mem_lastEntries cmp listed with ⟨kept, inMap, key⟩
    have same : kept = entry :=
      List.inj_on_of_nodup_map distinct (mem_of_mem_lastEntries inMap) listed key
    rw [← same, List.count_eq_one_of_mem once inMap,
      List.count_eq_one_of_mem (List.Nodup.of_map _ distinct) (mem_of_mem_lastEntries inMap)]

/-! ## Maps written out -/

theorem ext_toList {other : ExtTreeMap Key Value cmp}
    (same : ∀ entry, entry ∈ map.toList ↔ entry ∈ other.toList) : map = other := by
  refine ExtTreeMap.ext_getElem? fun key => ?_
  refine Option.ext fun value => ?_
  rw [← ExtTreeMap.mem_toList_iff_getElem?_eq_some, ← ExtTreeMap.mem_toList_iff_getElem?_eq_some]
  exact same (key, value)

/-- The entries are put into the map one after the other. -/
def insertEach (map : ExtTreeMap Key Value cmp) (entries : List (Key × Value)) :
    ExtTreeMap Key Value cmp :=
  entries.foldl (fun map entry => map.insert entry.1 entry.2) map

theorem mem_insertEach (distinct : (entries.map Prod.fst).Nodup) {entry : Key × Value} :
    entry ∈ (insertEach map entries).toList ↔
      entry ∈ entries ∨ entry ∈ map.toList ∧ entry.1 ∉ entries.map Prod.fst := by
  induction entries generalizing map with
  | nil => simp [insertEach]
  | cons first rest ih =>
      rw [List.map_cons, List.nodup_cons] at distinct
      have step : insertEach map (first :: rest) =
          insertEach (map.insert first.1 first.2) rest := rfl
      rw [step, ih distinct.2, mem_toList_insert, List.mem_cons, List.map_cons, List.mem_cons]
      constructor
      · rintro (later | ⟨rfl | ⟨other, old⟩, absent⟩)
        · exact Or.inl (Or.inr later)
        · exact Or.inl (Or.inl rfl)
        · exact Or.inr ⟨old, not_or.mpr ⟨other, absent⟩⟩
      · rintro ((rfl | later) | ⟨old, absent⟩)
        · exact Or.inr ⟨Or.inl rfl, distinct.1⟩
        · exact Or.inl later
        · exact Or.inr ⟨Or.inr ⟨(not_or.mp absent).1, old⟩, (not_or.mp absent).2⟩

theorem contains_insertEach {key : Key} (absent : key ∉ entries.map Prod.fst) :
    (insertEach map entries).contains key = map.contains key := by
  induction entries generalizing map with
  | nil => rfl
  | cons first rest ih =>
      rw [List.map_cons, List.mem_cons, not_or] at absent
      exact (ih absent.2).trans (contains_insert_of_ne (Ne.symm absent.1) first.2)

theorem distinct_keys (map : ExtTreeMap Key Value cmp) : (map.toList.map Prod.fst).Nodup := by
  rw [List.nodup_map_iff_inj_on (nodup_toList map)]
  exact fun first inFirst second inSecond same => eq_of_mem_toList inFirst inSecond same

theorem insertEach_toList (map : ExtTreeMap Key Value cmp) : insertEach ∅ map.toList = map := by
  refine ext_toList fun entry => ?_
  rw [mem_insertEach (distinct_keys map)]
  exact or_iff_left fun both => not_mem_empty both.1

/-- A map is its other entries and the entry of one key. -/
theorem insertEach_filter [DecidableEq Key] {key : Key} {value : Value}
    (listed : (key, value) ∈ map.toList) :
    (insertEach ∅ (map.toList.filter (·.1 ≠ key))).insert key value = map := by
  have distinct : ((map.toList.filter (·.1 ≠ key)).map Prod.fst).Nodup :=
    (distinct_keys map).sublist (List.filter_sublist.map _)
  refine ext_toList fun entry => ?_
  rw [mem_toList_insert, mem_insertEach distinct, List.mem_filter, decide_eq_true_iff]
  constructor
  · rintro (rfl | ⟨_, ⟨old, _⟩ | ⟨none, _⟩⟩)
    · exact listed
    · exact old
    · exact absurd none not_mem_empty
  · intro own
    by_cases same : entry.1 = key
    · exact Or.inl (eq_of_mem_toList own listed same)
    · exact Or.inr ⟨same, Or.inl ⟨own, same⟩⟩

end IrcPlatform
