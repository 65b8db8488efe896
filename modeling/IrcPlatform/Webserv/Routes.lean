import Mathlib.Data.List.MinMax
import IrcPlatform.Webserv.Paths

/-!
# Routes

The location of a path is the longest that covers it, whatever the order of the locations,
and below one location the file that is looked up tells the path that was asked for.
-/

namespace IrcPlatform.Webserv

/-- The path of a location is a prefix of a path and ends where a segment does. -/
structure Covers (location : Location) (path : Bytes) : Prop where
  starts : location.path <+: path
  boundary : location.path.getLast? = some (byte '/') ∨ path = location.path ∨
    location.path ++ ascii "/" <+: path

/-- A slash, and segments that stay below it. -/
def Normalized (path : Bytes) : Prop := ∃ rest, path = byte '/' :: rest ∧ Confined rest

def locationPath : Option Location → Bytes
  | some location => location.path
  | none => []

def withoutSlash (rest : Bytes) : Bytes := if rest.head? = some (byte '/') then rest.tail else rest

/-- How a server finds its files. -/
structure Routing (config : ServerConfig) : Prop where
  /-- A selected location covers the path, and none that does is longer. -/
  longest (path : Bytes) (location : Location) : matchLocation config path = some location →
    location ∈ config.locations ∧ Covers location path ∧
      ∀ other ∈ config.locations, Covers other path → other.path.length ≤ location.path.length
  found (path : Bytes) : matchLocation config path = none ↔
    ∀ location ∈ config.locations, ¬Covers location path
  /-- The order of different locations is of no account. -/
  unordered (other : ServerConfig) (path : Bytes) :
    (config.locations.map (·.path)).Nodup → other.locations.Perm config.locations →
      matchLocation other path = matchLocation config path
  /-- One slash stands between the root and the rest of the path. -/
  disk (request : Request) : (Router.resolve request config).status = .ready →
    (Router.resolve request config).diskPath =
      selectedRoot config (matchLocation config request.path) ++ byte '/' ::
        withoutSlash (request.path.drop (locationPath (matchLocation config request.path)).length)
  /-- Two paths lead to one file only where they differ in the slash behind the prefix. -/
  injective (first second : Request) : Normalized first.path → Normalized second.path →
    (Router.resolve first config).status = .ready →
      (Router.resolve second config).status = .ready →
        matchLocation config first.path = matchLocation config second.path →
          ((Router.resolve first config).diskPath = (Router.resolve second config).diskPath ↔
            first.path = second.path ∨
              (first.path = locationPath (matchLocation config first.path) ∧
                second.path = first.path ++ ascii "/") ∨
              (second.path = locationPath (matchLocation config first.path) ∧
                first.path = second.path ++ ascii "/"))

/-! ## The longest location -/

def covers (path : Bytes) (location : Location) : Bool :=
  beginsWith path location.path && atBoundary location.path path

theorem covers_iff {path : Bytes} {location : Location} :
    covers path location = true ↔ Covers location path := by
  rw [covers, Bool.and_eq_true, beginsWith_iff]
  constructor
  · rintro ⟨starts, boundary⟩
    refine ⟨starts, ?_⟩
    rcases starts with ⟨rest, joined⟩
    simp only [atBoundary, Bool.or_eq_true, beq_iff_eq] at boundary
    rcases boundary with ((slash | ends) | same) | next
    · exact Or.inl (slash ▸ rfl)
    · exact Or.inl ends
    · rw [← joined, List.length_append, Nat.add_eq_left, List.length_eq_zero_iff] at same
      rw [same, List.append_nil] at joined
      exact Or.inr (Or.inl joined.symm)
    · rw [← joined, List.getElem?_append_right (Nat.le_refl _), Nat.sub_self,
        ← List.head?_eq_getElem?] at next
      rcases List.head?_eq_some_iff.mp next with ⟨others, rfl⟩
      exact Or.inr (Or.inr ⟨others, by rw [← joined, List.append_assoc]; rfl⟩)
  · rintro ⟨starts, boundary⟩
    refine ⟨starts, ?_⟩
    simp only [atBoundary, Bool.or_eq_true, beq_iff_eq]
    rcases boundary with ends | same | ⟨others, joined⟩
    · exact Or.inl (Or.inl (Or.inr ends))
    · exact Or.inl (Or.inr (congrArg List.length same))
    · right
      rw [← joined, List.append_assoc, List.getElem?_append_right (Nat.le_refl _), Nat.sub_self]
      rfl

theorem matchLocation_eq_argmax (config : ServerConfig) (path : Bytes) :
    matchLocation config path =
      (config.locations.filter (covers path)).argmax (·.path.length) := by
  rw [matchLocation, List.argmax, List.foldl_filter]
  congr 1
  funext best location
  cases best with
  | none => simp [covers, List.argAux]
  | some best =>
      by_cases covered : covers path location = true
      · simp only [covered, if_true, List.argAux, Option.all_some]
        rw [covers] at covered
        simp [covered]
      · simp only [covered]
        rw [covers] at covered
        simp [covered]

theorem matchLocation_longest {config : ServerConfig} {path : Bytes} {location : Location}
    (found : matchLocation config path = some location) :
    location ∈ config.locations ∧ Covers location path ∧
      ∀ other ∈ config.locations, Covers other path →
        other.path.length ≤ location.path.length := by
  rw [matchLocation_eq_argmax] at found
  rcases List.mem_filter.mp (List.argmax_mem found) with ⟨listed, covered⟩
  refine ⟨listed, covers_iff.mp covered, ?_⟩
  intro other otherListed otherCovers
  have member := List.mem_filter.mpr ⟨otherListed, covers_iff.mpr otherCovers⟩
  have most := List.le_of_mem_argmax member found
  exact most

theorem matchLocation_eq_none_iff {config : ServerConfig} {path : Bytes} :
    matchLocation config path = none ↔ ∀ location ∈ config.locations, ¬Covers location path := by
  rw [matchLocation_eq_argmax, List.argmax_eq_none, List.filter_eq_nil_iff]
  simp only [covers_iff]

/-- Two prefixes of one path of the same length are the same. -/
theorem matchLocation_perm {config other : ServerConfig}
    (distinct : (config.locations.map (·.path)).Nodup)
    (same : other.locations.Perm config.locations) (path : Bytes) :
    matchLocation other path = matchLocation config path := by
  cases found : matchLocation config path with
  | none =>
      rw [matchLocation_eq_none_iff] at found ⊢
      exact fun location listed => found location (same.mem_iff.mp listed)
  | some location =>
      rcases matchLocation_longest found with ⟨listed, covered, most⟩
      cases foundToo : matchLocation other path with
      | none =>
          have never := matchLocation_eq_none_iff.mp foundToo location (same.mem_iff.mpr listed)
          exact absurd covered never
      | some second =>
          rcases matchLocation_longest foundToo with ⟨listedToo, coveredToo, mostToo⟩
          have first := mostToo location (same.mem_iff.mpr listed) covered
          have back := most second (same.mem_iff.mp listedToo) coveredToo
          have samePath : second.path = location.path :=
            (List.prefix_of_prefix_length_le coveredToo.starts covered.starts back).eq_of_length
              (Nat.le_antisymm back first)
          have same := List.inj_on_of_nodup_map distinct (same.mem_iff.mp listedToo) listed samePath
          rw [same]

/-! ## Below a location -/

theorem beginning_of_locationPath {config : ServerConfig} {path : Bytes}
    {location : Option Location}
    (found : matchLocation config path = location) : locationPath location <+: path := by
  cases location with
  | none => exact List.nil_prefix
  | some location => exact (matchLocation_longest found).2.1.starts

theorem relativePath_eq {path : Bytes} {location : Option Location}
    (starts : locationPath location <+: path) :
    Router.relativePath path location =
      byte '/' :: withoutSlash (path.drop (locationPath location).length) := by
  have slashed (rest : Bytes) : (if rest.head? = some (byte '/') then rest else ascii "/" ++ rest) =
      byte '/' :: withoutSlash rest := by
    rw [withoutSlash]
    split
    next slash =>
      rcases List.head?_eq_some_iff.mp slash with ⟨others, rfl⟩
      rfl
    next => rfl
  rw [← slashed]
  cases location with
  | none => rfl
  | some location =>
      rw [locationPath] at starts ⊢
      simp only [Router.relativePath, beginsWith_iff.mpr starts, if_true]

/-- No segment of a normalized path is empty, but the last. -/
theorem not_normalized_slashes (front rest : Bytes) :
    ¬Normalized (front ++ byte '/' :: byte '/' :: rest) := by
  rintro ⟨below, path, confined⟩
  have behind := confined.behind path.symm
  apply behind.no_gaps [] _ rfl
  have pieces : ((byte '/' :: rest).splitOn (byte '/')).dropLast =
      [].splitOn (byte '/') ++ (rest.splitOn (byte '/')).dropLast := dropLast_splitOn_append [] rest
  rw [pieces]
  exact List.mem_append_left _ (by simp)

theorem boundary_of_match {config : ServerConfig} {path rest : Bytes} {location : Option Location}
    (normal : Normalized path) (found : matchLocation config path = location)
    (joined : locationPath location ++ rest = path) :
    (locationPath location).getLast? = some (byte '/') ∨ rest = [] ∨
      rest.head? = some (byte '/') := by
  cases location with
  | none =>
      rcases normal with ⟨below, rooted, _⟩
      rw [locationPath, List.nil_append] at joined
      exact Or.inr (Or.inr (by rw [joined, rooted, List.head?_cons]))
  | some location =>
      rw [locationPath] at joined ⊢
      rcases (matchLocation_longest found).2.1.boundary with ends | same | ⟨others, next⟩
      · exact Or.inl ends
      · rw [same] at joined
        exact Or.inr (Or.inl (List.append_right_eq_self.mp joined))
      · rw [← joined, List.append_assoc, List.append_cancel_left_eq] at next
        exact Or.inr (Or.inr (by rw [← next]; rfl))

/-- The path that has the slash of two paths with the same rest. -/
theorem eq_slash_of_withoutSlash {front first second : Bytes} (normal : Normalized (front ++ first))
    (boundary : front.getLast? = some (byte '/') ∨ second = [] ∨
      second.head? = some (byte '/'))
    (same : withoutSlash first = withoutSlash second)
    (slash : first.head? = some (byte '/')) (noSlash : second.head? ≠ some (byte '/')) :
    first = ascii "/" ∧ second = [] := by
  rcases List.head?_eq_some_iff.mp slash with ⟨rest, rfl⟩
  rw [withoutSlash, if_pos slash, withoutSlash, if_neg noSlash, List.tail_cons] at same
  rcases boundary with ends | empty | again
  · rcases List.getLast?_eq_some_iff.mp ends with ⟨before, rfl⟩
    rw [List.append_assoc] at normal
    exact absurd normal (not_normalized_slashes before rest)
  · rw [same, empty]
    exact ⟨rfl, rfl⟩
  · exact absurd again noSlash

theorem eq_of_withoutSlash {first second : Bytes} (same : withoutSlash first = withoutSlash second)
    (alike : first.head? = some (byte '/') ↔ second.head? = some (byte '/')) : first = second := by
  rw [withoutSlash, withoutSlash] at same
  by_cases slash : first.head? = some (byte '/')
  · have slashToo := alike.mp slash
    rw [if_pos slash, if_pos slashToo] at same
    rcases List.head?_eq_some_iff.mp slash with ⟨rest, rfl⟩
    rcases List.head?_eq_some_iff.mp slashToo with ⟨others, rfl⟩
    rw [List.tail_cons, List.tail_cons] at same
    rw [same]
  · have noSlash := fun slashToo => slash (alike.mpr slashToo)
    rwa [if_neg slash, if_neg noSlash] at same

theorem withoutSlash_eq_iff {config : ServerConfig} {first second front : Bytes}
    {location : Option Location} (firstNormal : Normalized (front ++ first))
    (secondNormal : Normalized (front ++ second)) (known : front = locationPath location)
    (firstFound : matchLocation config (front ++ first) = location)
    (secondFound : matchLocation config (front ++ second) = location) :
    withoutSlash first = withoutSlash second ↔
      first = second ∨ (first = [] ∧ second = ascii "/") ∨ (second = [] ∧ first = ascii "/") := by
  subst known
  constructor
  · intro same
    by_cases slash : first.head? = some (byte '/')
    · by_cases slashToo : second.head? = some (byte '/')
      · exact Or.inl (eq_of_withoutSlash same (iff_of_true slash slashToo))
      · have boundary := boundary_of_match secondNormal secondFound rfl
        have both := eq_slash_of_withoutSlash firstNormal boundary same slash slashToo
        exact Or.inr (Or.inr both.symm)
    · by_cases slashToo : second.head? = some (byte '/')
      · have boundary := boundary_of_match firstNormal firstFound rfl
        have both := eq_slash_of_withoutSlash secondNormal boundary same.symm slashToo slash
        exact Or.inr (Or.inl both.symm)
      · exact Or.inl (eq_of_withoutSlash same (iff_of_false slash slashToo))
  · rintro (rfl | ⟨rfl, rfl⟩ | ⟨rfl, rfl⟩)
    · rfl
    · rfl
    · rfl

theorem routing (config : ServerConfig) : Routing config := by
  have disk (request : Request) (ready : (Router.resolve request config).status = .ready) :
      (Router.resolve request config).diskPath =
        selectedRoot config (matchLocation config request.path) ++ byte '/' ::
          withoutSlash
            (request.path.drop (locationPath (matchLocation config request.path)).length) := by
    rw [Router.resolve_diskPath ready, relativePath_eq (beginning_of_locationPath rfl)]
  constructor
  · exact fun path location found => matchLocation_longest found
  · exact fun path => matchLocation_eq_none_iff
  · exact fun other path distinct same => matchLocation_perm distinct same path
  · exact disk
  · intro first second firstNormal secondNormal firstReady secondReady together
    rw [disk first firstReady, disk second secondReady, ← together, List.append_cancel_left_eq,
      List.cons.injEq]
    generalize found : matchLocation config first.path = location at *
    rcases beginning_of_locationPath found with ⟨firstRest, firstPath⟩
    rcases beginning_of_locationPath together.symm with ⟨secondRest, secondPath⟩
    rw [← firstPath] at firstNormal found
    rw [← secondPath] at secondNormal together
    rw [← firstPath, ← secondPath, List.drop_left, List.drop_left,
      withoutSlash_eq_iff firstNormal secondNormal rfl found together.symm]
    simp only [true_and, List.append_assoc, List.append_cancel_left_eq, List.append_right_eq_self]
    apply or_congr_right
    apply or_congr
    · apply and_congr_right
      rintro rfl
      exact Iff.rfl
    · apply and_congr_right
      rintro rfl
      exact Iff.rfl

end IrcPlatform.Webserv
