import IrcPlatform.Library.References
import IrcPlatform.Webserv.Targets

/-!
# Merged paths

An escape never reaches over a slash, so a path that was put together keeps the names of its
parts. A path that names an entry below a directory is read as the directory and the entry, if it
keeps the names of the directory and then that of the entry.
-/

namespace IrcPlatform.Webserv

open Reference

/-- The names that are kept of an encoded path, or none where it is refused. -/
def keptNames (text : Bytes) : Option (List Bytes) :=
  (decodeCharacters text).bind fun decoded =>
    if ascii ".." ∈ decoded.splitOn (byte '/') then none
    else some (kept (decoded.splitOn (byte '/')))

/-- The names in a decoded path. -/
def pathNames (path : Bytes) : List Bytes := kept (path.tail.splitOn (byte '/'))

/-! ## Segments are decoded one by one -/

theorem decodeEscape_slash (c : UInt8) :
    decodeEscape c (byte '/') = none ∧ decodeEscape (byte '/') c = none := by
  revert c
  apply forall_byte
  decide +kernel

theorem decodeCharacters_slash (front back : Bytes) :
    decodeCharacters (front ++ byte '/' :: back) =
      (decodeCharacters front).bind fun first =>
        (decodeCharacters back).map fun second => first ++ byte '/' :: second := by
  have slash : decodeCharacters (byte '/' :: back) =
      (decodeCharacters back).map (byte '/' :: ·) := by
    rw [decodeCharacters_cons back (by decide), if_neg (by decide)]
  induction front using decodeCharacters.induct with
  | case1 => rw [List.nil_append, slash, decodeCharacters, Option.bind_some]; rfl
  | case2 first second rest ih =>
      simp only [List.cons_append, decodeCharacters, if_true, ih]
      cases decodeEscape first second with
      | none => rfl
      | some value => cases decodeCharacters rest <;> cases decodeCharacters back <;> rfl
  | case3 rest short =>
      have refused : decodeCharacters (byte '%' :: rest) = none := by
        rw [decodeCharacters, if_pos rfl]
        exact short
      rw [refused, Option.bind_none]
      rcases rest with _ | ⟨c, _ | ⟨other, rest⟩⟩
      · cases back with
        | nil => rfl
        | cons next back =>
            simp only [List.cons_append, List.nil_append, decodeCharacters, if_true,
              (decodeEscape_slash next).2, Option.bind_none]
      · simp only [List.cons_append, List.nil_append, decodeCharacters, if_true,
          (decodeEscape_slash c).1, Option.bind_none]
      · exact absurd rfl (short c other rest)
  | case4 c rest notEscape refused =>
      rw [List.cons_append, decodeCharacters_cons _ notEscape, decodeCharacters_cons _ notEscape,
        if_pos refused, if_pos refused, Option.bind_none]
  | case5 c rest notEscape plain ih =>
      rw [List.cons_append, decodeCharacters_cons _ notEscape, decodeCharacters_cons _ notEscape,
        if_neg plain, if_neg plain, ih]
      cases decodeCharacters rest <;> cases decodeCharacters back <;> rfl

theorem kept_append (front back : List Bytes) : kept (front ++ back) = kept front ++ kept back :=
  List.filter_append _ _

theorem keptNames_slash (front back : Bytes) :
    keptNames (front ++ byte '/' :: back) =
      (keptNames front).bind fun first => (keptNames back).map (first ++ ·) := by
  simp only [keptNames, decodeCharacters_slash]
  cases decodeCharacters front with
  | none => rfl
  | some first =>
      cases decodeCharacters back with
      | none =>
          simp only [Option.bind_some, Option.map_none, Option.bind_none]
          split <;> rfl
      | some second =>
          simp only [Option.bind_some, Option.map_some, List.splitOn_append_cons_self,
            List.mem_append, kept_append]
          by_cases up : ascii ".." ∈ first.splitOn (byte '/')
          · simp [up]
          · by_cases upSecond : ascii ".." ∈ second.splitOn (byte '/')
            · simp [up, upSecond]
            · simp [up, upSecond]

/-- The names that are kept of some segments. -/
def namesOf : List Bytes → Option (List Bytes)
  | [] => some []
  | segment :: rest => (keptNames segment).bind fun first => (namesOf rest).map (first ++ ·)

theorem keptNames_nil : keptNames [] = some [] := rfl

theorem keptNames_slashedText (segments : List Bytes) (last : Bytes) :
    keptNames (slashedText segments ++ last) =
      (namesOf segments).bind fun front => (keptNames last).map (front ++ ·) := by
  induction segments with
  | nil =>
      rw [slashedText, List.flatMap_nil, List.nil_append, namesOf, Option.bind_some]
      cases keptNames last <;> rfl
  | cons segment rest ih =>
      have shape : slashedText (segment :: rest) ++ last =
          segment ++ byte '/' :: (slashedText rest ++ last) := by
        rw [slashedText, List.flatMap_cons, List.append_assoc, List.append_assoc]
        rfl
      rw [shape, keptNames_slash, ih, namesOf]
      cases keptNames segment with
      | none => rfl
      | some first =>
          cases namesOf rest with
          | none => rfl
          | some front =>
              cases keptNames last with
              | none => rfl
              | some names => simp

theorem keptNames_directory (segments : List Bytes) :
    keptNames (slashedText segments) = namesOf segments := by
  have whole := keptNames_slashedText segments []
  rw [List.append_nil, keptNames_nil] at whole
  rw [whole]
  cases namesOf segments <;> simp

theorem namesOf_append (front back : List Bytes) :
    namesOf (front ++ back) =
      (namesOf front).bind fun first => (namesOf back).map (first ++ ·) := by
  induction front with
  | nil =>
      rw [List.nil_append, namesOf, Option.bind_some]
      cases namesOf back <;> rfl
  | cons segment rest ih =>
      rw [List.cons_append, namesOf, namesOf, ih]
      cases keptNames segment with
      | none => rfl
      | some first =>
          cases namesOf rest with
          | none => rfl
          | some names =>
              cases namesOf back with
              | none => rfl
              | some more => simp

/-- Dot segments are not kept. -/
theorem namesOf_filter (segments : List Bytes) :
    namesOf (segments.filter (· ≠ ascii ".")) = namesOf segments := by
  induction segments with
  | nil => rfl
  | cons segment rest ih =>
      by_cases dot : segment = ascii "."
      · have nothing : keptNames (ascii ".") = some [] := rfl
        rw [List.filter_cons_of_neg (by simpa using dot), namesOf, dot, nothing, Option.bind_some,
          ih]
        cases namesOf rest <;> rfl
      · rw [List.filter_cons_of_pos (by simpa using dot), namesOf, namesOf, ih]

theorem noUp_of_namesOf {segments names : List Bytes} (found : namesOf segments = some names) :
    ascii ".." ∉ segments := by
  intro up
  rcases List.append_of_mem up with ⟨front, back, rfl⟩
  have refused : keptNames (ascii "..") = none := rfl
  rw [namesOf_append, namesOf, refused] at found
  cases before : namesOf front with
  | none => simp [before] at found
  | some names => simp [before] at found

/-- The directory of some segments has no more names than they have. -/
theorem namesOf_dropLast {segments names : List Bytes} (found : namesOf segments = some names) :
    ∃ upper, namesOf segments.dropLast = some upper ∧ upper.length ≤ names.length := by
  rcases List.eq_nil_or_concat' segments with rfl | ⟨front, last, rfl⟩
  · exact ⟨names, found, Nat.le_refl _⟩
  · rw [namesOf_append] at found
    rcases Option.bind_eq_some_iff.mp found with ⟨upper, before, rest⟩
    rcases Option.map_eq_some_iff.mp rest with ⟨more, _, rfl⟩
    rw [List.dropLast_concat]
    exact ⟨upper, before, List.length_append ▸ Nat.le_add_right _ _⟩

/-! ## The names of a decoded path -/

theorem keptNames_good {text : Bytes} {names : List Bytes} (found : keptNames text = some names) :
    ∃ decoded, decodeCharacters text = some decoded ∧ ascii ".." ∉ decoded.splitOn (byte '/') ∧
      kept (decoded.splitOn (byte '/')) = names ∧ ∀ name ∈ names, Segment name := by
  rcases Option.bind_eq_some_iff.mp found with ⟨decoded, characters, rest⟩
  split at rest
  · cases rest
  next noUp =>
    refine ⟨decoded, characters, noUp, Option.some.inj rest, ?_⟩
    rw [← Option.some.inj rest]
    exact kept_good (fun _ => not_mem_of_mem_splitOn) noUp

theorem kept_segments {names : List Bytes} (good : ∀ name ∈ names, Segment name) :
    kept names = names :=
  kept_eq_self fun name listed => ⟨(good name listed).nonempty, (good name listed).no_dots.1⟩

theorem pathNames_rooted {names : List Bytes} (good : ∀ name ∈ names, Segment name) :
    pathNames (rooted names) = names := by
  rw [pathNames, rooted, List.tail_cons]
  by_cases empty : names = []
  · rw [empty]
    rfl
  · rw [List.splitOn_intercalate _ (fun name listed => (good name listed).no_slash) empty,
      kept_segments good]

theorem pathNames_slash {path : Bytes} (filled : path ≠ []) :
    pathNames (path ++ ascii "/") = pathNames path := by
  rcases List.exists_cons_of_ne_nil filled with ⟨first, rest, rfl⟩
  have gap : kept [[]] = [] := rfl
  rw [pathNames, pathNames, List.cons_append, List.tail_cons, List.tail_cons, splitOn_slash,
    kept_append, gap, List.append_nil]

theorem decodeCharacters_rooted {rest decoded : Bytes}
    (characters : decodeCharacters (byte '/' :: rest) = some decoded) :
    ∃ later, decodeCharacters rest = some later ∧ byte '/' :: later = decoded := by
  rw [decodeCharacters_cons rest (by decide), if_neg (by decide)] at characters
  exact Option.map_eq_some_iff.mp characters

/-- The names of a decoded path are the names of its text. -/
theorem keptNames_of_decodePath {rest path : Bytes}
    (result : decodePath (byte '/' :: rest) = some path) :
    keptNames rest = some (pathNames path) := by
  rcases Option.bind_eq_some_iff.mp result with ⟨decoded, characters, _⟩
  rw [decodePath_eq characters] at result
  rcases decodeCharacters_rooted characters with ⟨later, laterCharacters, rfl⟩
  rw [List.drop_one, List.tail_cons] at result
  split at result
  · cases result
  next noUp =>
    have good := kept_good (fun _ => not_mem_of_mem_splitOn) noUp
    have names : pathNames path = kept (later.splitOn (byte '/')) := by
      rw [← Option.some.inj result, restoreSlash]
      split
      · rw [pathNames_slash (by rw [rooted]; exact List.cons_ne_nil _ _), pathNames_rooted good]
      · exact pathNames_rooted good
    rw [keptNames, laterCharacters, Option.bind_some, if_neg noUp, names]

/-- A confined path that ends with a slash is the text of its names. -/
theorem slashedText_pathNames {rest : Bytes} (confined : Confined rest)
    (slash : (byte '/' :: rest).getLast? = some (byte '/')) :
    byte '/' :: rest = byte '/' :: slashedText (pathNames (byte '/' :: rest)) := by
  rcases exists_slashedText rest with ⟨segments, last, rfl, slashless, lastSlashless⟩
  have ended : last = [] := by
    by_contra filled
    rw [← List.cons_append, List.getLast?_append_of_ne_nil _ filled] at slash
    exact lastSlashless (List.mem_of_getLast? slash)
  rw [ended, List.append_nil] at confined ⊢
  have pieces : (slashedText segments).splitOn (byte '/') = segments ++ [[]] := by
    have whole := splitOn_slashedText slashless []
    rwa [List.append_nil] at whole
  have noGaps := confined.no_gaps
  have noDots := confined.no_dots
  have gap : kept [[]] = [] := rfl
  rw [pieces, List.dropLast_concat] at noGaps
  rw [pieces, List.forall_mem_append] at noDots
  have all : kept segments = segments :=
    kept_eq_self fun segment listed => ⟨noGaps segment listed, (noDots.1 segment listed).1⟩
  rw [pathNames, List.tail_cons, pieces, kept_append, gap, List.append_nil, all]

/-- An entry below a directory has its name behind the names of the directory. -/
theorem pathNames_child {names : List Bytes} (good : ∀ name ∈ names, Segment name) {name : Bytes}
    (segment : Segment name) :
    pathNames (byte '/' :: (slashedText names ++ name)) = names ++ [name] := by
  have both : ∀ other ∈ names ++ [name], Segment other := by
    rw [List.forall_mem_append, List.forall_mem_singleton]
    exact ⟨good, segment⟩
  have slashless : ∀ other ∈ names, byte '/' ∉ other := fun other listed =>
    (good other listed).no_slash
  rw [pathNames, List.tail_cons, splitOn_slashedText slashless,
    List.splitOn_eq_singleton segment.no_slash, kept_segments both]

theorem rooted_child (names : List Bytes) (name : Bytes) :
    rooted (names ++ [name]) = byte '/' :: (slashedText names ++ name) := by
  rw [rooted_eq_flatMap (by simp), flatMap_slashedText]

/-- A name without escapes behind the text of a directory is read as an entry of it. -/
theorem decodePath_child {segments names : List Bytes} {name : Bytes}
    (found : namesOf segments = some names) (segment : Segment name)
    (characters : decodeCharacters name = some name) :
    decodePath (byte '/' :: (slashedText segments ++ name)) =
      some (byte '/' :: (slashedText names ++ name)) := by
  have alone : keptNames name = some [name] := by
    rw [keptNames, characters, Option.bind_some, List.splitOn_eq_singleton segment.no_slash,
      if_neg (by simpa using Ne.symm segment.no_dots.2),
      kept_segments (List.forall_mem_singleton.mpr segment)]
  have whole := keptNames_slashedText segments name
  rw [found, alone, Option.bind_some, Option.map_some] at whole
  rcases keptNames_good whole with ⟨decoded, decodedWhole, noUp, keptWhole, _⟩
  have decodedRooted : decodeCharacters (byte '/' :: (slashedText segments ++ name)) =
      some (byte '/' :: decoded) := by
    rw [decodeCharacters_cons _ (by decide), if_neg (by decide), decodedWhole, Option.map_some]
  -- what is decoded ends with the name
  have ends : ∃ first, byte '/' :: decoded = first ++ name := by
    rcases slashedText_ends segments with ⟨front, text⟩
    have parts : byte '/' :: (slashedText segments ++ name) = front ++ byte '/' :: name := by
      rw [← List.cons_append, text, List.append_assoc, List.singleton_append]
    rw [parts, decodeCharacters_slash, characters] at decodedRooted
    rcases Option.bind_eq_some_iff.mp decodedRooted with ⟨first, _, same⟩
    refine ⟨first ++ [byte '/'], ?_⟩
    rw [← Option.some.inj same, List.append_assoc, List.singleton_append]
  rcases ends with ⟨first, ends⟩
  rw [decodePath_eq decodedRooted, List.drop_one, List.tail_cons, if_neg noUp, keptWhole, ends,
    restoreSlash_of_getLast? _ (getLast?_name first segment), rooted_child]

theorem decodeCharacters_append {front first : Bytes} (back : Bytes)
    (characters : decodeCharacters front = some first) :
    decodeCharacters (front ++ back) = (decodeCharacters back).map (first ++ ·) := by
  induction front using decodeCharacters.induct generalizing first with
  | case1 =>
      rw [decodeCharacters, Option.some.injEq] at characters
      rw [← characters, List.nil_append]
      cases decodeCharacters back <;> rfl
  | case2 high low rest ih =>
      rw [decodeCharacters, if_pos rfl] at characters
      rcases Option.bind_eq_some_iff.mp characters with ⟨value, escape, others⟩
      rcases Option.map_eq_some_iff.mp others with ⟨later, decodedRest, rfl⟩
      rw [List.cons_append, List.cons_append, List.cons_append, decodeCharacters, if_pos rfl,
        escape, Option.bind_some, ih decodedRest, Option.map_map]
      rfl
  | case3 rest short =>
      rw [decodeCharacters, if_pos rfl] at characters
      · simp at characters
      · exact short
  | case4 c rest notEscape refused =>
      rw [decodeCharacters_cons rest notEscape, if_pos refused] at characters
      simp at characters
  | case5 c rest notEscape plain ih =>
      rw [decodeCharacters_cons rest notEscape, if_neg plain] at characters
      rcases Option.map_eq_some_iff.mp characters with ⟨later, decodedRest, rfl⟩
      rw [List.cons_append, decodeCharacters_cons _ notEscape, if_neg plain, ih decodedRest,
        Option.map_map]
      rfl

theorem splitOn_append_of_slashless {front : Bytes} (slashless : byte '/' ∉ front) (back : Bytes) :
    ∃ more rest, (front ++ back).splitOn (byte '/') = (front ++ more) :: rest := by
  rcases exists_slashedText back with ⟨segments, last, rfl, free, lastSlashless⟩
  cases segments with
  | nil =>
      refine ⟨last, [], List.splitOn_eq_singleton ?_⟩
      rw [slashedText, List.flatMap_nil, List.nil_append, List.mem_append, not_or]
      exact ⟨slashless, lastSlashless⟩
  | cons segment rest =>
      have joined : byte '/' ∉ front ++ segment := by
        rw [List.mem_append, not_or]
        exact ⟨slashless, free segment List.mem_cons_self⟩
      refine ⟨segment, (slashedText rest ++ last).splitOn (byte '/'), ?_⟩
      have parts : front ++ (slashedText (segment :: rest) ++ last) =
          (front ++ segment) ++ byte '/' :: (slashedText rest ++ last) := by
        simp [slashedText, ascii]
      rw [parts, List.splitOn_append_cons_self, List.splitOn_eq_singleton joined,
        List.singleton_append]

/-- More text never takes names away. -/
theorem length_kept_append (front back : Bytes) :
    (kept (front.splitOn (byte '/'))).length ≤
      (kept ((front ++ back).splitOn (byte '/'))).length := by
  rcases exists_slashedText front with ⟨segments, last, rfl, slashless, lastSlashless⟩
  rw [List.append_assoc, splitOn_slashedText slashless, splitOn_slashedText slashless,
    List.splitOn_eq_singleton lastSlashless, kept_append, kept_append, List.length_append,
    List.length_append]
  refine Nat.add_le_add_left ?_ _
  by_cases counted : last ≠ [] ∧ last ≠ ascii "."
  · rcases splitOn_append_of_slashless lastSlashless back with ⟨more, rest, pieces⟩
    have counts : last ++ more ≠ [] ∧ last ++ more ≠ ascii "." := by
      refine ⟨List.append_ne_nil_of_left_ne_nil counted.1 _, fun dot => ?_⟩
      rcases List.append_eq_singleton_iff.mp dot with ⟨empty, _⟩ | ⟨alone, _⟩
      · exact counted.1 empty
      · exact counted.2 alone
    have taken : kept ((last ++ more) :: rest) = (last ++ more) :: kept rest :=
      List.filter_cons_of_pos (decide_eq_true counts)
    rw [pieces, taken, List.length_cons]
    exact Nat.le_trans (List.length_filter_le _ _) (Nat.le_add_left _ _)
  · have dropped : kept [last] = [] := by
      rw [kept, List.filter_cons_of_neg (by simpa using counted), List.filter_nil]
    rw [dropped]
    exact Nat.zero_le _

theorem length_keptNames_append {front back : Bytes} {names more : List Bytes}
    (found : keptNames front = some names) (whole : keptNames (front ++ back) = some more) :
    names.length ≤ more.length := by
  rcases keptNames_good found with ⟨decoded, characters, _, rfl, _⟩
  rcases keptNames_good whole with ⟨decodedWhole, charactersWhole, _, rfl, _⟩
  rw [decodeCharacters_append back characters] at charactersWhole
  rcases Option.map_eq_some_iff.mp charactersWhole with ⟨rest, _, rfl⟩
  exact length_kept_append decoded rest

/-- A text that is no longer than the last of its names is that name. -/
theorem keptNames_short {text name : Bytes} {more : List Bytes}
    (found : keptNames text = some (more ++ [name])) (short : text.length ≤ name.length) :
    more = [] ∧ text.length = name.length ∧ byte '%' ∉ text ∧ byte '\\' ∉ text := by
  rcases keptNames_good found with ⟨decoded, characters, _, names, _⟩
  have shorter := length_rooted_kept (List.splitOn_ne_nil (byte '/') decoded)
  have lengths := length_decodeCharacters characters
  rw [names, rooted_child, rooted, List.intercalate_splitOn, List.length_cons, List.length_cons,
    List.length_append] at shorter
  have none : slashedText more = [] := List.eq_nil_of_length_eq_zero (by omega)
  refine ⟨?_, by omega, lengths.2 (by omega)⟩
  cases more with
  | nil => rfl
  | cons first rest =>
      rw [slashedText, List.flatMap_cons, List.append_assoc] at none
      exact absurd (List.append_eq_nil_iff.mp none).2 (List.cons_ne_nil _ _)

end IrcPlatform.Webserv
