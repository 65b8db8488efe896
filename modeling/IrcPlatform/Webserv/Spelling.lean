import IrcPlatform.Webserv.Escapes

/-!
# Spellings of a path

A path is read piece by piece: single characters, and escapes of a percent sign with the two
characters behind it. Every byte is meant to be read alike from both; a raw backslash and an
escape with a minus sign are not.
-/

namespace IrcPlatform.Webserv

/-! ## Pieces -/

inductive Piece where
  | character (c : UInt8)
  | escape (first second : UInt8)
deriving DecidableEq

namespace Piece

def write : Piece → Bytes
  | character c => [c]
  | escape first second => [byte '%', first, second]

/-- What the loop appends for the piece. -/
def decode : Piece → Option UInt8
  | character c => if isControl c || c == byte '\\' then none else some c
  | escape first second => decodeEscape first second

/-- The byte of the piece where a spelling of it is accepted. -/
def value : Piece → Option UInt8
  | character c => if isControl c then none else some c
  | escape first second =>
      ((escapedByte first second).filter fun value => !isControl value).or
        (signedByte first second)

/-- A backslash that is not escaped. -/
def backslash : Piece := character (byte '\\')

/-- An escape that is read through a minus sign. -/
def Signed : Piece → Prop
  | character _ => False
  | escape first _ => first = byte '-'

theorem decode_eq {piece : Piece} (other : piece ≠ backslash) : piece.decode = piece.value := by
  cases piece with
  | character c =>
      have notBackslash : (c == byte '\\') = false := by
        rw [beq_eq_false_iff_ne]
        rintro rfl
        exact other rfl
      rw [decode, value, notBackslash, Bool.or_false]
  | escape first second => exact decodeEscape_eq first second

end Piece

/-- `none` where a percent sign has fewer than two characters behind it. -/
def pieces : Bytes → Option (List Piece)
  | [] => some []
  | c :: rest =>
      if c = byte '%' then
        match rest with
        | first :: second :: rest => (pieces rest).map (Piece.escape first second :: ·)
        | _ => none
      else (pieces rest).map (Piece.character c :: ·)

theorem pieces_character {c : UInt8} (rest : Bytes) (notEscape : c ≠ byte '%') :
    pieces (c :: rest) = (pieces rest).map (Piece.character c :: ·) := by
  rw [pieces.eq_def]
  exact if_neg notEscape

theorem pieces_escape (first second : UInt8) (rest : Bytes) :
    pieces (byte '%' :: first :: second :: rest) =
      (pieces rest).map (Piece.escape first second :: ·) := by
  rw [pieces, if_pos rfl]

/-- Pieces that a text can be cut into. -/
def Written (parts : List Piece) : Prop :=
  ∀ c, Piece.character c ∈ parts → c ≠ byte '%'

theorem pieces_write {parts : List Piece} (written : Written parts) (rest : Bytes) :
    pieces (parts.flatMap Piece.write ++ rest) = (pieces rest).map (parts ++ ·) := by
  induction parts with
  | nil => simp
  | cons piece parts ih =>
      have later := ih fun c listed => written c (List.mem_cons_of_mem _ listed)
      cases piece with
      | character c =>
          rw [List.flatMap_cons, Piece.write, List.append_assoc, List.singleton_append,
            pieces_character _ (written c List.mem_cons_self), later, Option.map_map]
          rfl
      | escape first second =>
          rw [List.flatMap_cons, Piece.write, List.append_assoc, List.cons_append,
            List.cons_append, List.singleton_append, pieces_escape, later, Option.map_map]
          rfl

theorem written_of_pieces {input : Bytes} {parts : List Piece} (split : pieces input = some parts) :
    Written parts ∧ parts.flatMap Piece.write = input := by
  induction input using pieces.induct generalizing parts with
  | case1 =>
      rw [pieces, Option.some.injEq] at split
      subst split
      exact ⟨fun c listed => absurd listed List.not_mem_nil, rfl⟩
  | case2 first second rest ih =>
      rw [pieces_escape] at split
      rcases Option.map_eq_some_iff.mp split with ⟨later, splitRest, rfl⟩
      rcases ih splitRest with ⟨written, same⟩
      refine ⟨?_, ?_⟩
      · intro c listed
        rcases List.mem_cons.mp listed with same | listed
        · exact Piece.noConfusion same
        · exact written c listed
      · rw [List.flatMap_cons, same]
        rfl
  | case3 rest short =>
      rw [pieces, if_pos rfl] at split
      · simp at split
      · exact short
  | case4 c rest notEscape ih =>
      rw [pieces_character rest notEscape] at split
      rcases Option.map_eq_some_iff.mp split with ⟨later, splitRest, rfl⟩
      rcases ih splitRest with ⟨written, same⟩
      refine ⟨?_, ?_⟩
      · intro other listed
        rcases List.mem_cons.mp listed with same | listed
        · rw [Piece.character.inj same]
          exact notEscape
        · exact written other listed
      · rw [List.flatMap_cons, same]
        rfl

/-- Where a text ends: behind a piece, or inside an escape. -/
inductive Cut (front : Bytes) : Prop where
  | whole (parts : List Piece) (split : pieces front = some parts)
  | sign (before : Bytes) (parts : List Piece) (split : pieces before = some parts)
      (ends : front = before ++ [byte '%'])
  | half (before : Bytes) (first : UInt8) (parts : List Piece) (split : pieces before = some parts)
      (ends : front = before ++ [byte '%', first])

theorem Cut.cons {piece : Piece} (single : Written [piece]) {front : Bytes} (cut : Cut front) :
    Cut (piece.write ++ front) := by
  have more {before : Bytes} {parts : List Piece} (split : pieces before = some parts) :
      pieces (piece.write ++ before) = some (piece :: parts) := by
    have whole := pieces_write single before
    rw [List.flatMap_singleton, split] at whole
    exact whole
  cases cut with
  | whole parts split => exact .whole _ (more split)
  | sign before parts split ends =>
      exact .sign _ _ (more split) (by rw [ends, List.append_assoc])
  | half before first parts split ends =>
      exact .half _ first _ (more split) (by rw [ends, List.append_assoc])

theorem cut (front : Bytes) : Cut front := by
  induction front using pieces.induct with
  | case1 => exact .whole [] rfl
  | case2 first second rest ih =>
      have single : Written [Piece.escape first second] := by
        intro c listed
        exact Piece.noConfusion (List.mem_singleton.mp listed)
      exact Cut.cons single ih
  | case3 rest short =>
      cases rest with
      | nil => exact .sign [] [] rfl rfl
      | cons first rest =>
          cases rest with
          | nil => exact .half [] first [] rfl rfl
          | cons second rest => exact absurd rfl (short first second rest)
  | case4 c rest notEscape ih =>
      have single : Written [Piece.character c] := by
        intro other listed
        rw [Piece.character.inj (List.mem_singleton.mp listed)]
        exact notEscape
      exact Cut.cons single ih

/-! ## Decoding by pieces -/

theorem decodeCharacters_iff {input decoded : Bytes} : decodeCharacters input = some decoded ↔
    ∃ parts, pieces input = some parts ∧ parts.map Piece.decode = decoded.map some := by
  induction input using pieces.induct generalizing decoded with
  | case1 =>
      rw [decodeCharacters, pieces, Option.some.injEq]
      constructor
      · rintro rfl
        exact ⟨[], rfl, rfl⟩
      · rintro ⟨parts, split, same⟩
        rw [← Option.some.inj split, List.map_nil] at same
        exact (List.map_eq_nil_iff.mp same.symm).symm
  | case2 first second rest ih =>
      rw [decodeCharacters, if_pos rfl, pieces_escape]
      constructor
      · intro result
        rcases Option.bind_eq_some_iff.mp result with ⟨value, escape, result⟩
        rcases Option.map_eq_some_iff.mp result with ⟨later, decodedRest, rfl⟩
        rcases ih.mp decodedRest with ⟨parts, split, same⟩
        exact ⟨_, Option.map_eq_some_iff.mpr ⟨parts, split, rfl⟩, by
          rw [List.map_cons, List.map_cons, same, Piece.decode, escape]⟩
      · rintro ⟨parts, split, same⟩
        rcases Option.map_eq_some_iff.mp split with ⟨later, splitRest, rfl⟩
        cases decoded with
        | nil => simp at same
        | cons value decoded =>
            rw [List.map_cons, List.map_cons, List.cons.injEq, Piece.decode] at same
            rw [same.1, Option.bind_some, ih.mpr ⟨later, splitRest, same.2⟩]
            rfl
  | case3 rest short =>
      rw [decodeCharacters, if_pos rfl, pieces, if_pos rfl]
      · simp
      · exact short
      · exact short
  | case4 c rest notEscape ih =>
      rw [decodeCharacters_cons rest notEscape, pieces_character rest notEscape]
      constructor
      · intro result
        split at result
        · simp at result
        next accepted =>
          rcases Option.map_eq_some_iff.mp result with ⟨later, decodedRest, rfl⟩
          rcases ih.mp decodedRest with ⟨parts, split, same⟩
          exact ⟨_, Option.map_eq_some_iff.mpr ⟨parts, split, rfl⟩, by
            rw [List.map_cons, List.map_cons, same, Piece.decode, if_neg accepted]⟩
      · rintro ⟨parts, split, same⟩
        rcases Option.map_eq_some_iff.mp split with ⟨later, splitRest, rfl⟩
        cases decoded with
        | nil => simp at same
        | cons value decoded =>
            rw [List.map_cons, List.map_cons, List.cons.injEq, Piece.decode] at same
            by_cases refused : (isControl c || c == byte '\\') = true
            · rw [if_pos refused] at same
              simp at same
            · rw [if_neg refused, Option.some.injEq] at same
              rw [if_neg refused, ih.mpr ⟨later, splitRest, same.2⟩, same.1]
              rfl

/-- The normal form of a path: no empty segments and no dots, and a slash at its end where the
path has one. -/
def normalise (decoded : Bytes) : Bytes :=
  restoreSlash decoded (rooted (kept ((decoded.drop 1).splitOn (byte '/'))))

/-- A spelling of the path is accepted. -/
structure Readable (input : Bytes) (parts : List Piece) (decoded : Bytes) : Prop where
  split : pieces input = some parts
  values : parts.map Piece.value = decoded.map some
  below : ascii ".." ∉ (decoded.drop 1).splitOn (byte '/')

theorem decodePath_iff {input path : Bytes} : decodePath input = some path ↔
    ∃ parts decoded, Readable input parts decoded ∧ Piece.backslash ∉ parts ∧
      path = normalise decoded := by
  constructor
  · intro result
    rcases Option.bind_eq_some_iff.mp result with ⟨decoded, characters, _⟩
    rw [decodePath_eq characters] at result
    rcases decodeCharacters_iff.mp characters with ⟨parts, split, same⟩
    have noBackslash : Piece.backslash ∉ parts := by
      intro listed
      have accepted : Piece.backslash.decode ∈ decoded.map some := by
        rw [← same]
        exact List.mem_map_of_mem listed
      have refused : Piece.backslash.decode = none := by decide
      rw [refused] at accepted
      simp at accepted
    by_cases up : ascii ".." ∈ (decoded.drop 1).splitOn (byte '/')
    · rw [if_pos up] at result
      simp at result
    · rw [if_neg up, Option.some.injEq] at result
      refine ⟨parts, decoded, ⟨split, ?_, up⟩, noBackslash, result.symm⟩
      rw [← same]
      apply List.map_congr_left
      intro piece listed
      exact (Piece.decode_eq fun here => noBackslash (here ▸ listed)).symm
  · rintro ⟨parts, decoded, readable, noBackslash, rfl⟩
    have same : parts.map Piece.decode = decoded.map some := by
      rw [← readable.values]
      apply List.map_congr_left
      intro piece listed
      exact Piece.decode_eq fun here => noBackslash (here ▸ listed)
    rw [decodePath_eq (decodeCharacters_iff.mpr ⟨parts, readable.split, same⟩),
      if_neg readable.below]
    rfl

/-! ## The property -/

/-- Every escape of two digits replaced by its byte. -/
def unescape : Bytes → Bytes
  | [] => []
  | c :: rest =>
      if c = byte '%' then
        match rest with
        | first :: second :: more =>
            match escapedByte first second with
            | some value => value :: unescape more
            | none => c :: unescape (first :: second :: more)
        | short => c :: short
      else c :: unescape rest

/-- The byte is a digit of an escape. -/
def DigitOfEscape (front : Bytes) (c : UInt8) (rest : Bytes) : Prop :=
  (∃ before second, front = before ++ [byte '%'] ∧ rest.head? = some second ∧
    (escapedByte c second).isSome = true) ∨
  ∃ before first, front = before ++ [byte '%', first] ∧ (escapedByte first c).isSome = true

/-- Escapes are read strictly, and a byte outside them is the same path when it is escaped. -/
structure StrictlyDecoded (input : Bytes) : Prop where
  escapes (path front rest : Bytes) : decodePath input = some path →
    input = front ++ byte '%' :: rest →
      ∃ first second more, rest = first :: second :: more ∧
        (escapedByte first second).isSome = true
  plain (path : Bytes) : decodePath input = some path →
    ∀ c ∈ unescape input, isControl c = false
  normal (path : Bytes) : decodePath input = some path → path = normalise (unescape input)
  spelling (front rest : Bytes) (c first second : UInt8) : input = front ++ c :: rest →
    c ≠ byte '%' → ¬DigitOfEscape front c rest → escapedByte first second = some c →
      decodePath (front ++ byte '%' :: first :: second :: rest) = decodePath input

/-- Only spellings that are read alike, unless the path is refused in every spelling. -/
def ReadAlike (input : Bytes) : Prop :=
  ∀ parts decoded, Readable input parts decoded →
    (∀ piece ∈ parts, ¬piece.Signed ∧ piece ≠ Piece.backslash) ∨
      2 ≤ parts.count Piece.backslash

/-! ## Strict pieces -/

theorem signedByte_of_escaped {first second c : UInt8}
    (spelled : escapedByte first second = some c) : signedByte first second = none := by
  rcases Option.bind_eq_some_iff.mp spelled with ⟨high, digit, _⟩
  rw [signedByte, if_neg (digit_facts first (isHexDigit_of_some digit)).2.1]

/-- An escape of two digits has the value of its byte. -/
theorem value_escape {first second c : UInt8} (spelled : escapedByte first second = some c) :
    (Piece.escape first second).value = (Piece.character c).value := by
  rw [Piece.value, Piece.value, spelled, signedByte_of_escaped spelled,
    Option.or_none, Option.filter_some]
  cases isControl c with
  | true => rfl
  | false => rfl

theorem escaped_of_value {first second value : UInt8}
    (unsigned : ¬(Piece.escape first second).Signed)
    (read : (Piece.escape first second).value = some value) :
    escapedByte first second = some value ∧ isControl value = false := by
  have noSign : signedByte first second = none := if_neg unsigned
  rw [Piece.value, noSign, Option.or_none, Option.filter_eq_some_iff] at read
  exact ⟨read.1, by simpa using read.2⟩

/-- Pieces without a sign are what the path with its escapes replaced spells. -/
theorem unescape_write {parts : List Piece} (written : Written parts)
    (unsigned : ∀ piece ∈ parts, ¬piece.Signed) {decoded : Bytes}
    (values : parts.map Piece.value = decoded.map some) :
    unescape (parts.flatMap Piece.write) = decoded ∧ ∀ c ∈ decoded, isControl c = false := by
  induction parts generalizing decoded with
  | nil =>
      rw [List.map_nil] at values
      rw [List.map_eq_nil_iff.mp values.symm]
      exact ⟨rfl, fun c listed => absurd listed List.not_mem_nil⟩
  | cons piece parts ih =>
      cases decoded with
      | nil => simp at values
      | cons value decoded =>
          rw [List.map_cons, List.map_cons, List.cons.injEq] at values
          rw [List.forall_mem_cons] at unsigned
          rcases ih (fun c listed => written c (List.mem_cons_of_mem _ listed)) unsigned.2
            values.2 with ⟨later, plain⟩
          cases piece with
          | character c =>
              have notEscape := written c List.mem_cons_self
              have read := values.1
              rw [Piece.value] at read
              split at read
              · simp at read
              next visible =>
                rw [Option.some.injEq] at read
                subst read
                rw [List.flatMap_cons, Piece.write, List.singleton_append, unescape.eq_def]
                dsimp only
                rw [if_neg notEscape, later]
                exact ⟨rfl, List.forall_mem_cons.mpr ⟨by simpa using visible, plain⟩⟩
          | escape first second =>
              rcases escaped_of_value unsigned.1 values.1 with ⟨spelled, visible⟩
              have replaced : unescape (byte '%' :: first :: second ::
                  parts.flatMap Piece.write) = value :: decoded := by
                rw [unescape, if_pos rfl]
                simp only [spelled, later]
              exact ⟨replaced, List.forall_mem_cons.mpr ⟨visible, plain⟩⟩

theorem escaped_percent {first second : UInt8}
    (spelled : (escapedByte first second).isSome = true) :
    first ≠ byte '%' ∧ second ≠ byte '%' := by
  rcases Option.isSome_iff_exists.mp spelled with ⟨c, spelled⟩
  rcases Option.bind_eq_some_iff.mp spelled with ⟨high, digit, spelled⟩
  rcases Option.map_eq_some_iff.mp spelled with ⟨low, digitSecond, _⟩
  exact ⟨(digit_facts first (isHexDigit_of_some digit)).2.2.2.2.2.1,
    (digit_facts second (isHexDigit_of_some digitSecond)).2.2.2.2.2.1⟩

/-- Every percent sign starts an escape where all escapes are strict. -/
theorem percent_of_write {parts : List Piece} (written : Written parts)
    (strict : ∀ first second, Piece.escape first second ∈ parts →
      (escapedByte first second).isSome = true) {front rest : Bytes}
    (here : parts.flatMap Piece.write = front ++ byte '%' :: rest) :
    ∃ first second more, rest = first :: second :: more ∧
      (escapedByte first second).isSome = true := by
  induction parts generalizing front with
  | nil => simp at here
  | cons piece parts ih =>
      have later := @ih (fun c listed => written c (List.mem_cons_of_mem _ listed))
        fun first second listed => strict first second (List.mem_cons_of_mem _ listed)
      cases piece with
      | character c =>
          have notEscape := written c List.mem_cons_self
          rw [List.flatMap_cons, Piece.write, List.singleton_append] at here
          cases front with
          | nil =>
              rw [List.nil_append, List.cons.injEq] at here
              exact absurd here.1 notEscape
          | cons head front =>
              rw [List.cons_append, List.cons.injEq] at here
              exact later here.2
      | escape first second =>
          have spelled := strict first second List.mem_cons_self
          have percent := escaped_percent spelled
          rw [List.flatMap_cons, Piece.write, List.cons_append, List.cons_append,
            List.singleton_append] at here
          rcases front with _ | ⟨head, _ | ⟨next, _ | ⟨third, front⟩⟩⟩
          · rw [List.nil_append, List.cons.injEq] at here
            exact ⟨first, second, _, here.2.symm, spelled⟩
          · rw [List.cons_append, List.nil_append, List.cons.injEq, List.cons.injEq] at here
            exact absurd here.2.1 percent.1
          · simp only [List.cons_append, List.nil_append, List.cons.injEq] at here
            exact absurd here.2.2.1 percent.2
          · simp only [List.cons_append, List.cons.injEq] at here
            exact later here.2.2.2

/-! ## A byte and its escape -/

theorem pieces_append {front : Bytes} {parts : List Piece} (split : pieces front = some parts)
    (rest : Bytes) : pieces (front ++ rest) = (pieces rest).map (parts ++ ·) := by
  rcases written_of_pieces split with ⟨written, rfl⟩
  exact pieces_write written rest

section Swap

variable {front rest : Bytes} {c first second : UInt8} {parts : List Piece}

/-- The two spellings of a byte have the same pieces around it. -/
theorem readable_swap (split : pieces front = some parts) (notEscape : c ≠ byte '%')
    (spelled : escapedByte first second = some c) {others : List Piece} {decoded : Bytes}
    (splitRest : pieces rest = some others) :
    Readable (front ++ byte '%' :: first :: second :: rest)
        (parts ++ Piece.escape first second :: others) decoded ↔
      Readable (front ++ c :: rest) (parts ++ Piece.character c :: others) decoded := by
  have escaped : pieces (front ++ byte '%' :: first :: second :: rest) =
      some (parts ++ Piece.escape first second :: others) := by
    rw [pieces_append split, pieces_escape, splitRest]
    rfl
  have plain : pieces (front ++ c :: rest) = some (parts ++ Piece.character c :: others) := by
    rw [pieces_append split, pieces_character rest notEscape, splitRest]
    rfl
  have values : (parts ++ Piece.escape first second :: others).map Piece.value =
      (parts ++ Piece.character c :: others).map Piece.value := by
    rw [List.map_append, List.map_append, List.map_cons, List.map_cons, value_escape spelled]
  constructor
  · intro readable
    exact ⟨plain, values.symm.trans readable.values, readable.below⟩
  · intro readable
    exact ⟨escaped, values.trans readable.values, readable.below⟩

/-- What is read of a character, and of an escape, behind the same front. -/
theorem pieces_at_character (split : pieces front = some parts) (notEscape : c ≠ byte '%')
    {whole : List Piece} (read : pieces (front ++ c :: rest) = some whole) :
    ∃ others, pieces rest = some others ∧ whole = parts ++ Piece.character c :: others := by
  rw [pieces_append split, pieces_character rest notEscape, Option.map_map] at read
  rcases Option.map_eq_some_iff.mp read with ⟨others, splitRest, same⟩
  exact ⟨others, splitRest, same.symm⟩

theorem pieces_at_escape (split : pieces front = some parts) {whole : List Piece}
    (read : pieces (front ++ byte '%' :: first :: second :: rest) = some whole) :
    ∃ others, pieces rest = some others ∧
      whole = parts ++ Piece.escape first second :: others := by
  rw [pieces_append split, pieces_escape, Option.map_map] at read
  rcases Option.map_eq_some_iff.mp read with ⟨others, splitRest, same⟩
  exact ⟨others, splitRest, same.symm⟩

/-- Another character is read alike in both spellings. -/
theorem decodePath_swap (split : pieces front = some parts) (notEscape : c ≠ byte '%')
    (notBackslash : c ≠ byte '\\') (spelled : escapedByte first second = some c) :
    decodePath (front ++ byte '%' :: first :: second :: rest) =
      decodePath (front ++ c :: rest) := by
  have other : Piece.backslash ≠ Piece.character c := by
    intro same
    exact notBackslash (Piece.character.inj same).symm
  have escape : Piece.backslash ≠ Piece.escape first second := fun same => Piece.noConfusion same
  apply Option.ext
  intro path
  rw [decodePath_iff, decodePath_iff]
  constructor
  · rintro ⟨whole, decoded, readable, noBackslash, rfl⟩
    rcases pieces_at_escape split readable.split with ⟨others, splitRest, rfl⟩
    refine ⟨_, decoded, (readable_swap split notEscape spelled splitRest).mp readable, ?_, rfl⟩
    simp only [List.mem_append, List.mem_cons, not_or] at noBackslash ⊢
    exact ⟨noBackslash.1, other, noBackslash.2.2⟩
  · rintro ⟨whole, decoded, readable, noBackslash, rfl⟩
    rcases pieces_at_character split notEscape readable.split with ⟨others, splitRest, rfl⟩
    refine ⟨_, decoded, (readable_swap split notEscape spelled splitRest).mpr readable, ?_, rfl⟩
    simp only [List.mem_append, List.mem_cons, not_or] at noBackslash ⊢
    exact ⟨noBackslash.1, escape, noBackslash.2.2⟩

/-- A raw backslash is refused, and an escaped one only where there is another raw one. -/
theorem decodePath_backslash (split : pieces front = some parts)
    (spelled : escapedByte first second = some (byte '\\')) :
    decodePath (front ++ byte '\\' :: rest) = none ∧
      (decodePath (front ++ byte '%' :: first :: second :: rest) ≠ none ↔
        ∃ whole decoded, Readable (front ++ byte '\\' :: rest) whole decoded ∧
          whole.count Piece.backslash = 1) := by
  have notEscape : byte '\\' ≠ byte '%' := by decide
  constructor
  · rw [Option.eq_none_iff_forall_ne_some]
    intro path result
    rcases decodePath_iff.mp result with ⟨whole, decoded, readable, noBackslash, _⟩
    rcases pieces_at_character split notEscape readable.split with ⟨others, _, rfl⟩
    exact noBackslash (List.mem_append_right _ List.mem_cons_self)
  · rw [Option.ne_none_iff_exists']
    constructor
    · rintro ⟨path, result⟩
      rcases decodePath_iff.mp result with ⟨whole, decoded, readable, noBackslash, _⟩
      rcases pieces_at_escape split readable.split with ⟨others, splitRest, rfl⟩
      refine ⟨_, decoded, (readable_swap split notEscape spelled splitRest).mp readable, ?_⟩
      simp only [List.mem_append, List.mem_cons, not_or] at noBackslash
      rw [List.count_append, List.count_eq_zero.mpr noBackslash.1, ← Piece.backslash,
        List.count_cons_self, List.count_eq_zero.mpr noBackslash.2.2]
    · rintro ⟨whole, decoded, readable, single⟩
      rcases pieces_at_character split notEscape readable.split with
        ⟨others, splitRest, rfl⟩
      rw [List.count_append, ← Piece.backslash, List.count_cons_self] at single
      refine ⟨normalise decoded, decodePath_iff.mpr ⟨_, decoded,
        (readable_swap split notEscape spelled splitRest).mpr readable, ?_, rfl⟩⟩
      simp only [List.mem_append, List.mem_cons, not_or]
      exact ⟨List.count_eq_zero.mp (by omega), fun same => Piece.noConfusion same,
        List.count_eq_zero.mp (by omega)⟩

end Swap

/-! ## A byte inside an escape that is none -/

theorem decodeEscape_percent (c : UInt8) :
    decodeEscape (byte '%') c = none ∧ decodeEscape c (byte '%') = none := by
  have noDigit : hexDigit (byte '%') = none := by decide
  have noSign : byte '%' ≠ byte '-' := by decide
  constructor
  · rw [decodeEscape_eq, escapedByte, noDigit, Option.bind_none, Option.filter_none, signedByte,
      if_neg noSign, Option.none_or]
  · rw [decodeEscape_eq, escapedByte, signedByte, noDigit]
    cases hexDigit c with
    | none => simp
    | some high => simp

theorem decodePath_of_refused {before : Bytes} {parts : List Piece}
    (split : pieces before = some parts) {first second : UInt8}
    (refused : decodeEscape first second = none) (rest : Bytes) :
    decodePath (before ++ byte '%' :: first :: second :: rest) = none := by
  rw [Option.eq_none_iff_forall_ne_some]
  intro path result
  rcases decodePath_iff.mp result with ⟨whole, decoded, readable, _, _⟩
  have whole := readable.split
  rw [pieces_append split, pieces_escape, Option.map_map] at whole
  rcases Option.map_eq_some_iff.mp whole with ⟨others, _, rfl⟩
  have listed : Piece.value (Piece.escape first second) ∈ decoded.map some := by
    rw [← readable.values]
    exact List.mem_map_of_mem (List.mem_append_right _ List.mem_cons_self)
  rw [Piece.value, ← decodeEscape_eq, refused] at listed
  simp at listed

/-- An escape that is none makes a path fail where all its spellings are read alike. -/
theorem ReadAlike.refuses {before rest : Bytes} {first second : UInt8}
    (alike : ReadAlike (before ++ byte '%' :: first :: second :: rest)) {parts : List Piece}
    (split : pieces before = some parts) (other : escapedByte first second = none) :
    decodePath (before ++ byte '%' :: first :: second :: rest) = none := by
  rw [Option.eq_none_iff_forall_ne_some]
  intro path result
  rcases decodePath_iff.mp result with ⟨whole, decoded, readable, noBackslash, _⟩
  rcases alike whole decoded readable with unsigned | several
  · have whole := readable.split
    rw [pieces_append split, pieces_escape, Option.map_map] at whole
    rcases Option.map_eq_some_iff.mp whole with ⟨others, _, rfl⟩
    have listed : Piece.escape first second ∈ parts ++ Piece.escape first second :: others :=
      List.mem_append_right _ List.mem_cons_self
    have read : Piece.value (Piece.escape first second) ∈ decoded.map some := by
      rw [← readable.values]
      exact List.mem_map_of_mem listed
    rcases List.mem_map.mp read with ⟨value, _, read⟩
    rw [(escaped_of_value (unsigned _ listed).1 read.symm).1] at other
    simp at other
  · rw [List.count_eq_zero.mpr noBackslash] at several
    omega

theorem ReadAlike.spelling {front rest : Bytes} {c first second : UInt8}
    (alike : ReadAlike (front ++ c :: rest)) (notEscape : c ≠ byte '%')
    (outside : ¬DigitOfEscape front c rest) (spelled : escapedByte first second = some c) :
    decodePath (front ++ byte '%' :: first :: second :: rest) =
      decodePath (front ++ c :: rest) := by
  rw [DigitOfEscape, not_or] at outside
  cases cut front with
  | whole parts split =>
      by_cases backslash : c = byte '\\'
      · subst backslash
        have laws := @decodePath_backslash front rest first second parts split spelled
        rw [laws.1]
        by_contra accepted
        rcases laws.2.mp accepted with ⟨whole, decoded, readable, single⟩
        rcases alike whole decoded readable with none | several
        · have listed : Piece.backslash ∈ whole := List.count_pos_iff.mp (by omega)
          exact (none _ listed).2 rfl
        · omega
      · exact decodePath_swap split notEscape backslash spelled
  | sign before parts split ends =>
      subst ends
      simp only [List.append_assoc, List.cons_append, List.nil_append] at alike ⊢
      rw [decodePath_of_refused split (decodeEscape_percent first).1]
      cases rest with
      | nil =>
          symm
          rw [Option.eq_none_iff_forall_ne_some]
          intro path result
          rcases decodePath_iff.mp result with ⟨whole, decoded, readable, _, _⟩
          have whole := readable.split
          have short : pieces [byte '%', c] = none := rfl
          rw [pieces_append split, short] at whole
          simp at whole
      | cons next rest =>
          have other := Option.not_isSome_iff_eq_none.mp fun digits =>
            outside.1 ⟨before, next, rfl, rfl, digits⟩
          exact (alike.refuses split other).symm
  | half before digit parts split ends =>
      subst ends
      simp only [List.append_assoc, List.cons_append, List.nil_append] at alike ⊢
      have other := Option.not_isSome_iff_eq_none.mp fun digits =>
        outside.2 ⟨before, digit, rfl, digits⟩
      rw [decodePath_of_refused split (decodeEscape_percent digit).2, alike.refuses split other]

/-! ## The whole -/

theorem ReadAlike.strict {input path : Bytes} (alike : ReadAlike input)
    (result : decodePath input = some path) : ∃ parts decoded, Readable input parts decoded ∧
      (∀ piece ∈ parts, ¬piece.Signed) ∧ path = normalise decoded := by
  rcases decodePath_iff.mp result with ⟨parts, decoded, readable, noBackslash, same⟩
  rcases alike parts decoded readable with unsigned | several
  · exact ⟨parts, decoded, readable, fun piece listed => (unsigned piece listed).1, same⟩
  · rw [List.count_eq_zero.mpr noBackslash] at several
    omega

theorem strictlyDecoded_of_readAlike {input : Bytes} (alike : ReadAlike input) :
    StrictlyDecoded input := by
  constructor
  · intro path front rest result here
    rcases alike.strict result with ⟨parts, decoded, readable, unsigned, _⟩
    rcases written_of_pieces readable.split with ⟨written, same⟩
    apply percent_of_write written _ (same.trans here)
    intro first second listed
    have read : Piece.value (Piece.escape first second) ∈ decoded.map some := by
      rw [← readable.values]
      exact List.mem_map_of_mem listed
    rcases List.mem_map.mp read with ⟨value, _, read⟩
    rw [(escaped_of_value (unsigned _ listed) read.symm).1]
    rfl
  · intro path result
    rcases alike.strict result with ⟨parts, decoded, readable, unsigned, _⟩
    rcases written_of_pieces readable.split with ⟨written, same⟩
    have replaced := unescape_write written unsigned readable.values
    rw [← same, replaced.1]
    exact replaced.2
  · intro path result
    rcases alike.strict result with ⟨parts, decoded, readable, unsigned, normal⟩
    rcases written_of_pieces readable.split with ⟨written, same⟩
    rw [normal, ← same, (unescape_write written unsigned readable.values).1]
  · intro front rest c first second here notEscape outside spelled
    subst here
    exact alike.spelling notEscape outside spelled

/-- An accepted path without raw backslashes has no sign in its escapes. -/
theorem StrictlyDecoded.unsigned {input : Bytes} (strict : StrictlyDecoded input)
    {parts : List Piece} {decoded : Bytes} (readable : Readable input parts decoded)
    (noBackslash : Piece.backslash ∉ parts) : ∀ piece ∈ parts, ¬piece.Signed := by
  intro piece listed signed
  cases piece with
  | character c => exact signed
  | escape first second =>
      rcases written_of_pieces readable.split with ⟨_, same⟩
      rcases List.append_of_mem listed with ⟨before, after, rfl⟩
      have result := decodePath_iff.mpr ⟨_, decoded, readable, noBackslash, rfl⟩
      have here : input = before.flatMap Piece.write ++ byte '%' :: first :: second ::
          after.flatMap Piece.write := by
        rw [← same, List.flatMap_append, List.flatMap_cons]
        rfl
      rcases strict.escapes _ _ _ result here with ⟨_, _, _, rest, digits⟩
      rw [List.cons.injEq] at rest
      rw [← rest.1, signed] at digits
      have noDigit : hexDigit (byte '-') = none := by decide
      rw [escapedByte, noDigit] at digits
      simp at digits

/-- An accepted path has no single raw backslash that could be escaped. -/
theorem StrictlyDecoded.not_single {input : Bytes} (strict : StrictlyDecoded input)
    {parts : List Piece} {decoded : Bytes} (readable : Readable input parts decoded) :
    parts.count Piece.backslash ≠ 1 := by
  intro single
  have listed : Piece.backslash ∈ parts := List.count_pos_iff.mp (by omega)
  rcases written_of_pieces readable.split with ⟨written, same⟩
  rcases List.append_of_mem listed with ⟨before, after, rfl⟩
  have writtenBefore : Written before := by
    intro c inside
    exact written c (List.mem_append_left _ inside)
  have split : pieces (before.flatMap Piece.write) = some before := by
    have whole := pieces_write writtenBefore []
    rw [List.append_nil, pieces, Option.map_some, List.append_nil] at whole
    exact whole
  have here : input = before.flatMap Piece.write ++ byte '\\' :: after.flatMap Piece.write := by
    rw [← same, List.flatMap_append, List.flatMap_cons]
    rfl
  have spelled : escapedByte (byte '5') (byte 'C') = some (byte '\\') := by decide
  have noDigit (c : UInt8) : escapedByte (byte '\\') c = none ∧
      escapedByte c (byte '\\') = none := by
    have none : hexDigit (byte '\\') = none := by decide
    rw [escapedByte, escapedByte, none]
    cases hexDigit c with
    | none => simp
    | some high => simp
  have outside : ¬DigitOfEscape (before.flatMap Piece.write) (byte '\\')
      (after.flatMap Piece.write) := by
    rintro (⟨_, second, _, _, digits⟩ | ⟨_, first, _, digits⟩)
    · rw [(noDigit second).1] at digits
      simp at digits
    · rw [(noDigit first).2] at digits
      simp at digits
  have alike := strict.spelling _ _ _ _ _ here (by decide) outside spelled
  have laws := @decodePath_backslash _ (after.flatMap Piece.write) _ _ _ split spelled
  rw [here, laws.1] at alike
  exact laws.2.mpr ⟨_, decoded, here ▸ readable, single⟩ alike

/-- Paths are decoded strictly, except for an accepted path with a sign in an escape, and for
one that only a single raw backslash keeps from being accepted. -/
theorem strictlyDecoded_iff (input : Bytes) : StrictlyDecoded input ↔ ReadAlike input := by
  constructor
  · intro strict parts decoded readable
    have notSingle := strict.not_single readable
    by_cases listed : Piece.backslash ∈ parts
    · right
      have positive := List.count_pos_iff.mpr listed
      omega
    · left
      intro piece inside
      exact ⟨strict.unsigned readable listed piece inside, fun here => listed (here ▸ inside)⟩
  · exact strictlyDecoded_of_readAlike

/-- A sign in an escape, and a backslash that is accepted only when it is escaped. -/
theorem strictlyDecoded_fails :
    decodePath (ascii "/%-1") = some [byte '/', 255] ∧ ¬StrictlyDecoded (ascii "/%-1") ∧
    decodePath (ascii "/%5C") = some [byte '/', byte '\\'] ∧
    decodePath [byte '/', byte '\\'] = none ∧ ¬StrictlyDecoded [byte '/', byte '\\'] := by
  have signed : decodePath (ascii "/%-1") = some [byte '/', 255] := by decide +kernel
  have escaped : decodePath (ascii "/%5C") = some [byte '/', byte '\\'] := by decide +kernel
  have raw : decodePath [byte '/', byte '\\'] = none := by decide +kernel
  refine ⟨signed, ?_, escaped, raw, ?_⟩
  · intro strict
    rcases strict.escapes _ (ascii "/") (ascii "-1") signed rfl with ⟨_, _, _, rest, digits⟩
    have minus : [byte '-', byte '1'] = _ := rest
    rw [List.cons.injEq] at minus
    have noDigit : hexDigit (byte '-') = none := by decide
    rw [← minus.1, escapedByte, noDigit] at digits
    simp at digits
  · intro strict
    have outside : ¬DigitOfEscape (ascii "/") (byte '\\') [] := by
      rintro (⟨_, _, _, next, _⟩ | ⟨before, first, same, _⟩)
      · simp at next
      · have short := congrArg List.length same
        simp [ascii] at short
    have alike := strict.spelling (ascii "/") [] (byte '\\') (byte '5') (byte 'C') rfl (by decide)
      outside (by decide)
    rw [raw] at alike
    exact absurd (escaped.symm.trans alike) (by simp)

end IrcPlatform.Webserv
