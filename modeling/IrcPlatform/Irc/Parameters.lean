import Mathlib.Data.List.TakeDrop
import Mathlib.Data.List.TakeWhile
import IrcPlatform.Irc.Message

/-!
# Lines put together and read back

A reply is written as words with a space in front of each, and ends with a text behind a
colon. `Parser.parse` gives the words back exactly when each of them can stand in the
middle of a line: it is not empty, has no space and does not start with a colon.
-/

namespace IrcPlatform.Irc

/-- A word that can stand in the middle of a line. -/
def isMiddle (word : Bytes) : Bool :=
  !word.isEmpty && word.head? != some (byte ':') && !word.contains (byte ' ')

/-- Words, each with a space in front. -/
def spaced (words : List Bytes) : Bytes := words.flatMap (byte ' ' :: ·)

/-- A text behind a colon, with a space in front. -/
def behindColon (text : Bytes) : Bytes := byte ' ' :: byte ':' :: text

theorem isMiddle_iff {word : Bytes} : isMiddle word = true ↔
    word ≠ [] ∧ word.head? ≠ some (byte ':') ∧ byte ' ' ∉ word := by
  simp [isMiddle, and_assoc]

/-- A safe token is such a word, without the bytes that end or cut a line. -/
theorem isSafeToken_iff_isMiddle {token : Bytes} : IrcUtil.isSafeToken token = true ↔
    isMiddle token = true ∧ ∀ c ∈ token, c ≠ 13 ∧ c ≠ 10 ∧ c ≠ 0 := by
  rw [isMiddle_iff]
  cases token with
  | nil => simp [IrcUtil.isSafeToken]
  | cons first rest =>
      simp only [IrcUtil.isSafeToken, Bool.and_eq_true, bne_iff_ne, List.all_eq_true,
        Bool.not_eq_true', Bool.or_eq_false_iff, beq_eq_false_iff_ne, ne_eq, List.head?_cons,
        Option.some.injEq, reduceCtorEq, not_false_eq_true, true_and, and_assoc]
      constructor
      · rintro ⟨noColon, bytes⟩
        refine ⟨noColon, ?_, fun c listed => (bytes c listed).2⟩
        intro space
        exact (bytes _ space).1 rfl
      · rintro ⟨noColon, spaceless, bytes⟩
        refine ⟨noColon, fun c listed => ⟨?_, bytes c listed⟩⟩
        rintro rfl
        exact spaceless listed

theorem spaced_cons (word : Bytes) (words : List Bytes) :
    spaced (word :: words) = byte ' ' :: (word ++ spaced words) := by
  simp [spaced]

theorem spaced_append (first second : List Bytes) :
    spaced (first ++ second) = spaced first ++ spaced second := by
  simp [spaced]

/-- Nothing follows a word, or a space. -/
def EndsWord (rest : Bytes) : Prop := rest = [] ∨ ∃ others, rest = byte ' ' :: others

theorem endsWord_behindColon (text : Bytes) : EndsWord (behindColon text) := Or.inr ⟨_, rfl⟩

theorem endsWord_spaced (words : List Bytes) {rest : Bytes} (ends : EndsWord rest) :
    EndsWord (spaced words ++ rest) := by
  cases words with
  | nil => exact ends
  | cons word words => exact Or.inr ⟨_, by rw [spaced_cons, List.cons_append]⟩

namespace Parser

theorem takeToken_of_ends {token rest : Bytes} (spaceless : byte ' ' ∉ token)
    (ends : EndsWord rest) : takeToken (token ++ rest) = (token, rest) := by
  have passes : ∀ c ∈ token, (c != byte ' ') = true := by
    intro c listed
    rw [bne_iff_ne]
    rintro rfl
    exact spaceless listed
  rw [takeToken, List.span_eq_takeWhile_dropWhile, List.takeWhile_append_of_pos passes,
    List.dropWhile_append_of_pos passes]
  rcases ends with rfl | ⟨others, rfl⟩
  · simp
  · simp

/-- The token at the front has no space, and a space or nothing follows it. -/
theorem takeToken_spaceless (line : Bytes) : byte ' ' ∉ (takeToken line).1 := by
  rw [takeToken, List.span_eq_takeWhile_dropWhile]
  intro listed
  have passed := List.mem_takeWhile_imp listed
  simp at passed

theorem skipSpaces_word {word : Bytes} (nonempty : word ≠ []) (spaceless : byte ' ' ∉ word)
    (rest : Bytes) : skipSpaces (word ++ rest) = word ++ rest := by
  rcases List.exists_cons_of_ne_nil nonempty with ⟨first, others, rfl⟩
  rw [List.mem_cons, not_or] at spaceless
  simp [skipSpaces, Ne.symm spaceless.1]

theorem parseParams_nil (room : Nat) : parseParams room [] = some [] := by
  rw [parseParams, skipSpaces, List.dropWhile_nil]

theorem parseParams_space (room : Nat) (rest : Bytes) :
    parseParams room (byte ' ' :: rest) = parseParams room rest := by
  have skipped : skipSpaces (byte ' ' :: rest) = skipSpaces rest := by simp [skipSpaces]
  rw [parseParams, skipped, parseParams]

theorem parseParams_word {word rest : Bytes} (middle : isMiddle word = true)
    (ends : EndsWord rest) (room : Nat) :
    parseParams (room + 1) (word ++ rest) = (parseParams room rest).map (word :: ·) := by
  rcases isMiddle_iff.mp middle with ⟨nonempty, noColon, spaceless⟩
  have kept := skipSpaces_word nonempty spaceless rest
  have taken := takeToken_of_ends spaceless ends
  rcases List.exists_cons_of_ne_nil nonempty with ⟨first, others, rfl⟩
  rw [List.head?_cons, ne_eq, Option.some.injEq] at noColon
  rw [List.cons_append] at kept taken ⊢
  rw [parseParams, kept]
  simp only [if_neg noColon, taken]

theorem parseParams_colon (room : Nat) (text : Bytes) :
    parseParams (room + 1) (byte ':' :: text) = some [text] := by
  have kept : skipSpaces (byte ':' :: text) = byte ':' :: text := by simp [skipSpaces, byte]
  rw [parseParams, kept]
  simp only [if_true]

theorem parseParams_full {rest : Bytes} (more : skipSpaces rest ≠ []) :
    parseParams 0 rest = none := by
  rcases List.exists_cons_of_ne_nil more with ⟨first, others, same⟩
  rw [parseParams, same]

/-- Middle words are read one after the other. -/
theorem parseParams_spaced {words : List Bytes} (middle : ∀ word ∈ words, isMiddle word = true)
    {rest : Bytes} (ends : EndsWord rest) {room : Nat} (fits : words.length ≤ room) :
    parseParams room (spaced words ++ rest) =
      (parseParams (room - words.length) rest).map (words ++ ·) := by
  induction words generalizing room with
  | nil => simp [spaced]
  | cons word words ih =>
      rw [List.length_cons] at fits ⊢
      rcases Nat.exists_eq_add_of_le' (Nat.one_le_iff_ne_zero.mpr (by omega : room ≠ 0)) with
        ⟨less, rfl⟩
      rw [spaced_cons, List.cons_append, parseParams_space, List.append_assoc,
        parseParams_word (middle word List.mem_cons_self) (endsWord_spaced words ends),
        ih (fun other listed => middle other (List.mem_cons_of_mem _ listed)) (by omega),
        Nat.add_sub_add_right, Option.map_map]
      rfl

/-- Every parameter but the last can stand in the middle. -/
theorem isMiddle_of_parseParams {room : Nat} {rest : Bytes} {params : List Bytes}
    (parsed : parseParams room rest = some params) :
    params.length ≤ room ∧ ∀ word ∈ params.dropLast, isMiddle word = true := by
  induction room generalizing rest params with
  | zero =>
      rw [parseParams] at parsed
      split at parsed
      · rw [Option.some.injEq] at parsed
        simp [← parsed]
      · simp at parsed
  | succ room ih =>
      rw [parseParams] at parsed
      split at parsed
      · rw [Option.some.injEq] at parsed
        simp [← parsed]
      next first tail skipped =>
        simp only at parsed
        split at parsed
        · rw [Option.some.injEq] at parsed
          simp [← parsed]
        next noColon =>
          rcases Option.map_eq_some_iff.mp parsed with ⟨others, later, rfl⟩
          rcases ih later with ⟨short, middle⟩
          have noSpace : first ≠ byte ' ' := by
            rintro rfl
            have kept := List.head?_dropWhile_not (fun c => c == byte ' ') rest
            rw [show rest.dropWhile (fun c => c == byte ' ') = skipSpaces rest from rfl,
              skipped] at kept
            simp at kept
          have token : isMiddle (takeToken (first :: tail)).1 = true := by
            apply isMiddle_iff.mpr
            refine ⟨?_, ?_, takeToken_spaceless _⟩
            · simp [takeToken, List.span_eq_takeWhile_dropWhile, noSpace]
            · simp [takeToken, List.span_eq_takeWhile_dropWhile, noSpace, noColon]
          refine ⟨by rw [List.length_cons]; omega, ?_⟩
          intro word listed
          cases others with
          | nil => simp at listed
          | cons second others =>
              rw [List.dropLast_cons_cons, List.mem_cons] at listed
              rcases listed with rfl | listed
              · exact token
              · exact middle word listed

/-- Words and a text come back exactly when all words can stand in the middle. -/
theorem parseParams_behindColon_iff {room : Nat} {words : List Bytes} {text : Bytes} :
    parseParams room (spaced words ++ behindColon text) = some (words ++ [text]) ↔
      (∀ word ∈ words, isMiddle word = true) ∧ words.length < room := by
  constructor
  · intro parsed
    rcases isMiddle_of_parseParams parsed with ⟨short, middle⟩
    rw [List.dropLast_concat] at middle
    rw [List.length_append, List.length_singleton] at short
    exact ⟨middle, short⟩
  · rintro ⟨middle, short⟩
    rcases Nat.exists_eq_add_of_le' (by omega : 1 ≤ room - words.length) with ⟨less, more⟩
    rw [parseParams_spaced middle (endsWord_behindColon text) (by omega), more, behindColon,
      parseParams_space, parseParams_colon]
    rfl

/-- A last word is read back as it is only when it can stand in the middle. -/
theorem isMiddle_of_parseParams_single {room : Nat} {word : Bytes}
    (parsed : parseParams room (byte ' ' :: word) = some [word]) : isMiddle word = true := by
  rw [parseParams_space, parseParams] at parsed
  split at parsed
  · simp at parsed
  next first tail skipped =>
    cases room with
    | zero => simp at parsed
    | succ room =>
        simp only at parsed
        have suffix : (first :: tail).length ≤ word.length := by
          rw [← skipped]
          exact (List.dropWhile_suffix _).length_le
        split at parsed
        next =>
          rw [Option.some.injEq, List.cons.injEq] at parsed
          rw [parsed.1, List.length_cons] at suffix
          omega
        next noColon =>
          rcases Option.map_eq_some_iff.mp parsed with ⟨others, _, same⟩
          rw [List.cons.injEq] at same
          have spaceless := same.1 ▸ takeToken_spaceless (first :: tail)
          have kept : skipSpaces word = word := by
            cases word with
            | nil => rfl
            | cons c word =>
                rw [List.mem_cons, not_or] at spaceless
                simp [skipSpaces, Ne.symm spaceless.1]
          rw [kept] at skipped
          rw [isMiddle_iff]
          refine ⟨by simp [skipped], ?_, spaceless⟩
          rw [skipped, List.head?_cons, ne_eq, Option.some.injEq]
          exact noColon

/-- The same for a line without a text. -/
theorem parseParams_spaced_iff {room : Nat} {words : List Bytes} :
    parseParams room (spaced words) = some words ↔
      (∀ word ∈ words, isMiddle word = true) ∧ words.length ≤ room := by
  constructor
  · intro parsed
    rcases isMiddle_of_parseParams parsed with ⟨short, middle⟩
    refine ⟨?_, short⟩
    rcases List.eq_nil_or_concat words with rfl | ⟨front, last, rfl⟩
    · simp
    · rw [List.concat_eq_append] at parsed short middle ⊢
      rw [List.dropLast_concat] at middle
      rw [List.length_append, List.length_singleton] at short
      have one : spaced [last] = byte ' ' :: last := by simp [spaced]
      rw [spaced_append, one, parseParams_spaced middle (Or.inr ⟨_, rfl⟩) (by omega)] at parsed
      rcases Option.map_eq_some_iff.mp parsed with ⟨single, alone, same⟩
      rw [List.append_cancel_left_eq] at same
      subst same
      intro word listed
      rcases List.mem_append.mp listed with inFront | atEnd
      · exact middle word inFront
      · rw [List.mem_singleton.mp atEnd]
        exact isMiddle_of_parseParams_single alone
  · rintro ⟨middle, fits⟩
    have read := parseParams_spaced middle (Or.inl rfl) fits
    rw [List.append_nil, parseParams_nil] at read
    simpa using read

/-! ## The front of a line -/

theorem parseCommand_word {word : Bytes} (nonempty : word ≠ []) (spaceless : byte ' ' ∉ word)
    {rest : Bytes} (ends : EndsWord rest) (linePrefix : Bytes) :
    parseCommand linePrefix (word ++ rest) = (parseParams maxParams rest).map fun params =>
      { linePrefix := linePrefix, command := IrcUtil.toUpperAscii word, params := params } := by
  have isWord : word.isEmpty = false := by simpa using nonempty
  simp only [parseCommand, takeToken_of_ends spaceless ends, isWord, Bool.false_eq_true, if_false]

/-- A line that starts with its command. -/
theorem parse_word {word rest : Bytes} (middle : isMiddle word = true) (ends : EndsWord rest)
    (noNul : 0 ∉ word ++ rest) :
    parse (word ++ rest) = (parseParams maxParams rest).map fun params =>
      { linePrefix := [], command := IrcUtil.toUpperAscii word, params := params } := by
  rcases isMiddle_iff.mp middle with ⟨nonempty, noColon, spaceless⟩
  have command := parseCommand_word nonempty spaceless ends []
  have kept := skipSpaces_word nonempty spaceless rest
  rcases List.exists_cons_of_ne_nil nonempty with ⟨first, others, rfl⟩
  rw [List.head?_cons, ne_eq, Option.some.injEq] at noColon
  rw [List.cons_append] at command kept noNul ⊢
  rw [parse, if_neg (by simpa using noNul), kept]
  simp only [if_neg noColon, command]

/-- A line that starts with a prefix. -/
theorem parse_prefix {linePrefix word rest : Bytes} (named : linePrefix ≠ [])
    (prefixSpaceless : byte ' ' ∉ linePrefix) (nonempty : word ≠ [])
    (spaceless : byte ' ' ∉ word) (ends : EndsWord rest)
    (noNul : 0 ∉ byte ':' :: (linePrefix ++ byte ' ' :: (word ++ rest))) :
    parse (byte ':' :: (linePrefix ++ byte ' ' :: (word ++ rest))) =
      (parseParams maxParams rest).map fun params =>
        { linePrefix := linePrefix, command := IrcUtil.toUpperAscii word, params := params } := by
  have kept (line : Bytes) : skipSpaces (byte ':' :: line) = byte ':' :: line := by
    simp [skipSpaces, byte]
  have cut : skipSpaces (byte ' ' :: (word ++ rest)) = word ++ rest := by
    have skipped := skipSpaces_word nonempty spaceless rest
    simpa [skipSpaces] using skipped
  have isNamed : linePrefix.isEmpty = false := by simpa using named
  rw [parse, if_neg (by simpa using noNul), kept]
  simp only [if_true, takeToken_of_ends prefixSpaceless (Or.inr ⟨_, rfl⟩), isNamed,
    Bool.false_eq_true, if_false, cut, parseCommand_word nonempty spaceless ends]

end Parser

end IrcPlatform.Irc
