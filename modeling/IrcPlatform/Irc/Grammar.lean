import IrcPlatform.Library.Fields
import IrcPlatform.Irc.Parameters

/-!
# The grammar of a line

Which lines `Parser.parse` refuses, told by the words of a line alone, and how every message
that can be written at all is written and read back.
-/

namespace IrcPlatform.Irc

def isSpace (c : UInt8) : Bool := c == byte ' '

/-- The longest parts of a line without a space. -/
def wordsOf (line : Bytes) : List Bytes := fields isSpace line

def startsWithColon (word : Bytes) : Bool := word.head? == some (byte ':')

/-- The first word that starts with a colon and all after it are one parameter. -/
def countParameters : List Bytes → Nat
  | [] => 0
  | word :: words => if startsWithColon word then 1 else countParameters words + 1

/-- The words behind the command. -/
def argumentWords : List Bytes → List Bytes
  | [] => []
  | first :: rest => if startsWithColon first then rest.tail else rest

/-- The lines that are no messages. -/
inductive Malformed (line : Bytes) : Prop where
  | nul (listed : 0 ∈ line)
  | blank (empty : ∀ c ∈ line, c = byte ' ')
  /-- A colon, then a space or the end. -/
  | unnamed (bare : (wordsOf line).head? = some [byte ':'])
  /-- A prefix, and nothing after it. -/
  | noCommand (linePrefix : Bytes) (alone : wordsOf line = [byte ':' :: linePrefix])
  | tooMany (count : 15 < countParameters (argumentWords (wordsOf line)))

/-- A message with nothing in it that the form of a line gives a meaning. -/
structure Message.Writable (message : Message) : Prop where
  linePrefix : byte ' ' ∉ message.linePrefix ∧ 0 ∉ message.linePrefix
  command : message.command ≠ [] ∧ byte ' ' ∉ message.command ∧ 0 ∉ message.command
  upper : ∀ c ∈ message.command, ¬(byte 'a' ≤ c ∧ c ≤ byte 'z')
  /-- Without a prefix, a colon would start one. -/
  noPrefix : message.linePrefix = [] → message.command.head? ≠ some (byte ':')
  few : message.params.length ≤ 15
  noNul : ∀ param ∈ message.params, 0 ∉ param
  middle : ∀ param ∈ message.params.dropLast,
    param ≠ [] ∧ param.head? ≠ some (byte ':') ∧ byte ' ' ∉ param

def gap (spaces : Nat) : Bytes := List.replicate spaces (byte ' ')

/-- The parameters, each behind its own gap and the last behind a colon. -/
def writeParams (gaps : Nat → Nat) : List Bytes → Bytes
  | [] => []
  | [last] => gap (gaps 0) ++ byte ':' :: last
  | param :: next :: params =>
      gap (gaps 0) ++ param ++ writeParams (fun index => gaps (index + 1)) (next :: params)

def Message.write (message : Message) (gaps : Nat → Nat) : Bytes :=
  (if message.linePrefix.isEmpty then [] else byte ':' :: message.linePrefix ++ gap (gaps 0)) ++
    message.command ++ writeParams (fun index => gaps (index + 1)) message.params

namespace Parser

/-- The function with the result that it leaves unchanged when it returns false. -/
def parseInto (line : Bytes) (out : Message) : Bool × Message :=
  match parse line with
  | none => (false, out)
  | some parsed => (true, parsed)

/-! ## Refused lines -/

theorem isSpace_space : isSpace (byte ' ') = true := rfl

theorem endsWord_of_endsField {rest : Bytes} (ends : EndsField isSpace rest) : EndsWord rest := by
  rcases ends with rfl | ⟨c, others, rfl, separates⟩
  · exact Or.inl rfl
  · rw [isSpace, beq_iff_eq] at separates
    exact Or.inr ⟨others, by rw [separates]⟩

theorem spaceless_of_whole {word : Bytes} (whole : ∀ c ∈ word, isSpace c = false) :
    byte ' ' ∉ word := by
  intro listed
  have space := whole _ listed
  simp [isSpace] at space

theorem skipSpaces_space (rest : Bytes) : skipSpaces (byte ' ' :: rest) = skipSpaces rest := by
  simp [skipSpaces]

theorem parseParams_eq_none_iff (room : Nat) (rest : Bytes) :
    parseParams room rest = none ↔ room < countParameters (wordsOf rest) := by
  unfold wordsOf
  induction rest using fields_induction isSpace generalizing room with
  | nothing => simp [parseParams_nil, countParameters]
  | separator c rest separates ih =>
      rw [fields_separator separates]
      rw [isSpace, beq_iff_eq] at separates
      rw [separates, parseParams_space]
      exact ih room
  | word word rest nonempty whole ends ih =>
      have spaceless := spaceless_of_whole whole
      rw [fields_word nonempty whole ends, countParameters]
      cases room with
      | zero =>
          have more : skipSpaces (word ++ rest) ≠ [] := by
            rw [skipSpaces_word nonempty spaceless]
            simp [nonempty]
          rw [parseParams_full more]
          split
          · simp
          · simp
      | succ room =>
          cases colon : startsWithColon word with
          | true =>
              rw [startsWithColon, beq_iff_eq] at colon
              rcases List.head?_eq_some_iff.mp colon with ⟨text, rfl⟩
              rw [List.cons_append, parseParams_colon]
              simp
          | false =>
              rw [startsWithColon, beq_eq_false_iff_ne] at colon
              have middle : isMiddle word = true := isMiddle_iff.mpr ⟨nonempty, colon, spaceless⟩
              rw [parseParams_word middle (endsWord_of_endsField ends), Option.map_eq_none_iff, ih]
              simp

theorem parseCommand_eq_none_iff (linePrefix rest : Bytes) :
    parseCommand linePrefix (skipSpaces rest) = none ↔
      wordsOf rest = [] ∨ 15 < countParameters (wordsOf rest).tail := by
  unfold wordsOf
  induction rest using fields_induction isSpace with
  | nothing => simp [parseCommand, skipSpaces, takeToken]
  | separator c rest separates ih =>
      rw [fields_separator separates]
      rw [isSpace, beq_iff_eq] at separates
      rw [separates, skipSpaces_space]
      exact ih
  | word word rest nonempty whole ends ih =>
      have spaceless := spaceless_of_whole whole
      rw [fields_word nonempty whole ends, skipSpaces_word nonempty spaceless,
        parseCommand_word nonempty spaceless (endsWord_of_endsField ends),
        Option.map_eq_none_iff, parseParams_eq_none_iff]
      simp [maxParams, wordsOf]

theorem parse_space (rest : Bytes) : parse (byte ' ' :: rest) = parse rest := by
  have noNul : (byte ' ' :: rest).contains 0 = rest.contains 0 := by
    rw [List.contains_cons]
    rfl
  rw [parse, noNul, skipSpaces_space, parse]

theorem malformed_space (rest : Bytes) : Malformed (byte ' ' :: rest) ↔ Malformed rest := by
  have words : wordsOf (byte ' ' :: rest) = wordsOf rest := fields_separator isSpace_space rest
  have notNul : (0 : UInt8) ≠ byte ' ' := by decide
  constructor
  · intro malformed
    cases malformed with
    | nul listed => exact .nul (List.mem_of_ne_of_mem notNul listed)
    | blank empty => exact .blank fun c listed => empty c (List.mem_cons_of_mem _ listed)
    | unnamed bare => exact .unnamed (words ▸ bare)
    | noCommand linePrefix alone => exact .noCommand linePrefix (words ▸ alone)
    | tooMany count => exact .tooMany (words ▸ count)
  · intro malformed
    cases malformed with
    | nul listed => exact .nul (List.mem_cons_of_mem _ listed)
    | blank empty => exact .blank (List.forall_mem_cons.mpr ⟨rfl, empty⟩)
    | unnamed bare => exact .unnamed (words.symm ▸ bare)
    | noCommand linePrefix alone => exact .noCommand linePrefix (words.symm ▸ alone)
    | tooMany count => exact .tooMany (words.symm ▸ count)

/-- A line that starts with a word. -/
theorem parse_eq_none_of_word {word rest : Bytes} (nonempty : word ≠ [])
    (whole : ∀ c ∈ word, isSpace c = false) (ends : EndsField isSpace rest) :
    parse (word ++ rest) = none ↔ Malformed (word ++ rest) := by
  have spaceless := spaceless_of_whole whole
  have words : wordsOf (word ++ rest) = word :: wordsOf rest := fields_word nonempty whole ends
  have kept := skipSpaces_word nonempty spaceless rest
  by_cases nul : 0 ∈ word ++ rest
  · have refused : parse (word ++ rest) = none := by rw [parse, if_pos (by simpa using nul)]
    exact iff_of_true refused (.nul nul)
  rcases List.exists_cons_of_ne_nil nonempty with ⟨first, others, rfl⟩
  rw [List.mem_cons, not_or] at spaceless
  have shown : ¬∀ c ∈ first :: others ++ rest, c = byte ' ' :=
    fun empty => spaceless.1 (empty first List.mem_cons_self).symm
  have cut := takeToken_of_ends spaceless.2 (endsWord_of_endsField ends)
  rw [List.cons_append] at words kept nul shown ⊢
  rw [parse, if_neg (by simpa using nul), kept]
  by_cases colon : first = byte ':'
  · subst colon
    have arguments : argumentWords (wordsOf (byte ':' :: (others ++ rest))) =
        (wordsOf rest).tail := by
      simp [words, argumentWords, startsWithColon]
    simp only [if_true, cut]
    by_cases empty : others = []
    · subst empty
      exact iff_of_true rfl (.unnamed (by rw [words, List.head?_cons]))
    · have named : others.isEmpty = false := by simpa using empty
      rw [named, if_neg Bool.false_ne_true, parseCommand_eq_none_iff]
      constructor
      · rintro (alone | count)
        · exact .noCommand others (by rw [words, alone])
        · exact .tooMany (arguments ▸ count)
      · intro malformed
        cases malformed with
        | nul listed => exact absurd listed nul
        | blank spaces => exact absurd spaces shown
        | unnamed bare =>
            rw [words, List.head?_cons, Option.some.injEq, List.cons.injEq] at bare
            exact absurd bare.2 empty
        | noCommand linePrefix alone =>
            rw [words, List.cons.injEq] at alone
            exact Or.inl alone.2
        | tooMany count => exact Or.inr (arguments ▸ count)
  · have arguments : argumentWords (wordsOf (first :: (others ++ rest))) = wordsOf rest := by
      simp [words, argumentWords, startsWithColon, colon]
    have command := parseCommand_word nonempty (by simpa using spaceless)
      (endsWord_of_endsField ends) []
    rw [List.cons_append] at command
    simp only [if_neg colon]
    rw [command, Option.map_eq_none_iff, parseParams_eq_none_iff]
    constructor
    · intro count
      exact .tooMany (arguments ▸ count)
    · intro malformed
      cases malformed with
      | nul listed => exact absurd listed nul
      | blank spaces => exact absurd spaces shown
      | unnamed bare =>
          rw [words, List.head?_cons, Option.some.injEq, List.cons.injEq] at bare
          exact absurd bare.1 colon
      | noCommand linePrefix alone =>
          rw [words, List.cons.injEq, List.cons.injEq] at alone
          exact absurd alone.1.1 colon
      | tooMany count => exact arguments ▸ count

theorem parse_eq_none_iff (line : Bytes) : parse line = none ↔ Malformed line := by
  induction line using fields_induction isSpace with
  | nothing => exact iff_of_true rfl (.blank (List.forall_mem_nil _))
  | separator c rest separates ih =>
      rw [isSpace, beq_iff_eq] at separates
      rw [separates, parse_space, malformed_space]
      exact ih
  | word word rest nonempty whole ends _ => exact parse_eq_none_of_word nonempty whole ends

/-! ## Written messages -/

theorem skipSpaces_gap (spaces : Nat) (rest : Bytes) :
    skipSpaces (gap spaces ++ rest) = skipSpaces rest := by
  induction spaces with
  | zero => rfl
  | succ spaces ih =>
      rw [gap, List.replicate_succ, List.cons_append, skipSpaces_space]
      exact ih

theorem parseParams_gap (room spaces : Nat) (rest : Bytes) :
    parseParams room (gap spaces ++ rest) = parseParams room rest := by
  rw [parseParams, skipSpaces_gap, parseParams]

theorem endsWord_gap {spaces : Nat} (positive : 0 < spaces) (rest : Bytes) :
    EndsWord (gap spaces ++ rest) := by
  cases spaces with
  | zero => simp at positive
  | succ spaces => exact Or.inr ⟨gap spaces ++ rest, rfl⟩

theorem endsWord_writeParams {gaps : Nat → Nat} (positive : ∀ index, 0 < gaps index)
    (params : List Bytes) : EndsWord (writeParams gaps params) := by
  cases params with
  | nil => exact Or.inl rfl
  | cons param params =>
      cases params with
      | nil => exact endsWord_gap (positive 0) _
      | cons next params =>
          rw [writeParams, List.append_assoc]
          exact endsWord_gap (positive 0) _

/-- The parameters are read back one by one, the last as it is. -/
theorem parseParams_writeParams {gaps : Nat → Nat} (positive : ∀ index, 0 < gaps index)
    {params : List Bytes} (middle : ∀ param ∈ params.dropLast, isMiddle param = true) {room : Nat}
    (few : params.length ≤ room) : parseParams room (writeParams gaps params) = some params := by
  induction params generalizing gaps room with
  | nil => exact parseParams_nil room
  | cons param params ih =>
      rcases Nat.exists_eq_add_of_le' (Nat.one_le_of_lt few) with ⟨less, rfl⟩
      rw [List.length_cons, Nat.add_le_add_iff_right] at few
      cases params with
      | nil => rw [writeParams, parseParams_gap, parseParams_colon]
      | cons next params =>
          rw [List.dropLast_cons_cons, List.forall_mem_cons] at middle
          have later := endsWord_writeParams (fun index => positive (index + 1)) (next :: params)
          rw [writeParams, List.append_assoc, parseParams_gap, parseParams_word middle.1 later,
            ih (fun index => positive (index + 1)) middle.2 few, Option.map_some]

/-- A prefix and the command behind it, with any gap between. -/
theorem parse_prefix_gap {linePrefix word rest : Bytes} (named : linePrefix ≠ [])
    (prefixSpaceless : byte ' ' ∉ linePrefix) (nonempty : word ≠ []) (spaceless : byte ' ' ∉ word)
    (ends : EndsWord rest) {spaces : Nat} (positive : 0 < spaces)
    (noNul : 0 ∉ byte ':' :: (linePrefix ++ (gap spaces ++ (word ++ rest)))) :
    parse (byte ':' :: (linePrefix ++ (gap spaces ++ (word ++ rest)))) =
      (parseParams maxParams rest).map fun params =>
        { linePrefix := linePrefix, command := IrcUtil.toUpperAscii word, params := params } := by
  have kept (line : Bytes) : skipSpaces (byte ':' :: line) = byte ':' :: line := by
    simp [skipSpaces, byte]
  have given : linePrefix.isEmpty = false := by simpa using named
  rw [parse, if_neg (by simpa using noNul), kept]
  simp only [if_true, takeToken_of_ends prefixSpaceless (endsWord_gap positive (word ++ rest)),
    given, Bool.false_eq_true, if_false, skipSpaces_gap, skipSpaces_word nonempty spaceless,
    parseCommand_word nonempty spaceless ends]

theorem toUpperAscii_of_upper {command : Bytes}
    (upper : ∀ c ∈ command, ¬(byte 'a' ≤ c ∧ c ≤ byte 'z')) :
    IrcUtil.toUpperAscii command = command := by
  have kept : ∀ c ∈ command,
      (if byte 'a' ≤ c && c ≤ byte 'z' then c - byte 'a' + byte 'A' else c) = id c := by
    intro c listed
    rw [if_neg (by simpa using upper c listed), id]
  rw [IrcUtil.toUpperAscii, List.map_congr_left kept, List.map_id]

theorem not_mem_writeParams {params : List Bytes} (noNul : ∀ param ∈ params, 0 ∉ param)
    (gaps : Nat → Nat) : 0 ∉ writeParams gaps params := by
  have spaces (count : Nat) : (0 : UInt8) ∉ gap count := by
    simp [gap, byte]
  induction params generalizing gaps with
  | nil => exact List.not_mem_nil
  | cons param params ih =>
      rw [List.forall_mem_cons] at noNul
      cases params with
      | nil => simp [writeParams, spaces, noNul.1, byte]
      | cons next params =>
          rw [writeParams, List.mem_append, List.mem_append, not_or, not_or]
          exact ⟨⟨spaces _, noNul.1⟩, ih noNul.2 _⟩

theorem parse_write {message : Message} (writable : message.Writable) {gaps : Nat → Nat}
    (positive : ∀ index, 0 < gaps index) : parse (message.write gaps) = some message := by
  rcases message with ⟨linePrefix, command, params⟩
  rcases writable with ⟨⟨prefixSpaceless, prefixNul⟩, ⟨nonempty, spaceless, commandNul⟩, upper,
    noPrefix, few, noNul, middle⟩
  simp only at *
  have paramsRead := @parseParams_writeParams (fun index => gaps (index + 1))
    (fun index => positive (index + 1)) params
    (fun param listed => isMiddle_iff.mpr (middle param listed)) maxParams few
  have ends := @endsWord_writeParams (fun index => gaps (index + 1))
    (fun index => positive (index + 1)) params
  have paramsNul := not_mem_writeParams noNul fun index => gaps (index + 1)
  by_cases named : linePrefix = []
  · subst named
    have commandMiddle := isMiddle_iff.mpr ⟨nonempty, noPrefix rfl, spaceless⟩
    simp only [Message.write, List.isEmpty_nil, if_true, List.nil_append]
    rw [parse_word commandMiddle ends (by simp [commandNul, paramsNul]), paramsRead,
      Option.map_some, toUpperAscii_of_upper upper]
  · have given : linePrefix.isEmpty = false := by simpa using named
    simp only [Message.write, given, Bool.false_eq_true, if_false, List.cons_append,
      List.append_assoc]
    rw [parse_prefix_gap named prefixSpaceless nonempty spaceless ends (positive 0)
      (by simp [prefixNul, commandNul, paramsNul, gap, byte]), paramsRead, Option.map_some,
      toUpperAscii_of_upper upper]

theorem parseInto_grammar (line : Bytes) (out : Message) {message : Message}
    (writable : message.Writable) {gaps : Nat → Nat} (positive : ∀ index, 0 < gaps index) :
    ((parseInto line out).1 = false ↔ Malformed line) ∧
      ((parseInto line out).1 = false → (parseInto line out).2 = out) ∧
      parseInto (message.write gaps) out = (true, message) := by
  refine ⟨?_, ?_, ?_⟩
  · rw [← parse_eq_none_iff, parseInto]
    cases parse line with
    | none => simp
    | some parsed => simp
  · rw [parseInto]
    cases parse line with
    | none => intro _; rfl
    | some parsed => intro accepted; simp at accepted
  · rw [parseInto, parse_write writable positive]

/-- A line with a prefix, a parameter and an empty text. -/
theorem parseInto_grammar_topic :
    ((parseInto (ascii " : TOPIC") ⟨[], [], []⟩).1 = false ↔ Malformed (ascii " : TOPIC")) ∧
      ((parseInto (ascii " : TOPIC") ⟨[], [], []⟩).1 = false →
        (parseInto (ascii " : TOPIC") ⟨[], [], []⟩).2 = ⟨[], [], []⟩) ∧
      parseInto (Message.write ⟨ascii "a:b", ascii "TOPIC", [ascii "#c", []]⟩ fun _ => 2)
        ⟨[], [], []⟩ = (true, ⟨ascii "a:b", ascii "TOPIC", [ascii "#c", []]⟩) :=
  parseInto_grammar _ _ (by constructor <;> decide +kernel) fun _ => Nat.two_pos

end Parser

end IrcPlatform.Irc
