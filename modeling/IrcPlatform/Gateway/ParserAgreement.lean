import IrcPlatform.Gateway.Connection
import IrcPlatform.Gateway.MessageLine
import IrcPlatform.Irc.LineForm
import IrcPlatform.Library.Fields

/-!
# The two parsers

The gateway reads the lines of the server with a parser of its own, which cuts a line at the
first `" :"` and then at any white space. The parser of the server knows one separator only,
the space, and takes no more than 15 parameters. On a line of the server the two agree
exactly when neither difference shows.
-/

namespace IrcPlatform.Gateway

open JsString

def isSpace (c : UInt16) : Bool := c == 0x20

def isSpaceByte (c : UInt8) : Bool := c == byte ' '

/-! ## The part before the colon -/

theorem splitTrailing_spec (text : JsString) :
    text = (splitTrailing text).1 ++
        ((splitTrailing text).2.map fun rest => 0x20 :: unit ':' :: rest).getD [] ∧
      ¬[0x20, unit ':'] <:+: (splitTrailing text).1 := by
  induction text using splitTrailing.induct with
  | case1 => simp [splitTrailing]
  | case2 c =>
      rw [splitTrailing]
      refine ⟨by simp, ?_⟩
      intro inside
      exact absurd inside.length_le (by simp)
  | case3 c next rest found =>
      rw [splitTrailing, if_pos found]
      refine ⟨by simp [found.1, found.2], ?_⟩
      intro inside
      exact absurd inside.length_le (by simp)
  | case4 c next rest missing ih =>
      rw [splitTrailing, if_neg missing]
      refine ⟨by rw [List.cons_append, ← ih.1], ?_⟩
      intro inside
      rcases List.infix_cons_iff.mp inside with front | later
      · -- The first two characters of the part are those of the text.
        rcases front with ⟨tail, same⟩
        rw [List.cons_append, List.cons.injEq] at same
        have first := ih.1
        rw [← same.2, List.cons_append, List.cons_append, List.cons.injEq] at first
        exact missing ⟨same.1.symm, first.1⟩
      · exact ih.2 later

theorem splitTrailing_append {word : JsString} (spaceless : 0x20 ∉ word) (rest : JsString) :
    splitTrailing (word ++ rest) =
      (word ++ (splitTrailing rest).1, (splitTrailing rest).2) := by
  induction word with
  | nil => rfl
  | cons c word ih =>
      rw [List.mem_cons, not_or] at spaceless
      rw [List.cons_append]
      cases following : word ++ rest with
      | nil =>
          rw [List.append_eq_nil_iff] at following
          rw [following.1, following.2]
          rfl
      | cons next others =>
          rw [splitTrailing, if_neg (fun found => spaceless.1 found.1.symm), ← following,
            ih spaceless.2]
          rfl

/-! ## Fields of a text and of its encoding -/

theorem isWhiteSpace_not_surrogate {c : UInt16} (white : isWhiteSpace c = true) :
    (isHighSurrogate c || isLowSurrogate c) = false := by
  rw [Bool.or_eq_false_iff, Bool.eq_false_iff, Bool.eq_false_iff, ne_eq, ne_eq,
    isHighSurrogate_iff, isLowSurrogate_iff]
  simp only [isWhiteSpace, Bool.or_eq_true, Bool.and_eq_true, decide_eq_true_eq, beq_iff_eq,
    UInt16.le_iff_toNat_le, ← UInt16.toNat_inj] at white
  simp at white
  omega

/-- The parts between separators are well formed like the text. -/
theorem wellFormed_of_mem_fields {isSeparator : UInt16 → Bool}
    (single : ∀ c, isSeparator c = true → (isHighSurrogate c || isLowSurrogate c) = false)
    {text field : JsString} (formed : wellFormed text = true)
    (listed : field ∈ fields isSeparator text) : wellFormed field = true := by
  induction text using fields_induction isSeparator with
  | nothing => simp at listed
  | separator c rest separates ih =>
      rw [fields_separator separates] at listed
      rw [wellFormed_cons (single c separates)] at formed
      exact ih formed listed
  | word word rest nonempty whole ends ih =>
      rw [fields_word nonempty whole ends, List.mem_cons] at listed
      rcases ends with rfl | ⟨c, others, rfl, separates⟩
      · rw [List.append_nil] at formed
        rcases listed with rfl | later
        · exact formed
        · simp at later
      · rw [wellFormed_append (single c separates), Bool.and_eq_true] at formed
        rcases listed with rfl | later
        · exact formed.1
        · apply ih _ later
          rw [wellFormed_cons (single c separates)]
          exact formed.2

/-- Cutting at spaces and encoding can change places. -/
theorem fields_utf8 (text : JsString) :
    fields isSpaceByte (utf8 text) = (fields isSpace text).map utf8 := by
  induction text using fields_induction isSpace with
  | nothing => simp [utf8]
  | separator c rest separates ih =>
      have space : c = 0x20 := beq_iff_eq.mp separates
      subst space
      rw [fields_separator separates, utf8_cons_of_lt (by decide), fields_separator (by decide),
        ih]
  | word word rest nonempty whole ends ih =>
      have spaceless : ∀ b ∈ utf8 word, isSpaceByte b = false := by
        intro b listed
        rw [isSpaceByte, beq_eq_false_iff_ne]
        rintro rfl
        have member := (@mem_utf8_iff 0x20 (by decide) word).mp listed
        exact absurd (whole _ member) (by decide)
      have cut : utf8 (word ++ rest) = utf8 word ++ utf8 rest ∧
          EndsField isSpaceByte (utf8 rest) := by
        rcases ends with rfl | ⟨c, others, rfl, separates⟩
        · exact ⟨by simp [utf8], Or.inl rfl⟩
        · have space : c = 0x20 := beq_iff_eq.mp separates
          subst space
          rw [utf8_append_cons (by decide), utf8_cons_of_lt (by decide)]
          exact ⟨rfl, Or.inr ⟨_, _, rfl, by decide⟩⟩
      rw [cut.1, fields_word (utf8_ne_nil nonempty) spaceless cut.2,
        fields_word nonempty whole ends, ih, List.map_cons]

/-- Without `" :"` and without a colon in front, no word starts with a colon. -/
theorem head_of_mem_fields {text field : JsString} (noColon : text.head? ≠ some (unit ':'))
    (uncut : ¬[0x20, unit ':'] <:+: text) (listed : field ∈ fields isSpace text) :
    field.head? ≠ some (unit ':') := by
  induction text using fields_induction isSpace with
  | nothing => simp at listed
  | separator c rest separates ih =>
      rw [fields_separator separates] at listed
      have space : c = 0x20 := beq_iff_eq.mp separates
      subst space
      apply ih _ _ listed
      · intro first
        rcases List.head?_eq_some_iff.mp first with ⟨others, rfl⟩
        exact uncut ⟨[], others, rfl⟩
      · intro inside
        exact uncut (inside.trans (List.suffix_cons _ _).isInfix)
  | word word rest nonempty whole ends ih =>
      rw [fields_word nonempty whole ends, List.mem_cons] at listed
      rcases listed with rfl | later
      · rwa [List.head?_append_of_ne_nil _ nonempty] at noColon
      · apply ih _ _ later
        · rcases ends with rfl | ⟨c, others, rfl, separates⟩
          · simp
          · have space : c = 0x20 := beq_iff_eq.mp separates
            subst space
            simp [unit]
        · intro inside
          exact uncut (inside.trans (List.suffix_append _ _).isInfix)

/-! ## The parser of the server -/

/-- The end of a line: a text behind a colon, or nothing. -/
def closing (text : Option Bytes) : Bytes := (text.map Irc.behindColon).getD []

theorem endsWord_closing (text : Option Bytes) : Irc.EndsWord (closing text) := by
  cases text with
  | none => exact Or.inl rfl
  | some text => exact Irc.endsWord_behindColon text

/-- The words in front of the colon are the parameters, as long as there is room. -/
theorem parseParams_fields {head : Bytes}
    (noColon : ∀ field ∈ fields isSpaceByte head, field.head? ≠ some (byte ':'))
    (text : Option Bytes) (room : Nat) :
    Irc.Parser.parseParams room (head ++ closing text) =
      if (fields isSpaceByte head).length + text.toList.length ≤ room then
        some (fields isSpaceByte head ++ text.toList)
      else none := by
  induction head using fields_induction isSpaceByte generalizing room with
  | nothing =>
      rw [List.nil_append, fields_nil, List.length_nil, Nat.zero_add, List.nil_append]
      cases text with
      | none => simp [closing, Irc.Parser.parseParams_nil]
      | some text =>
          rw [closing, Option.map_some, Option.getD_some, Irc.behindColon,
            Irc.Parser.parseParams_space]
          cases room with
          | zero =>
              rw [Irc.Parser.parseParams_full (by simp [Irc.Parser.skipSpaces, byte])]
              simp
          | succ room =>
              rw [Irc.Parser.parseParams_colon]
              simp
  | separator c rest separates ih =>
      have space : c = byte ' ' := beq_iff_eq.mp separates
      subst space
      rw [fields_separator separates] at noColon ⊢
      rw [List.cons_append, Irc.Parser.parseParams_space, ih noColon]
  | word word rest nonempty whole ends ih =>
      rw [fields_word nonempty whole ends, List.forall_mem_cons] at noColon
      have middle : Irc.isMiddle word = true := by
        rw [Irc.isMiddle_iff]
        refine ⟨nonempty, noColon.1, ?_⟩
        intro space
        exact absurd (whole _ space) (by decide)
      have endsToo : Irc.EndsWord (rest ++ closing text) := by
        rcases ends with rfl | ⟨c, others, rfl, separates⟩
        · exact endsWord_closing text
        · have space : c = byte ' ' := beq_iff_eq.mp separates
          subst space
          exact Or.inr ⟨_, rfl⟩
      rw [fields_word nonempty whole ends, List.append_assoc, List.length_cons]
      cases room with
      | zero =>
          have kept : Irc.Parser.skipSpaces (word ++ (rest ++ closing text)) ≠ [] := by
            rcases Irc.isMiddle_iff.mp middle with ⟨_, _, spaceless⟩
            rw [Irc.Parser.skipSpaces_word nonempty spaceless]
            simp [nonempty]
          rw [Irc.Parser.parseParams_full kept, if_neg (by omega)]
      | succ room =>
          rw [Irc.Parser.parseParams_word middle endsToo, ih noColon.2]
          split
          next fits => rw [if_pos (by omega), Option.map_some, List.cons_append]
          next crowded => rw [if_neg (by omega), Option.map_none]

/-! ## A line as a text -/

/-- An ASCII word as a text. -/
def asciiText (word : Bytes) : JsString := word.map fun c => c.toNat.toUInt16

theorem eq_asciiText {text : JsString} {word : Bytes} (encoded : utf8 text = word)
    (small : ∀ b ∈ word, b < 0x80) : text = asciiText word := by
  subst encoded
  have characters := ascii_of_utf8 small
  rw [utf8_of_ascii characters, asciiText, List.map_map]
  have same : ∀ c ∈ text, (fun b : UInt8 => b.toNat.toUInt16) (c.toNat.toUInt8) = c := by
    intro c listed
    exact @of_ascii_characters (fun c => c.toNat.toUInt8.toNat.toUInt16 = c) (by decide) c
      (characters c listed)
  calc text = text.map id := (List.map_id text).symm
    _ = _ := (List.map_congr_left same).symm

/-- What the gateway sees of the words that the server uses. -/
theorem lineWords_text : ∀ word ∈ Irc.lineWords, utf8 (asciiText word) = word ∧
    toUpperCase (asciiText word) = asciiText word ∧
    (asciiText word).all (fun c => !isWhiteSpace c) = true ∧
    (asciiText word).head? ≠ some (unit ':') := by
  decide +kernel

/-- The line from its command to the first `" :"`. -/
def lineHead (text : JsString) : JsString :=
  ((splitPrefix text).map fun parts => (splitTrailing parts.2).1).getD []

/-- What follows the first `" :"` behind the prefix, where the line has one. -/
def lineText (text : JsString) : Option JsString :=
  (splitPrefix text).bind fun parts => (splitTrailing parts.2).2

/-- Both parsers accept the line and read the same of it. -/
def ParsersAgree (line : Bytes) : Prop :=
  ∃ message parsed, Irc.Parser.parse line = some message ∧
    parseIrcLine (decodeUtf8 line) = some parsed ∧
    utf8 parsed.linePrefix = message.linePrefix ∧ utf8 parsed.command = message.command ∧
    message.params = parsed.params.map utf8 ++
      if (lineText (decodeUtf8 line)).isSome then [utf8 parsed.trailing] else []

/-- Up to the colon the line has no white space but spaces, and no more than 15 parameters. -/
def plainLine (text : JsString) : Bool :=
  (lineHead text).all (fun c => !isWhiteSpace c || isSpace c) &&
    (fields isSpace (lineHead text)).length + (lineText text).toList.length ≤ 16

/-- A line of the server as a text: the prefix, the command, the words in front of the colon
and the text behind it. -/
structure TextForm (text linePrefix : JsString) (word : Bytes) (head : JsString)
    (closing : Option JsString) : Prop where
  split : splitPrefix text = some (linePrefix, asciiText word ++ (head ++
    (closing.map fun rest => 0x20 :: unit ':' :: rest).getD []))
  cut : splitTrailing (asciiText word ++ (head ++
    (closing.map fun rest => 0x20 :: unit ':' :: rest).getD [])) =
    (asciiText word ++ head, closing)
  ends : EndsField isSpace head
  uncut : ¬[0x20, unit ':'] <:+: head
  formed : wellFormed head = true

theorem exists_word {text : JsString} {word rest : Bytes} (listed : word ∈ Irc.lineWords)
    (ends : Irc.EndsWord rest) (encoded : utf8 text = word ++ rest) :
    ∃ later, text = asciiText word ++ later ∧ utf8 later = rest ∧ EndsField isSpace later := by
  rcases Irc.lineWords_printable word listed with ⟨_, _, printable⟩
  have small : ∀ b ∈ word, b < 0x80 := fun b inWord => (printable b inWord).2.1
  rcases ends with rfl | ⟨others, rfl⟩
  · rw [List.append_nil] at encoded
    exact ⟨[], by rw [eq_asciiText encoded small, List.append_nil], rfl, Or.inl rfl⟩
  · have spaceless : (0x20 : UInt16).toNat.toUInt8 ∉ word := by
      intro space
      exact absurd (printable _ space).1 (by decide)
    rcases exists_of_utf8_eq_append (by decide) spaceless encoded with
      ⟨first, later, rfl, same, sameRest⟩
    refine ⟨0x20 :: later, by rw [eq_asciiText same small], ?_, Or.inr ⟨_, _, rfl, by decide⟩⟩
    rw [utf8_cons_of_lt (by decide), sameRest]
    rfl

theorem wellFormed_asciiText_append {word : Bytes} {rest : JsString}
    (ends : EndsField isSpace rest) (formed : wellFormed (asciiText word ++ rest) = true) :
    wellFormed rest = true := by
  rcases ends with rfl | ⟨c, others, rfl, separates⟩
  · rfl
  · have space : c = 0x20 := beq_iff_eq.mp separates
    subst space
    rw [wellFormed_append (by decide), Bool.and_eq_true] at formed
    rw [wellFormed_cons (by decide)]
    exact formed.2

/-- The part of the line behind the prefix. -/
theorem exists_textForm_of_split {text linePrefix later : JsString} {word rest : Bytes}
    (split : splitPrefix text = some (linePrefix, asciiText word ++ later))
    (listed : word ∈ Irc.lineWords) (ends : EndsField isSpace later)
    (formed : wellFormed (asciiText word ++ later) = true) (encoded : utf8 later = rest) :
    ∃ head text', TextForm text linePrefix word head text' ∧
      rest = utf8 head ++ closing (text'.map utf8) := by
  rcases lineWords_text word listed with ⟨_, _, visible, _⟩
  have spaceless : 0x20 ∉ asciiText word := by
    intro space
    exact absurd (List.all_eq_true.mp visible _ space) (by decide)
  have laterFormed := wellFormed_asciiText_append ends formed
  rcases splitTrailing_spec later with ⟨whole, uncut⟩
  have cut := splitTrailing_append spaceless later
  generalize (splitTrailing later).1 = head at whole uncut cut
  generalize (splitTrailing later).2 = behind at whole cut
  refine ⟨head, behind, ⟨?_, ?_, ?_, uncut, ?_⟩, ?_⟩
  · rw [← whole]
    exact split
  · rw [← whole]
    exact cut
  · rcases ends with rfl | ⟨c, others, rfl, separates⟩
    · exact Or.inl (List.append_eq_nil_iff.mp whole.symm).1
    · cases head with
      | nil => exact Or.inl rfl
      | cons first front =>
          rw [List.cons_append, List.cons.injEq] at whole
          exact Or.inr ⟨first, front, rfl, whole.1 ▸ separates⟩
  · rw [whole] at laterFormed
    cases behind with
    | none => simpa using laterFormed
    | some tail =>
        rw [Option.map_some, Option.getD_some, wellFormed_append (by decide),
          Bool.and_eq_true] at laterFormed
        exact laterFormed.1
  · rw [← encoded, whole]
    cases behind with
    | none => simp [closing]
    | some tail =>
        rw [Option.map_some, Option.getD_some, utf8_append_cons (by decide),
          utf8_cons_of_lt (by decide)]
        rfl

theorem splitPrefix_named {named : JsString} (spaceless : 0x20 ∉ named) (later : JsString) :
    splitPrefix (unit ':' :: (named ++ 0x20 :: later)) = some (named, later) := by
  have passes : ∀ c ∈ unit ':' :: named, (c != 0x20) = true := by
    intro c listed
    rw [bne_iff_ne]
    rintro rfl
    rcases List.mem_cons.mp listed with same | inName
    · exact absurd same (by decide)
    · exact spaceless inName
  have spanned : (unit ':' :: (named ++ 0x20 :: later)).span (· != 0x20) =
      (unit ':' :: named, 0x20 :: later) := by
    rw [List.span_eq_takeWhile_dropWhile, ← List.cons_append,
      List.takeWhile_append_of_pos passes, List.dropWhile_append_of_pos passes]
    simp
  rw [splitPrefix, List.head?_cons, if_pos rfl, spanned]
  rfl

theorem exists_textForm {line linePrefix word rest : Bytes}
    (form : Irc.LineForm line linePrefix word rest) {text : JsString}
    (formed : wellFormed text = true) (encoded : utf8 text = line) :
    ∃ named head text', utf8 named = linePrefix ∧ TextForm text named word head text' ∧
      rest = utf8 head ++ closing (text'.map utf8) := by
  have assembled := form.assembled
  rw [← encoded] at assembled
  split at assembled
  next missing =>
    rw [List.nil_append] at assembled
    rcases exists_word form.word form.ends assembled with ⟨later, rfl, sameRest, ends⟩
    have noColon := (lineWords_text word form.word).2.2.2
    have nonempty : asciiText word ≠ [] := by
      have given := (Irc.lineWords_printable word form.word).1
      simpa [asciiText] using given
    have split : splitPrefix (asciiText word ++ later) = some ([], asciiText word ++ later) := by
      rw [splitPrefix, List.head?_append_of_ne_nil _ nonempty, if_neg noColon]
    rcases exists_textForm_of_split split form.word ends formed sameRest with
      ⟨head, behind, textForm, same⟩
    refine ⟨[], head, behind, ?_, textForm, same⟩
    simpa [utf8] using missing.symm
  next given =>
    have safe := form.linePrefix (by simpa using given)
    rw [List.cons_append, List.append_assoc, List.singleton_append] at assembled
    have atColon : utf8 text = [] ++ (unit ':').toNat.toUInt8 ::
        (linePrefix ++ byte ' ' :: (word ++ rest)) := assembled
    rcases exists_of_utf8_eq_append (by decide) List.not_mem_nil atColon with
      ⟨first, others, rfl, empty, sameOthers⟩
    have nothing : first = [] := by
      by_contra something
      exact utf8_ne_nil something empty
    subst nothing
    have spaceless : (0x20 : UInt16).toNat.toUInt8 ∉ linePrefix := Irc.noSpace_of_safe safe
    rcases exists_of_utf8_eq_append (by decide) spaceless sameOthers with
      ⟨named, tail, rfl, sameName, sameTail⟩
    rcases exists_word form.word form.ends sameTail with ⟨later, rfl, sameRest, ends⟩
    have spacelessName : 0x20 ∉ named := by
      rw [← @mem_utf8_iff 0x20 (by decide), sameName]
      exact spaceless
    have split : splitPrefix ([] ++ unit ':' :: (named ++ 0x20 :: (asciiText word ++ later))) =
        some (named, asciiText word ++ later) := by
      rw [List.nil_append]
      exact splitPrefix_named spacelessName _
    have formedTail : wellFormed (asciiText word ++ later) = true := by
      rw [List.nil_append, wellFormed_cons (by decide), wellFormed_append (by decide),
        Bool.and_eq_true] at formed
      exact formed.2
    rcases exists_textForm_of_split split form.word ends formedTail sameRest with
      ⟨head, behind, textForm, same⟩
    exact ⟨named, head, behind, sameName, textForm, same⟩

namespace TextForm

variable {text linePrefix head : JsString} {word : Bytes} {behind : Option JsString}
  (form : TextForm text linePrefix word head behind)
include form

theorem lineHead_eq : lineHead text = asciiText word ++ head := by
  rw [lineHead, form.split, Option.map_some, form.cut]
  rfl

theorem lineText_eq : lineText text = behind := by
  rw [lineText, form.split, Option.bind_some, form.cut]

theorem fields_lineHead {isSeparator : UInt16 → Bool} (listed : word ∈ Irc.lineWords)
    (visible : ∀ c ∈ asciiText word, isSeparator c = false)
    (separates : isSeparator 0x20 = true) :
    fields isSeparator (lineHead text) = asciiText word :: fields isSeparator head := by
  have nonempty : asciiText word ≠ [] := by
    have given := (Irc.lineWords_printable word listed).1
    simpa [asciiText] using given
  rw [form.lineHead_eq]
  apply fields_word nonempty visible
  rcases form.ends with rfl | ⟨c, others, rfl, space⟩
  · exact Or.inl rfl
  · exact Or.inr ⟨c, others, rfl, beq_iff_eq.mp space ▸ separates⟩

/-- What the gateway reads. -/
theorem parseIrcLine_eq (listed : word ∈ Irc.lineWords) :
    parseIrcLine text = some ⟨linePrefix, asciiText word, words head, behind.getD []⟩ := by
  rcases lineWords_text word listed with ⟨_, upper, visible, _⟩
  have visibleToo : ∀ c ∈ asciiText word, isWhiteSpace c = false := by
    intro c inWord
    simpa using List.all_eq_true.mp visible c inWord
  have cut := form.fields_lineHead listed visibleToo (by decide)
  rw [form.lineHead_eq] at cut
  have wordsEq : words (asciiText word ++ head) = asciiText word :: words head := cut
  rw [parseIrcLine, form.split]
  simp only [form.cut, wordsEq, upper]

/-- What the server reads. -/
theorem parse_eq {line prefixBytes rest : Bytes}
    (lineForm : Irc.LineForm line prefixBytes word rest)
    (same : rest = utf8 head ++ closing (behind.map utf8)) :
    Irc.Parser.parse line =
      if (fields isSpace head).length + behind.toList.length ≤ 15 then
        some { linePrefix := prefixBytes, command := word,
               params := (fields isSpace head).map utf8 ++ (behind.map utf8).toList }
      else none := by
  have noColon : ∀ field ∈ fields isSpaceByte (utf8 head), field.head? ≠ some (byte ':') := by
    intro field inHead first
    rw [fields_utf8] at inHead
    rcases List.mem_map.mp inHead with ⟨part, member, rfl⟩
    have start : head.head? ≠ some (unit ':') := by
      rcases form.ends with rfl | ⟨c, others, rfl, separates⟩
      · simp
      · have space : c = 0x20 := beq_iff_eq.mp separates
        subst space
        simp [unit]
    rcases List.head?_eq_some_iff.mp first with ⟨others, encoded⟩
    have atColon : utf8 part = [] ++ (unit ':').toNat.toUInt8 :: others := encoded
    rcases exists_of_utf8_eq_append (by decide) List.not_mem_nil atColon with
      ⟨front, later, rfl, empty, _⟩
    have nothing : front = [] := by
      by_contra something
      exact utf8_ne_nil something empty
    subst nothing
    exact head_of_mem_fields start form.uncut member rfl
  have count : (behind.map utf8).toList.length = behind.toList.length := by
    cases behind with
    | none => rfl
    | some _ => rfl
  rw [lineForm.parse, same, parseParams_fields noColon, fields_utf8, List.length_map, count,
    Irc.Parser.maxParams]
  split
  · rfl
  · rfl

/-- Words cut at spaces are those cut at white space only where all white space is spaces. -/
theorem words_eq_iff : (words head).map utf8 = (fields isSpace head).map utf8 ↔
    ∀ c ∈ head, isWhiteSpace c = true → isSpace c = true := by
  have spaceSingle : ∀ c, isSpace c = true → (isHighSurrogate c || isLowSurrogate c) = false := by
    intro c space
    rw [beq_iff_eq.mp space]
    decide
  constructor
  · intro same c listed white
    by_contra other
    rcases exists_field_of_mem listed (Bool.eq_false_iff.mpr other) with ⟨field, member, inside⟩
    have encoded : utf8 field ∈ (words head).map utf8 := by
      rw [same]
      exact List.mem_map_of_mem member
    rcases List.mem_map.mp encoded with ⟨cutField, cutMember, sameBytes⟩
    have formedField := wellFormed_of_mem_fields spaceSingle form.formed member
    have formedCut : wellFormed cutField = true :=
      @wellFormed_of_mem_fields isWhiteSpace (fun _ white => isWhiteSpace_not_surrogate white)
        head cutField form.formed cutMember
    have sameText : cutField = field := by
      rw [← decodeUtf8_utf8 formedCut, sameBytes, decodeUtf8_utf8 formedField]
    subst sameText
    have notWhite : isWhiteSpace c = false :=
      @not_separator_of_mem_fields _ isWhiteSpace head cutField cutMember c inside
    rw [white] at notWhite
    exact Bool.noConfusion notWhite
  · intro plain
    have same : words head = fields isSpace head := by
      apply fields_congr
      intro c listed
      cases white : isWhiteSpace c with
      | true => exact (plain c listed white).symm
      | false =>
          symm
          rw [isSpace, beq_eq_false_iff_ne]
          rintro rfl
          exact absurd white (by decide)
    rw [same]

theorem plainLine_iff (listed : word ∈ Irc.lineWords) : plainLine text = true ↔
    (∀ c ∈ head, isWhiteSpace c = true → isSpace c = true) ∧
      (fields isSpace head).length + behind.toList.length ≤ 15 := by
  have visible := (lineWords_text word listed).2.2.1
  have visibleToo : ∀ c ∈ asciiText word, isWhiteSpace c = false := by
    intro c inWord
    simpa using List.all_eq_true.mp visible c inWord
  have unspaced : ∀ c ∈ asciiText word, isSpace c = false := by
    intro c inWord
    rw [isSpace, beq_eq_false_iff_ne]
    rintro rfl
    exact absurd (visibleToo _ inWord) (by decide)
  rw [plainLine, Bool.and_eq_true, decide_eq_true_eq, form.fields_lineHead listed unspaced rfl,
    form.lineText_eq, form.lineHead_eq, List.all_append, Bool.and_eq_true, List.length_cons]
  have wordPlain : (asciiText word).all (fun c => !isWhiteSpace c || isSpace c) = true := by
    apply List.all_eq_true.mpr
    intro c inWord
    simp [visibleToo c inWord]
  have headPlain : (head.all fun c => !isWhiteSpace c || isSpace c) = true ↔
      ∀ c ∈ head, isWhiteSpace c = true → isSpace c = true := by
    rw [List.all_eq_true]
    refine forall₂_congr fun c _ => ?_
    cases isWhiteSpace c with
    | true => simp
    | false => simp
  rw [headPlain]
  constructor
  · rintro ⟨⟨_, plain⟩, short⟩
    exact ⟨plain, by omega⟩
  · rintro ⟨plain, short⟩
    exact ⟨⟨wordPlain, plain⟩, by omega⟩

end TextForm

/-- Every line that the server queues in a run whose peers have dotted addresses: the parsers
agree on it exactly when it is plain. -/
theorem parsersAgree_iff {server : Irc.Server}
    (reached : Irc.stepSystem.Reaches Irc.Server.dottedPeers server) {fd : Int} {line : Bytes}
    (listed : line ∈ Irc.queuedLines fd server.history) {text : JsString}
    (formed : wellFormed text = true) (encoded : utf8 text = line) :
    ParsersAgree line ↔ plainLine text = true := by
  rcases Irc.Server.lineForm_of_queued reached listed with ⟨linePrefix, word, rest, lineForm⟩
  rcases exists_textForm lineForm formed encoded with ⟨named, head, behind, sameName, form, same⟩
  have decoded : decodeUtf8 line = text := by rw [← encoded, decodeUtf8_utf8 formed]
  have gatewayReads := form.parseIrcLine_eq lineForm.word
  have serverReads := form.parse_eq lineForm same
  have commandText := (lineWords_text word lineForm.word).1
  rw [form.plainLine_iff lineForm.word, ← form.words_eq_iff, ParsersAgree, decoded,
    gatewayReads, serverReads, form.lineText_eq]
  have tail : (if behind.isSome then [utf8 (behind.getD [])] else []) =
      (behind.map utf8).toList := by
    cases behind with
    | none => rfl
    | some _ => rfl
  constructor
  · rintro ⟨message, parsed, read, result, _, _, sameParams⟩
    rw [Option.some.injEq] at result
    subst result
    split at read
    next fits =>
      rw [Option.some.injEq] at read
      subst read
      rw [tail, List.append_cancel_right_eq] at sameParams
      exact ⟨sameParams.symm, fits⟩
    · simp at read
  · rintro ⟨sameWords, fits⟩
    rw [if_pos fits]
    refine ⟨_, _, rfl, rfl, sameName, commandText, ?_⟩
    rw [tail, sameWords]

theorem parsersAgree_iff_alicesRoom : ∃ line ∈ Irc.queuedLines 4 Irc.Server.alicesRoom.history,
    ∃ text, wellFormed text = true ∧ utf8 text = line ∧
      (ParsersAgree line ↔ plainLine text = true) := by
  have reached := Irc.Server.reaches_alicesRoom_dotted
  have listed : ascii ":alice!alice@127.0.0.1 JOIN :#Room" ∈
      Irc.queuedLines 4 Irc.Server.alicesRoom.history := by decide +kernel
  exact ⟨_, listed, js ":alice!alice@127.0.0.1 JOIN :#Room", by decide, by decide,
    parsersAgree_iff reached listed (by decide) (by decide)⟩

/-- A channel name with a tab, which the server accepts. -/
def tabName : Bytes := ascii "#a" ++ [9] ++ ascii "b"

/-- The last line that its first member gets. -/
def tabLine : Bytes := ascii ":ircserv.local 366 alice #a" ++ [9] ++ ascii "b :End of NAMES list"

/-- The tab cuts the name for the gateway, and does not for the server. -/
theorem tab_cuts_name : ∃ server,
    Irc.stepMachine.performAll (Irc.Server.enterSteps 4 (ascii "alice") tabName)
      (Irc.Server.fresh (ascii "secret") (ascii "today") 3) = some server ∧
    tabLine ∈ Irc.queuedLines 4 server.history ∧
    (∃ text, wellFormed text = true ∧ utf8 text = tabLine) ∧ ¬ParsersAgree tabLine := by
  have happened : ((Irc.stepMachine.performAll
      (Irc.Server.enterSteps 4 (ascii "alice") tabName)
      (Irc.Server.fresh (ascii "secret") (ascii "today") 3)).any fun server =>
        (Irc.queuedLines 4 server.history).contains tabLine) = true := by decide +kernel
  rcases (Option.any_eq_true _ _).mp happened with ⟨server, performed, queued⟩
  refine ⟨server, performed, by simpa using queued, ?_, ?_⟩
  · exact ⟨js ":ircserv.local 366 alice #a" ++ [9] ++ js "b :End of NAMES list", by decide,
      by decide⟩
  · rintro ⟨message, parsed, read, result, _, _, same⟩
    have serverParams : (Irc.Parser.parse tabLine).map (·.params) =
        some [ascii "alice", tabName, ascii "End of NAMES list"] := by decide +kernel
    have gatewayParams : (parseIrcLine (decodeUtf8 tabLine)).map (·.params) =
        some [js "alice", js "#a", js "b"] := by decide +kernel
    have trailing : (lineText (decodeUtf8 tabLine)).isSome = true := by decide +kernel
    rw [read, Option.map_some, Option.some.injEq] at serverParams
    rw [result, Option.map_some, Option.some.injEq] at gatewayParams
    rw [serverParams, gatewayParams, trailing] at same
    exact absurd (congrArg List.length same) (by simp)

end IrcPlatform.Gateway
