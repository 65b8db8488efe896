import IrcPlatform.Gateway.ParserAgreement

/-!
# Reading received lines

The decoder of the gateway on bytes that need not be UTF-8: ASCII characters are kept
and nothing else becomes one, so that the gateway finds the prefix and the word of every line.
-/

namespace IrcPlatform.Gateway

open JsString

namespace JsString

/-! ## The decoder -/

/-- The smallest and the largest code point that a sequence in progress can still give. -/
def Utf8Decoder.span (decoder : Utf8Decoder) : Nat × Nat :=
  ((decoder.point * 0x40 + (decoder.lower - 0x80)) * 0x40 ^ (decoder.needed - 1),
    (decoder.point * 0x40 + (decoder.upper - 0x80) + 1) * 0x40 ^ (decoder.needed - 1) - 1)

/-- The decoder is between two characters, or in a sequence that gives no ASCII character. -/
def Utf8Decoder.Bounded (decoder : Utf8Decoder) : Prop :=
  decoder.needed = 0 ∨
    decoder.needed ≤ 3 ∧ 0x80 ≤ decoder.lower ∧ decoder.lower ≤ decoder.upper ∧
      0x80 ≤ decoder.span.1 ∧ decoder.span.2 ≤ 0x10ffff

theorem bounded_start : Utf8Decoder.Bounded {} := Or.inl rfl

theorem not_ascii_of_codePoint {point : Nat} (large : 0x80 ≤ point) (small : point ≤ 0x10ffff) :
    ∀ c ∈ ofCodePoint point, ¬c < 0x80 := by
  intro c listed
  have toNat16 {code : Nat} (bound : code < 0x10000) : code.toUInt16.toNat = code := by
    simp only [Nat.toUInt16, UInt16.toNat_ofNat']
    omega
  have bound : (0x80 : UInt16).toNat = 0x80 := rfl
  rw [UInt16.lt_iff_toNat_lt, bound]
  simp only [ofCodePoint] at listed
  split at listed
  · rw [List.mem_singleton] at listed
    rw [listed, toNat16 (by omega)]
    omega
  · rw [List.mem_pair] at listed
    rcases listed with rfl | rfl
    · rw [toNat16 (by omega)]
      omega
    · rw [toNat16 (by omega)]
      omega

theorem ofCodePoint_ne_nil (point : Nat) : ofCodePoint point ≠ [] := by
  simp only [ofCodePoint]
  split
  · simp
  · simp

instance (decoder : Utf8Decoder) : Decidable decoder.Bounded :=
  inferInstanceAs (Decidable (_ ∨ _))

theorem decodeLead_of_lt {lead : UInt8} (small : lead < 0x80) :
    decodeLead lead = ([lead.toNat.toUInt16], {}) := by
  have below : lead.toNat < 0x80 := by simpa [UInt8.lt_iff_toNat_lt] using small
  simp only [decodeLead, if_pos below]

/-- Any other byte starts a sequence or is replaced. -/
theorem decodeLead_of_not_lt : ∀ lead : UInt8, ¬lead < 0x80 →
    (decodeLead lead).2.Bounded ∧ (decodeLead lead).1.all (fun c => !decide (c < 0x80)) = true ∧
      ((decodeLead lead).2.needed = 0 → (decodeLead lead).1 ≠ []) := by
  rintro ⟨⟨value⟩⟩
  revert value
  decide +kernel

/-- The last byte of a sequence completes a code point that is not ASCII. -/
theorem span_last {lower upper point code : Nat}
    (bounded : Utf8Decoder.Bounded ⟨1, lower, upper, point⟩) (above : lower ≤ code)
    (below : code ≤ upper) : 0x80 ≤ point * 0x40 + (code - 0x80) ∧
      point * 0x40 + (code - 0x80) ≤ 0x10ffff := by
  rcases bounded with other | ⟨_, continues, _, least, most⟩
  · simp at other
  · simp only [Utf8Decoder.span, Nat.sub_self, pow_zero, Nat.mul_one] at continues least most
    omega

theorem span_more {needed lower upper point code : Nat} (more : needed ≠ 0)
    (bounded : Utf8Decoder.Bounded ⟨needed + 1, lower, upper, point⟩) (above : lower ≤ code)
    (below : code ≤ upper) :
    Utf8Decoder.Bounded { needed := needed, point := point * 0x40 + (code - 0x80) } := by
  rcases bounded with other | ⟨few, continues, _, least, most⟩
  · simp at other
  · simp only [Utf8Decoder.span, Nat.add_sub_cancel] at few continues least most
    have cases : needed = 1 ∨ needed = 2 := by omega
    have fits : needed ≤ 3 := by omega
    refine Or.inr ⟨fits, by simp, by simp, ?_⟩
    simp only [Utf8Decoder.span]
    rcases cases with rfl | rfl
    · simp only [pow_one, Nat.sub_self, pow_zero, Nat.mul_one] at least most ⊢
      omega
    · simp only [Nat.reducePow, Nat.reduceSub] at least most ⊢
      omega

/-- An ASCII byte ends an incomplete sequence. -/
theorem decodeByte_of_lt {decoder : Utf8Decoder} (bounded : decoder.Bounded) {next : UInt8}
    (small : next < 0x80) : decodeByte decoder next =
      (decodeFrom decoder [] ++ [next.toNat.toUInt16], {}) := by
  have below : next.toNat < 0x80 := by simpa [UInt8.lt_iff_toNat_lt] using small
  rcases bounded with complete | ⟨_, lower, _⟩
  · simp only [decodeByte, decodeFrom, complete, if_true, decodeLead_of_lt small,
      List.nil_append]
  · by_cases complete : decoder.needed = 0
    · simp only [decodeByte, decodeFrom, complete, if_true, decodeLead_of_lt small,
        List.nil_append]
    · have outside : ¬(decide (decoder.lower ≤ next.toNat) &&
          decide (next.toNat ≤ decoder.upper)) = true := by
        simp only [Bool.and_eq_true, decide_eq_true_eq]
        omega
      simp only [decodeByte, decodeFrom, if_neg complete, if_neg outside,
        decodeLead_of_lt small, List.singleton_append]

/-- Another byte gives no ASCII character, and it continues a sequence or shows. -/
theorem decodeByte_of_not_lt {decoder : Utf8Decoder} (bounded : decoder.Bounded) {next : UInt8}
    (large : ¬next < 0x80) : (decodeByte decoder next).2.Bounded ∧
      (∀ c ∈ (decodeByte decoder next).1, ¬c < 0x80) ∧
      ((decodeByte decoder next).2.needed = 0 → (decodeByte decoder next).1 ≠ []) := by
  rcases decodeLead_of_not_lt next large with ⟨leadBounded, leadShown, leadStarts⟩
  have shown : ∀ c ∈ (decodeLead next).1, ¬c < 0x80 := by
    intro c listed
    simpa using List.all_eq_true.mp leadShown c listed
  by_cases complete : decoder.needed = 0
  · simp only [decodeByte, if_pos complete]
    exact ⟨leadBounded, shown, leadStarts⟩
  · simp only [decodeByte, if_neg complete]
    split
    next inside =>
      simp only [Bool.and_eq_true, decide_eq_true_eq] at inside
      rcases decoder with ⟨needed, lower, upper, point⟩
      simp only at complete inside ⊢
      split
      next last =>
        subst last
        rcases span_last bounded inside.1 inside.2 with ⟨least, most⟩
        generalize point * 0x40 + (next.toNat - 0x80) = completed at least most
        exact ⟨bounded_start, not_ascii_of_codePoint least most,
          fun _ => ofCodePoint_ne_nil completed⟩
      next notLast =>
        rcases Nat.exists_eq_succ_of_ne_zero complete with ⟨more, rfl⟩
        rw [Nat.succ_eq_add_one] at bounded notLast
        rw [Nat.succ_eq_add_one, Nat.add_sub_cancel]
        have unfinished : more ≠ 0 := by omega
        refine ⟨span_more unfinished bounded inside.1 inside.2, by simp, ?_⟩
        intro finished
        exact absurd finished unfinished
    · refine ⟨leadBounded, ?_, by simp⟩
      intro c listed
      rcases List.mem_cons.mp listed with rfl | later
      · decide
      · exact shown c later

theorem decodeByte_bounded {decoder : Utf8Decoder} (bounded : decoder.Bounded) (next : UInt8) :
    (decodeByte decoder next).2.Bounded := by
  by_cases small : next < 0x80
  · rw [decodeByte_of_lt bounded small]
    exact bounded_start
  · exact (decodeByte_of_not_lt bounded small).1

/-- An ASCII byte stands for itself and separates what is around it. -/
theorem decodeFrom_append_cons {decoder : Utf8Decoder} (bounded : decoder.Bounded) {c : UInt8}
    (small : c < 0x80) (front rest : Bytes) : decodeFrom decoder (front ++ c :: rest) =
      decodeFrom decoder front ++ c.toNat.toUInt16 :: decodeUtf8 rest := by
  induction front generalizing decoder with
  | nil =>
      rw [List.nil_append, decodeFrom_cons, decodeByte_of_lt bounded small, List.append_assoc]
      rfl
  | cons b front ih =>
      rw [List.cons_append, decodeFrom_cons, decodeFrom_cons, ih (decodeByte_bounded bounded b),
        List.append_assoc]

theorem decodeUtf8_append_cons {c : UInt8} (small : c < 0x80) (front rest : Bytes) :
    decodeUtf8 (front ++ c :: rest) =
      decodeUtf8 front ++ c.toNat.toUInt16 :: decodeUtf8 rest :=
  decodeFrom_append_cons bounded_start small front rest

theorem decodeUtf8_cons {c : UInt8} (small : c < 0x80) (rest : Bytes) :
    decodeUtf8 (c :: rest) = c.toNat.toUInt16 :: decodeUtf8 rest :=
  decodeUtf8_append_cons small [] rest

theorem toUInt8_toUInt16 : ∀ b : UInt8, b.toNat.toUInt16.toNat.toUInt8 = b := by
  rintro ⟨⟨value⟩⟩
  revert value
  decide +kernel

/-- An ASCII character is a byte of the line. -/
theorem byte_of_mem_decodeFrom {decoder : Utf8Decoder} (bounded : decoder.Bounded) {data : Bytes}
    {c : UInt16} (listed : c ∈ decodeFrom decoder data) (small : c < 0x80) :
    c.toNat.toUInt8 ∈ data := by
  have flushed {decoder : Utf8Decoder} (inFlush : c ∈ decodeFrom decoder []) : False := by
    rw [decodeFrom] at inFlush
    split at inFlush
    · simp at inFlush
    · rw [List.mem_singleton.mp inFlush] at small
      exact absurd small (by decide)
  induction data generalizing decoder with
  | nil => exact absurd listed flushed
  | cons b data ih =>
      rw [decodeFrom_cons] at listed
      rcases List.mem_append.mp listed with here | later
      · by_cases ascii : b < 0x80
        · rw [decodeByte_of_lt bounded ascii] at here
          rcases List.mem_append.mp here with before | itself
          · exact absurd before flushed
          · rw [List.mem_singleton.mp itself, toUInt8_toUInt16]
            exact List.mem_cons_self
        · exact absurd small ((decodeByte_of_not_lt bounded ascii).2.1 c here)
      · exact List.mem_cons_of_mem b (ih (decodeByte_bounded bounded b) later)

theorem byte_of_mem_decodeUtf8 {data : Bytes} {c : UInt16} (listed : c ∈ decodeUtf8 data)
    (small : c < 0x80) : c.toNat.toUInt8 ∈ data :=
  byte_of_mem_decodeFrom bounded_start listed small

/-- A sequence in progress leaves a character that is not ASCII. -/
theorem exists_of_needed {decoder : Utf8Decoder} (bounded : decoder.Bounded)
    (needed : decoder.needed ≠ 0) (data : Bytes) :
    ∃ c ∈ decodeFrom decoder data, ¬c < 0x80 := by
  induction data generalizing decoder with
  | nil =>
      rw [decodeFrom, if_neg needed]
      exact ⟨0xfffd, List.mem_singleton_self _, by decide⟩
  | cons b data ih =>
      rw [decodeFrom_cons]
      by_cases ascii : b < 0x80
      · refine ⟨0xfffd, ?_, by decide⟩
        rw [decodeByte_of_lt bounded ascii, decodeFrom, if_neg needed]
        simp
      · rcases decodeByte_of_not_lt bounded ascii with ⟨later, shown, starts⟩
        by_cases complete : (decodeByte decoder b).2.needed = 0
        · rcases List.exists_mem_of_ne_nil _ (starts complete) with ⟨c, listed⟩
          exact ⟨c, List.mem_append_left _ listed, shown c listed⟩
        · rcases ih later complete with ⟨c, listed, large⟩
          exact ⟨c, List.mem_append_right _ listed, large⟩

/-- Bytes that decode to ASCII characters are these characters. -/
theorem eq_of_decodeUtf8_ascii {data : Bytes} (small : ∀ c ∈ decodeUtf8 data, c < 0x80) :
    data = utf8 (decodeUtf8 data) := by
  induction data with
  | nil => rfl
  | cons b data ih =>
      by_cases ascii : b < 0x80
      · rw [decodeUtf8_cons ascii, List.forall_mem_cons] at small
        rw [decodeUtf8_cons ascii, utf8_cons_of_lt small.1, toUInt8_toUInt16,
          ← ih small.2]
      · exfalso
        have shows : ∃ c ∈ decodeUtf8 (b :: data), ¬c < 0x80 := by
          rcases decodeByte_of_not_lt bounded_start ascii with ⟨later, shown, starts⟩
          rw [decodeUtf8, decodeFrom_cons]
          by_cases complete : (decodeByte {} b).2.needed = 0
          · rcases List.exists_mem_of_ne_nil _ (starts complete) with ⟨c, listed⟩
            exact ⟨c, List.mem_append_left _ listed, shown c listed⟩
          · rcases exists_of_needed later complete data with ⟨c, listed, large⟩
            exact ⟨c, List.mem_append_right _ listed, large⟩
        rcases shows with ⟨c, listed, large⟩
        exact large (small c listed)

/-- ASCII bytes in front. -/
theorem decodeUtf8_append_of_ascii {front : Bytes} (small : ∀ b ∈ front, b < 0x80)
    (rest : Bytes) : decodeUtf8 (front ++ rest) = asciiText front ++ decodeUtf8 rest := by
  induction front with
  | nil => rfl
  | cons b front ih =>
      rw [List.forall_mem_cons] at small
      rw [List.cons_append, decodeUtf8_cons small.1, ih small.2]
      rfl

end JsString

/-! ## Lines -/

theorem splitPrefix_unnamed {text : JsString} (noColon : text.head? ≠ some (unit ':')) :
    splitPrefix text = some ([], text) := by
  rw [splitPrefix, if_neg noColon]

theorem parseIrcLine_of_split {text named later : JsString} {word : Bytes}
    (listed : word ∈ Irc.lineWords)
    (split : splitPrefix text = some (named, asciiText word ++ later))
    (ends : EndsField isSpace later) : parseIrcLine text =
      some ⟨named, asciiText word, words (splitTrailing later).1,
        (splitTrailing later).2.getD []⟩ := by
  rcases lineWords_text word listed with ⟨_, upper, visible, _⟩
  have shown : ∀ c ∈ asciiText word, isWhiteSpace c = false := by
    intro c inWord
    simpa using List.all_eq_true.mp visible c inWord
  have spaceless : 0x20 ∉ asciiText word := by
    intro space
    exact absurd (shown _ space) (by decide)
  have nonempty : asciiText word ≠ [] := by
    have given := (Irc.lineWords_printable word listed).1
    simpa [asciiText] using given
  have endsHead : EndsField isWhiteSpace (splitTrailing later).1 := by
    rcases splitTrailing_spec later with ⟨whole, _⟩
    rcases ends with rfl | ⟨c, others, rfl, separates⟩
    · exact Or.inl rfl
    · have space : c = 0x20 := beq_iff_eq.mp separates
      generalize (splitTrailing (c :: others)).1 = head at whole
      cases head with
      | nil => exact Or.inl rfl
      | cons first front =>
          rw [List.cons_append, List.cons.injEq] at whole
          refine Or.inr ⟨first, front, rfl, ?_⟩
          rw [← whole.1, space]
          decide
  have cut : words (asciiText word ++ (splitTrailing later).1) =
      asciiText word :: words (splitTrailing later).1 := fields_word nonempty shown endsHead
  rw [parseIrcLine, split]
  simp only [splitTrailing_append spaceless, cut, upper]

/-- What the gateway reads of a line of the server: its prefix and its word. -/
theorem parseIrcLine_lineForm {line linePrefix word rest : Bytes}
    (form : Irc.LineForm line linePrefix word rest) :
    parseIrcLine (decodeUtf8 line) = some ⟨decodeUtf8 linePrefix, asciiText word,
      words (splitTrailing (decodeUtf8 rest)).1,
      (splitTrailing (decodeUtf8 rest)).2.getD []⟩ := by
  rcases Irc.lineWords_printable word form.word with ⟨nonempty, _, printable⟩
  have small : ∀ b ∈ word, b < 0x80 := fun b inWord => (printable b inWord).2.1
  have ends : EndsField isSpace (decodeUtf8 rest) := by
    rcases form.ends with rfl | ⟨others, rfl⟩
    · exact Or.inl rfl
    · rw [decodeUtf8_cons (by decide)]
      exact Or.inr ⟨_, _, rfl, by decide⟩
  apply parseIrcLine_of_split form.word _ ends
  rw [form.assembled]
  split
  next missing =>
    have unnamed : linePrefix = [] := by simpa using missing
    rw [List.nil_append, decodeUtf8_append_of_ascii small, unnamed]
    apply splitPrefix_unnamed
    rw [List.head?_append_of_ne_nil _ (by simpa [asciiText] using nonempty)]
    exact (lineWords_text word form.word).2.2.2
  next given =>
    have safe := form.linePrefix (by simpa using given)
    have spaceless : 0x20 ∉ decodeUtf8 linePrefix := by
      intro space
      exact Irc.noSpace_of_safe safe (byte_of_mem_decodeUtf8 space (by decide))
    rw [List.cons_append, List.append_assoc, List.singleton_append, decodeUtf8_cons (by decide),
      decodeUtf8_append_cons (by decide), decodeUtf8_append_of_ascii small]
    exact splitPrefix_named spaceless _

end IrcPlatform.Gateway
