import IrcPlatform.Gateway.JsString
import IrcPlatform.Library.Splitting

/-!
# UTF-8

Facts about the encoding and the decoding: an ASCII character is one byte and a byte
below 0x80 is an ASCII character, so the encoding splits at ASCII characters, and a
text without lone surrogates survives the way to the other side.
-/

namespace IrcPlatform.Gateway.JsString

/-! ## ASCII characters -/

theorem utf8Unit_of_lt {c : UInt16} (small : c < 0x80) : utf8Unit c = [c.toNat.toUInt8] := by
  have below : c.toNat < 0x80 := by simpa [UInt16.lt_iff_toNat_lt] using small
  simp [utf8Unit, below]

theorem isHighSurrogate_iff (c : UInt16) :
    isHighSurrogate c = true ↔ 0xd800 ≤ c.toNat ∧ c.toNat ≤ 0xdbff := by
  simp [isHighSurrogate, UInt16.le_iff_toNat_le]

theorem isLowSurrogate_iff (c : UInt16) :
    isLowSurrogate c = true ↔ 0xdc00 ≤ c.toNat ∧ c.toNat ≤ 0xdfff := by
  simp [isLowSurrogate, UInt16.le_iff_toNat_le]

theorem not_isHighSurrogate_of_lt {c : UInt16} (small : c < 0x80) : isHighSurrogate c = false := by
  rw [Bool.eq_false_iff, ne_eq, isHighSurrogate_iff]
  have below : c.toNat < 0x80 := by simpa [UInt16.lt_iff_toNat_lt] using small
  omega

theorem not_isLowSurrogate_of_lt {c : UInt16} (small : c < 0x80) : isLowSurrogate c = false := by
  rw [Bool.eq_false_iff, ne_eq, isLowSurrogate_iff]
  have below : c.toNat < 0x80 := by simpa [UInt16.lt_iff_toNat_lt] using small
  omega

theorem utf8_cons_of_lt {c : UInt16} (small : c < 0x80) (rest : JsString) :
    utf8 (c :: rest) = c.toNat.toUInt8 :: utf8 rest := by
  cases rest with
  | nil => simp [utf8, utf8Unit_of_lt small]
  | cons next rest => simp [utf8, utf8Unit_of_lt small, not_isHighSurrogate_of_lt small]

/-- ASCII characters in front are encoded one by one. -/
theorem utf8_append_of_ascii {front : JsString} (small : ∀ c ∈ front, c < 0x80)
    (rest : JsString) : utf8 (front ++ rest) = front.map (·.toNat.toUInt8) ++ utf8 rest := by
  induction front with
  | nil => rfl
  | cons c front ih =>
      rw [List.cons_append, utf8_cons_of_lt (small c List.mem_cons_self),
        ih fun other listed => small other (List.mem_cons_of_mem c listed)]
      rfl

theorem utf8_of_ascii {text : JsString} (small : ∀ c ∈ text, c < 0x80) :
    utf8 text = text.map (·.toNat.toUInt8) := by
  simpa [utf8] using utf8_append_of_ascii small []

/-- A literal is checked as a value of Bool. -/
theorem ascii_of_all {text : JsString} (small : text.all (· < 0x80) = true) :
    ∀ c ∈ text, c < 0x80 := by
  intro c listed
  exact of_decide_eq_true (List.all_eq_true.mp small c listed)

/-- No pair of surrogates stretches over an ASCII character. -/
theorem utf8_append_cons {c : UInt16} (small : c < 0x80) (front rest : JsString) :
    utf8 (front ++ c :: rest) = utf8 front ++ c.toNat.toUInt8 :: utf8 rest := by
  induction front using utf8.induct with
  | case1 => exact utf8_cons_of_lt small rest
  | case2 d =>
      simp only [List.cons_append, List.nil_append, utf8, not_isLowSurrogate_of_lt small,
        Bool.and_false, Bool.false_eq_true, if_false, utf8_cons_of_lt small]
  | case3 d next front pair ih =>
      rw [List.cons_append, List.cons_append, utf8, if_pos pair, ih, utf8, if_pos pair,
        List.append_assoc]
  | case4 d next front pair ih =>
      rw [List.cons_append] at ih
      rw [List.cons_append, List.cons_append, utf8, if_neg pair, ih, utf8, if_neg pair,
        List.append_assoc]

/-! ## Bytes below 0x80 -/

theorem toNat_toUInt8 {code : Nat} (bound : code < 0x100) : code.toUInt8.toNat = code := by
  simp only [Nat.toUInt8, UInt8.toNat_ofNat']
  omega

theorem toUInt8_inj {c : UInt8} {code : Nat} (bound : code < 0x100) :
    c = code.toUInt8 ↔ c.toNat = code := by
  rw [← UInt8.toNat_inj, toNat_toUInt8 bound]

theorem mem_utf8Unit {c : UInt16} {b : UInt8} (listed : b ∈ utf8Unit c) (small : b < 0x80) :
    b.toNat = c.toNat := by
  have bound := c.toNat_lt
  have below : b.toNat < 0x80 := by simpa [UInt8.lt_iff_toNat_lt] using small
  simp only [utf8Unit] at listed
  split at listed
  · rwa [List.mem_singleton, toUInt8_inj (by omega)] at listed
  · split at listed
    · rw [List.mem_pair, toUInt8_inj (by omega), toUInt8_inj (by omega)] at listed
      omega
    · split at listed
      · simp only [List.mem_cons, List.not_mem_nil, or_false] at listed
        rcases listed with rfl | rfl | rfl
        · simp at below
        · simp at below
        · simp at below
      · simp only [List.mem_cons, List.not_mem_nil, or_false] at listed
        rw [toUInt8_inj (by omega), toUInt8_inj (by omega), toUInt8_inj (by omega)] at listed
        omega

theorem not_mem_utf8Pair {high low : UInt16} {b : UInt8} (isHigh : isHighSurrogate high = true)
    (isLow : isLowSurrogate low = true) (small : b < 0x80) : b ∉ utf8Pair high low := by
  intro listed
  rw [isHighSurrogate_iff] at isHigh
  rw [isLowSurrogate_iff] at isLow
  have below : b.toNat < 0x80 := by simpa [UInt8.lt_iff_toNat_lt] using small
  simp only [utf8Pair, List.mem_cons, List.not_mem_nil, or_false] at listed
  rw [toUInt8_inj (by omega), toUInt8_inj (by omega), toUInt8_inj (by omega),
    toUInt8_inj (by omega)] at listed
  omega

/-- A byte below 0x80 of an encoding is an ASCII character of the text. -/
theorem exists_of_mem_utf8 {text : JsString} {b : UInt8} (listed : b ∈ utf8 text)
    (small : b < 0x80) : ∃ c ∈ text, c.toNat = b.toNat := by
  induction text using utf8.induct with
  | case1 => simp [utf8] at listed
  | case2 c => exact ⟨c, List.mem_singleton_self c, (mem_utf8Unit listed small).symm⟩
  | case3 c next rest pair ih =>
      rw [utf8, if_pos pair] at listed
      simp only [Bool.and_eq_true] at pair
      rcases List.mem_append.mp listed with listed | listed
      · exact absurd listed (not_mem_utf8Pair pair.1 pair.2 small)
      · rcases ih listed with ⟨other, member, same⟩
        exact ⟨other, List.mem_cons_of_mem _ (List.mem_cons_of_mem _ member), same⟩
  | case4 c next rest pair ih =>
      rw [utf8, if_neg pair] at listed
      rcases List.mem_append.mp listed with listed | listed
      · exact ⟨c, List.mem_cons_self, (mem_utf8Unit listed small).symm⟩
      · rcases ih listed with ⟨other, member, same⟩
        exact ⟨other, List.mem_cons_of_mem _ member, same⟩

theorem utf8Unit_ne_nil (c : UInt16) : utf8Unit c ≠ [] := by
  simp only [utf8Unit]
  split
  · simp
  · split
    · simp
    · split
      · simp
      · simp

/-- An encoding that starts with a byte below 0x80 starts with that character. -/
theorem exists_of_utf8_eq_cons {text : JsString} {b : UInt8} {rest : Bytes} (small : b < 0x80)
    (encoded : utf8 text = b :: rest) :
    ∃ c others, text = c :: others ∧ c < 0x80 ∧ utf8 others = rest := by
  cases text with
  | nil => simp [utf8] at encoded
  | cons c others =>
      have ascii : c < 0x80 := by
        have unitAscii (listed : b ∈ utf8Unit c) : c < 0x80 := by
          have same := mem_utf8Unit listed small
          rw [UInt16.lt_iff_toNat_lt, ← same]
          rwa [UInt8.lt_iff_toNat_lt] at small
        have front {first second : Bytes} (nonempty : first ≠ [])
            (start : first ++ second = b :: rest) : b ∈ first := by
          rcases List.exists_cons_of_ne_nil nonempty with ⟨head, tail, rfl⟩
          rw [List.cons_append, List.cons.injEq] at start
          rw [start.1]
          exact List.mem_cons_self
        cases others with
        | nil => exact unitAscii (encoded ▸ List.mem_cons_self : b ∈ utf8 [c])
        | cons next others =>
            rw [utf8] at encoded
            split at encoded
            next pair =>
              rw [Bool.and_eq_true] at pair
              exact absurd (front (by simp [utf8Pair]) encoded)
                (not_mem_utf8Pair pair.1 pair.2 small)
            · exact unitAscii (front (utf8Unit_ne_nil c) encoded)
      rw [utf8_cons_of_lt ascii, List.cons.injEq] at encoded
      exact ⟨c, others, rfl, ascii, encoded.2⟩

/-- The other way round, with the two spellings of one character. -/
theorem mem_utf8_iff {c : UInt16} (small : c < 0x80) (text : JsString) :
    c.toNat.toUInt8 ∈ utf8 text ↔ c ∈ text := by
  have below : c.toNat < 0x80 := by simpa [UInt16.lt_iff_toNat_lt] using small
  have value : c.toNat.toUInt8.toNat = c.toNat := toNat_toUInt8 (by omega)
  constructor
  · intro listed
    have smallByte : c.toNat.toUInt8 < 0x80 := by
      rw [UInt8.lt_iff_toNat_lt, value]
      exact below
    rcases exists_of_mem_utf8 listed smallByte with ⟨other, member, same⟩
    rw [value] at same
    rwa [← UInt16.toNat_inj.mp same]
  · intro listed
    rcases List.append_of_mem listed with ⟨front, rest, rfl⟩
    rw [utf8_append_cons small]
    exact List.mem_append_right _ List.mem_cons_self

/-- An encoding is cut at the first occurrence of an ASCII character. -/
theorem exists_of_utf8_eq_append {c : UInt16} (small : c < 0x80) {text : JsString}
    {front rest : Bytes} (outside : c.toNat.toUInt8 ∉ front)
    (encoded : utf8 text = front ++ c.toNat.toUInt8 :: rest) :
    ∃ first later, text = first ++ c :: later ∧ utf8 first = front ∧ utf8 later = rest := by
  have listed : c ∈ text := by
    rw [← mem_utf8_iff small, encoded]
    exact List.mem_append_right _ List.mem_cons_self
  rcases List.eq_append_cons_of_mem listed with ⟨first, later, rfl, absent⟩
  rw [utf8_append_cons small] at encoded
  have absentToo : c.toNat.toUInt8 ∉ utf8 first := by rwa [mem_utf8_iff small]
  rcases first_occurrence_inj absentToo outside encoded with ⟨same, sameRest⟩
  exact ⟨first, later, rfl, same, sameRest⟩

/-- A text is ASCII when its encoding is. -/
theorem ascii_of_utf8 {text : JsString} (small : ∀ b ∈ utf8 text, b < 0x80) :
    ∀ c ∈ text, c < 0x80 := by
  have single {c : UInt16} (bytes : ∀ b ∈ utf8Unit c, b < 0x80) : c < 0x80 := by
    rcases List.exists_mem_of_ne_nil _ (utf8Unit_ne_nil c) with ⟨b, listed⟩
    have same := mem_utf8Unit listed (bytes b listed)
    have below := bytes b listed
    rw [UInt8.lt_iff_toNat_lt] at below
    rw [UInt16.lt_iff_toNat_lt, ← same]
    exact below
  induction text using utf8.induct with
  | case1 => simp
  | case2 c =>
      intro d listed
      rw [List.mem_singleton.mp listed]
      exact single small
  | case3 c next rest pair _ =>
      rw [utf8, if_pos pair] at small
      rw [Bool.and_eq_true] at pair
      have front : ∀ b ∈ utf8Pair c next, b < 0x80 := fun b listed =>
        small b (List.mem_append_left _ listed)
      have first : (utf8Pair c next).head (by simp [utf8Pair]) ∈ utf8Pair c next :=
        List.head_mem _
      exact absurd first (not_mem_utf8Pair pair.1 pair.2 (front _ first))
  | case4 c next rest pair ih =>
      rw [utf8, if_neg pair] at small
      intro d listed
      rcases List.mem_cons.mp listed with rfl | later
      · exact single fun b inUnit => small b (List.mem_append_left _ inUnit)
      · exact ih (fun b inRest => small b (List.mem_append_right _ inRest)) d later

theorem zero_mem_utf8_iff (text : JsString) : 0 ∈ utf8 text ↔ 0 ∈ text :=
  @mem_utf8_iff 0 (by decide) text

theorem zero_mem_blankLineBreaks (text : JsString) : 0 ∈ blankLineBreaks text ↔ 0 ∈ text := by
  simp only [blankLineBreaks, List.mem_map]
  constructor
  · rintro ⟨c, listed, same⟩
    split at same
    · simp at same
    · exact same ▸ listed
  · intro listed
    exact ⟨0, listed, rfl⟩

theorem utf8_ne_nil {text : JsString} (nonempty : text ≠ []) : utf8 text ≠ [] := by
  match text with
  | [] => exact absurd rfl nonempty
  | [c] => exact utf8Unit_ne_nil c
  | c :: next :: rest =>
      rw [utf8]
      split
      · simp [utf8Pair]
      · simp [utf8Unit_ne_nil]

/-! ## Decoding -/

/-- No surrogate stands alone. -/
def wellFormed : JsString → Bool
  | [] => true
  | [c] => !(isHighSurrogate c || isLowSurrogate c)
  | c :: next :: rest =>
      if isHighSurrogate c && isLowSurrogate next then wellFormed rest
      else !(isHighSurrogate c || isLowSurrogate c) && wellFormed (next :: rest)

theorem decodeFrom_cons (decoder : Utf8Decoder) (next : UInt8) (rest : Bytes) :
    decodeFrom decoder (next :: rest) =
      (decodeByte decoder next).1 ++ decodeFrom (decodeByte decoder next).2 rest := rfl

/-- A continuation byte before the last. -/
theorem decodeByte_more {needed lower upper point code : Nat} (bound : code < 0x100)
    (more : 2 ≤ needed) (above : lower ≤ code) (below : code ≤ upper) :
    decodeByte ⟨needed, lower, upper, point⟩ code.toUInt8 =
      ([], { needed := needed - 1, point := point * 0x40 + (code - 0x80) }) := by
  simp only [decodeByte, toNat_toUInt8 bound]
  rw [if_neg (by omega), if_pos (by simp [above, below]), if_neg (by omega)]

/-- The last continuation byte. -/
theorem decodeByte_last {lower upper point code : Nat} (bound : code < 0x100)
    (above : lower ≤ code) (below : code ≤ upper) :
    decodeByte ⟨1, lower, upper, point⟩ code.toUInt8 =
      (ofCodePoint (point * 0x40 + (code - 0x80)), {}) := by
  simp only [decodeByte, toNat_toUInt8 bound]
  rw [if_neg (by omega), if_pos (by simp [above, below]), if_pos trivial]

theorem ofCodePoint_toNat (c : UInt16) : ofCodePoint c.toNat = [c] := by
  have bound := c.toNat_lt
  rw [ofCodePoint, if_pos (by omega)]
  congr 1
  exact UInt16.ofNat_toNat

/-- The first byte of a sequence of two. -/
theorem decodeByte_two {point : Nat} (above : 2 ≤ point) (below : point ≤ 0x1f) :
    decodeByte {} (0xc0 + point).toUInt8 = ([], { needed := 1, point := point }) := by
  simp only [decodeByte, decodeLead, toNat_toUInt8 (show 0xc0 + point < 0x100 by omega),
    if_true]
  rw [if_neg (by omega), if_pos (by simp; omega), Nat.add_sub_cancel_left]

/-- The first byte of a sequence of three. -/
theorem decodeByte_three {point : Nat} (below : point ≤ 0xf) :
    decodeByte {} (0xe0 + point).toUInt8 =
      ([], { needed := 2, lower := if point = 0 then 0xa0 else 0x80,
             upper := if point = 0xd then 0x9f else 0xbf, point := point }) := by
  have first : (0xe0 + point = 0xe0) = (point = 0) := by simp
  have surrogates : (0xe0 + point = 0xed) = (point = 0xd) := by simp; omega
  simp only [decodeByte, decodeLead, toNat_toUInt8 (show 0xe0 + point < 0x100 by omega),
    if_true, first, surrogates]
  rw [if_neg (by omega), if_neg (by simp; omega), if_pos (by simp; omega),
    Nat.add_sub_cancel_left]

/-- The first byte of a sequence of four. -/
theorem decodeByte_four {point : Nat} (below : point ≤ 4) :
    decodeByte {} (0xf0 + point).toUInt8 =
      ([], { needed := 3, lower := if point = 0 then 0x90 else 0x80,
             upper := if point = 4 then 0x8f else 0xbf, point := point }) := by
  have first : (0xf0 + point = 0xf0) = (point = 0) := by simp
  have last : (0xf0 + point = 0xf4) = (point = 4) := by simp; omega
  simp only [decodeByte, decodeLead, toNat_toUInt8 (show 0xf0 + point < 0x100 by omega),
    if_true, first, last]
  rw [if_neg (by omega), if_neg (by simp; omega), if_neg (by simp; omega),
    if_pos (by simp; omega), Nat.add_sub_cancel_left]

theorem decodeFrom_utf8Unit {c : UInt16}
    (single : (isHighSurrogate c || isLowSurrogate c) = false) (rest : Bytes) :
    decodeFrom {} (utf8Unit c ++ rest) = c :: decodeFrom {} rest := by
  have bound := c.toNat_lt
  have whole := ofCodePoint_toNat c
  simp only [utf8Unit, single, Bool.false_eq_true, if_false]
  rw [Bool.or_eq_false_iff, Bool.eq_false_iff, Bool.eq_false_iff, ne_eq, ne_eq,
    isHighSurrogate_iff, isLowSurrogate_iff] at single
  generalize c.toNat = code at bound single whole
  split
  next one =>
    have below : code < 0x10000 := by omega
    rw [ofCodePoint, if_pos below, List.cons.injEq] at whole
    rw [List.singleton_append, decodeFrom_cons]
    simp only [decodeByte, decodeLead, toNat_toUInt8 (show code < 0x100 by omega), if_true,
      if_pos one, whole.1]
    rfl
  · split
    next notOne two =>
      rw [List.cons_append, List.cons_append, List.nil_append, decodeFrom_cons,
        decodeByte_two (by omega) (by omega), decodeFrom_cons,
        decodeByte_last (by omega) (by omega) (by omega)]
      have point : code / 0x40 * 0x40 + (0x80 + code % 0x40 - 0x80) = code := by omega
      rw [point, whole]
      rfl
    next notOne notTwo =>
      rw [List.cons_append, List.cons_append, List.cons_append, List.nil_append,
        decodeFrom_cons, decodeByte_three (by omega), decodeFrom_cons,
        decodeByte_more (by omega) (by omega) (by split <;> omega) (by split <;> omega),
        decodeFrom_cons, decodeByte_last (by omega) (by omega) (by omega)]
      have point : (code / 0x1000 * 0x40 + (0x80 + code / 0x40 % 0x40 - 0x80)) * 0x40 +
          (0x80 + code % 0x40 - 0x80) = code := by omega
      rw [point, whole]
      rfl

theorem decodeFrom_utf8Pair {high low : UInt16} (isHigh : isHighSurrogate high = true)
    (isLow : isLowSurrogate low = true) (rest : Bytes) :
    decodeFrom {} (utf8Pair high low ++ rest) = high :: low :: decodeFrom {} rest := by
  rw [isHighSurrogate_iff] at isHigh
  rw [isLowSurrogate_iff] at isLow
  have highUnit : high.toNat.toUInt16 = high := UInt16.ofNat_toNat
  have lowUnit : low.toNat.toUInt16 = low := UInt16.ofNat_toNat
  simp only [utf8Pair]
  generalize pairing : 0x10000 + (high.toNat - 0xd800) * 0x400 + (low.toNat - 0xdc00) = code
  have halves : ofCodePoint code = [high, low] := by
    rw [ofCodePoint, if_neg (by omega)]
    have upper : 0xd800 + (code - 0x10000) / 0x400 = high.toNat := by omega
    have lower : 0xdc00 + (code - 0x10000) % 0x400 = low.toNat := by omega
    rw [upper, lower, highUnit, lowUnit]
  rw [List.cons_append, List.cons_append, List.cons_append, List.cons_append, List.nil_append,
    decodeFrom_cons, decodeByte_four (by omega), decodeFrom_cons,
    decodeByte_more (by omega) (by omega) (by split <;> omega) (by split <;> omega),
    decodeFrom_cons, decodeByte_more (by omega) (by omega) (by omega) (by omega),
    decodeFrom_cons, decodeByte_last (by omega) (by omega) (by omega)]
  have point : ((code / 0x40000 * 0x40 + (0x80 + code / 0x1000 % 0x40 - 0x80)) * 0x40 +
      (0x80 + code / 0x40 % 0x40 - 0x80)) * 0x40 + (0x80 + code % 0x40 - 0x80) = code := by
    omega
  rw [point, halves]
  rfl

/-- Decoding undoes encoding, up to lone surrogates. -/
theorem decodeUtf8_utf8 {text : JsString} (formed : wellFormed text = true) :
    decodeUtf8 (utf8 text) = text := by
  simp only [decodeUtf8]
  induction text using utf8.induct with
  | case1 => rfl
  | case2 c =>
      rw [wellFormed, Bool.not_eq_true'] at formed
      have decoded := decodeFrom_utf8Unit formed []
      rwa [List.append_nil] at decoded
  | case3 c next rest pair ih =>
      rw [wellFormed, if_pos pair] at formed
      rw [utf8, if_pos pair]
      rw [Bool.and_eq_true] at pair
      rw [decodeFrom_utf8Pair pair.1 pair.2, ih formed]
  | case4 c next rest pair ih =>
      rw [wellFormed, if_neg pair, Bool.and_eq_true, Bool.not_eq_true'] at formed
      rw [utf8, if_neg pair, decodeFrom_utf8Unit formed.1, ih formed.2]

/-- `toWellFormed`: every lone surrogate is replaced. -/
def toWellFormed : JsString → JsString
  | [] => []
  | [c] => if isHighSurrogate c || isLowSurrogate c then [0xfffd] else [c]
  | c :: next :: rest =>
      if isHighSurrogate c && isLowSurrogate next then c :: next :: toWellFormed rest
      else if isHighSurrogate c || isLowSurrogate c then 0xfffd :: toWellFormed (next :: rest)
      else c :: toWellFormed (next :: rest)

theorem utf8_cons_of_single {c : UInt16} (single : isHighSurrogate c = false) (rest : JsString) :
    utf8 (c :: rest) = utf8Unit c ++ utf8 rest := by
  cases rest with
  | nil => simp [utf8]
  | cons next rest => simp [utf8, single]

theorem wellFormed_cons {c : UInt16} (single : (isHighSurrogate c || isLowSurrogate c) = false)
    (rest : JsString) : wellFormed (c :: rest) = wellFormed rest := by
  rcases Bool.or_eq_false_iff.mp single with ⟨high, low⟩
  cases rest with
  | nil => simp [wellFormed, high, low]
  | cons next rest => simp [wellFormed, high, low]

/-- A text is well formed when its parts around a character that is no surrogate are. -/
theorem wellFormed_append {c : UInt16} (single : (isHighSurrogate c || isLowSurrogate c) = false)
    (front rest : JsString) :
    wellFormed (front ++ c :: rest) = (wellFormed front && wellFormed rest) := by
  induction front using utf8.induct with
  | case1 => rw [List.nil_append, wellFormed_cons single, wellFormed, Bool.true_and]
  | case2 d =>
      have low : isLowSurrogate c = false := (Bool.or_eq_false_iff.mp single).2
      simp [wellFormed, low, wellFormed_cons single]
  | case3 d next front pair ih =>
      rw [List.cons_append, List.cons_append, wellFormed, if_pos pair, ih, wellFormed,
        if_pos pair]
  | case4 d next front pair ih =>
      rw [List.cons_append] at ih
      rw [List.cons_append, List.cons_append, wellFormed, if_neg pair, ih, wellFormed,
        if_neg pair, Bool.and_assoc]

theorem utf8Unit_of_surrogate {c : UInt16}
    (surrogate : (isHighSurrogate c || isLowSurrogate c) = true) :
    utf8Unit c = utf8Unit 0xfffd := by
  have large : 0x800 ≤ c.toNat := by
    rw [Bool.or_eq_true, isHighSurrogate_iff, isLowSurrogate_iff] at surrogate
    omega
  have replaced : utf8Unit 0xfffd = [0xef, 0xbf, 0xbd] := by decide
  rw [replaced]
  simp only [utf8Unit, surrogate, if_true]
  rw [if_neg (by omega), if_neg (by omega)]

/-- The encoder replaces lone surrogates in the same way. -/
theorem utf8_toWellFormed (text : JsString) : utf8 (toWellFormed text) = utf8 text := by
  induction text using toWellFormed.induct with
  | case1 => rfl
  | case2 c surrogate =>
      rw [toWellFormed, if_pos surrogate]
      exact (utf8Unit_of_surrogate surrogate).symm
  | case3 c single => rw [toWellFormed, if_neg single]
  | case4 c next rest pair ih =>
      rw [toWellFormed, if_pos pair, utf8, if_pos pair, ih, utf8, if_pos pair]
  | case5 c next rest pair surrogate ih =>
      rw [toWellFormed, if_neg pair, if_pos surrogate, utf8_cons_of_single (by decide), ih, utf8,
        if_neg pair, utf8Unit_of_surrogate surrogate]
  | case6 c next rest pair single ih =>
      have high : isHighSurrogate c = false := by
        rw [Bool.not_eq_true] at single
        exact (Bool.or_eq_false_iff.mp single).1
      rw [toWellFormed, if_neg pair, if_neg single, utf8_cons_of_single high, ih, utf8,
        if_neg pair]

theorem wellFormed_toWellFormed (text : JsString) : wellFormed (toWellFormed text) = true := by
  induction text using toWellFormed.induct with
  | case1 => rfl
  | case2 c surrogate =>
      rw [toWellFormed, if_pos surrogate]
      decide
  | case3 c single =>
      rw [toWellFormed, if_neg single]
      simpa [wellFormed] using single
  | case4 c next rest pair ih => rw [toWellFormed, if_pos pair, wellFormed, if_pos pair, ih]
  | case5 c next rest pair surrogate ih =>
      rw [toWellFormed, if_neg pair, if_pos surrogate, wellFormed_cons (by decide), ih]
  | case6 c next rest pair single ih =>
      rw [toWellFormed, if_neg pair, if_neg single,
        wellFormed_cons ((Bool.not_eq_true _).mp single), ih]

/-- What a text becomes on its way is stable. -/
theorem utf8_decodeUtf8_utf8 (text : JsString) : utf8 (decodeUtf8 (utf8 text)) = utf8 text := by
  rw [← utf8_toWellFormed text, decodeUtf8_utf8 (wellFormed_toWellFormed text)]

end IrcPlatform.Gateway.JsString
