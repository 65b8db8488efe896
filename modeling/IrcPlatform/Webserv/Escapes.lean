import IrcPlatform.Webserv.ChunkedGrammar
import IrcPlatform.Webserv.Paths

/-!
# Percent escapes

What the loop over the characters of a path makes of escapes, against the reading of an escape
as two hexadecimal digits.
-/

namespace IrcPlatform.Webserv

/-! ## Two characters behind a percent sign -/

/-- The byte that two hexadecimal digits denote. -/
def escapedByte (first second : UInt8) : Option UInt8 :=
  (hexDigit first).bind fun high =>
    (hexDigit second).map fun low => (high * 16 + low).toUInt8

/-- What the stream makes of a minus sign and a digit. -/
def signedByte (first second : UInt8) : Option UInt8 :=
  if first = byte '-' then
    (hexDigit second).bind fun low => if low = 0 then none else some (256 - low).toUInt8
  else none

theorem digit_facts (c : UInt8) (digit : isHexDigit c = true) :
    isStreamSpace c = false ∧ c ≠ byte '-' ∧ c ≠ byte '+' ∧ c ≠ byte 'x' ∧ c ≠ byte 'X' ∧
      c ≠ byte '%' ∧ c ≠ byte '\\' := by
  revert c
  apply forall_byte
  decide +kernel

theorem isHexDigit_of_some {c : UInt8} {digit : Nat} (spelled : hexDigit c = some digit) :
    isHexDigit c = true := by
  rw [isHexDigit, spelled]
  rfl

theorem takeHexDigits_nil : takeHexDigits [] = ([], []) := rfl

theorem takeHexDigits_cons_some {c : UInt8} {digit : Nat} (spelled : hexDigit c = some digit)
    (rest : Bytes) : takeHexDigits (c :: rest) =
      (digit :: (takeHexDigits rest).1, (takeHexDigits rest).2) := by
  rw [takeHexDigits, spelled]

theorem takeHexDigits_cons_none {c : UInt8} (other : hexDigit c = none) (rest : Bytes) :
    takeHexDigits (c :: rest) = ([], c :: rest) := by
  rw [takeHexDigits, other]

theorem skipStreamSpaces_cons {c : UInt8} (visible : isStreamSpace c = false) (rest : Bytes) :
    skipStreamSpaces (c :: rest) = c :: rest := by
  rw [skipStreamSpaces, List.dropWhile_cons, visible, if_neg Bool.false_ne_true]

theorem takeSign_cons {c : UInt8} (noMinus : c ≠ byte '-') (noPlus : c ≠ byte '+')
    (rest : Bytes) : takeSign (c :: rest) = (false, c :: rest) := by
  rw [takeSign, if_neg noMinus, if_neg noPlus]

theorem dropHexPrefix_singleton (c : UInt8) : dropHexPrefix [c] = [c] := rfl

/-- The prefix is no number without digits behind it, and `x` is none. -/
theorem wholeHex_prefix {c : UInt8} (marks : c = byte 'x' ∨ c = byte 'X') :
    wholeHex 32 [byte '0', c] = none := by
  rcases marks with rfl | rfl <;> decide

theorem wholeHex_digits_two {first second : UInt8} {high low : Nat}
    (spelledFirst : hexDigit first = some high) (spelledSecond : hexDigit second = some low) :
    wholeHex 32 [first, second] = some (high * 16 + low) := by
  have facts := digit_facts first (isHexDigit_of_some spelledFirst)
  have factsSecond := digit_facts second (isHexDigit_of_some spelledSecond)
  have noPrefix : dropHexPrefix [first, second] = [first, second] := by
    rw [dropHexPrefix, if_neg]
    rintro ⟨_, same | same⟩
    · exact factsSecond.2.2.2.1 same
    · exact factsSecond.2.2.2.2.1 same
  have highSmall := hexDigit_lt spelledFirst
  have lowSmall := hexDigit_lt spelledSecond
  have value : hexValue [high, low] = high * 16 + low := by simp [hexValue]
  have fits : ¬2 ^ 32 ≤ high * 16 + low := by omega
  simp only [wholeHex, readHex, skipStreamSpaces_cons facts.1,
    takeSign_cons facts.2.1 facts.2.2.1, noPrefix, takeHexDigits_cons_some spelledFirst,
    takeHexDigits_cons_some spelledSecond, takeHexDigits_nil, value, List.isEmpty_cons, fits,
    decide_false, Bool.or_false, Bool.false_eq_true, if_false]
  rfl

/-- One digit is too little: the value is a control character. -/
theorem wholeHex_digit_other {first second : UInt8} {high value : Nat}
    (spelledFirst : hexDigit first = some high) (other : hexDigit second = none)
    (read : wholeHex 32 [first, second] = some value) : value < 16 := by
  have facts := digit_facts first (isHexDigit_of_some spelledFirst)
  have highSmall := hexDigit_lt spelledFirst
  by_cases marked : first = byte '0' ∧ (second = byte 'x' ∨ second = byte 'X')
  · rw [marked.1, wholeHex_prefix marked.2] at read
    simp at read
  · have noPrefix : dropHexPrefix [first, second] = [first, second] := by
      rw [dropHexPrefix, if_neg marked]
    have number : hexValue [high] = high := by simp [hexValue]
    have fits : ¬2 ^ 32 ≤ high := by omega
    simp only [wholeHex, readHex, skipStreamSpaces_cons facts.1,
      takeSign_cons facts.2.1 facts.2.2.1, noPrefix, takeHexDigits_cons_some spelledFirst,
      takeHexDigits_cons_none other, number, List.isEmpty_cons, fits, decide_false,
      Bool.or_false, Bool.false_eq_true, if_false, Option.bind_some] at read
    split at read
    · simp at read
    · rw [Option.some.injEq] at read
      omega

theorem wholeHex_minus (second : UInt8) : wholeHex 32 [byte '-', second] =
    (hexDigit second).map fun low => (2 ^ 32 - low) % 2 ^ 32 := by
  have visible : isStreamSpace (byte '-') = false := by decide
  have sign : takeSign [byte '-', second] = (true, [second]) := rfl
  cases spelled : hexDigit second with
  | none =>
      simp only [wholeHex, readHex, skipStreamSpaces_cons visible, sign, dropHexPrefix_singleton,
        takeHexDigits_cons_none spelled, List.isEmpty_nil, Bool.true_or, if_true]
      rfl
  | some low =>
      have small := hexDigit_lt spelled
      have number : hexValue [low] = low := by simp [hexValue]
      have fits : ¬2 ^ 32 ≤ low := by omega
      simp only [wholeHex, readHex, skipStreamSpaces_cons visible, sign, dropHexPrefix_singleton,
        takeHexDigits_cons_some spelled, takeHexDigits_nil, number, List.isEmpty_cons, fits,
        decide_false, Bool.or_false, Bool.false_eq_true, if_false, if_true]
      rfl

/-- White space and a plus sign leave one digit. -/
theorem wholeHex_other {first second : UInt8} {value : Nat} (other : hexDigit first = none)
    (noMinus : first ≠ byte '-') (read : wholeHex 32 [first, second] = some value) :
    value < 16 := by
  rcases Option.bind_eq_some_iff.mp read with ⟨⟨number, rest⟩, extracted, ended⟩
  have same : number = value := by
    simp only at ended
    split at ended
    · simp at ended
    · exact Option.some.inj ended
  rw [← same]
  cases space : isStreamSpace first with
  | true =>
      have skipped : readHex 32 [first, second] = readHex 32 [second] := by
        simp only [readHex, skipStreamSpaces, List.dropWhile_cons, space, if_true]
      rw [skipped] at extracted
      rcases readHex_value extracted with small | ⟨negated, small, value⟩
      · simpa using small
      · simp only [List.length_singleton, Nat.sub_self, pow_zero, Nat.lt_one_iff] at small
        rw [value, small]
        decide
  | false =>
      by_cases plus : first = byte '+'
      · have sign : takeSign [first, second] = (false, [second]) := by
          rw [plus]
          rfl
        simp only [readHex, skipStreamSpaces_cons space, sign, dropHexPrefix_singleton] at extracted
        cases spelled : hexDigit second with
        | none =>
            simp [takeHexDigits_cons_none spelled] at extracted
        | some low =>
            have small := hexDigit_lt spelled
            have number : hexValue [low] = low := by simp [hexValue]
            simp only [takeHexDigits_cons_some spelled, takeHexDigits_nil, number,
              List.isEmpty_cons, Bool.false_or, Bool.false_eq_true, if_false] at extracted
            split at extracted
            · simp at extracted
            · rw [Option.some.injEq, Prod.mk.injEq] at extracted
              omega
      · have noPrefix : dropHexPrefix [first, second] = [first, second] := by
          rw [dropHexPrefix, if_neg]
          rintro ⟨zero, _⟩
          rw [zero] at other
          exact absurd other (by decide)
        simp [readHex, skipStreamSpaces_cons space, takeSign_cons noMinus plus, noPrefix,
          takeHexDigits_cons_none other] at extracted

theorem isControl_toUInt8_iff : ∀ value < 256,
    (isControl value.toUInt8 = true ↔ value < 0x20 ∨ value = 0x7f) := by
  decide +kernel

theorem negated_toUInt8 : ∀ low < 16, low ≠ 0 →
    ¬((2 ^ 32 - low) % 2 ^ 32 = 0 ∨ (2 ^ 32 - low) % 2 ^ 32 < 0x20 ∨
      (2 ^ 32 - low) % 2 ^ 32 = 0x7f) ∧
    ((2 ^ 32 - low) % 2 ^ 32).toUInt8 = (256 - low).toUInt8 := by
  decide +kernel

/-- An escape is two digits of a byte that is no control character, or the slip of the stream. -/
theorem decodeEscape_eq (first second : UInt8) : decodeEscape first second =
    ((escapedByte first second).filter fun value => !isControl value).or
      (signedByte first second) := by
  cases spelledFirst : hexDigit first with
  | some high =>
      have noMinus := (digit_facts first (isHexDigit_of_some spelledFirst)).2.1
      have highSmall := hexDigit_lt spelledFirst
      rw [signedByte, if_neg noMinus, Option.or_none, escapedByte, spelledFirst, Option.bind_some,
        decodeEscape]
      cases spelledSecond : hexDigit second with
      | some low =>
          have lowSmall := hexDigit_lt spelledSecond
          have control := isControl_toUInt8_iff (high * 16 + low) (by omega)
          rw [wholeHex_digits_two spelledFirst spelledSecond, Option.bind_some, Option.map_some]
          by_cases refused : high * 16 + low < 0x20 ∨ high * 16 + low = 0x7f
          · rw [if_pos (Or.inr refused), Option.filter_some, control.mpr refused]
            rfl
          · have plain : isControl (high * 16 + low).toUInt8 = false := by
              rw [← Bool.not_eq_true, control]
              exact refused
            rw [if_neg (by omega), Option.filter_some, plain]
            rfl
      | none =>
          rw [Option.map_none, Option.filter_none]
          cases read : wholeHex 32 [first, second] with
          | none => rfl
          | some value =>
              have small := wholeHex_digit_other spelledFirst spelledSecond read
              rw [Option.bind_some, if_pos (by omega)]
  | none =>
      rw [escapedByte, spelledFirst, Option.bind_none, Option.filter_none, Option.none_or,
        signedByte, decodeEscape]
      by_cases minus : first = byte '-'
      · rw [if_pos minus, minus, wholeHex_minus]
        cases spelledSecond : hexDigit second with
        | none => rfl
        | some low =>
            rw [Option.map_some, Option.bind_some, Option.bind_some]
            by_cases zero : low = 0
            · rw [if_pos zero, zero]
              rfl
            · have value := negated_toUInt8 low (hexDigit_lt spelledSecond) zero
              rw [if_neg zero, if_neg value.1, value.2]
      · rw [if_neg minus]
        cases read : wholeHex 32 [first, second] with
        | none => rfl
        | some value =>
            have small := wholeHex_other spelledFirst minus read
            rw [Option.bind_some, if_pos (by omega)]

end IrcPlatform.Webserv
