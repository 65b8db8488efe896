import IrcPlatform.Irc.IrcUtil
import IrcPlatform.Library.Digits
import Mathlib.Data.Nat.Digits.Lemmas

/-!
# Sizes in decimal

The division that guards each step of the digit loop is an exact test: it fails if and only if
the next value does not fit in 64 bits. Thus the loop reads exactly the numbers that fit, with
any number of leading zeros, and none of its products and sums wraps.
-/

namespace IrcPlatform.Irc.IrcUtil

/-! ## The numbers that strings denote -/

def digitValue (c : UInt8) : Nat := (c - byte '0').toNat

/-- The number that a string of digits denotes, the last digit being the units. -/
def numberOf (text : Bytes) : Nat := Nat.ofDigits 10 (text.reverse.map digitValue)

def Denotes (text : Bytes) (number : Nat) : Prop :=
  text ≠ [] ∧ (∀ c ∈ text, isAsciiDigit c = true) ∧ numberOf text = number

theorem digitValue_le {c : UInt8} (digit : isAsciiDigit c = true) : digitValue c ≤ 9 := by
  revert digit
  apply @forall_byte (fun c => isAsciiDigit c = true → digitValue c ≤ 9) _ c
  decide +kernel

theorem numberOf_cons (c : UInt8) (rest : Bytes) :
    numberOf (c :: rest) = numberOf rest + 10 ^ rest.length * digitValue c := by
  rw [numberOf, List.reverse_cons, List.map_append, Nat.ofDigits_append, List.length_map,
    List.length_reverse, List.map_cons, List.map_nil, Nat.ofDigits_singleton]
  rfl

/-! ## The digit loop -/

/-- The operands of each `parsed * 10 + digit` that the digit loop computes. -/
def parsePositiveSizeSteps : Bytes → Nat → List (Nat × Nat)
  | [], _ => []
  | c :: rest, parsed =>
      if !isAsciiDigit c then []
      else
        let digit := (c - byte '0').toNat
        if (sizeMax - digit) / 10 < parsed then []
        else (parsed, digit) :: parsePositiveSizeSteps rest ((parsed * 10 + digit) % 2 ^ 64)

/-- The guard of the loop fails exactly where the next value does not fit. -/
theorem guard_iff {c : UInt8} (digit : isAsciiDigit c = true) (parsed : Nat) :
    (sizeMax - digitValue c) / 10 < parsed ↔ sizeMax < parsed * 10 + digitValue c := by
  have small := digitValue_le digit
  simp only [sizeMax]
  omega

theorem parsePositiveSizeLoop_cons_wide {c : UInt8} {rest : Bytes} {parsed : Nat}
    (digit : isAsciiDigit c = true) (wide : sizeMax < parsed * 10 + digitValue c) :
    parsePositiveSizeLoop (c :: rest) parsed = none ∧
      parsePositiveSizeSteps (c :: rest) parsed = [] := by
  have refused := (guard_iff digit parsed).mpr wide
  rw [digitValue] at refused
  constructor
  · simp only [parsePositiveSizeLoop, digit, Bool.not_true, Bool.false_eq_true, if_false,
      if_pos refused]
  · simp only [parsePositiveSizeSteps, digit, Bool.not_true, Bool.false_eq_true, if_false,
      if_pos refused]

theorem parsePositiveSizeLoop_cons_fits {c : UInt8} {rest : Bytes} {parsed : Nat}
    (digit : isAsciiDigit c = true) (fits : parsed * 10 + digitValue c ≤ sizeMax) :
    parsePositiveSizeLoop (c :: rest) parsed =
        parsePositiveSizeLoop rest (parsed * 10 + digitValue c) ∧
      parsePositiveSizeSteps (c :: rest) parsed = (parsed, digitValue c) ::
        parsePositiveSizeSteps rest (parsed * 10 + digitValue c) := by
  have passed := mt (guard_iff digit parsed).mp (Nat.not_lt.mpr fits)
  have bound : parsed * 10 + digitValue c < 2 ^ 64 := by
    simp only [sizeMax] at fits
    omega
  rw [digitValue] at passed bound ⊢
  constructor
  · simp only [parsePositiveSizeLoop, digit, Bool.not_true, Bool.false_eq_true, if_false,
      if_neg passed, Nat.mod_eq_of_lt bound]
  · simp only [parsePositiveSizeSteps, digit, Bool.not_true, Bool.false_eq_true, if_false,
      if_neg passed, Nat.mod_eq_of_lt bound]

theorem parsePositiveSizeLoop_iff {text : Bytes} {parsed number : Nat}
    (fits : parsed ≤ sizeMax) :
    parsePositiveSizeLoop text parsed = some number ↔
      (∀ c ∈ text, isAsciiDigit c = true) ∧
        parsed * 10 ^ text.length + numberOf text = number ∧ number ≤ sizeMax := by
  induction text generalizing parsed with
  | nil =>
      simp only [parsePositiveSizeLoop, Option.some.injEq, List.not_mem_nil, false_imp_iff,
        implies_true, true_and, List.length_nil, pow_zero, mul_one, numberOf, List.reverse_nil,
        List.map_nil, Nat.ofDigits_nil, add_zero]
      constructor
      · rintro rfl
        exact ⟨rfl, fits⟩
      · exact fun reached => reached.1
  | cons c rest ih =>
      rw [List.forall_mem_cons]
      by_cases digit : isAsciiDigit c = true
      · -- what the digits read so far contribute to the whole
        have whole : parsed * 10 ^ (c :: rest).length + numberOf (c :: rest) =
            (parsed * 10 + digitValue c) * 10 ^ rest.length + numberOf rest := by
          rw [numberOf_cons, List.length_cons, pow_succ]
          ring
        rw [whole]
        by_cases next : parsed * 10 + digitValue c ≤ sizeMax
        · rw [(parsePositiveSizeLoop_cons_fits digit next).1, ih next]
          simp only [digit, true_and]
        · rw [(parsePositiveSizeLoop_cons_wide digit (Nat.not_le.mp next)).1]
          constructor
          · exact fun stored => absurd stored (by simp)
          · rintro ⟨_, rfl, bounded⟩
            have grown : parsed * 10 + digitValue c ≤
                (parsed * 10 + digitValue c) * 10 ^ rest.length :=
              Nat.le_mul_of_pos_right _ (Nat.pow_pos (by decide))
            omega
      · simp only [parsePositiveSizeLoop, digit, Bool.not_false, if_true, false_and, reduceCtorEq]

/-- Neither the product nor the sum of a step of the loop reaches `2 ^ 64`. -/
theorem fits_of_mem_steps {text : Bytes} {parsed : Nat} {step : Nat × Nat}
    (taken : step ∈ parsePositiveSizeSteps text parsed) :
    step.1 * 10 < 2 ^ 64 ∧ step.1 * 10 + step.2 < 2 ^ 64 := by
  induction text generalizing parsed with
  | nil => simp only [parsePositiveSizeSteps, List.not_mem_nil] at taken
  | cons c rest ih =>
      by_cases digit : isAsciiDigit c = true
      · by_cases next : parsed * 10 + digitValue c ≤ sizeMax
        · rw [(parsePositiveSizeLoop_cons_fits digit next).2, List.mem_cons] at taken
          rcases taken with rfl | later
          · simp only [sizeMax] at next
            constructor <;> omega
          · exact ih later
        · rw [(parsePositiveSizeLoop_cons_wide digit (Nat.not_le.mp next)).2] at taken
          simp at taken
      · simp only [parsePositiveSizeSteps, digit, Bool.not_false, if_true,
          List.not_mem_nil] at taken

/-! ## The stored result -/

/-- `parsePositiveSize` on the value that `result` has before the call. -/
def parsePositiveSizeInto (value : Bytes) (result : Nat) : Bool × Nat :=
  if value.isEmpty then (false, result)
  else
    match parsePositiveSizeLoop value 0 with
    | none => (false, result)
    | some parsed => if parsed = 0 then (false, result) else (true, parsed)

theorem parsePositiveSizeInto_eq (value : Bytes) (result : Nat) :
    parsePositiveSizeInto value result =
      match parsePositiveSize value with
      | none => (false, result)
      | some parsed => (true, parsed) := by
  rw [parsePositiveSizeInto, parsePositiveSize]
  by_cases empty : value.isEmpty = true
  · rw [if_pos empty, if_pos empty]
  · rw [if_neg empty, if_neg empty]
    cases parsePositiveSizeLoop value 0 with
    | none => rfl
    | some parsed =>
        by_cases zero : parsed = 0
        · simp only [if_pos zero]
        · simp only [if_neg zero]

theorem parsePositiveSize_iff {value : Bytes} {number : Nat} :
    parsePositiveSize value = some number ↔
      Denotes value number ∧ 1 ≤ number ∧ number ≤ sizeMax := by
  have read := @parsePositiveSizeLoop_iff value 0 number (Nat.zero_le _)
  rw [zero_mul, zero_add] at read
  rw [parsePositiveSize, Denotes]
  by_cases empty : value = []
  · simp [empty]
  · rw [if_neg (by simpa using empty)]
    constructor
    · intro stored
      cases loop : parsePositiveSizeLoop value 0 with
      | none => simp [loop] at stored
      | some parsed =>
          by_cases zero : parsed = 0
          · simp [loop, zero] at stored
          · simp only [loop, if_neg zero] at stored
            rcases read.mp (loop.trans stored) with ⟨digits, denoted, bounded⟩
            rw [Option.some.injEq] at stored
            exact ⟨⟨empty, digits, denoted⟩, by omega, bounded⟩
    · rintro ⟨⟨_, digits, denoted⟩, positive, bounded⟩
      rw [read.mpr ⟨digits, denoted, bounded⟩]
      exact if_neg (by omega)

/-- What a call of `parsePositiveSize` does, with `size_t` of 64 bits. -/
structure ParsesPositiveSize (value : Bytes) : Prop where
  stored : ∀ result number, parsePositiveSizeInto value result = (true, number) ↔
    Denotes value number ∧ 1 ≤ number ∧ number ≤ 2 ^ 64 - 1
  unchanged : ∀ result after, parsePositiveSizeInto value result = (false, after) →
    after = result
  unwrapped : ∀ step ∈ parsePositiveSizeSteps value 0,
    step.1 * 10 < 2 ^ 64 ∧ step.1 * 10 + step.2 < 2 ^ 64

theorem parsesPositiveSize (value : Bytes) : ParsesPositiveSize value := by
  constructor
  · intro result number
    rw [parsePositiveSizeInto_eq, ← sizeMax, ← parsePositiveSize_iff]
    cases parsePositiveSize value with
    | none => simp
    | some parsed => simp
  · intro result after refused
    rw [parsePositiveSizeInto_eq] at refused
    cases parsed : parsePositiveSize value with
    | none =>
        rw [parsed] at refused
        exact (congrArg Prod.snd refused).symm
    | some number =>
        rw [parsed] at refused
        exact absurd (congrArg Prod.fst refused) (by simp)
  · exact fun step taken => fits_of_mem_steps taken

end IrcPlatform.Irc.IrcUtil
