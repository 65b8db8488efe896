import Mathlib.Tactic.Common
import IrcPlatform.Library.Bytes

/-!
# Digits

The bytes of a decimal number.
-/

namespace IrcPlatform

theorem digit_byte {digit : Char} (isDigit : digit.isDigit = true) :
    isAsciiDigit (byte digit) = true ∧
      (byte digit - byte '0').toNat = digit.toNat - '0'.toNat ∧ digit.toNat - '0'.toNat ≤ 9 := by
  have bounds : 48 ≤ digit.toNat ∧ digit.toNat ≤ 57 := by
    simpa [Char.isDigit, UInt32.le_iff_toNat_le] using isDigit
  have values : ∀ offset < 10, isAsciiDigit (Nat.toUInt8 (48 + offset)) = true ∧
      (Nat.toUInt8 (48 + offset) - byte '0').toNat = offset := by
    decide
  have zero : '0'.toNat = 48 := rfl
  rcases Nat.exists_eq_add_of_le bounds.1 with ⟨offset, same⟩
  rcases values offset (by omega) with ⟨digits, read⟩
  rw [byte, same, zero, Nat.add_sub_cancel_left]
  exact ⟨digits, read, by omega⟩

theorem isAsciiDigit_of_mem_decimal {value : Nat} {c : UInt8} (listed : c ∈ decimal value) :
    isAsciiDigit c = true := by
  rcases List.mem_map.mp listed with ⟨digit, inside, rfl⟩
  exact (digit_byte (Nat.isDigit_of_mem_toDigits (by decide) (by decide) inside)).1

end IrcPlatform
