import Mathlib.Tactic.Common
import Mathlib.Data.List.Basic
import Mathlib.Data.Nat.Digits.Defs

/-!
# Byte strings

Strings of the modelled programs are byte strings: a `std::string` is a
sequence of `char`, and every comparison made on it is the one on unsigned
bytes. This file fixes the representation and the few operations on literals
and decimal numbers that the protocol engines share.

Ordered containers keyed by byte strings use the lexicographic comparison of
`List UInt8`, which is the order of `std::string`.
-/

namespace IrcPlatform

/-- A byte string. -/
abbrev Bytes := List UInt8

instance instLawfulBEqBytes : LawfulBEq Bytes := inferInstanceAs (LawfulBEq (List UInt8))

/-- The byte of an ASCII character. -/
def byte (character : Char) : UInt8 := character.toNat.toUInt8

/-- The bytes of an ASCII literal. -/
def ascii (text : String) : Bytes := text.toList.map byte

/-- Line terminator of both text protocols. -/
def crlf : Bytes := [13, 10]

/-- The decimal digits of a number, most significant first. -/
def decimal (value : Nat) : Bytes := (Nat.toDigits 10 value).map byte

def isAsciiLetter (c : UInt8) : Bool :=
  (byte 'A' ≤ c && c ≤ byte 'Z') || (byte 'a' ≤ c && c ≤ byte 'z')

def isAsciiDigit (c : UInt8) : Bool := byte '0' ≤ c && c ≤ byte '9'

/-- What holds of the 256 bytes holds of every byte. -/
theorem forall_byte {property : UInt8 → Prop}
    (all : ∀ value : Fin 256, property (UInt8.ofFin value)) (c : UInt8) : property c :=
  all c.toFin

end IrcPlatform
