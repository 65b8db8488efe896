import Mathlib.Data.List.TakeDrop
import Mathlib.Data.List.TakeWhile
import IrcPlatform.Library.Bytes

/-!
# Formatted input

What `std::istringstream` and `std::strtoul` extract from the front of a byte
string in the "C" locale, and what they leave. `none` is a failed extraction.
-/

namespace IrcPlatform

/-- `std::isspace`. -/
def isStreamSpace (c : UInt8) : Bool := c == 32 || (9 ≤ c && c ≤ 13)

def skipStreamSpaces (text : Bytes) : Bytes := text.dropWhile isStreamSpace

/-- `stream >> word`. -/
def readWord (text : Bytes) : Option (Bytes × Bytes) :=
  match skipStreamSpaces text with
  | [] => none
  | c :: rest => some ((c :: rest).span fun c => !isStreamSpace c)

/-- `stream >> character`. -/
def readCharacter (text : Bytes) : Option (UInt8 × Bytes) :=
  match skipStreamSpaces text with
  | [] => none
  | c :: rest => some (c, rest)

/-- `std::getline`: a last line need not be terminated. -/
def getline (text : Bytes) : Option (Bytes × Bytes) :=
  if text.isEmpty then none
  else some (text.takeWhile (· != 10), (text.dropWhile (· != 10)).drop 1)

def hexDigit (c : UInt8) : Option Nat :=
  if byte '0' ≤ c && c ≤ byte '9' then some (c - byte '0').toNat
  else if byte 'a' ≤ c && c ≤ byte 'f' then some ((c - byte 'a').toNat + 10)
  else if byte 'A' ≤ c && c ≤ byte 'F' then some ((c - byte 'A').toNat + 10)
  else none

/-- The hexadecimal digits at the front, and what follows them. -/
def takeHexDigits : Bytes → List Nat × Bytes
  | [] => ([], [])
  | c :: rest =>
      match hexDigit c with
      | none => ([], c :: rest)
      | some digit => (digit :: (takeHexDigits rest).1, (takeHexDigits rest).2)

def hexValue (digits : List Nat) : Nat := digits.foldl (fun value digit => value * 16 + digit) 0

/-- The prefix `0x`. -/
def dropHexPrefix : Bytes → Bytes
  | zero :: x :: rest =>
      if zero = byte '0' ∧ (x = byte 'x' ∨ x = byte 'X') then rest else zero :: x :: rest
  | text => text

/-- A sign at the front, and whether it is negative. -/
def takeSign : Bytes → Bool × Bytes
  | [] => (false, [])
  | c :: rest =>
      if c = byte '-' then (true, rest)
      else if c = byte '+' then (false, rest)
      else (false, c :: rest)

/-- `stream >> std::hex >> value` for an unsigned integer of some width. A negative number
is taken modulo `2 ^ width`; one that does not fit is a failure. -/
def readHex (width : Nat) (text : Bytes) : Option (Nat × Bytes) :=
  let (negative, unsigned) := takeSign (skipStreamSpaces text)
  let (digits, rest) := takeHexDigits (dropHexPrefix unsigned)
  if digits.isEmpty || 2 ^ width ≤ hexValue digits then none
  else if negative then some ((2 ^ width - hexValue digits) % 2 ^ width, rest)
  else some (hexValue digits, rest)

/-- The number that a whole text spells in hexadecimal; further text must be white space. -/
def wholeHex (width : Nat) (text : Bytes) : Option Nat :=
  (readHex width text).bind fun (value, rest) =>
    match readCharacter rest with
    | some _ => none
    | none => some value

theorem toNat_sub_le {low high c : UInt8} (above : low ≤ c) (below : c ≤ high) :
    (c - low).toNat ≤ high.toNat - low.toNat := by
  rw [UInt8.toNat_sub_of_le _ _ above]
  exact Nat.sub_le_sub_right (UInt8.le_iff_toNat_le.mp below) _

theorem hexDigit_lt {c : UInt8} {digit : Nat} (spelled : hexDigit c = some digit) :
    digit < 16 := by
  simp only [hexDigit, Bool.and_eq_true, decide_eq_true_eq] at spelled
  split at spelled
  next decimal =>
    rw [← Option.some.inj spelled]
    exact lt_of_le_of_lt (toNat_sub_le decimal.1 decimal.2) (by decide)
  split at spelled
  next small =>
    rw [← Option.some.inj spelled]
    have bound := toNat_sub_le small.1 small.2
    exact Nat.add_lt_of_lt_sub (lt_of_le_of_lt bound (by decide))
  split at spelled
  next capital =>
    rw [← Option.some.inj spelled]
    have bound := toNat_sub_le capital.1 capital.2
    exact Nat.add_lt_of_lt_sub (lt_of_le_of_lt bound (by decide))
  · simp at spelled

theorem takeHexDigits_length_le (text : Bytes) : (takeHexDigits text).1.length ≤ text.length := by
  induction text with
  | nil => exact le_rfl
  | cons c rest ih =>
      rw [takeHexDigits]
      split
      · exact Nat.zero_le _
      · exact Nat.succ_le_succ ih

theorem takeHexDigits_lt (text : Bytes) : ∀ digit ∈ (takeHexDigits text).1, digit < 16 := by
  induction text with
  | nil => exact fun digit mem => absurd mem List.not_mem_nil
  | cons c rest ih =>
      rw [takeHexDigits]
      split
      · exact fun digit mem => absurd mem List.not_mem_nil
      next digit spelled =>
        intro other mem
        rcases List.mem_cons.mp mem with rfl | later
        · exact hexDigit_lt spelled
        · exact ih other later

theorem hexValue_lt {digits : List Nat} (small : ∀ digit ∈ digits, digit < 16) :
    hexValue digits < 16 ^ digits.length := by
  have bound : ∀ start, digits.foldl (fun value digit => value * 16 + digit) start + 1 ≤
      (start + 1) * 16 ^ digits.length := by
    induction digits with
    | nil => intro start; simp
    | cons digit rest ih =>
        intro start
        have here := small digit List.mem_cons_self
        have later := ih (fun other mem => small other (List.mem_cons_of_mem _ mem))
          (start * 16 + digit)
        rw [List.foldl_cons, List.length_cons, pow_succ']
        calc _ ≤ (start * 16 + digit + 1) * 16 ^ rest.length := later
          _ ≤ ((start + 1) * 16) * 16 ^ rest.length := Nat.mul_le_mul_right _ (by omega)
          _ = (start + 1) * (16 * 16 ^ rest.length) := Nat.mul_assoc _ _ _
  have whole := bound 0
  rw [Nat.zero_add, Nat.one_mul] at whole
  exact whole

theorem dropHexPrefix_length_le (text : Bytes) : (dropHexPrefix text).length ≤ text.length := by
  unfold dropHexPrefix
  split
  · split
    · simp only [List.length_cons]
      omega
    · exact le_rfl
  · exact le_rfl

theorem takeSign_length (text : Bytes) :
    (takeSign text).2.length + (if (takeSign text).1 then 1 else 0) ≤ text.length := by
  cases text with
  | nil => exact le_rfl
  | cons c rest =>
      rw [takeSign]
      split
      · exact le_rfl
      · split <;> simp

/-- A number read from a short text is small, or the negation of a small one. -/
theorem readHex_value {width value : Nat} {text rest : Bytes}
    (result : readHex width text = some (value, rest)) :
    value < 16 ^ text.length ∨
      ∃ number < 16 ^ (text.length - 1), value = (2 ^ width - number) % 2 ^ width := by
  have spaces : (skipStreamSpaces text).length ≤ text.length :=
    (List.dropWhile_suffix _).length_le
  have sign := takeSign_length (skipStreamSpaces text)
  have start := dropHexPrefix_length_le (takeSign (skipStreamSpaces text)).2
  have digits := takeHexDigits_length_le (dropHexPrefix (takeSign (skipStreamSpaces text)).2)
  have number := hexValue_lt (takeHexDigits_lt (dropHexPrefix (takeSign (skipStreamSpaces text)).2))
  unfold readHex at result
  simp only at result
  split at result
  · simp at result
  split at result
  next negative =>
    rw [if_pos negative] at sign
    refine Or.inr ⟨_, lt_of_lt_of_le number (Nat.pow_le_pow_right (by omega) (by omega)), ?_⟩
    exact (Prod.mk.inj (Option.some.inj result)).1.symm
  · rw [← (Prod.mk.inj (Option.some.inj result)).1]
    exact Or.inl (lt_of_lt_of_le number (Nat.pow_le_pow_right (by omega) (by omega)))

theorem readHex_lt {width value : Nat} {text rest : Bytes}
    (result : readHex width text = some (value, rest)) : value < 2 ^ width := by
  unfold readHex at result
  simp only at result
  split at result
  · simp at result
  next fits =>
    simp only [Bool.or_eq_true, decide_eq_true_eq, not_or, not_le] at fits
    split at result
    · rcases Prod.mk.inj (Option.some.inj result) with ⟨rfl, _⟩
      exact Nat.mod_lt _ (Nat.two_pow_pos width)
    · rcases Prod.mk.inj (Option.some.inj result) with ⟨rfl, _⟩
      exact fits.2

theorem wholeHex_lt {width value : Nat} {text : Bytes} (result : wholeHex width text = some value) :
    value < 2 ^ width := by
  rcases Option.bind_eq_some_iff.mp result with ⟨⟨number, rest⟩, read, result⟩
  simp only at result
  split at result
  · simp at result
  · rw [← Option.some.inj result]
    exact readHex_lt read

/-- A word stands between white space. -/
theorem readWord_parts {text word rest : Bytes} (read : readWord text = some (word, rest)) :
    ∃ before, text = before ++ word ++ rest ∧ (∀ c ∈ before, isStreamSpace c = true) ∧
      word ≠ [] ∧ (∀ c ∈ word, isStreamSpace c = false) ∧
      ∀ c, rest.head? = some c → isStreamSpace c = true := by
  have parts : text = text.takeWhile isStreamSpace ++ skipStreamSpaces text :=
    List.takeWhile_append_dropWhile.symm
  have visible := List.head?_dropWhile_not isStreamSpace text
  rw [readWord] at read
  rw [← skipStreamSpaces] at visible
  cases skipped : skipStreamSpaces text with
  | nil =>
      rw [skipped] at read
      simp at read
  | cons first others =>
      rw [skipped] at read visible parts
      simp only [List.head?_cons] at visible
      have shown : isStreamSpace first = false := by simpa using visible
      simp only [Option.some.injEq, List.span_eq_takeWhile_dropWhile, Prod.mk.injEq] at read
      rcases read with ⟨rfl, rfl⟩
      refine ⟨text.takeWhile isStreamSpace, ?_, ?_, ?_, ?_, ?_⟩
      · rw [List.append_assoc, List.takeWhile_append_dropWhile]
        exact parts
      · exact fun c listed => List.mem_takeWhile_imp listed
      · rw [List.takeWhile_cons_of_pos (by simp [shown])]
        exact List.cons_ne_nil _ _
      · intro c listed
        simpa using List.mem_takeWhile_imp listed
      · intro c begins
        have stopped := List.head?_dropWhile_not (fun c => !isStreamSpace c) (first :: others)
        rw [begins] at stopped
        simpa using stopped

/-- The word between white space is read. -/
theorem readWord_append {before word rest : Bytes} (spaces : ∀ c ∈ before, isStreamSpace c = true)
    (filled : word ≠ []) (visible : ∀ c ∈ word, isStreamSpace c = false)
    (stops : ∀ c, rest.head? = some c → isStreamSpace c = true) :
    readWord (before ++ word ++ rest) = some (word, rest) := by
  rcases List.exists_cons_of_ne_nil filled with ⟨first, others, rfl⟩
  have shown : isStreamSpace first = false := visible first List.mem_cons_self
  have skipped : skipStreamSpaces (before ++ (first :: others) ++ rest) =
      first :: (others ++ rest) := by
    rw [skipStreamSpaces, List.append_assoc, List.dropWhile_append_of_pos spaces, List.cons_append,
      List.dropWhile_cons_of_neg (by simp [shown])]
  have inside : ∀ c ∈ first :: others, (!isStreamSpace c) = true := by simpa using visible
  rw [readWord, skipped]
  simp only [Option.some.injEq, List.span_eq_takeWhile_dropWhile, Prod.mk.injEq]
  rw [← List.cons_append, List.takeWhile_append_of_pos inside, List.dropWhile_append_of_pos inside]
  cases rest with
  | nil => simp
  | cons c rest =>
      have stopped := stops c rfl
      rw [List.takeWhile_cons_of_neg (by simp [stopped]),
        List.dropWhile_cons_of_neg (by simp [stopped]), List.append_nil]
      exact ⟨rfl, rfl⟩

theorem space_of_readWord_none {text : Bytes} (read : readWord text = none) :
    ∀ c ∈ text, isStreamSpace c = true := by
  rw [readWord] at read
  split at read
  next skipped => exact List.dropWhile_eq_nil_iff.mp skipped
  · simp at read

/-- A conversion of `std::strtoul` in base 10: the value, what follows it, and whether the
value was out of range. Without digits nothing is converted. -/
structure Converted where
  value : Nat
  rest : Bytes
  outOfRange : Bool

/-- `std::strtoul` on the C string at the front of a text. -/
def strtoul (text : Bytes) : Converted :=
  let cString := text.takeWhile (· != 0)
  let (negative, unsigned) := takeSign (skipStreamSpaces cString)
  let digits := unsigned.takeWhile isAsciiDigit
  let value := digits.foldl (fun value c => value * 10 + (c - byte '0').toNat) 0
  if digits.isEmpty then ⟨0, cString, false⟩
  else if 2 ^ 64 ≤ value then ⟨2 ^ 64 - 1, unsigned.drop digits.length, true⟩
  else if negative then
    ⟨(2 ^ 64 - value) % 2 ^ 64, unsigned.drop digits.length, false⟩
  else ⟨value, unsigned.drop digits.length, false⟩

end IrcPlatform
