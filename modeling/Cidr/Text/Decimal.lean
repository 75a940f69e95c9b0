/-!
# Decimal text

Numbers are written in decimal without leading zeros, and read back from any
nonempty sequence of the ten ASCII digits.  Numbers too wide for a machine word
are added in their written form, digit by digit.

## Main definitions

* `Decimal.digits` — the written form of a number.
* `Decimal.value?` — the number that a sequence of digits stands for.
* `Decimal.add` — the written form of the sum of two written numbers.
-/

namespace Cidr.Decimal

/-- The decimal digits of a number, the most significant one first. -/
def digits (n : Nat) : List Char := Nat.toDigits 10 n

/-- The number that a nonempty sequence of ASCII digits stands for. -/
def value? (s : List Char) : Option Nat :=
  if s ≠ [] ∧ s.all Char.isDigit then some (Nat.ofDigitChars 10 s 0) else none

theorem digits_ne_nil (n : Nat) : digits n ≠ [] := Nat.toDigits_ne_nil

theorem isDigit_of_mem_digits {n : Nat} {c : Char} (h : c ∈ digits n) : c.isDigit :=
  Nat.isDigit_of_mem_toDigits (by decide) (by decide) h

/-- Reading the written form of a number gives the number. -/
@[simp] theorem value?_digits (n : Nat) : value? (digits n) = some n := by
  have hall : (digits n).all Char.isDigit :=
    List.all_eq_true.2 fun _ hc => isDigit_of_mem_digits hc
  rw [value?, if_pos ⟨digits_ne_nil n, hall⟩, digits, Nat.ofDigitChars_ten_toDigits]

/-! ### Addition -/

/-- Adds a carry to digits given with the least significant one first. -/
def addCarry : List Nat → (carry : Nat) → List Nat
  | [], 0 => []
  | [], carry => [carry]
  | x :: a, carry => (x + carry) % 10 :: addCarry a ((x + carry) / 10)

/-- Adds two sequences of digits, the least significant one first, and a carry. -/
def addDigits : List Nat → List Nat → (carry : Nat) → List Nat
  | [], b, carry => addCarry b carry
  | x :: a, [], carry => addCarry (x :: a) carry
  | x :: a, y :: b, carry => (x + y + carry) % 10 :: addDigits a b ((x + y + carry) / 10)

/-- The values of the digits of a written number, the least significant one first. -/
def lowDigits (s : List Char) : List Nat := s.reverse.map fun c => c.toNat - '0'.toNat

/-- The sum of two written numbers. -/
def add (a b : List Char) : List Char :=
  ((addDigits (lowDigits a) (lowDigits b) 0).map Nat.digitChar).reverse

end Cidr.Decimal
