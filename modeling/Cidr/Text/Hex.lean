/-!
# Hexadecimal text

Numbers are written with lowercase digits and without leading zeros.  They are
read back from nonempty sequences of digits of either case.

## Main definitions

* `Hex.digits` — the written form of a number.
* `Hex.value?` — the number that a sequence of digits stands for.
-/

namespace Cidr.Hex

/-- The hexadecimal digits of a number, the most significant one first. -/
def digits (n : Nat) : List Char := Nat.toDigits 16 n

/-- The value of an ASCII hexadecimal digit. -/
def digitValue? (c : Char) : Option Nat :=
  if c.isDigit then some (c.toNat - '0'.toNat)
  else if 'a' ≤ c ∧ c ≤ 'f' then some (c.toNat - 'a'.toNat + 10)
  else if 'A' ≤ c ∧ c ≤ 'F' then some (c.toNat - 'A'.toNat + 10)
  else none

/-- Appends the digits of a text to a number. -/
def valueAfter? : (n : Nat) → List Char → Option Nat
  | n, [] => some n
  | n, c :: s => (digitValue? c).bind fun d => valueAfter? (16 * n + d) s

/-- The number that a nonempty sequence of hexadecimal digits stands for. -/
def value? (s : List Char) : Option Nat := if s = [] then none else valueAfter? 0 s

@[simp] theorem valueAfter?_nil (n : Nat) : valueAfter? n [] = some n := rfl

@[simp] theorem valueAfter?_cons (n : Nat) (c : Char) (s : List Char) :
    valueAfter? n (c :: s) = (digitValue? c).bind fun d => valueAfter? (16 * n + d) s := rfl

theorem valueAfter?_append (n : Nat) (s t : List Char) :
    valueAfter? n (s ++ t) = (valueAfter? n s).bind fun m => valueAfter? m t := by
  induction s generalizing n with
  | nil => rfl
  | cons c s ih =>
    rw [List.cons_append, valueAfter?_cons, valueAfter?_cons, Option.bind_assoc]
    exact Option.bind_congr fun d _ => ih _

end Cidr.Hex
