/-!
# Numerals

A numeral is a nonempty sequence of digits of a base, in which the letters that
serve as digits may be of either case.  It stands for a number, and zeros may
stand before it.

## Main definitions

* `IsDigit` — a character is a digit of a base.
* `IsNumeral` — a text is a numeral for a number.
* `IsPlainNumeral` — it has no superfluous zeros in front.
* `IsLowerNumeral` — and its letters are of lower case.
-/

namespace Cidr

/-- The character is the digit for `d` in the base. -/
def IsDigit (base : Nat) (c : Char) (d : Nat) : Prop := d < base ∧ c.toLower = d.digitChar

instance (base : Nat) (c : Char) (d : Nat) : Decidable (IsDigit base c d) :=
  inferInstanceAs (Decidable (_ ∧ _))

/-- The text is a numeral for `n` in the base.  A further digit comes in as the last one. -/
inductive IsNumeral (base : Nat) : (s : List Char) → (n : Nat) → Prop
  /-- A single digit. -/
  | digit {c : Char} {d : Nat} (hc : IsDigit base c d) : IsNumeral base [c] d
  /-- Another digit after a numeral. -/
  | snoc {s : List Char} {n : Nat} {c : Char} {d : Nat} (hs : IsNumeral base s n)
      (hc : IsDigit base c d) : IsNumeral base (s ++ [c]) (base * n + d)

/-- The text is a numeral that begins with a zero only if it is that zero. -/
structure IsPlainNumeral (base : Nat) (s : List Char) (n : Nat) : Prop where
  /-- It is a numeral. -/
  isNumeral : IsNumeral base s n
  /-- There is no zero in front. -/
  eq_zero : s.head? = some '0' → s = ['0']

/-- The text is a numeral without superfluous zeros or capital letters. -/
structure IsLowerNumeral (base : Nat) (s : List Char) (n : Nat) : Prop
    extends IsPlainNumeral base s n where
  /-- There are no capital letters. -/
  toLower_eq : ∀ c ∈ s, c.toLower = c

end Cidr
