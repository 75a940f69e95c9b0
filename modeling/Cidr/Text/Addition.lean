import Cidr.Bounds

/-!
# Addition of written numbers

Two numbers are added as they are written, from their last digits on.  A round takes
a digit of each number, as long as there are any, and what was carried over from the
round before, and gives one digit of the sum.  When no digit is left and nothing is
carried over, there are no more rounds.

## Main definitions

* `Addition`, `Addition.start` — what an addition has got to, and where it begins.
* `Addition.round?` — one round of it.
* `Addition.Ends` — the rounds of an addition, counted, and the sum it ends in.
-/

namespace Cidr

open Failure

/-- What an addition of written numbers has got to. -/
structure Addition where
  /-- The digits that are left of the first number, the least significant one first. -/
  left : List Char
  /-- The digits that are left of the second number, the least significant one first. -/
  right : List Char
  /-- What is carried over to the next round. -/
  carry : Nat
  /-- The digits of the sum, the most significant one first. -/
  sum : List Char
  deriving DecidableEq, Repr

namespace Addition

/-- The addition of two written numbers before the first round. -/
def start (a b : List Char) : Addition := ⟨a.reverse, b.reverse, 0, []⟩

/-- The value of the next digit; that of no digit is zero. -/
def digitValue : List Char → Except Failure Nat
  | [] => return 0
  | c :: _ => difference c.toNat '0'.toNat

/-- One more round, unless the addition is at its end.  The sum of two digits and the carry, and
each digit of the sum, are kept in an octet. -/
def round? (s : Addition) : Except Failure (Option Addition) :=
  if s.left = [] ∧ s.right = [] ∧ s.carry = 0 then return none
  else do
    let x ← digitValue s.left
    let y ← digitValue s.right
    let sum ← octet (x + y)
    let sum ← octet (sum + s.carry)
    let digit ← octet ('0'.toNat + sum % 10)
    return some {
      left := s.left.tail
      right := s.right.tail
      carry := sum / 10
      sum := Char.ofNat digit :: s.sum }

/-- The addition takes a number of further rounds and ends in a sum. -/
inductive Ends : Nat → Addition → List Char → Prop where
  /-- There is no further round. -/
  | done {s : Addition} (h : s.round? = .ok none) : Ends 0 s s.sum
  /-- After a first round others follow. -/
  | round {rounds : Nat} {s t : Addition} {sum : List Char} (h : s.round? = .ok (some t))
    (rest : Ends rounds t sum) : Ends (rounds + 1) s sum

end Addition

end Cidr
