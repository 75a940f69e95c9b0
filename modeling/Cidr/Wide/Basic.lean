import Cidr.Family
import Cidr.Wide.UInt33
import Cidr.Wide.UInt129

/-!
# Counts of addresses

The number of addresses in a block, and sums and differences of addresses, take
one bit more than an address.  A `Wide` is such a number together with the family
whose addresses it counts; numbers of different families do not mix.

## Main definitions

* `Wide`, `Wide.family`, `Wide.toNat` — the type, its tag and its value.
* `Wide.add?`, `Wide.sub?` — arithmetic within one family.
* `Wide.octets`, `Wide.ofOctets` — the encoding of the family's integers.
-/

namespace Cidr

/-- A number one bit wider than the addresses of a family. -/
inductive Wide where
  /-- A number of 33 bits. -/
  | v4 (value : UInt33)
  /-- A number of 129 bits. -/
  | v6 (value : UInt129)
  deriving DecidableEq, Repr, Inhabited

namespace Wide

/-- The family whose addresses are counted. -/
def family : Wide → Family
  | v4 _ => .v4
  | v6 _ => .v6

/-- The number itself. -/
def toNat : Wide → Nat
  | v4 x => x.toNat
  | v6 x => x.toNat

@[simp] theorem family_v4 (x : UInt33) : (v4 x).family = .v4 := rfl

@[simp] theorem family_v6 (x : UInt129) : (v6 x).family = .v6 := rfl

@[simp] theorem toNat_v4 (x : UInt33) : (v4 x).toNat = x.toNat := rfl

@[simp] theorem toNat_v6 (x : UInt129) : (v6 x).toNat = x.toNat := rfl

/-- The number of a family with a given value, if there is one. -/
def ofNat? : Family → Nat → Option Wide
  | .v4, n => (UInt33.ofNat? n).map v4
  | .v6, n => (UInt129.ofNat? n).map v6

theorem ofNat?_eq_some_iff {f : Family} {n : Nat} {x : Wide} :
    ofNat? f n = some x ↔ x.family = f ∧ x.toNat = n := by
  cases f <;> cases x <;>
    simp [ofNat?, UInt33.ofNat?_eq_some_iff, UInt129.ofNat?_eq_some_iff]

/-- The number, if it fits 128 bits. -/
def narrow? : Wide → Option Nat
  | v4 x => some x.toNat
  | v6 x => x.narrow?

/-- The least number of a family. -/
def zero : Family → Wide
  | .v4 => v4 .zero
  | .v6 => v6 .zero

/-- The number one of a family. -/
def one : Family → Wide
  | .v4 => v4 .one
  | .v6 => v6 .one

/-- The greatest number of a family. -/
def max : Family → Wide
  | .v4 => v4 .max
  | .v6 => v6 .max

/-- The number of a family in which bit `k` alone is set. -/
def twoPow : Family → Nat → Wide
  | .v4, k => v4 (.twoPow k)
  | .v6, k => v6 (.twoPow k)

@[simp] theorem family_one (f : Family) : (one f).family = f := by cases f <;> rfl

@[simp] theorem toNat_one (f : Family) : (one f).toNat = 1 := by cases f <;> rfl

@[simp] theorem family_twoPow (f : Family) (k : Nat) : (twoPow f k).family = f := by
  cases f <;> rfl

/-- The numbers of IPv4 come before those of IPv6. -/
instance : Ord Wide where
  compare
    | v4 x, v4 y => compare x y
    | v4 _, v6 _ => .lt
    | v6 _, v4 _ => .gt
    | v6 x, v6 y => compare x y

/-! ### Arithmetic and bitwise work -/

/-- The sum, if both numbers are of one family and the sum fits it. -/
def add? : Wide → Wide → Option Wide
  | v4 x, v4 y => (x.add? y).map v4
  | v6 x, v6 y => (x.add? y).map v6
  | _, _ => none

/-- The difference, if both numbers are of one family and it is not negative. -/
def sub? : Wide → Wide → Option Wide
  | v4 x, v4 y => (x.sub? y).map v4
  | v6 x, v6 y => (x.sub? y).map v6
  | _, _ => none

/-- A sum is exact, and missing only if it does not fit or the families differ. -/
theorem add?_eq (x y : Wide) :
    add? x y = if x.family = y.family then ofNat? x.family (x.toNat + y.toNat) else none := by
  cases x <;> cases y <;> simp [add?, ofNat?, UInt33.add?_eq, UInt129.add?_eq]

/-- A difference is exact, and missing only if it is negative or the families differ. -/
theorem sub?_eq (x y : Wide) :
    sub? x y = if x.family = y.family ∧ y.toNat ≤ x.toNat then
      ofNat? x.family (x.toNat - y.toNat) else none := by
  cases x <;> cases y <;> simp only [sub?, UInt33.sub?_eq, UInt129.sub?_eq] <;> simp [ofNat?]
  · split <;> simp
  · split <;> simp

theorem add?_eq_some_iff {x y s : Wide} :
    add? x y = some s ↔
      x.family = y.family ∧ s.family = x.family ∧ s.toNat = x.toNat + y.toNat := by
  rw [add?_eq]
  split
  · next hf => simp only [ofNat?_eq_some_iff, hf, true_and]
  · next hf => simp [hf]

theorem sub?_eq_some_iff {x y d : Wide} :
    sub? x y = some d ↔
      x.family = y.family ∧ d.family = x.family ∧ d.toNat + y.toNat = x.toNat := by
  rw [sub?_eq]
  split
  · next h =>
    have hn : d.toNat = x.toNat - y.toNat ↔ d.toNat + y.toNat = x.toNat := by omega
    simp only [ofNat?_eq_some_iff, h.1, hn, true_and]
  · next h =>
    constructor
    · intro h'
      simp at h'
    · rintro ⟨hf, -, hn⟩
      exact absurd ⟨hf, by omega⟩ h

/-- The bits that are not set. -/
def complement : Wide → Wide
  | v4 x => v4 x.complement
  | v6 x => v6 x.complement

@[simp] theorem family_complement (x : Wide) : x.complement.family = x.family := by
  cases x <;> rfl

/-- The bits moved up by `n` places within the width of the family. -/
def shiftLeft : Wide → Nat → Except Error Wide
  | v4 x, n => (x.shiftLeft n).map v4
  | v6 x, n => (x.shiftLeft n).map v6

/-- The bits moved down by `n` places. -/
def shiftRight : Wide → Nat → Except Error Wide
  | v4 x, n => (x.shiftRight n).map v4
  | v6 x, n => (x.shiftRight n).map v6

/-- The number of zeros below the lowest one; the full width for zero. -/
def trailingZeros : Wide → Nat
  | v4 x => x.trailingZeros
  | v6 x => x.trailingZeros

/-- The number of bits up to the highest one; 0 for zero. -/
def bitLength : Wide → Nat
  | v4 x => x.bitLength
  | v6 x => x.bitLength

/-! ### Written forms -/

/-- The encoding in the octets of an address, or in one more. -/
def octets : Wide → Octets
  | v4 x => x.octets
  | v6 x => x.octets

/-- The encoding stands for the number. -/
theorem toNat_octets (x : Wide) : Octets.toNat x.octets = x.toNat := by
  cases x with
  | v4 x => exact x.toNat_octets
  | v6 x => exact x.toNat_octets

/-- The number of a family that an encoding stands for. -/
def ofOctets : Family → Octets → Except Error Wide
  | .v4, a => (UInt33.ofOctets a).map v4
  | .v6, a => (UInt129.ofOctets a).map v6

/-- The decimal digits. -/
def digits : Wide → List Char
  | v4 x => x.digits
  | v6 x => x.digits

instance : ToString Wide where
  toString x := String.ofList x.digits

end Wide

end Cidr
