/-!
# Limbs

A wide number is worked on in limbs of 64 bits.  An addition hands a carry to the
next limb and a subtraction a borrow; each step is pinned down by one equation on
natural numbers.

## Main definitions

* `Limb.sum`, `Limb.carry` — addition of two limbs and a carry.
* `Limb.difference`, `Limb.borrow` — subtraction of a limb and a borrow.
* `Limb.bit` — the limb in which a single bit is set.
* `Limb.trailingZeros`, `Limb.bitLength` — the place of the lowest and of the
  highest bit that is set.

## Main results

* `Limb.sum_add_carry`, `Limb.difference_add` — no bit of either is lost.
-/

namespace Cidr.Limb

theorem toNat_lt (x : UInt64) : x.toNat < 1 <<< 64 := x.toNat_lt

/-! ### Addition -/

/-- The low 64 bits of the sum of two limbs and a carry. -/
def sum (x y : UInt64) (c : Bool) : UInt64 := x + y + c.toUInt64

/-- Whether the sum of two limbs and a carry needs a 65th bit: one of the two
additions wrapped around. -/
def carry (x y : UInt64) (c : Bool) : Bool := x + y < x || sum x y c < x + y

theorem toNat_toUInt64 (c : Bool) : c.toUInt64.toNat = c.toNat := by cases c <;> rfl

theorem toNat_sum (x y : UInt64) (c : Bool) :
    (sum x y c).toNat = (x.toNat + y.toNat + c.toNat) % UInt64.size := by
  simp [sum, toNat_toUInt64]

theorem carry_iff (x y : UInt64) (c : Bool) :
    carry x y c = true ↔ UInt64.size ≤ x.toNat + y.toNat + c.toNat := by
  have hx := x.toNat_lt
  have hy := y.toNat_lt
  have hc := c.toNat_le
  simp only [carry, Bool.or_eq_true, decide_eq_true_eq, UInt64.lt_iff_toNat_lt, toNat_sum,
    UInt64.toNat_add, UInt64.size]
  omega

/-- No bit of a sum is lost: it is split between the limb and the carry. -/
theorem sum_add_carry (x y : UInt64) (c : Bool) :
    (sum x y c).toNat + (carry x y c).toNat <<< 64 = x.toNat + y.toNat + c.toNat := by
  have hx := x.toNat_lt
  have hy := y.toNat_lt
  have hc := c.toNat_le
  have hcarry := carry_iff x y c
  simp only [toNat_sum, UInt64.size] at hcarry ⊢
  cases h : carry x y c <;> simp only [h, Bool.toNat_true, Bool.toNat_false] at hcarry ⊢ <;>
    simp at hcarry <;> omega

/-! ### Subtraction -/

/-- The low 64 bits of a limb less another limb and a borrow. -/
def difference (x y : UInt64) (b : Bool) : UInt64 := x - y - b.toUInt64

/-- Whether a limb is less than the sum of another limb and a borrow. -/
def borrow (x y : UInt64) (b : Bool) : Bool := x < y || x - y < b.toUInt64

theorem toNat_difference (x y : UInt64) (b : Bool) :
    (difference x y b).toNat = (2 * UInt64.size + x.toNat - y.toNat - b.toNat) % UInt64.size := by
  have hx := x.toNat_lt
  have hy := y.toNat_lt
  have hb := b.toNat_le
  simp only [difference, UInt64.toNat_sub, toNat_toUInt64, UInt64.size]
  omega

theorem borrow_iff (x y : UInt64) (b : Bool) :
    borrow x y b = true ↔ x.toNat < y.toNat + b.toNat := by
  have hx := x.toNat_lt
  have hy := y.toNat_lt
  have hb := b.toNat_le
  simp only [borrow, Bool.or_eq_true, decide_eq_true_eq, UInt64.lt_iff_toNat_lt, toNat_toUInt64,
    UInt64.toNat_sub]
  omega

/-- A difference with what was subtracted makes up the limb and the borrow. -/
theorem difference_add (x y : UInt64) (b : Bool) :
    (difference x y b).toNat + y.toNat + b.toNat = x.toNat + (borrow x y b).toNat <<< 64 := by
  have hx := x.toNat_lt
  have hy := y.toNat_lt
  have hb := b.toNat_le
  have hborrow := borrow_iff x y b
  simp only [toNat_difference, UInt64.size]
  cases h : borrow x y b <;> simp only [h, Bool.toNat_true, Bool.toNat_false] at hborrow ⊢ <;>
    simp at hborrow <;> omega

/-! ### Order -/

theorem compare_eq (x y : UInt64) : compare x y = compare x.toNat y.toNat := by
  simp only [compare, compareOfLessAndEq, UInt64.lt_iff_toNat_lt, UInt64.toNat_inj]

/-! ### The place of a bit -/

/-- The limb in which bit `k` alone is set; zero if there is no such bit. -/
def bit (k : Nat) : UInt64 := if k < 64 then 1 <<< UInt64.ofNat k else 0

/-- The number of zeros below the lowest one; 64 for zero. -/
def trailingZeros (x : UInt64) : Nat := x.toBitVec.ctz.toNat

/-- The number of bits up to the highest one; 0 for zero. -/
def bitLength (x : UInt64) : Nat := 64 - x.toBitVec.clz.toNat

end Cidr.Limb
