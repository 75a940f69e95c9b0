import Cidr.Octets.Basic

/-!
# Contiguous masks

A mask is contiguous when all its ones stand before all its zeros.  It is then
determined by its size and by the number of its ones, the prefix length.

## Main definitions

* `Octets.ones` — the contiguous mask of a size with a number of ones.
* `Octets.netmask` — the same, refusing sizes and lengths out of range.
* `Octets.netmaskLength` — the number of ones of a contiguous mask.
* `Octets.IsMask` — what masks and their complements look like, bit by bit.
* `Octets.truncate` — a sequence with the bits after a prefix set to zero.
-/

namespace Cidr

namespace Octets

/-- The most octets a mask has. -/
def maxMaskCount : Nat := 16

/-- The octet whose first `k` bits are the ones; all eight from `k = 8` on. -/
def leadingOnes (k : Nat) : UInt8 := UInt8.ofNat (256 - 1 <<< (8 - k))

/-- The mask of `count` octets whose first `k` bits are the ones. -/
def ones : (count k : Nat) → Octets
  | 0, _ => []
  | count + 1, k => leadingOnes k :: ones count (k - 8)

@[simp] theorem ones_zero (k : Nat) : ones 0 k = [] := rfl

@[simp] theorem ones_succ (count k : Nat) :
    ones (count + 1) k = leadingOnes k :: ones count (k - 8) := rfl

@[simp] theorem length_ones (count k : Nat) : (ones count k).length = count := by
  induction count generalizing k with
  | zero => rfl
  | succ count ih => simp [ih]

/-- The mask of `count` octets for a prefix length. -/
def netmask (count k : Nat) : Except Error Octets :=
  if maxMaskCount < count then .error (.octetCount count)
  else if 8 * count < k then .error (.lengthOutOfRange k (8 * count))
  else .ok (ones count k)

/-- The prefix length of a contiguous mask. -/
def netmaskLength (mask : Octets) : Except Error Nat :=
  if maxMaskCount < mask.length then .error (.octetCount mask.length)
  else if true ∈ mask.bits.dropWhile id then .error .maskNotContiguous
  else .ok (mask.bits.takeWhile id).length

/-- The first `k` bits are `b`, and all other bits are not. -/
def IsMask (b : Bool) (k : Nat) (mask : Octets) : Prop :=
  mask.bits = List.replicate k b ++ List.replicate (8 * mask.length - k) (!b)

instance (b : Bool) (k : Nat) (mask : Octets) : Decidable (IsMask b k mask) :=
  inferInstanceAs (Decidable (mask.bits = _))

theorem netmask_eq_ok {count k : Nat} (hcount : count ≤ 16) (hk : k ≤ 8 * count) :
    netmask count k = .ok (ones count k) := by
  rw [netmask, if_neg (by unfold maxMaskCount; omega), if_neg (by omega)]

/-! ### Truncation -/

/-- Keeps the first `k` bits of a sequence and clears the rest. -/
def truncate (a : Octets) (k : Nat) : Octets := a.zipWith (· &&& ·) (ones a.length k)

@[simp] theorem truncate_nil (k : Nat) : truncate [] k = [] := rfl

@[simp] theorem truncate_cons (b : UInt8) (a : Octets) (k : Nat) :
    truncate (b :: a) k = (b &&& leadingOnes k) :: truncate a (k - 8) := rfl

@[simp] theorem length_truncate (a : Octets) (k : Nat) : (truncate a k).length = a.length := by
  simp [truncate]

/-- Truncating twice to one length is truncating once. -/
@[simp] theorem truncate_truncate_self (a : Octets) (k : Nat) :
    (a.truncate k).truncate k = a.truncate k := by
  induction a generalizing k with
  | nil => rfl
  | cons b a ih => rw [truncate_cons, truncate_cons, ih, UInt8.and_assoc, UInt8.and_self]

end Octets

end Cidr
