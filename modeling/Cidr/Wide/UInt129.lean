import Cidr.Radix
import Cidr.Wide.Encoding
import Cidr.Wide.Limb
import Cidr.Text.Decimal

/-!
# Unsigned integers of 129 bits

An IPv6 block holds up to `2 ^ 128` addresses.  Numbers of 129 bits count them.
They are kept in two limbs and the extra bit above them, and are compared,
added and shifted limb by limb.

## Main definitions

* `UInt129`, `UInt129.toNat`, `UInt129.ofNat?` — the type and its values.
* `UInt129.add?`, `UInt129.sub?` — arithmetic, `none` where it leaves the range.
* `UInt129.shiftLeft`, `UInt129.shiftRight` — shifts by up to 128 places.
* `UInt129.octets`, `UInt129.ofOctets` — the encoding in 16 or 17 octets.
* `UInt129.digits` — the decimal digits.
-/

namespace Cidr

/-- An unsigned integer of 129 bits. -/
structure UInt129 where
  /-- The extra bit, bit 128. -/
  top : Bool
  /-- Bits 64 to 127. -/
  hi : UInt64
  /-- Bits 0 to 63. -/
  lo : UInt64
  deriving DecidableEq, Repr, Inhabited

namespace UInt129

/-- The number below the extra bit. -/
def lowNat (x : UInt129) : Nat := x.hi.toNat <<< 64 + x.lo.toNat

/-- The number itself. -/
def toNat (x : UInt129) : Nat := x.top.toNat <<< 128 + x.lowNat

theorem lowNat_lt (x : UInt129) : x.lowNat < 1 <<< 128 := by
  have hhi := x.hi.toNat_lt
  have hlo := x.lo.toNat_lt
  unfold lowNat
  omega

theorem toNat_lt (x : UInt129) : x.toNat < 1 <<< 129 := by
  have hlow := x.lowNat_lt
  have htop := x.top.toNat_le
  unfold toNat
  omega

theorem toNat_eq (x : UInt129) :
    x.toNat = x.top.toNat <<< 128 + (x.hi.toNat <<< 64 + x.lo.toNat) := rfl

theorem toNat_inj {x y : UInt129} (h : x.toNat = y.toNat) : x = y := by
  have hx := x.lowNat_lt
  have hy := y.lowNat_lt
  have hxhi := x.hi.toNat_lt
  have hxlo := x.lo.toNat_lt
  have hylo := y.lo.toNat_lt
  simp only [toNat, lowNat] at h hx hy
  have htop : x.top = y.top := by
    have : x.top.toNat = y.top.toNat := by omega
    revert this
    cases x.top <;> cases y.top <;> decide
  have hhi : x.hi.toNat = y.hi.toNat := by omega
  have hlo : x.lo.toNat = y.lo.toNat := by omega
  cases x
  cases y
  exact (mk.injEq ..).mpr ⟨htop, UInt64.toNat_inj.1 hhi, UInt64.toNat_inj.1 hlo⟩

/-- A number below `2 ^ 129`. -/
def ofNat? (n : Nat) : Option UInt129 :=
  if n < 1 <<< 129 then some ⟨1 <<< 128 ≤ n, UInt64.ofNat (n >>> 64), UInt64.ofNat n⟩ else none

theorem ofNat?_eq_some_iff {n : Nat} {x : UInt129} : ofNat? n = some x ↔ x.toNat = n := by
  have hof : ∀ y, ofNat? n = some y → y.toNat = n := by
    intro y h
    unfold ofNat? at h
    split at h
    · next hn =>
      obtain rfl := Option.some.inj h
      simp only [toNat_eq, UInt64.toNat_ofNat']
      by_cases htop : 1 <<< 128 ≤ n
      · rw [decide_eq_true htop, Bool.toNat_true]
        omega
      · rw [decide_eq_false htop, Bool.toNat_false]
        omega
    · simp at h
  constructor
  · exact hof x
  · intro h
    have hlt : n < 1 <<< 129 := h ▸ x.toNat_lt
    cases hn : ofNat? n with
    | none =>
      rw [ofNat?, if_pos hlt] at hn
      exact absurd hn nofun
    | some y => rw [toNat_inj ((hof y hn).trans h.symm)]

/-- The number, if it does not need the extra bit. -/
def narrow? (x : UInt129) : Option Nat := if x.top then none else some x.lowNat

/-- The least number. -/
def zero : UInt129 := ⟨false, 0, 0⟩

/-- The number one. -/
def one : UInt129 := ⟨false, 0, 1⟩

/-- The greatest number. -/
def max : UInt129 := ⟨true, 0xFFFFFFFFFFFFFFFF, 0xFFFFFFFFFFFFFFFF⟩

/-- The number in which bit `k` alone is set. -/
def twoPow (k : Nat) : UInt129 where
  top := k = 128
  hi := if k < 64 then 0 else Limb.bit (k - 64)
  lo := Limb.bit k

/-- The extra bit decides first, then the upper limb, then the lower one. -/
instance : Ord UInt129 where
  compare x y := (compare x.top y.top).then ((compare x.hi y.hi).then (compare x.lo y.lo))

/-- The order from the top down is the order of the numbers. -/
theorem compare_eq (x y : UInt129) : compare x y = compare x.toNat y.toNat := by
  have hbool : ∀ a b : Bool, compare a b = compare a.toNat b.toNat := by decide
  change (compare x.top y.top).then ((compare x.hi y.hi).then (compare x.lo y.lo)) = _
  rw [hbool, Limb.compare_eq, Limb.compare_eq,
    Radix.compare_then (Limb.toNat_lt x.lo) (Limb.toNat_lt y.lo)]
  exact Radix.compare_then x.lowNat_lt y.lowNat_lt

/-! ### Arithmetic -/

/-- The sum, if it has 129 bits: the extra bits and the carry must not add up to two. -/
def add? (x y : UInt129) : Option UInt129 :=
  let c := Limb.carry x.lo y.lo false
  let top := x.top.toNat + y.top.toNat + (Limb.carry x.hi y.hi c).toNat
  if top < 2 then some ⟨top = 1, Limb.sum x.hi y.hi c, Limb.sum x.lo y.lo false⟩ else none

/-- The sum is exact, and missing only if it does not fit. -/
theorem add?_eq (x y : UInt129) : add? x y = ofNat? (x.toNat + y.toNat) := by
  have hlo := Limb.sum_add_carry x.lo y.lo false
  have hhi := Limb.sum_add_carry x.hi y.hi (Limb.carry x.lo y.lo false)
  have hslo := (Limb.sum x.lo y.lo false).toNat_lt
  have hshi := (Limb.sum x.hi y.hi (Limb.carry x.lo y.lo false)).toNat_lt
  have hfalse : false.toNat = 0 := rfl
  have hx := x.toNat_eq
  have hy := y.toNat_eq
  by_cases htop : x.top.toNat + y.top.toNat +
      (Limb.carry x.hi y.hi (Limb.carry x.lo y.lo false)).toNat < 2
  · rw [add?, if_pos htop, ofNat?, if_pos (show x.toNat + y.toNat < 1 <<< 129 by omega)]
    refine congrArg some ((mk.injEq ..).mpr ⟨?_, ?_, ?_⟩)
    · rw [decide_eq_decide]
      omega
    · apply UInt64.toNat_inj.1
      rw [UInt64.toNat_ofNat']
      omega
    · apply UInt64.toNat_inj.1
      rw [UInt64.toNat_ofNat']
      omega
  · rw [add?, if_neg htop, ofNat?, if_neg (show ¬ x.toNat + y.toNat < 1 <<< 129 by omega)]

/-- What a subtraction leaves of the extra bit, with its sign. -/
def topDifference (x y : UInt129) : Int :=
  x.top.toInt - y.top.toInt - (Limb.borrow x.hi y.hi (Limb.borrow x.lo y.lo false)).toInt

/-- The difference, if it is not negative. -/
def sub? (x y : UInt129) : Option UInt129 :=
  if compare x y = .lt then none
  else
    let b := Limb.borrow x.lo y.lo false
    some ⟨topDifference x y = 1, Limb.difference x.hi y.hi b, Limb.difference x.lo y.lo false⟩

/-- What is left of the extra bit is again a bit, unless the difference is negative. -/
theorem topDifference_eq (x y : UInt129) :
    topDifference x y * (1 <<< 128 : Nat) + ((Limb.difference x.hi y.hi
      (Limb.borrow x.lo y.lo false)).toNat <<< 64 +
      (Limb.difference x.lo y.lo false).toNat : Nat) = (x.toNat : Int) - y.toNat := by
  have hlo := Limb.difference_add x.lo y.lo false
  have hhi := Limb.difference_add x.hi y.hi (Limb.borrow x.lo y.lo false)
  have hfalse : false.toNat = 0 := rfl
  have hint : ∀ b : Bool, b.toInt = (b.toNat : Int) := by decide
  have hx := x.toNat_eq
  have hy := y.toNat_eq
  simp only [topDifference, hint]
  omega

/-- The difference is exact, and missing only if it is negative. -/
theorem sub?_eq (x y : UInt129) :
    sub? x y = if y.toNat ≤ x.toNat then ofNat? (x.toNat - y.toNat) else none := by
  have hdiff := topDifference_eq x y
  have hslo := (Limb.difference x.lo y.lo false).toNat_lt
  have hshi := (Limb.difference x.hi y.hi (Limb.borrow x.lo y.lo false)).toNat_lt
  have hx := x.toNat_lt
  by_cases hle : y.toNat ≤ x.toNat
  · rw [sub?, compare_eq, if_neg (Nat.compare_ne_lt.2 hle), if_pos hle, ofNat?,
      if_pos (show x.toNat - y.toNat < 1 <<< 129 by omega)]
    refine congrArg some ((mk.injEq ..).mpr ⟨?_, ?_, ?_⟩)
    · rw [decide_eq_decide]
      omega
    · apply UInt64.toNat_inj.1
      rw [UInt64.toNat_ofNat']
      omega
    · apply UInt64.toNat_inj.1
      rw [UInt64.toNat_ofNat']
      omega
  · rw [sub?, compare_eq, if_pos (Nat.compare_eq_lt.2 (by omega)), if_neg hle]

/-! ### Bitwise work -/

/-- The bits that are set in both numbers. -/
def and (x y : UInt129) : UInt129 := ⟨x.top && y.top, x.hi &&& y.hi, x.lo &&& y.lo⟩

/-- The bits that are set in one number at least. -/
def or (x y : UInt129) : UInt129 := ⟨x.top || y.top, x.hi ||| y.hi, x.lo ||| y.lo⟩

/-- The bits that are set in exactly one of the numbers. -/
def xor (x y : UInt129) : UInt129 := ⟨x.top ^^ y.top, x.hi ^^^ y.hi, x.lo ^^^ y.lo⟩

/-- The bits that are not set. -/
def complement (x : UInt129) : UInt129 := ⟨!x.top, ~~~x.hi, ~~~x.lo⟩

/-- The bits moved up by `n` places; those above bit 128 are lost. -/
def shiftLeft (x : UInt129) (n : Nat) : Except Error UInt129 :=
  let up := UInt64.ofNat
  if n = 0 then .ok x
  else if n < 64 then
    -- the lower limb spills into the upper one, and that into the extra bit
    .ok ⟨x.hi >>> up (64 - n) &&& 1 = 1, x.hi <<< up n ||| x.lo >>> up (64 - n), x.lo <<< up n⟩
  else if n = 64 then .ok ⟨x.hi &&& 1 = 1, x.lo, 0⟩
  else if n < 128 then .ok ⟨x.lo >>> up (128 - n) &&& 1 = 1, x.lo <<< up (n - 64), 0⟩
  else if n = 128 then .ok ⟨x.lo &&& 1 = 1, 0, 0⟩
  else .error (.shiftOutOfRange n 128)

/-- The bits moved down by `n` places; those below bit 0 are lost. -/
def shiftRight (x : UInt129) (n : Nat) : Except Error UInt129 :=
  let top := x.top.toUInt64
  let down := UInt64.ofNat
  if n = 0 then .ok x
  else if n < 64 then
    -- the extra bit spills into the upper limb, and that into the lower one
    .ok ⟨false, x.hi >>> down n ||| top <<< down (64 - n),
      x.lo >>> down n ||| x.hi <<< down (64 - n)⟩
  else if n = 64 then .ok ⟨false, top, x.hi⟩
  else if n < 128 then .ok ⟨false, 0, x.hi >>> down (n - 64) ||| top <<< down (128 - n)⟩
  else if n = 128 then .ok ⟨false, 0, top⟩
  else .error (.shiftOutOfRange n 128)

/-- The number of zeros below the lowest one; 129 for zero. -/
def trailingZeros (x : UInt129) : Nat :=
  if x.lo ≠ 0 then Limb.trailingZeros x.lo
  else if x.hi ≠ 0 then 64 + Limb.trailingZeros x.hi
  else if x.top then 128 else 129

/-- The number of bits up to the highest one; 0 for zero. -/
def bitLength (x : UInt129) : Nat :=
  if x.top then 129
  else if x.hi ≠ 0 then 64 + Limb.bitLength x.hi
  else Limb.bitLength x.lo

/-! ### Written forms -/

/-- The encoding in 16 octets, or in 17 when the extra bit is set. -/
def octets (x : UInt129) : Octets :=
  Octets.withExtraBit x.top (Octets.ofNat 8 x.hi.toNat ++ Octets.ofNat 8 x.lo.toNat)

/-- The encoding stands for the number. -/
theorem toNat_octets (x : UInt129) : Octets.toNat x.octets = x.toNat := by
  have hhi : x.hi.toNat < 1 <<< (8 * 8) := x.hi.toNat_lt
  have hlo : x.lo.toNat < 1 <<< (8 * 8) := x.lo.toNat_lt
  simp only [octets, Octets.toNat_withExtraBit, List.length_append, Octets.toNat_append,
    Octets.length_ofNat, Octets.toNat_ofNat_of_lt hhi, Octets.toNat_ofNat_of_lt hlo, toNat_eq,
    Nat.reduceAdd, Nat.reduceMul]

/-- The number that 16 octets stand for, or 17 of which the first is at most 1. -/
def ofOctets (a : Octets) : Except Error UInt129 :=
  match Octets.splitExtraBit? 16 a with
  | some (top, rest) =>
    .ok ⟨top, UInt64.ofNat (Octets.toNat (rest.take 8)), UInt64.ofNat (Octets.toNat (rest.drop 8))⟩
  | none => .error (.octetCount a.length)

/-- The decimal digits.  The digits of the extra bit are added to those of the rest. -/
def digits (x : UInt129) : List Char :=
  if x.top then Decimal.add (Decimal.digits (1 <<< 128)) (Decimal.digits x.lowNat)
  else Decimal.digits x.lowNat

instance : ToString UInt129 where
  toString x := String.ofList x.digits

end UInt129

end Cidr
