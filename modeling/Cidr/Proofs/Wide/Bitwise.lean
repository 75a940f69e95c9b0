import Cidr.Proofs.Wide.Guarded
import Mathlib.Order.Bounds.Defs

/-!
# Bitwise work on wide numbers

The limbs of two numbers are combined one by one, and the extra bits on their own.  As
each bit of a number is a bit of one limb, what an operation does to single bits is all
there is to know about it.  The complement is the one operation that sets bits where
there were none; it sets them up to the width and not beyond.

The places of the lowest and of the highest bit are given by the powers of two that
divide a number, and by those that exceed it.  There is a greatest one of the former
unless the number is zero, and a least one of the latter.

## Main definitions

* `Bitwise` — operations on numbers of some width work bit by bit.
* `BitPlaces` — the places of the lowest and of the highest bit.

## Main results

* `UInt129.testBit_toNat_combine` — **work on limbs is work on numbers.**
* `Bitwise.of_testBit`, `BitPlaces.of_iff` — what is to be shown of each width.
* `bitwise_exact` — **the bits of wide numbers are worked on one by one,** and the
  lowest and the highest one are found.
-/

namespace Cidr

/-- The operations on numbers of `w` bits work bit by bit. -/
structure Bitwise {α : Type} (w : Nat) (value : α → Nat) (and or xor : α → α → α)
    (complement : α → α) : Prop where
  testBit_and : ∀ x y i, (value (and x y)).testBit i = ((value x).testBit i && (value y).testBit i)
  testBit_or : ∀ x y i, (value (or x y)).testBit i = ((value x).testBit i || (value y).testBit i)
  testBit_xor : ∀ x y i, (value (xor x y)).testBit i = ((value x).testBit i ^^ (value y).testBit i)
  /-- The bits past the width are not set in either number. -/
  testBit_complement : ∀ x, ∀ i < w, (value (complement x)).testBit i = !(value x).testBit i
  value_complement : ∀ x, value (complement x) = 2 ^ w - 1 - value x

/-- The zeros at the end of numbers of `w` bits, and the bits up to the highest one, are
counted. -/
structure BitPlaces {α : Type} (w : Nat) (value : α → Nat) (trailingZeros bitLength : α → Nat) :
    Prop where
  trailingZeros_of_zero : ∀ x, value x = 0 → trailingZeros x = w
  isGreatest_trailingZeros : ∀ x, value x ≠ 0 → IsGreatest {k | 2 ^ k ∣ value x} (trailingZeros x)
  bitLength_of_zero : ∀ x, value x = 0 → bitLength x = 0
  /-- There is one such number of bits. -/
  bitLength_eq_iff : ∀ x, value x ≠ 0 →
    ∀ k, bitLength x = k ↔ 2 ^ (k - 1) ≤ value x ∧ value x < 2 ^ k

section

variable {α : Type} {w : Nat} {value : α → Nat} {and or xor : α → α → α} {complement : α → α}
  {trailingZeros bitLength : α → Nat}

/-- **A number and its complement add up to all ones,** so that no bit is set in both. -/
theorem Bitwise.of_testBit
    (hand : ∀ x y i, (value (and x y)).testBit i = ((value x).testBit i && (value y).testBit i))
    (hor : ∀ x y i, (value (or x y)).testBit i = ((value x).testBit i || (value y).testBit i))
    (hxor : ∀ x y i, (value (xor x y)).testBit i = ((value x).testBit i ^^ (value y).testBit i))
    (hcomplement : ∀ x, value (complement x) + value x + 1 = 2 ^ w) :
    Bitwise w value and or xor complement where
  testBit_and := hand
  testBit_or := hor
  testBit_xor := hxor
  testBit_complement := by
    intro x i hi
    have hadd := hcomplement x
    have heq : value (complement x) = 2 ^ w - (value x + 1) := by omega
    rw [heq, Nat.testBit_two_pow_sub_succ (by omega), decide_eq_true hi, Bool.true_and]
  value_complement := by
    intro x
    have hadd := hcomplement x
    omega

/-- **The places of bits are known from the powers of two** that divide a number or exceed it. -/
theorem BitPlaces.of_iff (hlt : ∀ x, value x < 2 ^ w)
    (hzeros : ∀ x k, k ≤ trailingZeros x ↔ k ≤ w ∧ 2 ^ k ∣ value x)
    (hlength : ∀ x k, bitLength x ≤ k ↔ value x < 2 ^ k) :
    BitPlaces w value trailingZeros bitLength where
  trailingZeros_of_zero := by
    intro x hx
    refine Nat.le_antisymm ((hzeros x _).1 (Nat.le_refl _)).1 ((hzeros x w).2 ⟨Nat.le_refl w, ?_⟩)
    rw [hx]
    exact Nat.dvd_zero _
  isGreatest_trailingZeros := by
    intro x hx
    refine ⟨((hzeros x _).1 (Nat.le_refl _)).2, ?_⟩
    intro k hk
    -- a power of two that divides the number does not exceed it, so it is within the width
    have hle : 2 ^ k ≤ value x := Nat.le_of_dvd (Nat.pos_of_ne_zero hx) hk
    have hkw : k < w :=
      (Nat.pow_lt_pow_iff_right (by decide)).1 (Nat.lt_of_le_of_lt hle (hlt x))
    exact (hzeros x k).2 ⟨Nat.le_of_lt hkw, hk⟩
  bitLength_of_zero := by
    intro x hx
    refine Nat.le_zero.1 ((hlength x 0).2 ?_)
    rw [hx]
    exact Nat.one_pos
  bitLength_eq_iff := by
    intro x hx k
    have hk := hlength x k
    have hpred := hlength x (k - 1)
    have hpos : ¬ bitLength x ≤ 0 := by
      rw [hlength x 0, pow_zero]
      omega
    omega

end

/-! ### Numbers of 33 bits -/

namespace UInt33

theorem bitwise : Bitwise 33 toNat and or xor complement := by
  refine .of_testBit ?_ ?_ ?_ toNat_complement_add
  · intro x y i
    change (x.word &&& y.word).toNat.testBit i = _
    rw [UInt64.toNat_and, Nat.testBit_and]
    rfl
  · intro x y i
    change (x.word ||| y.word).toNat.testBit i = _
    rw [UInt64.toNat_or, Nat.testBit_or]
    rfl
  · intro x y i
    change (x.word ^^^ y.word).toNat.testBit i = _
    rw [UInt64.toNat_xor, Nat.testBit_xor]
    rfl

theorem bitPlaces : BitPlaces 33 toNat trailingZeros bitLength :=
  .of_iff toNat_lt (fun _ _ => le_trailingZeros_iff) (fun _ _ => bitLength_le_iff)

end UInt33

/-! ### Numbers of 129 bits -/

namespace UInt129

/-- **Work on limbs is work on numbers.**  The operation is given by what it does to single bits,
and the extra bits are such. -/
theorem testBit_toNat_combine {f : UInt64 → UInt64 → UInt64} {g : Bool → Bool → Bool}
    (hf : ∀ x y i, (f x y).toNat.testBit i = g (x.toNat.testBit i) (y.toNat.testBit i))
    (x y : UInt129) (i : Nat) :
    (toNat ⟨g x.top y.top, f x.hi y.hi, f x.lo y.lo⟩).testBit i =
      g (x.toNat.testBit i) (y.toNat.testBit i) := by
  -- no limb has a bit 64, so two zeros give a zero
  have hzero := hf 0 0 64
  rw [Limb.testBit_eq_false (Nat.le_refl 64), Limb.testBit_eq_false (Nat.le_refl 64)] at hzero
  rw [testBit_toNat, testBit_toNat, testBit_toNat]
  split_ifs with hlo hhi
  · exact hf x.lo y.lo i
  · exact hf x.hi y.hi _
  · by_cases htop : i = 128
    · rw [decide_eq_true htop, Bool.and_true, Bool.and_true, Bool.and_true]
    · rw [decide_eq_false htop, Bool.and_false, Bool.and_false, Bool.and_false]
      exact hzero

theorem bitwise : Bitwise 129 toNat and or xor complement := by
  refine .of_testBit ?_ ?_ ?_ toNat_complement_add
  · exact testBit_toNat_combine fun x y i => by rw [UInt64.toNat_and, Nat.testBit_and]
  · exact testBit_toNat_combine fun x y i => by rw [UInt64.toNat_or, Nat.testBit_or]
  · exact testBit_toNat_combine fun x y i => by rw [UInt64.toNat_xor, Nat.testBit_xor]

theorem bitPlaces : BitPlaces 129 toNat trailingZeros bitLength :=
  .of_iff toNat_lt (fun _ _ => le_trailingZeros_iff) (fun _ _ => bitLength_le_iff)

end UInt129

/-- **The bits of wide numbers are worked on one by one.**  Each bit of a conjunction, a
disjunction, an exclusive disjunction and a complement is that of the bits at its place, and a
complement is what is left of all ones.  The zeros at the end are as many as the twos in a number,
or as the bits if there is none that is set; the bits up to the highest one are as many as it takes
to write the number, and are counted without a failure. -/
theorem bitwise_exact :
    Bitwise 33 UInt33.toNat UInt33.and UInt33.or UInt33.xor UInt33.complement ∧
    BitPlaces 33 UInt33.toNat UInt33.trailingZeros UInt33.bitLength ∧
    Bitwise 129 UInt129.toNat UInt129.and UInt129.or UInt129.xor UInt129.complement ∧
    BitPlaces 129 UInt129.toNat UInt129.trailingZeros UInt129.bitLength ∧
    (∀ x : UInt33, x.bitLengthGuarded = .ok x.bitLength) ∧
    ∀ x : UInt129, x.bitLengthGuarded = .ok x.bitLength :=
  ⟨UInt33.bitwise, UInt33.bitPlaces, UInt129.bitwise, UInt129.bitPlaces,
    fun x => Limb.bitLengthGuarded_eq x.word, UInt129.bitLengthGuarded_eq⟩

/-- The extra bit alone is a bit with 128 zeros below it, and the complement of zero has it. -/
theorem bitwise_exact_at_extra_bit :
    (UInt129.toNat ⟨true, 0, 0⟩ ≠ 0 ∧
      IsGreatest {k | 2 ^ k ∣ UInt129.toNat ⟨true, 0, 0⟩} 128) ∧
    UInt129.bitLength ⟨true, 0, 0⟩ = 129 ∧
    32 < 33 ∧ UInt33.zero.complement.toNat.testBit 32 = true := by
  obtain ⟨hwork, -, -, hplaces, -⟩ := bitwise_exact
  have hne : UInt129.toNat ⟨true, 0, 0⟩ ≠ 0 := by decide
  exact ⟨⟨hne, hplaces.isGreatest_trailingZeros _ hne⟩,
    (hplaces.bitLength_eq_iff _ hne 129).2 (by decide), by decide,
    hwork.testBit_complement .zero 32 (by decide)⟩

end Cidr
