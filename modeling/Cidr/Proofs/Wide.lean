import Cidr.Wide.Basic
import Mathlib.Tactic.Ring

/-!
# The places of the lowest and the highest bit

The number of zeros at the end of a wide number says which powers of two divide
it, and the number of its bits says which powers of two exceed it.  Both are
counted limb by limb, from the side at which they begin.

## Main results

* `Wide.le_trailingZeros_iff` — **the zeros at the end count the twos in a number.**
* `Wide.bitLength_le_iff` — **the bits of a number bound it by a power of two.**
-/

namespace Cidr

/-! ### One limb -/

namespace Limb

theorem trailingZeros_lt {x : UInt64} (hx : x ≠ 0) : trailingZeros x < 64 := by
  have hne : x.toBitVec ≠ 0#64 := by
    intro h
    exact hx (UInt64.toBitVec_inj.1 h)
  exact BitVec.lt_def.1 (BitVec.ctz_lt_iff_ne_zero.2 hne)

/-- The zeros below the lowest one of a limb count the twos in it. -/
theorem le_trailingZeros_iff {x : UInt64} (hx : x ≠ 0) {k : Nat} :
    k ≤ trailingZeros x ↔ 2 ^ k ∣ x.toNat := by
  have hne : x.toBitVec ≠ 0#64 := by
    intro h
    exact hx (UInt64.toBitVec_inj.1 h)
  have hlow : ∀ i < trailingZeros x, x.toNat.testBit i = false := by
    intro i hi
    exact BitVec.getLsbD_false_of_lt_ctz hi
  have hone : x.toNat.testBit (trailingZeros x) = true := BitVec.getLsbD_true_ctz_of_ne_zero hne
  constructor
  · intro hk
    refine Nat.dvd_of_mod_eq_zero (Nat.eq_of_testBit_eq ?_)
    intro i
    rw [Nat.testBit_mod_two_pow, Nat.zero_testBit]
    by_cases hi : i < k
    · rw [hlow i (by omega), Bool.and_false]
    · rw [decide_eq_false hi, Bool.false_and]
  · intro hdvd
    by_contra hlt
    obtain ⟨q, hq⟩ := hdvd
    rw [hq, Nat.testBit_two_pow_mul, decide_eq_false (by omega), Bool.false_and] at hone
    exact absurd hone nofun

/-- The bits up to the highest one of a limb bound it. -/
theorem bitLength_le_iff {x : UInt64} {k : Nat} : bitLength x ≤ k ↔ x.toNat < 2 ^ k := by
  have hlt : x.toNat < 2 ^ (64 - x.toBitVec.clz.toNat) := BitVec.toNat_lt_two_pow_sub_clz
  constructor
  · intro hk
    exact Nat.lt_of_lt_of_le hlt (Nat.pow_le_pow_right (by decide) hk)
  · intro hk
    by_cases hx : x = 0
    · subst hx
      exact Nat.zero_le k
    · have hne : x.toBitVec ≠ 0#64 := by
        intro h
        exact hx (UInt64.toBitVec_inj.1 h)
      have hle : 2 ^ (64 - 1 - x.toBitVec.clz.toNat) ≤ x.toNat :=
        BitVec.two_pow_sub_clz_le_toNat_of_ne_zero (by decide) hne
      have hexp := (Nat.pow_lt_pow_iff_right (a := 2) (by decide)).1 (Nat.lt_of_le_of_lt hle hk)
      rw [bitLength]
      omega

end Limb

/-! ### Leading part and rest -/

namespace Radix

variable {a b w k : Nat}

/-- The twos in a number with a rest are those in the rest. -/
theorem two_pow_dvd_iff_of_ne_zero (hb : b ≠ 0) (hlt : b < 2 ^ w) :
    2 ^ k ∣ a <<< w + b ↔ 2 ^ k ∣ b := by
  rw [Nat.shiftLeft_eq]
  rcases Nat.le_total k w with hk | hk
  · exact Nat.dvd_add_right (Nat.dvd_mul_left_of_dvd (Nat.pow_dvd_pow 2 hk) a)
  · -- past the rest no power of two divides either number
    have hnot : ¬ 2 ^ w ∣ b := by
      intro h
      exact absurd (Nat.le_of_dvd (Nat.pos_of_ne_zero hb) h) (Nat.not_le.2 hlt)
    have hpow : 2 ^ w ∣ 2 ^ k := Nat.pow_dvd_pow 2 hk
    constructor
    · intro h
      have hw := Nat.dvd_trans hpow h
      exact absurd ((Nat.dvd_add_right (Nat.dvd_mul_left _ a)).1 hw) hnot
    · intro h
      exact absurd (Nat.dvd_trans hpow h) hnot

/-- The twos in a number without a rest are those in the leading part and those of its place. -/
theorem two_pow_dvd_shiftLeft_iff : 2 ^ k ∣ a <<< w ↔ 2 ^ (k - w) ∣ a := by
  rw [Nat.shiftLeft_eq]
  rcases Nat.le_total k w with hk | hk
  · rw [Nat.sub_eq_zero_of_le hk, pow_zero]
    exact iff_of_true (Nat.dvd_mul_left_of_dvd (Nat.pow_dvd_pow 2 hk) a) (Nat.one_dvd a)
  · obtain ⟨d, rfl⟩ := Nat.exists_eq_add_of_le' hk
    rw [pow_add, Nat.mul_dvd_mul_iff_right (Nat.two_pow_pos w), Nat.add_sub_cancel]

/-- A leading part bounds a number, whatever the rest is. -/
theorem lt_two_pow_iff (ha : a ≠ 0) (hlt : b < 2 ^ w) :
    a <<< w + b < 2 ^ k ↔ w ≤ k ∧ a < 2 ^ (k - w) := by
  have hpos : 1 * 2 ^ w ≤ a * 2 ^ w := Nat.mul_le_mul_right _ (Nat.pos_of_ne_zero ha)
  rw [Nat.shiftLeft_eq]
  constructor
  · intro h
    have hk : w ≤ k := by
      have hlt' : 2 ^ w < 2 ^ k := by omega
      exact Nat.le_of_lt ((Nat.pow_lt_pow_iff_right (by decide)).1 hlt')
    obtain ⟨d, rfl⟩ := Nat.exists_eq_add_of_le' hk
    rw [pow_add] at h
    rw [Nat.add_sub_cancel]
    exact ⟨hk, Nat.lt_of_mul_lt_mul_right (Nat.lt_of_le_of_lt (Nat.le_add_right _ b) h)⟩
  · intro ⟨hk, h⟩
    obtain ⟨d, rfl⟩ := Nat.exists_eq_add_of_le' hk
    rw [Nat.add_sub_cancel] at h
    have hmul := Nat.mul_le_mul_right (2 ^ w) h
    rw [Nat.succ_mul] at hmul
    rw [pow_add]
    omega

end Radix

/-! ### Wide numbers -/

namespace UInt33

theorem le_trailingZeros_iff {x : UInt33} {k : Nat} :
    k ≤ x.trailingZeros ↔ k ≤ 33 ∧ 2 ^ k ∣ x.toNat := by
  rw [trailingZeros]
  split
  · next h =>
    have hzero : x.toNat = 0 := congrArg UInt64.toNat h
    rw [hzero]
    exact (and_iff_left (Nat.dvd_zero _)).symm
  · next h =>
    rw [Limb.le_trailingZeros_iff h]
    refine (and_iff_right_of_imp ?_).symm
    intro hdvd
    have hx := x.toNat_lt
    have hpos : 0 < x.toNat := Nat.pos_of_ne_zero fun h0 => h (UInt64.toNat_inj.1 h0)
    have hlt : 2 ^ k < 2 ^ 33 := Nat.lt_of_le_of_lt (Nat.le_of_dvd hpos hdvd) hx
    exact Nat.le_of_lt ((Nat.pow_lt_pow_iff_right (by decide)).1 hlt)

theorem bitLength_le_iff {x : UInt33} {k : Nat} : x.bitLength ≤ k ↔ x.toNat < 2 ^ k :=
  Limb.bitLength_le_iff

end UInt33

namespace UInt129

theorem le_trailingZeros_iff {x : UInt129} {k : Nat} :
    k ≤ x.trailingZeros ↔ k ≤ 129 ∧ 2 ^ k ∣ x.toNat := by
  have hlow : x.lowNat < 2 ^ 128 := by
    rw [← Nat.one_shiftLeft]
    exact x.lowNat_lt
  have hlo : x.lo.toNat < 2 ^ 64 := x.lo.toNat_lt
  rw [trailingZeros, toNat]
  split
  · next h =>
    have hne : x.lo.toNat ≠ 0 := fun h0 => h (UInt64.toNat_inj.1 h0)
    have hlt := Limb.trailingZeros_lt h
    rw [Radix.two_pow_dvd_iff_of_ne_zero (by rw [lowNat]; omega) hlow, lowNat,
      Radix.two_pow_dvd_iff_of_ne_zero hne hlo, ← Limb.le_trailingZeros_iff h]
    omega
  · next h =>
    have hzero : x.lowNat = x.hi.toNat <<< 64 := by
      rw [lowNat, not_not.1 h]
      rfl
    rw [hzero] at hlow ⊢
    split
    · next h' =>
      have hne : x.hi.toNat ≠ 0 := fun h0 => h' (UInt64.toNat_inj.1 h0)
      have hlt := Limb.trailingZeros_lt h'
      rw [Radix.two_pow_dvd_iff_of_ne_zero (by omega) hlow, Radix.two_pow_dvd_shiftLeft_iff,
        ← Limb.le_trailingZeros_iff h']
      omega
    · next h' =>
      rw [not_not.1 h']
      change _ ↔ _ ∧ 2 ^ k ∣ x.top.toNat <<< 128
      rw [Radix.two_pow_dvd_shiftLeft_iff]
      cases x.top
      · simp
      · -- one is divided by no power of two but the first
        rw [Bool.toNat_true, Nat.dvd_one, Nat.pow_eq_one]
        simp only [if_true]
        omega

theorem bitLength_le_iff {x : UInt129} {k : Nat} : x.bitLength ≤ k ↔ x.toNat < 2 ^ k := by
  have hlow : x.lowNat < 2 ^ 128 := by
    rw [← Nat.one_shiftLeft]
    exact x.lowNat_lt
  have hlo : x.lo.toNat < 2 ^ 64 := x.lo.toNat_lt
  rw [bitLength, toNat]
  split
  · next h =>
    rw [h, Bool.toNat_true, Radix.lt_two_pow_iff Nat.one_ne_zero hlow, Nat.one_lt_two_pow_iff]
    omega
  · next h =>
    rw [Bool.eq_false_of_not_eq_true h, Bool.toNat_false, Nat.zero_shiftLeft, Nat.zero_add, lowNat]
    split
    · next h' =>
      have hne : x.hi.toNat ≠ 0 := fun h0 => h' (UInt64.toNat_inj.1 h0)
      rw [Radix.lt_two_pow_iff hne hlo, ← Limb.bitLength_le_iff]
      omega
    · next h' =>
      rw [not_not.1 h', Limb.bitLength_le_iff]
      simp

end UInt129

namespace Wide

/-- **The zeros at the end count the twos in a number;** those of zero are as many as its bits. -/
theorem le_trailingZeros_iff {x : Wide} {k : Nat} :
    k ≤ x.trailingZeros ↔ k ≤ x.family.bitWidth + 1 ∧ 2 ^ k ∣ x.toNat := by
  cases x with
  | v4 x => exact UInt33.le_trailingZeros_iff
  | v6 x => exact UInt129.le_trailingZeros_iff

/-- **The bits of a number bound it by a power of two.** -/
theorem bitLength_le_iff {x : Wide} {k : Nat} : x.bitLength ≤ k ↔ x.toNat < 2 ^ k := by
  cases x with
  | v4 x => exact UInt33.bitLength_le_iff
  | v6 x => exact UInt129.bitLength_le_iff

end Wide

end Cidr
