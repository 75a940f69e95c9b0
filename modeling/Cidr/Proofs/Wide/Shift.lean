import Cidr.Proofs.Wide.Bits

/-!
# Shifts of wide numbers

Moving the bits of a number up multiplies it by a power of two, and what gets past
the width is lost.  Moving them down divides, and the extra bit comes down with the
others.  The limbs of a number have a case for each range of the shift, but in all
of them the bit at a place is that of the number itself as many places away.

## Main results

* `Wide.exists_shiftRight` — **moving the bits down divides** by a power of two.
* `Wide.shift_exact` — **shifts are exact at the full width,** and refused beyond it.
-/

namespace Cidr

/-! ### Numbers of 33 bits -/

namespace UInt33

/-- Moving the bits down divides. -/
theorem exists_shiftRight (x : UInt33) {n : Nat} (hn : n ≤ 32) :
    ∃ y, x.shiftRight n = .ok y ∧ y.toNat = x.toNat / 2 ^ n := by
  have hlt : x.toNat / 2 ^ n < 2 ^ 33 := Nat.lt_of_le_of_lt (Nat.div_le_self _ _) x.toNat_lt
  refine ⟨_, if_pos hn, ?_⟩
  rw [toNat_ofLow, ← Nat.mod_eq_of_lt hlt, ← Nat.shiftRight_eq_div_pow]
  refine congrArg (· % 2 ^ 33) (Nat.eq_of_testBit_eq ?_)
  intro i
  rw [Limb.testBit_shiftRight (by omega), Nat.testBit_shiftRight]
  rfl

/-- No shift goes beyond the extra bit. -/
theorem shift_of_lt (x : UInt33) {n : Nat} (hn : 32 < n) :
    x.shiftLeft n = .error (.shiftOutOfRange n 32) ∧
      x.shiftRight n = .error (.shiftOutOfRange n 32) :=
  ⟨if_neg (Nat.not_le.2 hn), if_neg (Nat.not_le.2 hn)⟩

end UInt33

/-! ### Numbers of 129 bits -/

namespace UInt129

/-- Moving the bits down divides.  Above the limbs there is only the extra bit, which comes down as
the lowest bit of a limb. -/
theorem exists_shiftRight (x : UInt129) {n : Nat} (hn : n ≤ 128) :
    ∃ y, x.shiftRight n = .ok y ∧ y.toNat = x.toNat / 2 ^ n := by
  have hlt : x.toNat / 2 ^ n < 2 ^ 129 := Nat.lt_of_le_of_lt (Nat.div_le_self _ _) x.toNat_lt
  have hlo : ∀ i, 64 ≤ i → x.lo.toNat.testBit i = false := fun i => Limb.testBit_eq_false
  have hhi : ∀ i, 64 ≤ i → x.hi.toNat.testBit i = false := fun i => Limb.testBit_eq_false
  have hzero : ∀ i, (0 : UInt64).toNat.testBit i = false := Nat.zero_testBit
  have htop : ∀ i, x.top.toUInt64.toNat.testBit i = (x.top && decide (i = 0)) := by
    intro i
    rw [Limb.toNat_toUInt64, Nat.testBit_bool_toNat, Bool.and_comm]
  rw [← Nat.mod_eq_of_lt hlt, ← Nat.shiftRight_eq_div_pow, shiftRight]
  -- one case for each range of places, and in each of them one goal for each part of the number
  split_ifs with h0 h64 heq h128 heq'
  · subst h0
    exact ⟨x, rfl, (Nat.mod_eq_of_lt x.toNat_lt).symm⟩
  · refine ⟨_, rfl, toNat_eq_mod ?_ ?_ ?_⟩ <;>
      simp only [testBit_toNat, Nat.testBit_shiftRight, UInt64.toNat_or, Nat.testBit_or,
        Limb.testBit_shiftLeft (by omega : 64 - n < 64), Limb.testBit_shiftRight h64, htop] <;>
      grind [- Nat.testBit_eq_decide_div_mod_eq]
  · refine ⟨_, rfl, toNat_eq_mod ?_ ?_ ?_⟩ <;>
      simp only [testBit_toNat, Nat.testBit_shiftRight, htop] <;>
      grind [- Nat.testBit_eq_decide_div_mod_eq]
  · refine ⟨_, rfl, toNat_eq_mod ?_ ?_ ?_⟩ <;>
      simp only [testBit_toNat, Nat.testBit_shiftRight, UInt64.toNat_or, Nat.testBit_or,
        Limb.testBit_shiftLeft (by omega : 128 - n < 64),
        Limb.testBit_shiftRight (by omega : n - 64 < 64), htop, hzero] <;>
      grind [- Nat.testBit_eq_decide_div_mod_eq]
  · refine ⟨_, rfl, toNat_eq_mod ?_ ?_ ?_⟩ <;>
      simp only [testBit_toNat, Nat.testBit_shiftRight, htop, hzero] <;>
      grind [- Nat.testBit_eq_decide_div_mod_eq]
  · omega

/-- No shift goes beyond the extra bit. -/
theorem shift_of_lt (x : UInt129) {n : Nat} (hn : 128 < n) :
    x.shiftLeft n = .error (.shiftOutOfRange n 128) ∧
      x.shiftRight n = .error (.shiftOutOfRange n 128) := by
  have hout : ¬(n = 0 ∨ n < 64 ∨ n = 64 ∨ n < 128 ∨ n = 128) := by omega
  simp only [not_or] at hout
  obtain ⟨h0, h64, heq, h128, heq'⟩ := hout
  constructor
  · rw [shiftLeft, if_neg h0, if_neg h64, if_neg heq, if_neg h128, if_neg heq']
  · rw [shiftRight, if_neg h0, if_neg h64, if_neg heq, if_neg h128, if_neg heq']

end UInt129

/-! ### Wide numbers -/

namespace Wide

/-- **Moving the bits down divides** by a power of two. -/
theorem exists_shiftRight (x : Wide) {n : Nat} (hn : n ≤ x.family.bitWidth) :
    ∃ y, x.shiftRight n = .ok y ∧ y.family = x.family ∧ y.toNat = x.toNat / 2 ^ n := by
  cases x with
  | v4 x =>
    obtain ⟨y, hy, hnat⟩ := x.exists_shiftRight hn
    exact ⟨v4 y, congrArg (Except.map v4) hy, rfl, hnat⟩
  | v6 x =>
    obtain ⟨y, hy, hnat⟩ := x.exists_shiftRight hn
    exact ⟨v6 y, congrArg (Except.map v6) hy, rfl, hnat⟩

/-- No shift goes beyond the extra bit of the family. -/
theorem shift_of_lt (x : Wide) {n : Nat} (hn : x.family.bitWidth < n) :
    x.shiftLeft n = .error (.shiftOutOfRange n x.family.bitWidth) ∧
      x.shiftRight n = .error (.shiftOutOfRange n x.family.bitWidth) := by
  cases x with
  | v4 x =>
    obtain ⟨hl, hr⟩ := x.shift_of_lt hn
    exact ⟨congrArg (Except.map v4) hl, congrArg (Except.map v4) hr⟩
  | v6 x =>
    obtain ⟨hl, hr⟩ := x.shift_of_lt hn
    exact ⟨congrArg (Except.map v6) hl, congrArg (Except.map v6) hr⟩

/-- **Shifts are exact at the full width,** and refused beyond it.  Of a number of 33 or 129 bits,
moved up by at most 32 or 128 places, there remains the product with a power of two below `2 ^ 33` or
`2 ^ 129`, and moved down the quotient.  By more places neither is there, and the refusal names the
places and the most there can be.  A number with its family is shifted as a number of that type. -/
theorem shift_exact :
    (∀ (x : UInt33) (n : Nat),
      (n ≤ 32 →
        (∃ y, x.shiftLeft n = .ok y ∧ y.toNat = x.toNat * 2 ^ n % 2 ^ 33) ∧
        ∃ y, x.shiftRight n = .ok y ∧ y.toNat = x.toNat / 2 ^ n) ∧
      (32 < n →
        x.shiftLeft n = .error (.shiftOutOfRange n 32) ∧
        x.shiftRight n = .error (.shiftOutOfRange n 32))) ∧
    (∀ (x : UInt129) (n : Nat),
      (n ≤ 128 →
        (∃ y, x.shiftLeft n = .ok y ∧ y.toNat = x.toNat * 2 ^ n % 2 ^ 129) ∧
        ∃ y, x.shiftRight n = .ok y ∧ y.toNat = x.toNat / 2 ^ n) ∧
      (128 < n →
        x.shiftLeft n = .error (.shiftOutOfRange n 128) ∧
        x.shiftRight n = .error (.shiftOutOfRange n 128))) ∧
    (∀ (x : UInt33) (n : Nat),
      (v4 x).shiftLeft n = (x.shiftLeft n).map v4 ∧
      (v4 x).shiftRight n = (x.shiftRight n).map v4) ∧
    (∀ (x : UInt129) (n : Nat),
      (v6 x).shiftLeft n = (x.shiftLeft n).map v6 ∧
      (v6 x).shiftRight n = (x.shiftRight n).map v6) ∧
    ∀ (x : Wide) (n : Nat),
      (n ≤ x.family.bitWidth →
        (∃ y, x.shiftLeft n = .ok y ∧ y.family = x.family ∧
          y.toNat = x.toNat * 2 ^ n % 2 ^ (x.family.bitWidth + 1)) ∧
        ∃ y, x.shiftRight n = .ok y ∧ y.family = x.family ∧ y.toNat = x.toNat / 2 ^ n) ∧
      (x.family.bitWidth < n →
        x.shiftLeft n = .error (.shiftOutOfRange n x.family.bitWidth) ∧
        x.shiftRight n = .error (.shiftOutOfRange n x.family.bitWidth)) := by
  refine ⟨?_, ?_, fun x n => ⟨rfl, rfl⟩, fun x n => ⟨rfl, rfl⟩, ?_⟩
  · intro x n
    exact ⟨fun hn => ⟨x.exists_shiftLeft hn, x.exists_shiftRight hn⟩, x.shift_of_lt⟩
  · intro x n
    exact ⟨fun hn => ⟨x.exists_shiftLeft hn, x.exists_shiftRight hn⟩, x.shift_of_lt⟩
  · intro x n
    exact ⟨fun hn => ⟨x.exists_shiftLeft hn, x.exists_shiftRight hn⟩, x.shift_of_lt⟩

/-- The extra bit and a bit of the lower limb, moved up and down by a shift that crosses the
limbs. -/
theorem shift_exact_crossing :
    (65 ≤ 128 ∧ ∃ y, UInt129.shiftLeft ⟨true, 0, 0x8000000000000000⟩ 65 = .ok y ∧
      y.toNat = 2 ^ 128) ∧
    (∃ y, UInt129.shiftRight ⟨true, 0, 0x8000000000000000⟩ 65 = .ok y ∧ y.toNat = 2 ^ 63) ∧
    128 < 129 ∧ UInt129.shiftRight ⟨true, 0, 0x8000000000000000⟩ 129 =
      .error (.shiftOutOfRange 129 128) := by
  have h := shift_exact.2.1 ⟨true, 0, 0x8000000000000000⟩
  exact ⟨⟨by decide, ((h 65).1 (by decide)).1⟩, ((h 65).1 (by decide)).2, by decide,
    ((h 129).2 (by decide)).2⟩

end Wide

end Cidr
