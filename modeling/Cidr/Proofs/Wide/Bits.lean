import Cidr.Proofs.Wide

/-!
# The bits of wide numbers

A wide number is kept in limbs, and shifts move bits from one limb to the next.
Each bit of a number is a bit of one limb, at a place that depends on the limb
alone.  So what an operation does to a number is read off bit by bit: a shift
multiplies by a power of two, and what it moves past the width is lost.

## Main results

* `UInt129.testBit_toNat` — the bits of a number are those of its limbs.
* `Wide.exists_shiftLeft` — **moving the bits up multiplies** by a power of two.
* `Wide.toNat_twoPow` — a single bit is a power of two.
* `Wide.toNat_complement_add` — a number and its complement add up to all ones.
-/

namespace Cidr

/-! ### One limb -/

namespace Limb

variable {x : UInt64} {n i : Nat}

theorem testBit_eq_false (hi : 64 ≤ i) : x.toNat.testBit i = false :=
  Nat.testBit_lt_two_pow (Nat.lt_of_lt_of_le x.toNat_lt (Nat.pow_le_pow_right (by decide) hi))

theorem testBit_shiftLeft (hn : n < 64) (i : Nat) :
    (x <<< UInt64.ofNat n).toNat.testBit i =
      (decide (i < 64) && (decide (n ≤ i) && x.toNat.testBit (i - n))) := by
  rw [UInt64.toNat_shiftLeft, UInt64.toNat_ofNat', Nat.mod_eq_of_lt (by omega : n < 2 ^ 64),
    Nat.mod_eq_of_lt hn, Nat.testBit_mod_two_pow, Nat.testBit_shiftLeft]

theorem testBit_shiftRight (hn : n < 64) (i : Nat) :
    (x >>> UInt64.ofNat n).toNat.testBit i = x.toNat.testBit (n + i) := by
  rw [UInt64.toNat_shiftRight, UInt64.toNat_ofNat', Nat.mod_eq_of_lt (by omega : n < 2 ^ 64),
    Nat.mod_eq_of_lt hn, Nat.testBit_shiftRight]

/-- The lowest bit of a limb, as it is asked for. -/
theorem and_one_eq_one_iff : x &&& 1 = 1 ↔ x.toNat.testBit 0 = true := by
  rw [← UInt64.toNat_inj, UInt64.toNat_and]
  change x.toNat &&& 1 = 1 ↔ _
  rw [Nat.and_one_is_mod, Nat.testBit_zero, decide_eq_true_eq]

theorem toNat_bit (hn : n < 64) : (bit n).toNat = 2 ^ n := by
  rw [bit, if_pos hn, UInt64.toNat_shiftLeft, UInt64.toNat_ofNat',
    Nat.mod_eq_of_lt (by omega : n < 2 ^ 64), Nat.mod_eq_of_lt hn]
  change 1 <<< n % 2 ^ 64 = 2 ^ n
  rw [Nat.one_shiftLeft, Nat.mod_eq_of_lt (Nat.pow_lt_pow_right (by decide) hn)]

end Limb

/-! ### Numbers of 33 bits -/

namespace UInt33

theorem toNat_ofLow (w : UInt64) : (ofLow w).toNat = w.toNat % 2 ^ 33 := by
  change (w &&& 0x1FFFFFFFF).toNat = _
  rw [UInt64.toNat_and]
  exact Nat.and_two_pow_sub_one_eq_mod w.toNat 33

theorem toNat_twoPow {k : Nat} (hk : k ≤ 32) : (twoPow k).toNat = 2 ^ k := by
  rw [twoPow, toNat_ofLow, Limb.toNat_bit (by omega),
    Nat.mod_eq_of_lt (Nat.pow_lt_pow_right (by decide) (by omega))]

theorem toNat_complement_add (x : UInt33) : x.complement.toNat + x.toNat + 1 = 2 ^ 33 := by
  have hx := x.word_lt
  rw [complement, toNat_ofLow, UInt64.toNat_not, toNat, show UInt64.size = 2 ^ 64 from rfl]
  omega

/-- Moving the bits up multiplies, and what does not fit is lost. -/
theorem exists_shiftLeft (x : UInt33) {n : Nat} (hn : n ≤ 32) :
    ∃ y, x.shiftLeft n = .ok y ∧ y.toNat = x.toNat * 2 ^ n % 2 ^ 33 := by
  refine ⟨_, if_pos hn, ?_⟩
  rw [toNat_ofLow]
  refine Nat.eq_of_testBit_eq ?_
  intro i
  rw [← Nat.shiftLeft_eq, Nat.testBit_mod_two_pow, Nat.testBit_mod_two_pow,
    Limb.testBit_shiftLeft (by omega), Nat.testBit_shiftLeft]
  by_cases hi : i < 33
  · rw [decide_eq_true (show i < 64 by omega), Bool.true_and]
    rfl
  · rw [decide_eq_false hi, Bool.false_and, Bool.false_and]

end UInt33

/-! ### Numbers of 129 bits -/

namespace UInt129

variable {x : UInt129}

/-- **The bits of a number are those of its limbs.** -/
theorem testBit_toNat (x : UInt129) (i : Nat) :
    x.toNat.testBit i =
      if i < 64 then x.lo.toNat.testBit i
      else if i < 128 then x.hi.toNat.testBit (i - 64)
      else x.top && decide (i = 128) := by
  have hlow : x.lowNat < 2 ^ 128 := by
    rw [← Nat.one_shiftLeft]
    exact x.lowNat_lt
  rw [toNat, Nat.shiftLeft_eq, Nat.mul_comm, Nat.testBit_two_pow_mul_add _ hlow, lowNat,
    Nat.shiftLeft_eq, Nat.mul_comm x.hi.toNat, Nat.testBit_two_pow_mul_add _ x.lo.toNat_lt]
  by_cases h : i < 128
  · rw [if_pos h, if_pos h]
  · rw [if_neg h, if_neg h, if_neg (show ¬ i < 64 by omega)]
    have h0 : i - 128 = 0 ↔ i = 128 := by omega
    rw [Nat.testBit_bool_toNat, Bool.and_comm, decide_eq_decide.2 h0]

/-- A number is determined limb by limb, up to its width. -/
theorem toNat_eq_mod {m : Nat} (hlo : ∀ i < 64, x.lo.toNat.testBit i = m.testBit i)
    (hhi : ∀ i < 64, x.hi.toNat.testBit i = m.testBit (64 + i)) (htop : x.top = m.testBit 128) :
    x.toNat = m % 2 ^ 129 := by
  refine Nat.eq_of_testBit_eq ?_
  intro i
  rw [testBit_toNat, Nat.testBit_mod_two_pow]
  split_ifs with h64 h128
  · rw [hlo i h64, decide_eq_true (by omega), Bool.true_and]
  · rw [hhi _ (by omega), decide_eq_true (by omega), Bool.true_and, Nat.add_sub_of_le (by omega)]
  · rw [htop]
    by_cases h : i = 128
    · subst h
      exact Bool.and_comm _ _
    · rw [decide_eq_false h, decide_eq_false (by omega), Bool.and_false, Bool.false_and]

theorem toNat_twoPow {k : Nat} (hk : k ≤ 128) : (twoPow k).toNat = 2 ^ k := by
  change (decide (k = 128)).toNat <<< 128 +
    ((if k < 64 then 0 else Limb.bit (k - 64)).toNat <<< 64 + (Limb.bit k).toNat) = 2 ^ k
  rcases Nat.lt_or_ge k 64 with h | h
  · rw [decide_eq_false (by omega), if_pos h, Limb.toNat_bit h]
    simp
  have hlo : Limb.bit k = 0 := if_neg (by omega)
  rw [if_neg (by omega), hlo]
  rcases Nat.lt_or_eq_of_le hk with h' | rfl
  · rw [decide_eq_false (by omega), Limb.toNat_bit (by omega), Nat.shiftLeft_eq _ 64, ← pow_add,
      Nat.sub_add_cancel h]
    simp
  · rfl

theorem toNat_complement_add (x : UInt129) : x.complement.toNat + x.toNat + 1 = 2 ^ 129 := by
  have hhi := x.hi.toNat_lt
  have hlo := x.lo.toNat_lt
  have htop : (!x.top).toNat + x.top.toNat = 1 := by cases x.top <;> rfl
  change (!x.top).toNat <<< 128 + ((~~~x.hi).toNat <<< 64 + (~~~x.lo).toNat) + x.toNat + 1 = _
  rw [toNat_eq, UInt64.toNat_not, UInt64.toNat_not, show UInt64.size = 2 ^ 64 from rfl]
  omega

/-- Moving the bits up multiplies, and what does not fit is lost.  In each of the ranges of `n` the
limbs take over bits from those below them, and which bit goes where is a matter of its place. -/
theorem exists_shiftLeft (x : UInt129) {n : Nat} (hn : n ≤ 128) :
    ∃ y, x.shiftLeft n = .ok y ∧ y.toNat = x.toNat * 2 ^ n % 2 ^ 129 := by
  have hlo : ∀ i, 64 ≤ i → x.lo.toNat.testBit i = false := fun i => Limb.testBit_eq_false
  have hzero : ∀ i, (0 : UInt64).toNat.testBit i = false := Nat.zero_testBit
  simp only [← Nat.shiftLeft_eq]
  rw [shiftLeft]
  -- bits are compared as they are, and not as quotients
  split_ifs with h0 h64 heq h128 heq'
  · subst h0
    exact ⟨x, rfl, (Nat.mod_eq_of_lt x.toNat_lt).symm⟩
  · refine ⟨_, rfl, toNat_eq_mod ?_ ?_ ?_⟩ <;>
      simp only [testBit_toNat, Nat.testBit_shiftLeft, UInt64.toNat_or, Nat.testBit_or,
        Limb.testBit_shiftLeft h64, Limb.testBit_shiftRight (by omega : 64 - n < 64),
        Limb.and_one_eq_one_iff] <;>
      grind [- Nat.testBit_eq_decide_div_mod_eq]
  · refine ⟨_, rfl, toNat_eq_mod ?_ ?_ ?_⟩ <;>
      simp only [testBit_toNat, Nat.testBit_shiftLeft, Limb.and_one_eq_one_iff, hzero] <;>
      grind [- Nat.testBit_eq_decide_div_mod_eq]
  · refine ⟨_, rfl, toNat_eq_mod ?_ ?_ ?_⟩ <;>
      simp only [testBit_toNat, Nat.testBit_shiftLeft,
        Limb.testBit_shiftLeft (by omega : n - 64 < 64),
        Limb.testBit_shiftRight (by omega : 128 - n < 64), Limb.and_one_eq_one_iff, hzero] <;>
      grind [- Nat.testBit_eq_decide_div_mod_eq]
  · refine ⟨_, rfl, toNat_eq_mod ?_ ?_ ?_⟩ <;>
      simp only [testBit_toNat, Nat.testBit_shiftLeft, Limb.and_one_eq_one_iff, hzero] <;>
      grind [- Nat.testBit_eq_decide_div_mod_eq]
  · omega

end UInt129

/-! ### Wide numbers -/

namespace Wide

/-- Family and value determine a wide number. -/
theorem ext {x y : Wide} (hf : x.family = y.family) (hn : x.toNat = y.toNat) : x = y :=
  Option.some.inj ((ofNat?_eq_some_iff.2 ⟨hf, hn⟩).symm.trans (ofNat?_eq_some_iff.2 ⟨rfl, rfl⟩))

/-- **A single bit is a power of two,** up to the extra bit. -/
theorem toNat_twoPow {f : Family} {k : Nat} (hk : k ≤ f.bitWidth) :
    (twoPow f k).toNat = 2 ^ k := by
  cases f with
  | v4 => exact UInt33.toNat_twoPow hk
  | v6 => exact UInt129.toNat_twoPow hk

/-- A number and its complement add up to all ones. -/
theorem toNat_complement_add (x : Wide) :
    x.complement.toNat + x.toNat + 1 = 2 ^ (x.family.bitWidth + 1) := by
  cases x with
  | v4 x => exact x.toNat_complement_add
  | v6 x => exact x.toNat_complement_add

/-- **Moving the bits up multiplies** by a power of two, up to the width. -/
theorem exists_shiftLeft (x : Wide) {n : Nat} (hn : n ≤ x.family.bitWidth) :
    ∃ y, x.shiftLeft n = .ok y ∧ y.family = x.family ∧
      y.toNat = x.toNat * 2 ^ n % 2 ^ (x.family.bitWidth + 1) := by
  cases x with
  | v4 x =>
    obtain ⟨y, hy, hnat⟩ := x.exists_shiftLeft hn
    exact ⟨v4 y, congrArg (Except.map v4) hy, rfl, hnat⟩
  | v6 x =>
    obtain ⟨y, hy, hnat⟩ := x.exists_shiftLeft hn
    exact ⟨v6 y, congrArg (Except.map v6) hy, rfl, hnat⟩

/-- To move the one up is to set a single bit. -/
theorem shiftLeft_one {f : Family} {k : Nat} (hk : k ≤ f.bitWidth) :
    (one f).shiftLeft k = .ok (twoPow f k) := by
  obtain ⟨y, hy, hf, hn⟩ := exists_shiftLeft (one f) (n := k) (by rwa [family_one])
  rw [family_one] at hf hn
  have hlt : 2 ^ k < 2 ^ (f.bitWidth + 1) := Nat.pow_lt_pow_right (by decide) (by omega)
  rw [toNat_one, Nat.one_mul, Nat.mod_eq_of_lt hlt, ← toNat_twoPow hk] at hn
  rw [hy, ext (hf.trans (family_twoPow f k).symm) hn]

end Wide

end Cidr
