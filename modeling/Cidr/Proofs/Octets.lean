import Cidr.Octets.Mask
import Cidr.Radix
import Mathlib.Tactic.Ring

/-!
# The numbers of masked octets

Bitwise work goes octet by octet, but it is the same work on the numbers that
the sequences stand for.  So keeping the first bits of a sequence rounds its
number down to a multiple of a power of two.

## Main results

* `testBit_toNat_zipWith` — an operation on octets is one on numbers.
* `toNat_ones`, `toNat_complement_add` — the numbers of contiguous masks.
* `toNat_truncate` — **truncation rounds down.**
* `compareUnsigned_eq` — **the order of sequences is the order of numbers.**
-/

namespace Cidr.Octets

/-! ### Bitwise work -/

theorem testBit_toNat_cons (b : UInt8) (a : Octets) (i : Nat) :
    (toNat (b :: a)).testBit i =
      if i < 8 * a.length then (toNat a).testBit i else b.toNat.testBit (i - 8 * a.length) := by
  have h := toNat_lt a
  rw [Nat.one_shiftLeft] at h
  rw [toNat_cons, Nat.shiftLeft_eq, Nat.mul_comm]
  exact Nat.testBit_two_pow_mul_add _ h i

/-- **Bitwise work on octets is bitwise work on numbers.**  The operation is given by what it
does to single bits. -/
theorem testBit_toNat_zipWith {f : UInt8 → UInt8 → UInt8} {g : Bool → Bool → Bool}
    (hf : ∀ x y i, (f x y).toNat.testBit i = g (x.toNat.testBit i) (y.toNat.testBit i))
    {a b : Octets} (hlen : a.length = b.length) (i : Nat) :
    (toNat (a.zipWith f b)).testBit i = g ((toNat a).testBit i) ((toNat b).testBit i) := by
  induction a generalizing b with
  | nil =>
    -- no octet has a bit 8, so two zeros give a zero
    have h8 := hf 0 0 8
    rw [Nat.testBit_lt_two_pow (f 0 0).toNat_lt] at h8
    obtain rfl := List.length_eq_zero_iff.1 hlen.symm
    simpa using h8
  | cons x a ih =>
    cases b with
    | nil => exact absurd hlen (by simp)
    | cons y b =>
      have hlen' : a.length = b.length := by simpa using hlen
      rw [List.zipWith_cons_cons, testBit_toNat_cons, testBit_toNat_cons, testBit_toNat_cons,
        List.length_zipWith, ← hlen', Nat.min_self]
      split
      · exact ih hlen'
      · exact hf x y _

theorem toNat_zipWith_and {a b : Octets} (hlen : a.length = b.length) :
    toNat (a.zipWith (· &&& ·) b) = toNat a &&& toNat b := by
  refine Nat.eq_of_testBit_eq ?_
  intro i
  rw [Nat.testBit_and]
  exact testBit_toNat_zipWith (fun x y i => by rw [UInt8.toNat_and, Nat.testBit_and]) hlen i

theorem toNat_zipWith_or {a b : Octets} (hlen : a.length = b.length) :
    toNat (a.zipWith (· ||| ·) b) = toNat a ||| toNat b := by
  refine Nat.eq_of_testBit_eq ?_
  intro i
  rw [Nat.testBit_or]
  exact testBit_toNat_zipWith (fun x y i => by rw [UInt8.toNat_or, Nat.testBit_or]) hlen i

theorem toNat_zipWith_xor {a b : Octets} (hlen : a.length = b.length) :
    toNat (a.zipWith (· ^^^ ·) b) = toNat a ^^^ toNat b := by
  refine Nat.eq_of_testBit_eq ?_
  intro i
  rw [Nat.testBit_xor]
  exact testBit_toNat_zipWith (fun x y i => by rw [UInt8.toNat_xor, Nat.testBit_xor]) hlen i

/-- A number and that of the complement add up to all ones. -/
theorem toNat_complement_add (a : Octets) :
    toNat a.complement + toNat a + 1 = 2 ^ (8 * a.length) := by
  induction a with
  | nil => rfl
  | cons b a ih =>
    have hb : (~~~b).toNat + b.toNat = 255 := by
      have hlt := b.toNat_lt
      rw [UInt8.toNat_not, show UInt8.size = 256 from rfl]
      omega
    have hmul := congrArg (· * 2 ^ (8 * a.length)) hb
    simp only [Nat.add_mul] at hmul
    change toNat (~~~b :: complement a) + _ + 1 = _
    rw [toNat_cons, toNat_cons, length_complement, Nat.shiftLeft_eq, Nat.shiftLeft_eq,
      List.length_cons, Nat.mul_add, pow_add]
    omega

/-! ### Masks -/

theorem toNat_leadingOnes_of_le {k : Nat} (hk : k ≤ 8) :
    (leadingOnes k).toNat = 256 - 2 ^ (8 - k) := by
  revert k
  decide

theorem leadingOnes_of_le {k : Nat} (hk : 8 ≤ k) : leadingOnes k = 255 := by
  rw [leadingOnes, Nat.sub_eq_zero_of_le hk]
  rfl

/-- The contiguous mask is all ones without as many ones as there are host bits. -/
theorem toNat_ones {count k : Nat} (hk : k ≤ 8 * count) :
    toNat (ones count k) + 2 ^ (8 * count - k) = 2 ^ (8 * count) := by
  induction count generalizing k with
  | zero => simp
  | succ count ih =>
    rw [ones_succ, toNat_cons, length_ones, Nat.shiftLeft_eq, Nat.mul_add, pow_add]
    rcases Nat.lt_or_ge k 8 with h | h
    · -- the mask ends in the first octet, and the others are zero
      have hrest := ih (k := k - 8) (by omega)
      have hsplit : 8 * count + 8 * 1 - k = (8 - k) + 8 * count := by omega
      have hle : 2 ^ (8 - k) ≤ 256 :=
        Nat.pow_le_pow_right (n := 2) (by decide) (show 8 - k ≤ 8 by omega)
      have hmul := Nat.mul_le_mul_right (2 ^ (8 * count)) hle
      rw [Nat.sub_eq_zero_of_le (Nat.le_of_lt h), Nat.sub_zero] at hrest
      rw [toNat_leadingOnes_of_le (Nat.le_of_lt h), Nat.sub_eq_zero_of_le (Nat.le_of_lt h), hsplit,
        pow_add, Nat.sub_mul]
      omega
    · -- the first octet is full
      have hrest := ih (k := k - 8) (by omega)
      rw [show 8 * count - (k - 8) = 8 * count + 8 * 1 - k by omega] at hrest
      rw [leadingOnes_of_le h, show (255 : UInt8).toNat = 255 from rfl]
      omega

theorem testBit_toNat_ones {count k : Nat} (hk : k ≤ 8 * count) (i : Nat) :
    (toNat (ones count k)).testBit i = decide (8 * count - k ≤ i ∧ i < 8 * count) := by
  have hones := toNat_ones hk
  have hsplit : 2 ^ (8 * count) = 2 ^ k * 2 ^ (8 * count - k) := by
    rw [← pow_add, Nat.add_sub_cancel' hk]
  have heq : toNat (ones count k) = (2 ^ k - 1) <<< (8 * count - k) := by
    rw [Nat.shiftLeft_eq, Nat.sub_mul, Nat.one_mul]
    omega
  rw [heq, Nat.testBit_shiftLeft, Nat.testBit_two_pow_sub_one, ← Bool.decide_and,
    decide_eq_decide]
  omega

theorem truncate_zero (a : Octets) : a.truncate 0 = List.replicate a.length 0 := by
  induction a with
  | nil => rfl
  | cons b a ih =>
    rw [truncate_cons, Nat.zero_sub, ih, show leadingOnes 0 = 0 from rfl, UInt8.and_zero]
    rfl

/-- Octets that are kept as a whole stand in front of what is kept of the others. -/
theorem truncate_append (a b : Octets) (k : Nat) :
    (a ++ b).truncate (8 * a.length + k) = a ++ b.truncate k := by
  induction a with
  | nil => rw [List.nil_append, List.length_nil, Nat.mul_zero, Nat.zero_add, List.nil_append]
  | cons x a ih =>
    have hrest : 8 * (x :: a).length + k - 8 = 8 * a.length + k := by
      rw [List.length_cons]
      omega
    rw [List.cons_append, truncate_cons, hrest, ih, leadingOnes_of_le (by simp; omega)]
    exact congrArg (· :: _) UInt8.and_neg_one

/-- **Keeping the first `k` bits rounds down** to a multiple of the weight of the last of them. -/
theorem toNat_truncate {a : Octets} {k : Nat} (hk : k ≤ 8 * a.length) :
    toNat (a.truncate k) =
      toNat a / 2 ^ (8 * a.length - k) * 2 ^ (8 * a.length - k) := by
  have hlt := toNat_lt a
  rw [Nat.one_shiftLeft] at hlt
  rw [truncate, toNat_zipWith_and (by simp), ← Nat.shiftRight_eq_div_pow, ← Nat.shiftLeft_eq]
  refine Nat.eq_of_testBit_eq ?_
  intro i
  rw [Nat.testBit_and, testBit_toNat_ones hk, Nat.testBit_shiftLeft, Nat.testBit_shiftRight]
  rcases Nat.lt_or_ge i (8 * a.length) with hi | hi
  · rcases Nat.lt_or_ge i (8 * a.length - k) with hj | hj
    · simp [Nat.not_le.2 hj]
    · simp [hi, hj]
  · -- past the width there is nothing to keep
    have hzero : (toNat a).testBit i = false :=
      Nat.testBit_lt_two_pow (Nat.lt_of_lt_of_le hlt (Nat.pow_le_pow_right (by decide) hi))
    simp [hzero, show 8 * a.length - k + (i - (8 * a.length - k)) = i by omega]

/-! ### Order -/

theorem toNat_significant (a : Octets) : toNat a.significant = toNat a := by
  induction a with
  | nil => rfl
  | cons b a ih =>
    rw [significant, List.dropWhile_cons]
    split
    · next hb =>
      rw [beq_iff_eq] at hb
      rw [hb, toNat_cons]
      change toNat (significant a) = _
      rw [ih]
      simp
    · rfl

/-- A sequence without leading zeros takes all the room it has. -/
theorem le_toNat_significant {a : Octets} {count : Nat} (h : count < a.significant.length) :
    2 ^ (8 * count) ≤ toNat a.significant := by
  cases hs : a.significant with
  | nil => simp [hs] at h
  | cons b rest =>
    have hb : b ≠ 0 := by
      have hne : a.dropWhile (· == 0) ≠ [] := by
        rw [significant] at hs
        simp [hs]
      have hhead := List.head_dropWhile_not (· == 0) hne
      simp only [significant] at hs
      simpa [hs] using hhead
    have hpos : 1 ≤ b.toNat := by
      rw [Nat.one_le_iff_ne_zero]
      intro h0
      exact hb (UInt8.toNat_inj.1 h0)
    rw [hs, List.length_cons] at h
    calc 2 ^ (8 * count) ≤ 1 * 2 ^ (8 * rest.length) := by
          rw [Nat.one_mul]
          exact Nat.pow_le_pow_right (by decide) (by omega)
      _ ≤ b.toNat * 2 ^ (8 * rest.length) := Nat.mul_le_mul_right _ hpos
      _ ≤ toNat (b :: rest) := by
          rw [toNat_cons, Nat.shiftLeft_eq]
          exact Nat.le_add_right _ _

theorem toNat_significant_lt {a b : Octets}
    (h : a.significant.length < b.significant.length) : toNat a < toNat b := by
  have ha := toNat_lt a.significant
  rw [toNat_significant, Nat.one_shiftLeft] at ha
  rw [← toNat_significant b]
  exact Nat.lt_of_lt_of_le ha (le_toNat_significant h)

/-- Sequences of one size compare from the left as their numbers do. -/
theorem compareLex_eq {a b : Octets} (hlen : a.length = b.length) :
    List.compareLex compare a b = compare (toNat a) (toNat b) := by
  induction a generalizing b with
  | nil =>
    obtain rfl := List.length_eq_zero_iff.1 hlen.symm
    rfl
  | cons x a ih =>
    cases b with
    | nil => exact absurd hlen (by simp)
    | cons y b =>
      have hlen' : a.length = b.length := by simpa using hlen
      have hxy : compare x y = compare x.toNat y.toNat := by
        simp only [compare, compareOfLessAndEq, UInt8.lt_iff_toNat_lt, ← UInt8.toNat_inj]
      have hb := toNat_lt b
      rw [← hlen'] at hb
      rw [List.compareLex_cons_cons, ih hlen', hxy, toNat_cons, toNat_cons, ← hlen']
      exact Radix.compare_then (toNat_lt a) hb

/-- **The order of sequences is the order of the numbers,** whatever their sizes. -/
theorem compareUnsigned_eq (a b : Octets) :
    a.compareUnsigned b = compare (toNat a) (toNat b) := by
  rw [compareUnsigned]
  rcases Nat.lt_trichotomy a.significant.length b.significant.length with h | h | h
  · rw [Nat.compare_eq_lt.2 h, Nat.compare_eq_lt.2 (toNat_significant_lt h)]
    rfl
  · rw [Nat.compare_eq_eq.2 h, compareLex_eq h, toNat_significant, toNat_significant]
    rfl
  · rw [Nat.compare_eq_gt.2 h, Nat.compare_eq_gt.2 (toNat_significant_lt h)]
    rfl

end Cidr.Octets
