import Cidr.Proofs.Wide.Arithmetic
import Cidr.Proofs.Wide.Bits

/-!
# No guard on wide numbers fails

A shift by up to the width is split into ranges of places, and in each of them every
limb is moved by at least no and by at most 63 places.  An encoding of the right
length has as many octets as its limbs ask for, and two digits and a carry add up to
far less than an octet holds.

## Main results

* `Wide.shiftLeftGuarded_eq`, `Wide.shiftRightGuarded_eq`, `Wide.twoPowGuarded_eq` —
  **limbs are never moved by their width.**
* `Wide.bitLengthGuarded_eq` — nor do they have more zeros than bits.
* `Wide.ofOctetsGuarded_eq` — **encodings are cut within their bounds.**
* `UInt129.digitsGuarded_eq` — the sum of two digits fits an octet.
-/

namespace Cidr

open Failure

/-! ### Shifts -/

namespace Limb

variable {n : Nat}

theorem shiftLeftGuarded_eq (x : UInt64) (hn : n < 64) :
    shiftLeftGuarded x n = .ok (x <<< UInt64.ofNat n) := by
  rw [shiftLeftGuarded, places_eq_ok hn]
  rfl

theorem shiftRightGuarded_eq (x : UInt64) (hn : n < 64) :
    shiftRightGuarded x n = .ok (x >>> UInt64.ofNat n) := by
  rw [shiftRightGuarded, places_eq_ok hn]
  rfl

end Limb

namespace UInt33

theorem shiftLeftGuarded_eq (x : UInt33) (n : Nat) :
    x.shiftLeftGuarded n = ofExcept (x.shiftLeft n) := by
  rw [shiftLeftGuarded, shiftLeft]
  split_ifs with h h'
  · omega
  · rfl
  · rw [Limb.shiftLeftGuarded_eq _ (by omega)]
    rfl
  · omega

theorem shiftRightGuarded_eq (x : UInt33) (n : Nat) :
    x.shiftRightGuarded n = ofExcept (x.shiftRight n) := by
  rw [shiftRightGuarded, shiftRight]
  split_ifs with h h'
  · omega
  · rfl
  · rw [Limb.shiftRightGuarded_eq _ (by omega)]
    rfl
  · omega

end UInt33

namespace UInt129

theorem shiftLeftGuarded_eq (x : UInt129) (n : Nat) :
    x.shiftLeftGuarded n = ofExcept (x.shiftLeft n) := by
  rw [shiftLeftGuarded, shiftLeft]
  rcases Nat.lt_or_ge 128 n with hn | hn
  · rw [if_pos hn, if_neg (by omega), if_neg (by omega), if_neg (by omega), if_neg (by omega),
      if_neg (by omega)]
    rfl
  rw [if_neg (by omega)]
  split_ifs with h0 h64 heq h128 htop
  · rfl
  · rw [difference_eq_ok (by omega), ok_bind, Limb.shiftRightGuarded_eq _ (by omega), ok_bind,
      Limb.shiftLeftGuarded_eq _ h64, ok_bind, Limb.shiftRightGuarded_eq _ (by omega), ok_bind,
      Limb.shiftLeftGuarded_eq _ h64]
    rfl
  · rfl
  · rw [difference_eq_ok (by omega), ok_bind, Limb.shiftRightGuarded_eq _ (by omega), ok_bind,
      difference_eq_ok (by omega), ok_bind, Limb.shiftLeftGuarded_eq _ (by omega)]
    rfl
  · rfl
  · omega

theorem shiftRightGuarded_eq (x : UInt129) (n : Nat) :
    x.shiftRightGuarded n = ofExcept (x.shiftRight n) := by
  rw [shiftRightGuarded, shiftRight]
  rcases Nat.lt_or_ge 128 n with hn | hn
  · rw [if_pos hn, if_neg (by omega), if_neg (by omega), if_neg (by omega), if_neg (by omega),
      if_neg (by omega)]
    rfl
  rw [if_neg (by omega)]
  split_ifs with h0 h64 heq h128 htop
  · rfl
  · rw [difference_eq_ok (by omega), ok_bind, Limb.shiftRightGuarded_eq _ h64, ok_bind,
      Limb.shiftLeftGuarded_eq _ (by omega), ok_bind, Limb.shiftRightGuarded_eq _ h64, ok_bind,
      Limb.shiftLeftGuarded_eq _ (by omega)]
    rfl
  · rfl
  · rw [difference_eq_ok (by omega), ok_bind, Limb.shiftRightGuarded_eq _ (by omega), ok_bind,
      difference_eq_ok (by omega), ok_bind, Limb.shiftLeftGuarded_eq _ (by omega)]
    rfl
  · rfl
  · omega

/-- A number of 128 bits, cut into limbs. -/
theorem toNat_limbs {n : Nat} (hn : n < 2 ^ 128) :
    toNat ⟨false, UInt64.ofNat (n >>> 64), UInt64.ofNat n⟩ = n := by
  rw [toNat_eq, UInt64.toNat_ofNat', UInt64.toNat_ofNat', Bool.toNat_false]
  omega

end UInt129

namespace Wide

theorem shiftLeftGuarded_eq (x : Wide) (n : Nat) :
    x.shiftLeftGuarded n = ofExcept (x.shiftLeft n) := by
  cases x with
  | v4 x =>
    rw [shiftLeftGuarded, UInt33.shiftLeftGuarded_eq, shiftLeft]
    cases x.shiftLeft n <;> rfl
  | v6 x =>
    rw [shiftLeftGuarded, UInt129.shiftLeftGuarded_eq, shiftLeft]
    cases x.shiftLeft n <;> rfl

theorem shiftRightGuarded_eq (x : Wide) (n : Nat) :
    x.shiftRightGuarded n = ofExcept (x.shiftRight n) := by
  cases x with
  | v4 x =>
    rw [shiftRightGuarded, UInt33.shiftRightGuarded_eq, shiftRight]
    cases x.shiftRight n <;> rfl
  | v6 x =>
    rw [shiftRightGuarded, UInt129.shiftRightGuarded_eq, shiftRight]
    cases x.shiftRight n <;> rfl

/-- **A single bit is set by a shift within the width,** or it is the extra one. -/
theorem twoPowGuarded_eq {f : Family} {k : Nat} (hk : k ≤ f.bitWidth) :
    twoPowGuarded f k = .ok (twoPow f k) := by
  cases f with
  | v4 =>
    rw [Family.bitWidth_v4] at hk
    rw [twoPowGuarded, Nat.min_eq_left hk, Limb.shiftLeftGuarded_eq _ (by omega), ok_bind,
      twoPow, UInt33.twoPow, Limb.bit, if_pos (by omega)]
    rfl
  | v6 =>
    rw [Family.bitWidth_v6] at hk
    rw [twoPowGuarded, twoPow]
    rcases Nat.lt_or_eq_of_le hk with hlt | rfl
    · rw [if_neg (by omega), places_eq_ok hlt, ok_bind]
      refine congrArg (fun x => Except.ok (v6 x)) (UInt129.toNat_inj ?_)
      rw [UInt129.toNat_limbs, UInt129.toNat_twoPow hk, Nat.one_shiftLeft]
      rw [Nat.one_shiftLeft]
      exact Nat.pow_lt_pow_right (by decide) hlt
    · rfl

end Wide

/-! ### The place of the highest bit -/

namespace Limb

/-- There are no more zeros before the highest bit of a limb than bits. -/
theorem clz_le (x : UInt64) : x.toBitVec.clz.toNat ≤ 64 := BitVec.clz_le (x := x.toBitVec)

theorem bitLengthGuarded_eq (x : UInt64) : bitLengthGuarded x = .ok (bitLength x) :=
  difference_eq_ok (clz_le x)

end Limb

theorem UInt129.bitLengthGuarded_eq (x : UInt129) : x.bitLengthGuarded = .ok x.bitLength := by
  have hle := Limb.clz_le x.hi
  rw [bitLengthGuarded, bitLength]
  split_ifs
  · rfl
  · rw [difference_eq_ok (by omega), Limb.bitLength]
    refine congrArg Except.ok ?_
    omega
  · exact Limb.bitLengthGuarded_eq x.lo

theorem Wide.bitLengthGuarded_eq (x : Wide) : x.bitLengthGuarded = .ok x.bitLength := by
  cases x with
  | v4 x => exact Limb.bitLengthGuarded_eq x.word
  | v6 x => exact x.bitLengthGuarded_eq

/-! ### Encodings -/

theorem Octets.splitExtraBitGuarded_eq (count : Nat) (a : Octets) :
    splitExtraBitGuarded count a = accept (.octetCount a.length) (splitExtraBit? count a) := by
  unfold splitExtraBitGuarded splitExtraBit?
  by_cases hlen : a.length = count
  · rw [if_pos hlen, if_pos hlen]
    rfl
  rw [if_neg hlen, if_neg hlen]
  cases a with
  | nil => rfl
  | cons b rest =>
    rw [List.length_cons]
    dsimp only
    by_cases hrest : rest.length = count
    · rw [if_pos (congrArg (· + 1) hrest), item_eq_ok (Nat.zero_lt_succ _), ok_bind,
        List.getElem_cons_zero]
      by_cases hb : b ≤ 1
      · rw [if_pos hb, if_pos ⟨hrest, hb⟩]
        have htail : slice (b :: rest) 1 (rest.length + 1) = .ok rest :=
          slice_length (Nat.succ_pos rest.length)
        rw [htail]
        rfl
      · rw [if_neg hb, if_neg (fun h => hb h.2)]
        rfl
    · rw [if_neg (fun h => hrest (Nat.add_right_cancel h)), if_neg (fun h => hrest h.1)]
      rfl

theorem UInt33.ofOctetsGuarded_eq (a : Octets) : ofOctetsGuarded a = ofExcept (ofOctets a) := by
  rw [ofOctetsGuarded, ofOctets, Octets.splitExtraBitGuarded_eq]
  cases h : Octets.splitExtraBit? 4 a with
  | none => rfl
  | some e =>
    obtain ⟨hlen, -⟩ := Octets.splitExtraBit?_eq_some h
    change (sized 4 e.2 >>= _) = _
    rw [sized_eq_ok hlen]
    rfl

theorem UInt129.ofOctetsGuarded_eq (a : Octets) : ofOctetsGuarded a = ofExcept (ofOctets a) := by
  rw [ofOctetsGuarded, ofOctets, Octets.splitExtraBitGuarded_eq]
  cases h : Octets.splitExtraBit? 16 a with
  | none => rfl
  | some e =>
    obtain ⟨hlen, -⟩ := Octets.splitExtraBit?_eq_some h
    change (slice e.2 0 8 >>= _) = _
    rw [slice_zero (by omega), ok_bind, sized_eq_ok (by rw [List.length_take]; omega), ok_bind,
      slice_length (by omega), ok_bind, sized_eq_ok (by rw [List.length_drop]; omega)]
    rfl

theorem Wide.ofOctetsGuarded_eq (f : Family) (a : Octets) :
    ofOctetsGuarded f a = ofExcept (ofOctets f a) := by
  cases f with
  | v4 =>
    rw [ofOctetsGuarded, UInt33.ofOctetsGuarded_eq, ofOctets]
    cases UInt33.ofOctets a <;> rfl
  | v6 =>
    rw [ofOctetsGuarded, UInt129.ofOctetsGuarded_eq, ofOctets]
    cases UInt129.ofOctets a <;> rfl

/-! ### Decimal digits -/

namespace Decimal

variable {xs ys : List Nat} {s t : List Char}

theorem mapM_difference {b : Nat} (h : ∀ c ∈ s, b ≤ c.toNat) :
    s.mapM (fun c => difference c.toNat b) = .ok (s.map fun c => c.toNat - b) := by
  induction s with
  | nil => rfl
  | cons c s ih =>
    rw [List.mapM_cons, difference_eq_ok (h c List.mem_cons_self), ok_bind,
      ih fun d hd => h d (List.mem_cons_of_mem c hd)]
    rfl

/-- Digits do not come before zero. -/
theorem lowDigitsGuarded_eq (h : ∀ c ∈ s, c.isDigit) :
    lowDigitsGuarded s = .ok (lowDigits s) := by
  refine mapM_difference ?_
  intro c hc
  have hdigit := h c (List.mem_reverse.1 hc)
  rw [Char.isDigit, Bool.and_eq_true, decide_eq_true_eq] at hdigit
  exact hdigit.1

theorem lowDigits_lt_ten (h : ∀ c ∈ s, c.isDigit) : ∀ x ∈ lowDigits s, x < 10 := by
  intro x hx
  obtain ⟨c, hc, rfl⟩ := List.mem_map.1 hx
  have hdigit := h c (List.mem_reverse.1 hc)
  rw [Char.isDigit, Bool.and_eq_true, decide_eq_true_eq, decide_eq_true_eq] at hdigit
  have hle : c.toNat ≤ '9'.toNat := hdigit.2
  have hnine : '9'.toNat = 57 := rfl
  have hzero : '0'.toNat = 48 := rfl
  omega

theorem addCarryGuarded_eq {carry : Nat} (hx : ∀ x ∈ xs, x < 10) (hc : carry < 10) :
    addCarryGuarded xs carry = .ok (addCarry xs carry) := by
  induction xs generalizing carry with
  | nil => rfl
  | cons x xs ih =>
    have h := hx x List.mem_cons_self
    rw [addCarryGuarded, octet_eq_ok (by omega), ok_bind,
      ih (fun y hy => hx y (List.mem_cons_of_mem x hy)) (by omega)]
    rfl

theorem addDigitsGuarded_eq {carry : Nat} (hx : ∀ x ∈ xs, x < 10) (hy : ∀ y ∈ ys, y < 10)
    (hc : carry < 10) : addDigitsGuarded xs ys carry = .ok (addDigits xs ys carry) := by
  induction xs generalizing ys carry with
  | nil =>
    rw [addDigitsGuarded, addDigits]
    exact addCarryGuarded_eq hy hc
  | cons x xs ih =>
    cases ys with
    | nil =>
      rw [addDigitsGuarded, addDigits]
      exact addCarryGuarded_eq hx hc
    | cons y ys =>
      have h := hx x List.mem_cons_self
      have h' := hy y List.mem_cons_self
      rw [addDigitsGuarded, octet_eq_ok (by omega), ok_bind,
        ih (fun z hz => hx z (List.mem_cons_of_mem x hz))
          (fun z hz => hy z (List.mem_cons_of_mem y hz)) (by omega)]
      rfl

/-- The digits of two written numbers are added without a failure. -/
theorem addGuarded_eq (hs : ∀ c ∈ s, c.isDigit) (ht : ∀ c ∈ t, c.isDigit) :
    addGuarded s t = .ok (add s t) := by
  rw [addGuarded, lowDigitsGuarded_eq hs, ok_bind, lowDigitsGuarded_eq ht, ok_bind,
    addDigitsGuarded_eq (lowDigits_lt_ten hs) (lowDigits_lt_ten ht) (by decide)]
  rfl

end Decimal

theorem UInt129.digitsGuarded_eq (x : UInt129) : x.digitsGuarded = .ok x.digits := by
  rw [digitsGuarded, digits]
  split
  · exact Decimal.addGuarded_eq (fun _ => Decimal.isDigit_of_mem_digits)
      fun _ => Decimal.isDigit_of_mem_digits
  · rfl

end Cidr
