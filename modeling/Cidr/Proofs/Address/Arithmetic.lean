import Cidr.Proofs.Network.Bounds
import Cidr.Proofs.Wide.Shift

/-!
# Arithmetic on addresses is that on numbers

Some operations on addresses go octet by octet, others through a number that has
room for one bit more than an address.  Where the extra bit comes out set, a sum
is refused, while shifts and complements drop it.  On the numbers that addresses
stand for all of this is ordinary arithmetic below a power of two.

## Main results

* `Address.exists_add?`, `Address.add?_eq_none` — sums below the power of two, and
  no others; the same for differences.
* `Address.exists_combine` — bitwise work on two addresses of one family.
* `Address.exists_shift` — shifts up to the full width.
* `Address.arithmetic_exact` — **the arithmetic of addresses is that of their numbers.**
-/

namespace Cidr.Address

variable {a b : Address} {n : Nat}

/-! ### Sums and differences -/

/-- Every number below the power of two is that of an address. -/
theorem exists_toNat_eq {f : Family} (h : n < 2 ^ f.bitWidth) :
    ∃ a : Address, a.family = f ∧ a.toNat = n := by
  refine ⟨⟨f, Octets.ofNat f.octetCount n, Octets.length_ofNat _ _⟩, rfl, ?_⟩
  refine Octets.toNat_ofNat_of_lt ?_
  rwa [← Family.bitWidth_eq, Nat.one_shiftLeft]

theorem exists_add? (h : a.toNat + n < 2 ^ a.family.bitWidth) :
    ∃ c, a.add? n = some c ∧ c.family = a.family ∧ c.toNat = a.toNat + n := by
  obtain ⟨c, hf, hn⟩ := exists_toNat_eq h
  exact ⟨c, add?_eq_some_iff.2 ⟨hf, hn⟩, hf, hn⟩

theorem add?_eq_none (h : 2 ^ a.family.bitWidth ≤ a.toNat + n) : a.add? n = none := by
  rw [Option.eq_none_iff_forall_ne_some]
  intro c hc
  obtain ⟨hf, hn⟩ := add?_eq_some hc
  have hlt := c.toNat_lt
  rw [hf, hn, Nat.one_shiftLeft] at hlt
  omega

theorem exists_sub? (h : n ≤ a.toNat) :
    ∃ c, a.sub? n = some c ∧ c.family = a.family ∧ c.toNat = a.toNat - n := by
  have hlt := a.toNat_lt
  rw [Nat.one_shiftLeft] at hlt
  obtain ⟨c, hf, hn⟩ := exists_toNat_eq (f := a.family) (n := a.toNat - n) (by omega)
  exact ⟨c, sub?_eq_some_iff.2 ⟨hf, by omega⟩, hf, hn⟩

theorem sub?_eq_none (h : a.toNat < n) : a.sub? n = none := by
  rw [Option.eq_none_iff_forall_ne_some]
  intro c hc
  obtain ⟨-, hn⟩ := sub?_eq_some_iff.1 hc
  omega

/-! ### Bitwise work -/

/-- **Bitwise work on addresses is bitwise work on their numbers.**  The operation is given by what
it does to sequences of one size. -/
theorem exists_combine {f : UInt8 → UInt8 → UInt8} {g : Nat → Nat → Nat}
    (hg : ∀ {x y : Octets}, x.length = y.length →
      Octets.toNat (x.zipWith f y) = g (Octets.toNat x) (Octets.toNat y))
    (hf : a.family = b.family) :
    ∃ c, combine f a b = .ok c ∧ c.family = a.family ∧ c.toNat = g a.toNat b.toNat := by
  refine ⟨zipOctets f a b hf, dif_pos hf, rfl, hg ?_⟩
  rw [a.length_octets, b.length_octets, hf]

theorem combine_of_family_ne {f : UInt8 → UInt8 → UInt8} (hf : a.family ≠ b.family) :
    combine f a b = .error .familiesDiffer :=
  dif_neg hf

theorem toNat_complement (a : Address) :
    a.complement.toNat = 2 ^ a.family.bitWidth - 1 - a.toNat := by
  have h := Octets.toNat_complement_add a.octets
  rw [a.length_octets, ← Family.bitWidth_eq] at h
  change Octets.toNat a.octets.complement = _ - 1 - Octets.toNat a.octets
  omega

/-! ### Shifts -/

/-- Without its extra bit a number is left below the power of two. -/
theorem toNat_ofLow (x : Wide) : (ofLow x).toNat = x.toNat % 2 ^ x.family.bitWidth := by
  change Octets.toNat (Octets.ofNat x.family.octetCount x.toNat) = _
  rw [Octets.toNat_ofNat, ← Family.bitWidth_eq, Nat.one_shiftLeft]

/-- **Shifts multiply and divide** by powers of two, up to the full width. -/
theorem exists_shift (hn : n ≤ a.family.bitWidth) :
    (∃ c, a.shiftLeft n = .ok c ∧ c.family = a.family ∧
      c.toNat = a.toNat * 2 ^ n % 2 ^ a.family.bitWidth) ∧
    ∃ c, a.shiftRight n = .ok c ∧ c.family = a.family ∧ c.toNat = a.toNat / 2 ^ n := by
  have hn' : n ≤ a.toWide.family.bitWidth := by rwa [family_toWide]
  constructor
  · obtain ⟨y, hy, hf, hnat⟩ := a.toWide.exists_shiftLeft hn'
    rw [family_toWide] at hf hnat
    rw [toNat_toWide] at hnat
    refine ⟨ofLow y, congrArg (Except.map ofLow) hy, hf, ?_⟩
    -- the wide number has dropped more than one bit already, and now drops one bit more
    rw [toNat_ofLow, hf, hnat, Nat.mod_mod_of_dvd _ (Nat.pow_dvd_pow 2 (Nat.le_succ _))]
  · obtain ⟨y, hy, hf, hnat⟩ := a.toWide.exists_shiftRight hn'
    rw [family_toWide] at hf
    rw [toNat_toWide] at hnat
    refine ⟨ofLow y, congrArg (Except.map ofLow) hy, hf, ?_⟩
    have hlt := a.toNat_lt
    rw [Nat.one_shiftLeft] at hlt
    rw [toNat_ofLow, hf, hnat, Nat.mod_eq_of_lt (Nat.lt_of_le_of_lt (Nat.div_le_self _ _) hlt)]

theorem shift_of_lt (hn : a.family.bitWidth < n) :
    a.shiftLeft n = .error (.shiftOutOfRange n a.family.bitWidth) ∧
      a.shiftRight n = .error (.shiftOutOfRange n a.family.bitWidth) := by
  obtain ⟨hl, hr⟩ := a.toWide.shift_of_lt (n := n) (by rwa [family_toWide])
  rw [family_toWide] at hl hr
  exact ⟨congrArg (Except.map ofLow) hl, congrArg (Except.map ofLow) hr⟩

/-! ### All operations -/

/-- **The arithmetic of addresses is that of their numbers.**  The number of a sum is the sum of
the numbers, and it is missing exactly if that does not fit an address; a difference is missing
exactly if it is negative.  Bitwise work on two addresses of one family is the same work on the
numbers, and is refused for different families.  The complement, by way of the wider number, is the
rest up to all ones and turns around each octet.  Shifts multiply and divide by a power of two, and
are refused beyond the width. -/
theorem arithmetic_exact (a : Address) :
    (∀ n,
      (a.toWide.toNat + n < 2 ^ a.family.bitWidth →
        ∃ c, a.add? n = some c ∧ c.family = a.family ∧ c.toWide.toNat = a.toWide.toNat + n) ∧
      (2 ^ a.family.bitWidth ≤ a.toWide.toNat + n → a.add? n = none)) ∧
    (∀ n,
      (n ≤ a.toWide.toNat →
        ∃ c, a.sub? n = some c ∧ c.family = a.family ∧ c.toWide.toNat = a.toWide.toNat - n) ∧
      (a.toWide.toNat < n → a.sub? n = none)) ∧
    (∀ b,
      (a.family = b.family →
        (∃ c, a.and b = .ok c ∧ c.family = a.family ∧
          c.toWide.toNat = a.toWide.toNat &&& b.toWide.toNat) ∧
        (∃ c, a.or b = .ok c ∧ c.family = a.family ∧
          c.toWide.toNat = a.toWide.toNat ||| b.toWide.toNat) ∧
        ∃ c, a.xor b = .ok c ∧ c.family = a.family ∧
          c.toWide.toNat = a.toWide.toNat ^^^ b.toWide.toNat) ∧
      (a.family ≠ b.family →
        a.and b = .error .familiesDiffer ∧ a.or b = .error .familiesDiffer ∧
        a.xor b = .error .familiesDiffer)) ∧
    (a.complement = ofLow a.toWide.complement ∧
      a.complement.toWide.toNat = 2 ^ a.family.bitWidth - 1 - a.toWide.toNat ∧
      a.complement.octets = a.octets.complement) ∧
    ∀ n,
      (n ≤ a.family.bitWidth →
        (∃ c, a.shiftLeft n = .ok c ∧ c.family = a.family ∧
          c.toWide.toNat = a.toWide.toNat * 2 ^ n % 2 ^ a.family.bitWidth) ∧
        ∃ c, a.shiftRight n = .ok c ∧ c.family = a.family ∧
          c.toWide.toNat = a.toWide.toNat / 2 ^ n) ∧
      (a.family.bitWidth < n →
        a.shiftLeft n = .error (.shiftOutOfRange n a.family.bitWidth) ∧
        a.shiftRight n = .error (.shiftOutOfRange n a.family.bitWidth)) := by
  simp only [toNat_toWide]
  refine ⟨?_, ?_, ?_, ⟨a.ofLow_complement_toWide.symm, a.toNat_complement, rfl⟩, ?_⟩
  · intro n
    exact ⟨exists_add?, add?_eq_none⟩
  · intro n
    exact ⟨exists_sub?, sub?_eq_none⟩
  · intro b
    constructor
    · intro hf
      exact ⟨exists_combine Octets.toNat_zipWith_and hf, exists_combine Octets.toNat_zipWith_or hf,
        exists_combine Octets.toNat_zipWith_xor hf⟩
    · intro hf
      exact ⟨combine_of_family_ne hf, combine_of_family_ne hf, combine_of_family_ne hf⟩
  · intro n
    exact ⟨exists_shift, shift_of_lt⟩

/-- The last address but one: one more place on there is the last, and the greatest offset leads
nowhere; moved up by the full width it is zero. -/
theorem arithmetic_exact_near_end :
    (∃ c, (v4 255 255 255 254).add? 1 = some c ∧ c.toWide.toNat = 2 ^ 32 - 1) ∧
    (v4 255 255 255 254).add? (2 ^ 128 - 1) = none ∧
    (∃ c, (v4 255 255 255 254).sub? 254 = some c ∧ c.toWide.toNat = 2 ^ 32 - 256) ∧
    (v4 255 255 255 254).sub? (2 ^ 32) = none ∧
    (∃ c, (v4 255 255 255 254).xor (v4 255 255 0 0) = .ok c ∧ c.toWide.toNat = 65534) ∧
    (v4 255 255 255 254).xor (ones .v6 0) = .error .familiesDiffer ∧
    (∃ c, (v4 255 255 255 254).shiftLeft 32 = .ok c ∧ c.toWide.toNat = 0) ∧
    (v4 255 255 255 254).shiftLeft 33 = .error (.shiftOutOfRange 33 32) := by
  have hv : (v4 255 255 255 254).toWide.toNat = 2 ^ 32 - 2 := by decide
  obtain ⟨hadd, hsub, hbits, -, hshift⟩ := arithmetic_exact (v4 255 255 255 254)
  simp only [hv] at hadd hsub hbits hshift
  obtain ⟨c, hc, -, hnc⟩ := (hadd 1).1 (by decide)
  obtain ⟨d, hd, -, hnd⟩ := (hsub 254).1 (by decide)
  obtain ⟨-, -, e, he, -, hne⟩ := (hbits (v4 255 255 0 0)).1 rfl
  obtain ⟨⟨f, hf, -, hnf⟩, -⟩ := (hshift 32).1 (Nat.le_refl 32)
  exact ⟨⟨c, hc, hnc⟩, (hadd _).2 (by decide), ⟨d, hd, hnd⟩, (hsub _).2 (by decide),
    ⟨e, he, hne.trans (by decide)⟩, ((hbits _).2 (by decide)).2.2, ⟨f, hf, hnf.trans (by decide)⟩,
    ((hshift 33).2 (by decide)).1⟩

end Cidr.Address
