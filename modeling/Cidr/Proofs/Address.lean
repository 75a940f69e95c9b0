import Cidr.Address.Arithmetic
import Cidr.Proofs.Octets
import Mathlib.Data.Nat.ModEq

/-!
# The line of all addresses

In the order of addresses those of IPv4 come first and those of IPv6 after them.
An address has a position in this line, a number that stands for its family and
its own number at once.  The part of the line that a family takes begins at a
multiple of its own length, so an alignment of addresses is one of positions.

## Main definitions

* `Family.base` — where the addresses of a family begin.
* `Address.position` — the position of an address.

## Main results

* `Address.compare_eq_compare_position` — **the order of addresses is that of positions.**
* `Address.position_truncate` — keeping the first bits rounds the position down.
* `Address.add?_eq_some_iff`, `Address.sub?_eq_some_iff` — sums and differences
  of addresses are exact.
-/

namespace Cidr

/-! ### Sums and differences -/

namespace Wide

theorem length_octets_of_lt {x : Wide} (h : x.toNat < 1 <<< x.family.bitWidth) :
    x.octets.length = x.family.octetCount := by
  cases x with
  | v4 x =>
    rw [toNat_v4, family_v4, Family.bitWidth_v4, UInt33.toNat] at h
    have hbit : x.word >>> 32 ≠ 1 := by
      intro h1
      have h2 := congrArg UInt64.toNat h1
      rw [UInt64.toNat_shiftRight] at h2
      simp [Nat.shiftRight_eq_div_pow] at h2
      omega
    simp [octets, UInt33.octets, Octets.length_withExtraBit, hbit]
  | v6 x =>
    rw [toNat_v6, family_v6, Family.bitWidth_v6, UInt129.toNat] at h
    have htop : x.top = false := by
      cases ht : x.top with
      | false => rfl
      | true =>
        rw [ht, Bool.toNat_true] at h
        omega
    simp [octets, UInt129.octets, Octets.length_withExtraBit, htop]

theorem exists_toNat_eq {f : Family} {n : Nat} (h : n < 1 <<< f.bitWidth) :
    ∃ x : Wide, x.family = f ∧ x.toNat = n := by
  cases f with
  | v4 =>
    rw [Family.bitWidth_v4] at h
    have hn : (UInt64.ofNat n).toNat = n := by
      rw [UInt64.toNat_ofNat']
      omega
    exact ⟨v4 ⟨UInt64.ofNat n, by rw [hn]; omega⟩, rfl, hn⟩
  | v6 =>
    rw [Family.bitWidth_v6] at h
    refine ⟨v6 ⟨false, UInt64.ofNat (n >>> 64), UInt64.ofNat n⟩, rfl, ?_⟩
    rw [toNat_v6, UInt129.toNat_eq, UInt64.toNat_ofNat', UInt64.toNat_ofNat', Bool.toNat_false]
    omega

/-- Every number that is one bit wider than the addresses of a family is one of its numbers. -/
theorem exists_ofNat?_eq_some {f : Family} {n : Nat} (h : n < 2 * 1 <<< f.bitWidth) :
    ∃ x, ofNat? f n = some x := by
  cases f with
  | v4 =>
    rw [Family.bitWidth_v4] at h
    have hlt : n < 1 <<< 33 := by omega
    exact ⟨_, by rw [ofNat?, UInt33.ofNat?, dif_pos hlt]; rfl⟩
  | v6 =>
    rw [Family.bitWidth_v6] at h
    have hlt : n < 1 <<< 129 := by omega
    exact ⟨_, by rw [ofNat?, UInt129.ofNat?, if_pos hlt]; rfl⟩

end Wide

namespace Address

theorem ofWide?_eq_some_iff {x : Wide} {a : Address} :
    ofWide? x = some a ↔ a.family = x.family ∧ a.toNat = x.toNat := by
  refine ⟨ofWide?_eq_some, ?_⟩
  rintro ⟨hf, hn⟩
  have hlen : x.octets.length = x.family.octetCount :=
    Wide.length_octets_of_lt (by rw [← hf, ← hn]; exact a.toNat_lt)
  rw [ofWide?, dif_pos hlen]
  exact congrArg some (toNat_inj hf.symm (x.toNat_octets.trans hn.symm))

/-- **Addition is exact,** and missing only where there is no such address. -/
theorem add?_eq_some_iff {a b : Address} {n : Nat} :
    a.add? n = some b ↔ b.family = a.family ∧ b.toNat = a.toNat + n := by
  refine ⟨add?_eq_some, ?_⟩
  rintro ⟨hf, hn⟩
  have hb := b.toNat_lt
  rw [hf] at hb
  obtain ⟨w, hwf, hwn⟩ := Wide.exists_toNat_eq (f := a.family) (n := n) (by omega)
  refine Option.bind_eq_some_iff.2 ⟨w, Wide.ofNat?_eq_some_iff.2 ⟨hwf, hwn⟩, ?_⟩
  refine Option.bind_eq_some_iff.2 ⟨b.toWide, Wide.add?_eq_some_iff.2 ?_, ?_⟩
  · simp only [family_toWide, toNat_toWide]
    exact ⟨hwf.symm, hf, by omega⟩
  · exact ofWide?_eq_some_iff.2 ⟨(family_toWide b).symm, (toNat_toWide b).symm⟩

/-- **Subtraction is exact,** and missing only where there is no such address. -/
theorem sub?_eq_some_iff {a b : Address} {n : Nat} :
    a.sub? n = some b ↔ b.family = a.family ∧ b.toNat + n = a.toNat := by
  constructor
  · intro h
    obtain ⟨w, hw, h⟩ := Option.bind_eq_some_iff.1 h
    obtain ⟨d, hd, h⟩ := Option.bind_eq_some_iff.1 h
    obtain ⟨-, hnw⟩ := Wide.ofNat?_eq_some_iff.1 hw
    obtain ⟨hf, hn⟩ := ofWide?_eq_some h
    obtain ⟨-, hfd, hnd⟩ := Wide.sub?_eq_some_iff.1 hd
    rw [family_toWide] at hfd
    rw [toNat_toWide] at hnd
    exact ⟨hf.trans hfd, by omega⟩
  · rintro ⟨hf, hn⟩
    have ha := a.toNat_lt
    obtain ⟨w, hwf, hwn⟩ := Wide.exists_toNat_eq (f := a.family) (n := n) (by omega)
    refine Option.bind_eq_some_iff.2 ⟨w, Wide.ofNat?_eq_some_iff.2 ⟨hwf, hwn⟩, ?_⟩
    refine Option.bind_eq_some_iff.2 ⟨b.toWide, Wide.sub?_eq_some_iff.2 ?_, ?_⟩
    · simp only [family_toWide, toNat_toWide]
      exact ⟨hwf.symm, hf, by omega⟩
    · exact ofWide?_eq_some_iff.2 ⟨(family_toWide b).symm, (toNat_toWide b).symm⟩

theorem succ?_eq_some_iff {a b : Address} :
    a.succ? = some b ↔ b.family = a.family ∧ b.toNat = a.toNat + 1 := add?_eq_some_iff

/-- Keeping the first bits of an address rounds its number down. -/
theorem toNat_truncate (a : Address) {k : Nat} (hk : k ≤ a.family.bitWidth) :
    (a.truncate k).toNat =
      a.toNat / 2 ^ (a.family.bitWidth - k) * 2 ^ (a.family.bitWidth - k) := by
  have hw : 8 * a.octets.length = a.family.bitWidth := by
    rw [a.length_octets, ← Family.bitWidth_eq]
  rw [← hw] at hk ⊢
  exact Octets.toNat_truncate hk

theorem truncate_bitWidth (a : Address) : a.truncate a.family.bitWidth = a := by
  refine toNat_inj rfl ?_
  rw [toNat_truncate a (Nat.le_refl _), Nat.sub_self, pow_zero, Nat.div_one, Nat.mul_one]

theorem toNat_truncate_zero (a : Address) : (a.truncate 0).toNat = 0 := by
  have h := a.toNat_lt
  rw [Nat.one_shiftLeft] at h
  rw [toNat_truncate a (Nat.zero_le _), Nat.sub_zero, Nat.div_eq_of_lt h, Nat.zero_mul]

end Address

/-! ### Positions -/

/-- The number of positions before the addresses of a family; those of IPv4 leave a gap. -/
def Family.base : Family → Nat
  | v4 => 0
  | v6 => 1 <<< 128

theorem Family.pow_bitWidth_dvd_base (f : Family) : 2 ^ f.bitWidth ∣ f.base := by
  cases f <;> decide

namespace Address

/-- The position of an address in the line of all addresses. -/
def position (a : Address) : Nat := a.family.base + a.toNat

/-- Each family has a part of the line of its own. -/
theorem family_eq_of_position {f : Family} {a : Address} (h : f.base ≤ a.position)
    (h' : a.position < f.base + 2 ^ f.bitWidth) : a.family = f := by
  have ha := a.toNat_lt
  rw [position] at h h'
  cases hf : a.family <;> cases f <;> rw [hf] at h h' ha <;>
    simp only [Family.base, Family.bitWidth_v4, Family.bitWidth_v6] at h h' ha ⊢ <;> omega

theorem base_le_position (a : Address) : a.family.base ≤ a.position := Nat.le_add_right _ _

theorem position_lt (a : Address) : a.position < a.family.base + 2 ^ a.family.bitWidth := by
  have ha := a.toNat_lt
  rw [Nat.one_shiftLeft] at ha
  rw [position]
  omega

theorem position_inj {a b : Address} (h : a.position = b.position) : a = b := by
  have hf : a.family = b.family :=
    family_eq_of_position (h ▸ b.base_le_position) (h ▸ b.position_lt)
  refine toNat_inj hf ?_
  rw [position, position, hf] at h
  omega

/-- Every position in the part of a family is that of an address. -/
theorem exists_position_eq {f : Family} {p : Nat} (h : f.base ≤ p)
    (h' : p < f.base + 2 ^ f.bitWidth) : ∃ a : Address, a.family = f ∧ a.position = p := by
  have hlt : p - f.base < 1 <<< (8 * f.octetCount) := by
    rw [Nat.one_shiftLeft, ← Family.bitWidth_eq]
    omega
  refine ⟨⟨f, Octets.ofNat f.octetCount (p - f.base), Octets.length_ofNat _ _⟩, rfl, ?_⟩
  change f.base + Octets.toNat _ = p
  rw [Octets.toNat_ofNat_of_lt hlt]
  omega

/-- Addresses are compared by their families and then by their numbers. -/
theorem compare_eq (a b : Address) :
    compare a b = (compare a.family b.family).then (compare a.toNat b.toNat) := by
  change (compare a.family b.family).then (a.octets.compareUnsigned b.octets) = _
  rw [Octets.compareUnsigned_eq]
  rfl

/-- **The order of addresses is that of their positions.** -/
theorem compare_eq_compare_position (a b : Address) :
    compare a b = compare a.position b.position := by
  have ha := a.toNat_lt
  have hb := b.toNat_lt
  rw [compare_eq, position, position]
  cases hfa : a.family <;> cases hfb : b.family <;> rw [hfa] at ha <;> rw [hfb] at hb <;>
    simp only [Family.base, Family.bitWidth_v4, Family.bitWidth_v6] at ha hb ⊢
  -- between the families the bases decide, within one of them the numbers
  case v4.v4 =>
    rw [Nat.zero_add, Nat.zero_add]
    rfl
  case v4.v6 => exact (Nat.compare_eq_lt.2 (by omega)).symm
  case v6.v4 => exact (Nat.compare_eq_gt.2 (by omega)).symm
  case v6.v6 =>
    simp only [Nat.compare_eq_ite_lt, Nat.add_lt_add_iff_left]
    rfl

theorem lt_iff_position_lt {a b : Address} : a < b ↔ a.position < b.position := by
  change compare a b = .lt ↔ _
  rw [compare_eq_compare_position, Nat.compare_eq_lt]

theorem le_iff_position_le {a b : Address} : a ≤ b ↔ a.position ≤ b.position := by
  change (compare a b).isLE = true ↔ _
  rw [compare_eq_compare_position, Nat.isLE_compare]

/-- The next address has the next position. -/
theorem succ?_eq_some_iff_position {a b : Address} :
    a.succ? = some b ↔ b.family = a.family ∧ b.position = a.position + 1 := by
  rw [succ?_eq_some_iff, position, position]
  refine and_congr_right ?_
  intro hf
  rw [hf]
  omega

theorem pred?_eq_some_iff_position {a b : Address} :
    a.pred? = some b ↔ b.family = a.family ∧ b.position + 1 = a.position := by
  rw [pred?, sub?_eq_some_iff, position, position]
  refine and_congr_right ?_
  intro hf
  rw [hf]
  omega

/-- **Keeping the first bits of an address rounds its position down.** -/
theorem position_truncate (a : Address) {k : Nat} (hk : k ≤ a.family.bitWidth) :
    (a.truncate k).position =
      a.position / 2 ^ (a.family.bitWidth - k) * 2 ^ (a.family.bitWidth - k) := by
  have hdvd : 2 ^ (a.family.bitWidth - k) ∣ a.family.base :=
    Nat.dvd_trans (Nat.pow_dvd_pow 2 (Nat.sub_le _ _)) a.family.pow_bitWidth_dvd_base
  rw [position, family_truncate, toNat_truncate a hk, position,
    Nat.add_div_of_dvd_right hdvd, Nat.add_mul, Nat.div_mul_cancel hdvd]

end Address

end Cidr
