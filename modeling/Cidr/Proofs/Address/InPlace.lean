import Cidr.Address.InPlace
import Cidr.Proofs.Address.Mask
import Cidr.Proofs.Network.Record

/-!
# What masking clears

A mask keeps some of the ones of an octet and clears the others, so that the count of a
masking is the number of ones that are missing afterwards.  It is zero only if nothing
has changed.  Where several masks are put on, the ones that are missing in the end are
those that were cleared on the way, and of two contiguous masks only the shorter one
decides what is left.  So keeping a number of bits and then another one comes to the
same address as keeping the smaller number at once, with the counts added up.  And a
strict network is a lenient one that has cleared nothing.

## Main results

* `Octets.weight_lost_add` — **the ones that are cleared and those that are kept.**
* `Octets.truncate_truncate` — the shorter one of two contiguous masks counts.
* `Address.maskInPlace_of_clear` — masking in place is masking.
* `Address.masking_exact` — **masking counts what it clears.**
-/

namespace Cidr

namespace Octets

/-! ### Ones -/

/-- The ones of an octet are cleared by a mask or kept. -/
theorem count_octetBits_and (t m : UInt8) :
    (octetBits (t ^^^ (t &&& m))).count true + (octetBits (t &&& m)).count true =
      (octetBits t).count true := by
  have hbits : ∀ is : List Nat,
      (is.map (t ^^^ (t &&& m)).toBitVec.getMsbD).count true +
        (is.map (t &&& m).toBitVec.getMsbD).count true =
          (is.map t.toBitVec.getMsbD).count true := by
    intro is
    induction is with
    | nil => rfl
    | cons i is ih =>
      simp only [List.map_cons, List.count_cons, UInt8.toBitVec_xor, UInt8.toBitVec_and,
        BitVec.getMsbD_xor, BitVec.getMsbD_and] at ih ⊢
      cases t.toBitVec.getMsbD i <;> cases m.toBitVec.getMsbD i <;> simp <;> omega
  exact hbits (List.range 8)

/-- **The ones of a sequence are those that a mask clears and those that it keeps.** -/
theorem weight_lost_add {a mask : Octets} (h : a.length = mask.length) :
    (lost a mask).weight + weight (a.zipWith (· &&& ·) mask) = a.weight := by
  induction a generalizing mask with
  | nil => rfl
  | cons t a ih =>
    cases mask with
    | nil => exact absurd h (by simp)
    | cons m mask =>
      have ih := @ih mask (by simpa using h)
      have hoctet := count_octetBits_and t m
      rw [lost] at ih ⊢
      rw [List.zipWith_cons_cons, List.zipWith_cons_cons, weight_cons, weight_cons, weight_cons]
      omega

/-! ### One mask after the other -/

theorem zipWith_and_and (a mask : Octets) :
    (a.zipWith (· &&& ·) mask).zipWith (· &&& ·) mask = a.zipWith (· &&& ·) mask := by
  induction a generalizing mask with
  | nil => rfl
  | cons t a ih =>
    cases mask with
    | nil => rfl
    | cons m mask =>
      simp only [List.zipWith_cons_cons, ih, UInt8.and_assoc, UInt8.and_self]

theorem leadingOnes_and (j k : Nat) : leadingOnes j &&& leadingOnes k = leadingOnes (min j k) := by
  have hall : ∀ j ≤ 8, ∀ k ≤ 8, leadingOnes j &&& leadingOnes k = leadingOnes (min j k) := by decide
  -- from eight bits on all octets are full
  have hmin : ∀ k, leadingOnes k = leadingOnes (min k 8) := by
    intro k
    rcases Nat.le_total k 8 with hk | hk
    · rw [Nat.min_eq_left hk]
    · rw [Nat.min_eq_right hk, leadingOnes_of_le hk, leadingOnes_of_le (Nat.le_refl 8)]
  rw [hmin j, hmin k, hall _ (Nat.min_le_right j 8) _ (Nat.min_le_right k 8), hmin (min j k)]
  congr 1
  omega

/-- **The shorter one of two contiguous masks counts.** -/
theorem truncate_truncate (a : Octets) (j k : Nat) :
    (a.truncate j).truncate k = a.truncate (min j k) := by
  induction a generalizing j k with
  | nil => rfl
  | cons b a ih =>
    have hmin : min (j - 8) (k - 8) = min j k - 8 := by omega
    rw [truncate_cons, truncate_cons, truncate_cons, ih, hmin, UInt8.and_assoc, leadingOnes_and]

end Octets

namespace Address

variable {a mask : Address} {j k : Nat}

/-! ### Masking in place -/

/-- **Masking in place is masking.** -/
theorem maskInPlace_of_clear {m : Masked Address} (h : a.clear mask = .ok m) :
    a.maskInPlace mask = (.ok m.cleared, m.result) := by
  unfold clear at h
  split at h
  · next hf =>
    obtain rfl := Except.ok.inj h
    have hlen : a.octets.length = mask.octets.length := by
      rw [a.length_octets, mask.length_octets, hf]
    have hoctets : a.octets.maskInPlace mask.octets =
        (.ok (Octets.lost a.octets mask.octets).weight,
          a.octets.zipWith (· &&& ·) mask.octets) := by
      rw [Octets.maskInPlace, if_pos hlen, Octets.maskAll_eq, List.nil_append, Nat.zero_add]
    rw [maskInPlace, if_pos hf]
    refine Prod.ext (congrArg Prod.fst hoctets :) (octets_inj ?_)
    exact congrArg Prod.snd hoctets
  · exact absurd h (by simp)

theorem maskInPlace_of_family_ne (h : a.family ≠ mask.family) :
    a.maskInPlace mask = (.error .familiesDiffer, a) := if_neg h

theorem maskLengthInPlace_of_lt (h : a.family.bitWidth < k) :
    a.maskLengthInPlace k = (.error (.lengthOutOfRange k a.family.bitWidth), a) := by
  rw [maskLengthInPlace, netmask, if_neg (Nat.not_le.2 h)]

/-! ### What is cleared -/

/-- **The count of a masking is the number of ones that are missing afterwards.** -/
theorem exists_clear (h : a.family = mask.family) :
    ∃ b cleared, a.and mask = .ok b ∧ a.clear mask = .ok ⟨b, cleared⟩ ∧
      cleared + b.octets.weight = a.octets.weight :=
  ⟨_, _, dif_pos h, dif_pos h,
    Octets.weight_lost_add (by rw [a.length_octets, mask.length_octets, h])⟩

/-- What a mask leaves of an address it leaves again. -/
theorem and_eq_self {b : Address} (h : a.and mask = .ok b) : b.and mask = .ok b := by
  unfold and combine at h
  split at h
  · next hf =>
    obtain rfl := Except.ok.inj h
    have hf' : (zipOctets (· &&& ·) a mask hf).family = mask.family := hf
    rw [and, combine, dif_pos hf']
    exact congrArg Except.ok (octets_inj (Octets.zipWith_and_and _ _))
  · exact absurd h (by simp)

/-- Masking an address with one family's mask leaves an address of the family. -/
theorem family_eq_of_and {b : Address} (h : a.and mask = .ok b) : b.family = a.family := by
  unfold and combine at h
  split at h
  · obtain rfl := Except.ok.inj h
    rfl
  · exact absurd h (by simp)

/-- Keeping the first bits of an address clears the ones that are missing afterwards. -/
theorem maskLengthInPlace_of_le (hk : k ≤ a.family.bitWidth) :
    ∃ cleared, a.maskLengthInPlace k = (.ok cleared, a.truncate k) ∧
      cleared + (a.truncate k).octets.weight = a.octets.weight := by
  have hfamily : a.family = (ones a.family k).family := rfl
  obtain ⟨b, cleared, hand, hclear, hcount⟩ := exists_clear hfamily
  rw [and_ones rfl] at hand
  obtain rfl := Except.ok.inj hand
  refine ⟨cleared, ?_, hcount⟩
  rw [maskLengthInPlace, netmask, if_pos hk]
  exact maskInPlace_of_clear hclear

theorem truncate_truncate (a : Address) (j k : Nat) :
    (a.truncate j).truncate k = a.truncate (min j k) :=
  octets_inj (Octets.truncate_truncate a.octets j k)

end Address

/-! ### Strict and lenient networks -/

variable {a : Address} {k : Nat}

/-- The network that begins at an address is the one around it, if this begins there. -/
theorem Network.ofAddress_eq_ok_iff_containing {n : Network} :
    ofAddress a k = .ok n ↔ containing a k = .ok n ∧ n.address = a := by
  rw [ofAddress_eq_ok_iff, containing_eq_ok_iff]
  constructor
  · rintro ⟨rfl, rfl⟩
    exact ⟨⟨n.truncate_address.symm, rfl⟩, rfl⟩
  · rintro ⟨⟨-, hk⟩, ha⟩
    exact ⟨ha, hk⟩

/-- A record that has cleared nothing is the one that has not looked at what it cleared. -/
theorem Network.Record.ofAddress_eq_ok_iff_containing {r : Network.Record} :
    ofAddress a k = .ok r ↔ containing a k = .ok r ∧ r.address = a := by
  have hmap : ∀ n? : Except Error Network,
      Failure.ofExcept (n?.map record) = .ok r ↔ ∃ n, n? = .ok n ∧ n.record = r := by
    intro n?
    cases n? <;> simp [Except.map]
  rw [ofAddress_eq, containing_eq, hmap, hmap]
  constructor
  · rintro ⟨n, hn, rfl⟩
    obtain ⟨hcontaining, ha⟩ := Network.ofAddress_eq_ok_iff_containing.1 hn
    exact ⟨⟨n, hcontaining, rfl⟩, ha⟩
  · rintro ⟨⟨n, hn, rfl⟩, ha⟩
    exact ⟨n, Network.ofAddress_eq_ok_iff_containing.2 ⟨hn, ha⟩, rfl⟩

/-- **Masking counts what it clears.**  A mask of the same family leaves the bits that are set in
both, and the count with the ones that are left gives all ones there were.  It is zero only if
nothing has changed, as is the case when the mask is put on again.  A mask of the other family and a
length out of range are refused, and leave the address as it was.  To keep some of the first bits
and then another number of them is to keep the fewer ones at once, with the counts added up.  So
the networks that begin at an address are those around it that have not changed it. -/
theorem Address.masking_exact (a : Address) :
    (∀ mask : Address, a.family = mask.family → ∃ b cleared,
      a.and mask = .ok b ∧ a.clear mask = .ok ⟨b, cleared⟩ ∧
      a.maskInPlace mask = (.ok cleared, b) ∧
      cleared + b.octets.weight = a.octets.weight ∧ (cleared = 0 ↔ b = a) ∧
      b.maskInPlace mask = (.ok 0, b)) ∧
    (∀ mask : Address, a.family ≠ mask.family →
      a.maskInPlace mask = (.error .familiesDiffer, a)) ∧
    (∀ k, a.family.bitWidth < k →
      a.maskLengthInPlace k = (.error (.lengthOutOfRange k a.family.bitWidth), a)) ∧
    (∀ j k, j ≤ a.family.bitWidth → k ≤ a.family.bitWidth → ∃ b c m n,
      a.maskLengthInPlace j = (.ok m, b) ∧ b.maskLengthInPlace k = (.ok n, c) ∧
      a.maskLengthInPlace (min j k) = (.ok (m + n), c)) ∧
    ∀ k, (∀ n, Network.ofAddress a k = .ok n ↔ Network.containing a k = .ok n ∧ n.address = a) ∧
      ∀ r, Network.Record.ofAddress a k = .ok r ↔
        Network.Record.containing a k = .ok r ∧ r.address = a := by
  refine ⟨?_, fun mask => maskInPlace_of_family_ne, fun k => maskLengthInPlace_of_lt, ?_, ?_⟩
  · intro mask hf
    obtain ⟨b, cleared, hand, hclear, hcount⟩ := a.exists_clear hf
    have hb := and_eq_self hand
    obtain ⟨c, again, hand', hclear', -⟩ := b.exists_clear ((family_eq_of_and hand).trans hf)
    obtain rfl := Except.ok.inj (hb.symm.trans hand')
    obtain rfl : again = 0 := (cleared_eq_zero_iff hclear').2 rfl
    exact ⟨b, cleared, hand, hclear, maskInPlace_of_clear hclear, hcount,
      cleared_eq_zero_iff hclear, maskInPlace_of_clear hclear'⟩
  · intro j k hj hk
    obtain ⟨m, hm, hcount⟩ := maskLengthInPlace_of_le hj
    obtain ⟨n, hn, hcount'⟩ := maskLengthInPlace_of_le (a := a.truncate j) hk
    have hmin : min j k ≤ a.family.bitWidth := Nat.le_trans (Nat.min_le_left j k) hj
    obtain ⟨l, hl, hcount''⟩ := maskLengthInPlace_of_le hmin
    rw [truncate_truncate] at hn hcount'
    obtain rfl : l = m + n := by omega
    exact ⟨_, _, m, n, hm, hn, hl⟩
  · intro k
    exact ⟨fun n => Network.ofAddress_eq_ok_iff_containing,
      fun r => Network.Record.ofAddress_eq_ok_iff_containing⟩

/-- A mask with ones in two places, a mask of IPv6 on an address of IPv4, and lengths within an
octet and beyond the width. -/
theorem Address.masking_exact_of_gap :
    (∃ b cleared, (Address.v4 192 0 2 130).and (.v4 255 0 255 1) = .ok b ∧
      (Address.v4 192 0 2 130).maskInPlace (.v4 255 0 255 1) = (.ok cleared, b) ∧
      cleared + b.octets.weight = (Address.v4 192 0 2 130).octets.weight) ∧
    (Address.v4 192 0 2 130).maskInPlace (.ones .v6 8) =
      (.error .familiesDiffer, .v4 192 0 2 130) ∧
    (Address.v4 192 0 2 130).maskLengthInPlace 33 =
      (.error (.lengthOutOfRange 33 32), .v4 192 0 2 130) ∧
    ∃ b c m n, (Address.v4 192 0 2 130).maskLengthInPlace 30 = (.ok m, b) ∧
      b.maskLengthInPlace 23 = (.ok n, c) ∧
      (Address.v4 192 0 2 130).maskLengthInPlace 23 = (.ok (m + n), c) := by
  obtain ⟨hmask, hfamily, hlength, htwice, -⟩ := masking_exact (.v4 192 0 2 130)
  obtain ⟨b, cleared, hand, -, hplace, hcount, -⟩ := hmask (.v4 255 0 255 1) rfl
  exact ⟨⟨b, cleared, hand, hplace, hcount⟩, hfamily _ (by decide), hlength 33 (by decide),
    htwice 30 23 (by decide) (by decide)⟩

end Cidr
