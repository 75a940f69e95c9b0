import Cidr.Proofs.Address

/-!
# Masking with contiguous masks

To keep the first bits of an address is to mask it with the mask whose first
bits are the ones.

## Main results

* `Address.and_ones`, `Address.clear_ones` — **masking is truncation.**
* `Address.netmask_octetCount`, `Address.ofOctets_octets` — contiguous masks are addresses.
-/

namespace Cidr

namespace Address

/-! ### Masks as addresses -/

/-- The octets of an address are read as that address. -/
theorem ofOctets_octets (a : Address) : ofOctets a.octets = .ok a := by
  have hf : Family.ofOctetCount? a.octets.length = some a.family :=
    Family.ofOctetCount?_eq_some_iff.2 a.length_octets.symm
  unfold ofOctets
  split
  · next f h =>
    exact congrArg Except.ok (octets_inj rfl)
  · next h =>
    rw [hf] at h
    exact absurd h nofun

/-- The mask of a family for a prefix length within its width. -/
theorem netmask_octetCount {f : Family} {k : Nat} (hk : k ≤ f.bitWidth) :
    Octets.netmask f.octetCount k = .ok (ones f k).octets := by
  have hcount : f.octetCount ≤ 16 := by cases f <;> decide
  exact Octets.netmask_eq_ok hcount (f.bitWidth_eq ▸ hk)

/-! ### Masking is truncation -/

theorem zipOctets_ones (a : Address) (k : Nat) :
    zipOctets (· &&& ·) a (ones a.family k) rfl = a.truncate k := by
  refine octets_inj ?_
  change a.octets.zipWith (· &&& ·) (Octets.ones a.family.octetCount k) = a.octets.truncate k
  rw [Octets.truncate, a.length_octets]

theorem and_ones {f : Family} {a : Address} (hf : a.family = f) (k : Nat) :
    a.and (ones f k) = .ok (a.truncate k) := by
  subst hf
  rw [and, combine, dif_pos (show a.family = (ones a.family k).family from rfl)]
  exact congrArg Except.ok (zipOctets_ones a k)

theorem clear_ones (a : Address) (k : Nat) :
    ∃ cleared, a.clear (ones a.family k) = .ok ⟨a.truncate k, cleared⟩ := by
  rw [clear, dif_pos (show a.family = (ones a.family k).family from rfl), zipOctets_ones]
  exact ⟨_, rfl⟩

theorem clearAfter_eq_ok {a : Address} {k : Nat} (hk : k ≤ a.family.bitWidth) :
    ∃ cleared, a.clearAfter k = .ok ⟨a.truncate k, cleared⟩ := by
  obtain ⟨cleared, h⟩ := a.clear_ones k
  refine ⟨cleared, ?_⟩
  rw [clearAfter, netmask, if_pos hk]
  exact h

end Address

end Cidr
