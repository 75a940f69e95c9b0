import Cidr.Proofs.Network.Inclusion
import Cidr.Proofs.Wide.Bits

/-!
# The bounds and the size of a network

A network can be looked at in three ways.  Its addresses are those that a mask
sends to the first one.  Its bounds come of the same mask, turned around as a
number and set in the first address.  Its size is a single bit.  All three agree:
the network is the interval between its bounds, and the size counts the interval.

## Main results

* `Address.ofLow_complement_toWide` — an address may be turned around octet by
  octet or as a number.
* `Network.toNat_lastAddress` — the bounds are one less apart than the network is large.
* `Network.bounds_exact` — **a network is the interval from its first to its last
  address, and its size is the length of that interval.**
-/

namespace Cidr

/-- **To turn around an address is to turn around its number** and to drop the extra bit, which
comes out set. -/
theorem Address.ofLow_complement_toWide (a : Address) :
    ofLow a.toWide.complement = a.complement := by
  have hwide := a.toWide.toNat_complement_add
  have hoctets := Octets.toNat_complement_add a.octets
  rw [family_toWide, toNat_toWide, pow_succ] at hwide
  rw [a.length_octets, ← Family.bitWidth_eq] at hoctets
  have hf : (ofLow a.toWide.complement).family = a.family := by
    change a.toWide.complement.family = a.family
    rw [Wide.family_complement, family_toWide]
  refine toNat_inj hf ?_
  change Octets.toNat (Octets.ofNat a.toWide.complement.family.octetCount _) =
    Octets.toNat a.octets.complement
  change _ + Octets.toNat a.octets + 1 = _ at hwide
  rw [Octets.toNat_ofNat, Wide.family_complement, family_toWide, ← Family.bitWidth_eq,
    Nat.one_shiftLeft]
  -- the number exceeds that of the complement by the extra bit alone
  rw [show a.toWide.complement.toNat = Octets.toNat a.octets.complement + 2 ^ a.family.bitWidth by
    omega, Nat.add_mod_right, Nat.mod_eq_of_lt (by omega)]

namespace Network

variable (n : Network)

theorem toNat_size : n.size.toNat = 2 ^ n.hostBits := Wide.toNat_twoPow (Nat.sub_le _ _)

@[simp] theorem family_size : n.size.family = n.family := Wide.family_twoPow _ _

/-- The bounds are one less apart than the network is large. -/
theorem toNat_lastAddress : n.lastAddress.toNat + 1 = n.address.toNat + 2 ^ n.hostBits := by
  have h := n.position_lastAddress
  rw [stop, start, Address.position, Address.position] at h
  change n.family.base + _ + 1 = n.family.base + _ + _ at h
  omega

theorem mem_iff_le {a : Address} : a ∈ n ↔ n.address ≤ a ∧ a ≤ n.lastAddress := by
  have hlast := n.position_lastAddress
  rw [mem_iff_position, Address.le_iff_position_le, Address.le_iff_position_le, start]
  omega

/-- The last address as it is computed: the mask is turned around as a number. -/
theorem or_ofLow_complement :
    n.address.or (.ofLow n.netmask.toWide.complement) = .ok n.lastAddress := by
  rw [Address.ofLow_complement_toWide]
  exact dif_pos rfl

/-- The size by way of the bounds.  The difference of two addresses leaves room for one more. -/
theorem sub?_add?_eq_size :
    (n.lastAddress.toWide.sub? n.address.toWide).bind (·.add? (.one n.family)) = some n.size := by
  have hlast := n.toNat_lastAddress
  have hlt := n.lastAddress.toNat_lt
  have hpos : 0 < 2 ^ n.hostBits := Nat.two_pow_pos _
  obtain ⟨d, hdf, hdn⟩ := Wide.exists_toNat_eq (f := n.family)
    (n := n.lastAddress.toNat - n.address.toNat) (Nat.lt_of_le_of_lt (Nat.sub_le _ _) hlt)
  refine Option.bind_eq_some_iff.2 ⟨d, Wide.sub?_eq_some_iff.2 ?_, Wide.add?_eq_some_iff.2 ?_⟩
  · simp only [Address.family_toWide, Address.toNat_toWide]
    exact ⟨rfl, hdf, by omega⟩
  · rw [Wide.family_one, Wide.toNat_one, family_size, toNat_size]
    exact ⟨hdf, hdf.symm, by omega⟩

/-- **A network is exactly the interval from its first to its last address.**  An address is in it
if the mask sends it to the first one, which it does for the addresses of the family between the
bounds.  The last address comes of the complement of the mask as a number.  The size is one more
than the difference of the bounds, and it is a one moved up past the host bits: a power of two,
which takes the extra bit if the network has all addresses of its family. -/
theorem bounds_exact :
    (∀ a : Address,
      (a ∈ n ↔ (a.and n.netmask).toOption = some n.address) ∧
      (a ∈ n ↔ a.family = n.family ∧ n.address ≤ a ∧ a ≤ n.lastAddress)) ∧
    n.address.or (.ofLow n.netmask.toWide.complement) = .ok n.lastAddress ∧
    (n.lastAddress.toWide.sub? n.address.toWide).bind (·.add? (.one n.family)) = some n.size ∧
    (Wide.one n.family).shiftLeft (n.family.bitWidth - n.prefixLength) = .ok n.size ∧
    n.size.family = n.family ∧ n.size.toNat = 2 ^ (n.family.bitWidth - n.prefixLength) := by
  refine ⟨?_, n.or_ofLow_complement, n.sub?_add?_eq_size, Wide.shiftLeft_one (Nat.sub_le _ _),
    n.family_size, n.toNat_size⟩
  intro a
  refine ⟨mem_iff_and_netmask, ?_⟩
  rw [← mem_iff_le]
  exact (and_iff_right_of_imp family_eq_of_mem).symm

end Network

end Cidr
