import Cidr.Address.Basic

/-!
# IPv4 addresses inside IPv6

Every IPv4 address has a counterpart among the IPv6 addresses: ten zero octets,
two octets of ones, and the four octets of the address.

## Main definitions

* `Address.IsIPv4Mapped` — being such a counterpart.
* `Address.toIPv6` — the counterpart of an IPv4 address.
* `Address.embeddedIPv4?` — the IPv4 address that a counterpart holds.
-/

namespace Cidr.Address

/-- What stands before the IPv4 address in its IPv6 counterpart. -/
def mappedLead : Octets := List.replicate 10 0 ++ [0xFF, 0xFF]

/-- The IPv6 address is the counterpart of an IPv4 address. -/
def IsIPv4Mapped (a : Address) : Prop := a.family = .v6 ∧ a.octets.take 12 = mappedLead

instance (a : Address) : Decidable a.IsIPv4Mapped := inferInstanceAs (Decidable (_ ∧ _))

/-- The IPv4 address that an IPv6 counterpart holds. -/
def embeddedIPv4? (a : Address) : Option Address :=
  if h : a.IsIPv4Mapped then
    some ⟨.v4, a.octets.drop 12, by rw [List.length_drop, a.length_octets, h.1]; rfl⟩
  else none

/-- The counterpart of an IPv4 address; an IPv6 address stays as it is. -/
def toIPv6 (a : Address) : Address :=
  if h : a.family = .v4 then
    ⟨.v6, mappedLead ++ a.octets, by rw [List.length_append, a.length_octets, h]; rfl⟩
  else a

@[simp] theorem family_toIPv6 (a : Address) : a.toIPv6.family = .v6 := by
  unfold toIPv6
  split
  · rfl
  · next h => cases hf : a.family <;> simp_all

/-- An IPv4 address can be taken back out of its counterpart. -/
theorem embeddedIPv4?_toIPv6 {a : Address} (h : a.family = .v4) :
    a.toIPv6.embeddedIPv4? = some a := by
  have hlead : mappedLead.length = 12 := rfl
  have hto : a.toIPv6.octets = mappedLead ++ a.octets := by rw [toIPv6, dif_pos h]
  have hmapped : a.toIPv6.IsIPv4Mapped := by
    refine ⟨family_toIPv6 a, ?_⟩
    rw [hto, ← hlead, List.take_left]
  rw [embeddedIPv4?, dif_pos hmapped]
  refine congrArg some (octets_inj ?_)
  change a.toIPv6.octets.drop 12 = a.octets
  rw [hto, ← hlead, List.drop_left]

end Cidr.Address
