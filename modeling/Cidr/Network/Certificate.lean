import Cidr.Network.Basic

/-!
# Networks in certificates

A certificate names a network by the octets of its address followed by those of
its mask.  A bare address stands for the network of that address alone.

## Main definitions

* `Network.certificateOctets` — the octets that name a network.
* `Network.ofCertificateOctets` — the network that octets name.
-/

namespace Cidr.Network

/-- The octets of the address, then those of the mask. -/
def certificateOctets (n : Network) : Octets := n.address.octets ++ n.netmask.octets

/-- The network of an address and a mask, which must be contiguous. -/
def ofMaskedOctets (address mask : Octets) : Except Error Network := do
  let k ← Octets.netmaskLength mask
  containing (← Address.ofOctets address) k

/-- The network that octets name.  Bits of the address outside the mask are dropped. -/
def ofCertificateOctets (a : Octets) : Except Error Network :=
  if a.length = 4 ∨ a.length = 16 then do
    let address ← Address.ofOctets a
    ofAddress address address.family.bitWidth
  else if a.length = 8 ∨ a.length = 32 then
    ofMaskedOctets (a.take (a.length / 2)) (a.drop (a.length / 2))
  else .error (.octetCount a.length)

end Cidr.Network
