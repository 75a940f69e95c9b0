import Cidr.Network.Addresses
import Cidr.Network.Relation

/-!
# Interfaces

An interface is a host address bound to the network it lives in.

## Main definitions

* `Interface` — the type.
* `Interface.ofAddress` — the interface of an address with a prefix length.
* `Interface.inNetwork` — the interface of an address in a given network.
* `Interface.hosts` — one interface for each host address of a network.
* The order is by address, then by prefix length.
-/

namespace Cidr

/-- A host address and the network it lives in. -/
structure Interface where
  /-- The address of the host. -/
  address : Address
  /-- The network. -/
  network : Network
  /-- The network holds the address. -/
  address_mem : address ∈ network
  deriving DecidableEq, Repr

namespace Interface

/-- The prefix length of the network. -/
def prefixLength (i : Interface) : Nat := i.network.prefixLength

/-- The family of the address. -/
def family (i : Interface) : Family := i.address.family

/-- The mask of the prefix. -/
def netmask (i : Interface) : Address := i.network.netmask

/-- The mask of the bits after the prefix. -/
def hostMask (i : Interface) : Address := i.network.hostMask

/-- The interface of an address in the network around it with a given prefix length. -/
def ofAddress (a : Address) (k : Nat) : Except Error Interface :=
  if h : k ≤ a.family.bitWidth then .ok ⟨a, .enclosing a k h, Network.mem_enclosing a k h⟩
  else .error (.lengthOutOfRange k a.family.bitWidth)

/-- The interface of an address in a network that must hold it. -/
def inNetwork (a : Address) (n : Network) : Except Error Interface :=
  if h : a ∈ n then .ok ⟨a, n, h⟩
  else .error (.outsideNetwork (toString a) (toString n))

/-- Reads an interface: a host address with a prefix length. -/
def parse (s : String) : Except Error Interface := do
  let p ← Prefixed.parse s
  ofAddress p.address p.prefixLength

/-! ### Order and written forms -/

instance : Ord Interface where
  compare i j := (compare i.address j.address).then
    ((compare i.prefixLength j.prefixLength).then (compare i.network j.network))

/-- The host address with the prefix length. -/
def prefixed (i : Interface) : Prefixed := ⟨i.address, i.prefixLength⟩

instance : ToString Interface where
  toString i := toString i.prefixed

/-- The text with every segment of the address at full width. -/
def expanded (i : Interface) : String := i.prefixed.expanded

/-- The host address and the mask of the prefix. -/
def withNetmask (i : Interface) : String := i.address.withMask i.netmask

/-! ### Hosts of a network -/

/-- The interfaces of a network that are still to come. -/
structure Hosts where
  /-- The network all of them live in. -/
  network : Network
  /-- The addresses that are still to come. -/
  addresses : AddressWalk
  deriving DecidableEq, Repr

/-- One interface for each host address of a network. -/
def hosts (n : Network) : Hosts := ⟨n, n.hosts⟩

/-- The next interface, and the walk from there on.  Only addresses of the network are given
out. -/
def Hosts.next? (h : Hosts) : Option (Interface × Hosts) := do
  let (a, rest) ← h.addresses.next?
  if ha : a ∈ h.network then some (⟨a, h.network, ha⟩, { h with addresses := rest }) else none

instance : Std.Stream Hosts Interface := ⟨Hosts.next?⟩

end Interface

end Cidr
