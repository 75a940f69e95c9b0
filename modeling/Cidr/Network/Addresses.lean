import Cidr.Network.Basic
import Cidr.Walk

/-!
# The addresses of a network

A walk gives out addresses in order up to a last one.  Every network has the
walk over all its addresses and the walk over those that can be assigned to
hosts.

## Main definitions

* `AddressWalk`, `AddressWalk.between` — the addresses that are still to come.
* `Network.addresses` — all addresses of a network.
* `Network.hosts` — the addresses that can be assigned to hosts.
* `Network.firstHost`, `Network.lastHost` — the bounds shown for hosts.
-/

namespace Cidr

/-- The state of giving out addresses one by one up to a last one. -/
structure AddressWalk where
  /-- The address that comes next, unless all have been given out. -/
  upcoming : Option Address
  /-- The last address. -/
  last : Address
  deriving DecidableEq, Repr

namespace AddressWalk

/-- The addresses from `first` to `last`; none if `last` comes before `first`. -/
def between (first last : Address) : AddressWalk :=
  ⟨if last < first then none else some first, last⟩

/-- The next address, and the walk from there on.  At the last address the walk ends without
looking for a next one, which need not exist. -/
def next? (w : AddressWalk) : Option (Address × AddressWalk) :=
  w.upcoming.map fun a => (a, { w with upcoming := if a = w.last then none else a.succ? })

instance : Std.Stream AddressWalk Address := ⟨next?⟩

end AddressWalk

namespace Network

/-- All addresses, in order. -/
def addresses (n : Network) : AddressWalk := .between n.address n.lastAddress

/-! ### Hosts -/

/-- The address after the first one; the first one itself if there is none. -/
def secondAddress (n : Network) : Address := n.address.succ?.getD n.address

/-- The address before the last one; the last one itself if there is none. -/
def secondLastAddress (n : Network) : Address := n.lastAddress.pred?.getD n.lastAddress

/-- The first address shown for hosts.  An IPv4 network of more than two addresses keeps its
first one for itself. -/
def firstHost (n : Network) : Address :=
  if n.family = .v4 ∧ 1 < n.hostBits then n.secondAddress else n.address

/-- The last address shown for hosts.  An IPv4 network of more than two addresses keeps its last
one for broadcasts. -/
def lastHost (n : Network) : Address :=
  if n.family = .v4 ∧ 1 < n.hostBits then n.secondLastAddress else n.lastAddress

/-- The addresses that can be assigned to hosts, in order: a network of one or two addresses
gives all, a larger one leaves out its first address, and an IPv4 network its last one too. -/
def hosts (n : Network) : AddressWalk :=
  .between (if n.hostBits ≤ 1 then n.address else n.secondAddress) n.lastHost

end Network

end Cidr
