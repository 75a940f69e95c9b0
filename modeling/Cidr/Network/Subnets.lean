import Cidr.Network.Basic
import Cidr.Walk

/-!
# Subnets

A network is cut into subnets of one prefix length.  A walk gives them out in
the order of their addresses.

## Main definitions

* `SubnetWalk` — the subnets that are still to come.
* `Network.follower?` — the network that begins where another one ends.
* `Network.subnets` — the subnets of a network with a given prefix length.
-/

namespace Cidr

/-- The state of giving out networks of one prefix length up to a last address. -/
structure SubnetWalk where
  /-- The network that comes next, unless all have been given out. -/
  upcoming : Option Network
  /-- The last address of the last network. -/
  last : Address
  deriving DecidableEq, Repr

/-- The network that begins right after this one, with the same prefix length. -/
def Network.follower? (n : Network) : Option Network := do
  let start ← n.lastAddress.succ?
  (ofAddress start n.prefixLength).toOption

namespace SubnetWalk

/-- The next network, and the walk from there on. -/
def next? (w : SubnetWalk) : Option (Network × SubnetWalk) :=
  w.upcoming.map fun n =>
    (n, { w with upcoming := if n.lastAddress = w.last then none else n.follower? })

instance : Std.Stream SubnetWalk Network := ⟨next?⟩

end SubnetWalk

/-- The subnets with a prefix of `k` bits, not fewer than that of the network. -/
def Network.subnets (n : Network) (k : Nat) : Except Error SubnetWalk :=
  if k < n.prefixLength then .error (.wrongDirection n.prefixLength k)
  else do return ⟨some (← ofAddress n.address k), n.lastAddress⟩

end Cidr
