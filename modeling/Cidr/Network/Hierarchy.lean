import Cidr.Network.Relation

/-!
# The tree of networks

Dropping the last bit of the prefix leads from a network to the network around
it, its supernet, whose other half is the sibling.

## Main definitions

* `Network.supernet?`, `Network.sibling?` — one step up, and the other half.
* `Network.ancestor?` — a number of steps up.
* `Network.supernetTo` — the network around one with a given prefix length.
-/

namespace Cidr.Network

/-- The network around this one with a prefix of `k` bits, not more than its own. -/
def widen (n : Network) (k : Nat) (h : k ≤ n.prefixLength) : Network :=
  enclosing n.address k (Nat.le_trans h n.prefixLength_le)

@[simp] theorem prefixLength_widen (n : Network) (k : Nat) (h : k ≤ n.prefixLength) :
    (n.widen k h).prefixLength = k := rfl

@[simp] theorem family_widen (n : Network) (k : Nat) (h : k ≤ n.prefixLength) :
    (n.widen k h).family = n.family := rfl

theorem containing_address {n : Network} {k : Nat} (h : k ≤ n.prefixLength) :
    containing n.address k = .ok (n.widen k h) :=
  containing_of_le (Nat.le_trans h n.prefixLength_le)

/-- The network with a prefix one bit shorter. -/
def supernet? (n : Network) : Option Network :=
  if n.prefixLength = 0 then none else some (n.widen (n.prefixLength - 1) (Nat.sub_le ..))

/-- The network that so many steps up lead to, if there are as many. -/
def ancestor? : Network → (steps : Nat) → Option Network
  | n, 0 => some n
  | n, steps + 1 => n.supernet?.bind fun parent => parent.ancestor? steps

/-- The other half of the supernet: it begins where the supernet begins, or right after the
network itself. -/
def sibling? (n : Network) : Option Network := do
  let parent ← n.supernet?
  let start ← if parent.address = n.address then n.lastAddress.succ? else some parent.address
  (ofAddress start n.prefixLength).toOption

/-- The network around this one with a prefix of `k` bits. -/
def supernetTo (n : Network) (k : Nat) : Except Error Network :=
  if h : k ≤ n.prefixLength then .ok (n.widen k h)
  else .error (.wrongDirection n.prefixLength k)

end Cidr.Network
