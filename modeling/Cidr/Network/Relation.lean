import Cidr.Network.Basic

/-!
# Relations between networks

An address belongs to a network when its first bits are those of the network.
Of two networks either one contains the other or they share no address; networks
that touch end to start are adjacent, and two adjacent halves of a larger
network can be merged.

## Main definitions

* `a ∈ n` — the address belongs to the network.
* `Network.Contains`, `Network.IsSubnetOf`, `Network.Overlaps` — inclusion.
* `Network.IsAdjacentTo`, `Network.CanMergeWith` — neighbourhood.
* `Network.intersection?`, `Network.merge?` — the network both share, and the
  network both make up.

## Main results

* `Network.prefixLength_of_merge?` — merging shortens the prefix by one bit.
-/

namespace Cidr.Network

/-! ### Membership -/

instance : Membership Address Network where
  mem n a := a.truncate n.prefixLength = n.address

theorem mem_iff {a : Address} {n : Network} : a ∈ n ↔ a.truncate n.prefixLength = n.address :=
  Iff.rfl

instance (a : Address) (n : Network) : Decidable (a ∈ n) :=
  inferInstanceAs (Decidable (a.truncate n.prefixLength = n.address))

theorem address_mem (n : Network) : n.address ∈ n := n.truncate_address

theorem mem_enclosing (a : Address) (k : Nat) (h : k ≤ a.family.bitWidth) :
    a ∈ enclosing a k h := rfl

theorem family_eq_of_mem {a : Address} {n : Network} (h : a ∈ n) : a.family = n.family := by
  have hf := congrArg Address.family (mem_iff.1 h)
  exact hf

/-! ### Inclusion -/

/-- The prefix of `m` is a prefix of that of `n`. -/
def Contains (m n : Network) : Prop := m.prefixLength ≤ n.prefixLength ∧ n.address ∈ m

instance (m n : Network) : Decidable (m.Contains n) := inferInstanceAs (Decidable (_ ∧ _))

/-- The addresses of `n` are among those of `m`. -/
def IsSubnetOf (n m : Network) : Prop :=
  n.family = m.family ∧ m.prefixLength ≤ n.prefixLength ∧ n.address ∈ m

instance (n m : Network) : Decidable (n.IsSubnetOf m) := inferInstanceAs (Decidable (_ ∧ _))

/-- The addresses of `m` are among those of `n`. -/
def IsSupernetOf (n m : Network) : Prop := m.IsSubnetOf n

instance (n m : Network) : Decidable (n.IsSupernetOf m) :=
  inferInstanceAs (Decidable (m.IsSubnetOf n))

/-- One network contains the other. -/
def Overlaps (m n : Network) : Prop := m.Contains n ∨ n.Contains m

instance (m n : Network) : Decidable (m.Overlaps n) := inferInstanceAs (Decidable (_ ∨ _))

/-- The smaller one of two networks that overlap. -/
def intersection? (m n : Network) : Option Network :=
  if m.Contains n then some n else if n.Contains m then some m else none

/-! ### Neighbourhood -/

/-- The network that comes first in the order. -/
def lower (m n : Network) : Network := if m < n then m else n

/-- The network that comes last in the order. -/
def upper (m n : Network) : Network := if m < n then n else m

/-- One network begins right after the other one ends. -/
def IsAdjacentTo (m n : Network) : Prop :=
  m.family = n.family ∧ ¬ m.Overlaps n ∧
    (lower m n).lastAddress.succ? = some (upper m n).address

instance (m n : Network) : Decidable (m.IsAdjacentTo n) := inferInstanceAs (Decidable (_ ∧ _))

/-- The networks are the two halves of a network with a prefix one bit shorter. -/
def CanMergeWith (m n : Network) : Prop :=
  m.prefixLength = n.prefixLength ∧ m.prefixLength ≠ 0 ∧ m.IsAdjacentTo n ∧
    (lower m n).address.truncate (m.prefixLength - 1) = (lower m n).address

instance (m n : Network) : Decidable (m.CanMergeWith n) := inferInstanceAs (Decidable (_ ∧ _))

theorem family_lower {m n : Network} (h : m.family = n.family) : (lower m n).family = m.family := by
  unfold lower
  split
  · rfl
  · exact h.symm

/-- The network that two halves make up. -/
def merge? (m n : Network) : Option Network :=
  if h : m.CanMergeWith n then
    some {
      address := (lower m n).address
      prefixLength := m.prefixLength - 1
      prefixLength_le := by
        have hk := m.prefixLength_le
        have hf : (lower m n).address.family = m.address.family := family_lower h.2.2.1.1
        rw [hf]
        omega
      truncate_address := h.2.2.2 }
  else none

/-- The sum of two networks is the network that they make up as two halves. -/
instance : HAdd Network Network (Option Network) := ⟨merge?⟩

/-- Merging shortens the prefix by one bit. -/
theorem prefixLength_of_merge? {m n p : Network} (h : merge? m n = some p) :
    p.prefixLength + 1 = m.prefixLength := by
  unfold merge? at h
  split at h
  · next hm =>
    obtain rfl := Option.some.inj h
    have := hm.2.1
    change m.prefixLength - 1 + 1 = m.prefixLength
    omega
  · simp at h

end Cidr.Network
