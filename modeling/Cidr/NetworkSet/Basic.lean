import Cidr.Network.Hierarchy

/-!
# Sets of networks

A network set stands for all addresses of its networks.  It is an ordered map
from the address at which a network begins to the network, and networks are
inserted one by one.  An insertion drops a network that is already covered,
removes networks that the new one covers, and replaces two halves by the network
they make up, over and over.

## Main definitions

* `NetworkSet`, `NetworkSet.networks` — the type, its networks, and membership
  of addresses.
* `NetworkSet.insertRound` — one step of an insertion.
* `NetworkSet.insert` — insertion.
* `NetworkSet.ofList`, `Network.reduce` — the set of the addresses of several networks.
-/

namespace Cidr

/-- Networks, each under the address it is filed at, in the order of those addresses. -/
structure NetworkSet where
  /-- The addresses with their networks. -/
  entries : List (Address × Network)
  deriving DecidableEq, Repr, Inhabited

namespace NetworkSet

/-- The set without networks. -/
def empty : NetworkSet := ⟨[]⟩

instance : EmptyCollection NetworkSet := ⟨empty⟩

/-- The networks in order. -/
def networks (s : NetworkSet) : List Network := s.entries.map Prod.snd

/-- The number of networks. -/
def size (s : NetworkSet) : Nat := s.entries.length

/-- The set has no networks. -/
def isEmpty (s : NetworkSet) : Bool := s.entries.isEmpty

/-- Some network of the set holds the address. -/
instance : Membership Address NetworkSet where
  mem s a := ∃ n ∈ s.networks, a ∈ n

instance (a : Address) (s : NetworkSet) : Decidable (a ∈ s) :=
  inferInstanceAs (Decidable (∃ n ∈ s.networks, a ∈ n))

/-- One network on each line. -/
instance : ToString NetworkSet where
  toString s := String.join (s.networks.map fun n => toString n ++ "\n")

/-! ### Access by address -/

/-- The network filed at an address. -/
def find? (s : NetworkSet) (a : Address) : Option Network :=
  (s.entries.find? fun e => e.1 = a).map Prod.snd

/-- The last network that is filed at an address or before it. -/
def floor? (s : NetworkSet) (a : Address) : Option Network :=
  (s.entries.filter fun e => e.1 ≤ a).getLast?.map Prod.snd

/-- The set without the networks that are filed between two addresses. -/
def eraseBetween (s : NetworkSet) (first last : Address) : NetworkSet :=
  ⟨s.entries.filter fun e => ¬ (first ≤ e.1 ∧ e.1 ≤ last)⟩

/-- The set without the network that is filed at an address. -/
def erase (s : NetworkSet) (a : Address) : NetworkSet :=
  ⟨s.entries.filter fun e => e.1 ≠ a⟩

/-- Files a network in the order of addresses, instead of one that is filed at the same one. -/
def placeIn (a : Address) (n : Network) : List (Address × Network) → List (Address × Network)
  | [] => [(a, n)]
  | e :: es =>
    match compare a e.1 with
    | .lt => (a, n) :: e :: es
    | .eq => (e.1, n) :: es
    | .gt => e :: placeIn a n es

/-- The set with one network more, filed at its own address. -/
def place (s : NetworkSet) (n : Network) : NetworkSet := ⟨placeIn n.address n s.entries⟩

/-! ### Insertion -/

/-- What one step of an insertion leads to. -/
inductive Round where
  /-- The insertion is complete. -/
  | settled (s : NetworkSet)
  /-- A larger network is still to be inserted. -/
  | again (s : NetworkSet) (n : Network)
  deriving DecidableEq, Repr

/-- A network of the set covers the network: since the networks are disjoint, only the closest
one before can. -/
def Covers (s : NetworkSet) (n : Network) : Prop := ∃ m ∈ s.floor? n.address, m.Contains n

instance (s : NetworkSet) (n : Network) : Decidable (s.Covers n) :=
  inferInstanceAs (Decidable (∃ m ∈ s.floor? n.address, m.Contains n))

/-- The other half of the network, if the set has it. -/
def siblingIn? (s : NetworkSet) (n : Network) : Option Network := do
  let half ← n.sibling?
  if s.find? half.address = some half then some half else none

/-- Adds a network whose addresses are not in the set: with its other half, if the set has it,
it makes way for the network that both make up. -/
def join (s : NetworkSet) (n : Network) : Round :=
  match s.siblingIn? n with
  | none => .settled (s.place n)
  | some half =>
    match n.merge? half with
    | none => .settled ((s.erase half.address).place n)
    | some whole => .again (s.erase half.address) whole

/-- One step of an insertion. -/
def insertRound (s : NetworkSet) (n : Network) : Round :=
  if s.Covers n then .settled s
  else (s.eraseBetween n.address n.lastAddress).join n

/-- A step that is not the last one shortens the prefix. -/
theorem prefixLength_lt_of_insertRound {s t : NetworkSet} {m n : Network}
    (h : s.insertRound n = .again t m) : m.prefixLength < n.prefixLength := by
  unfold insertRound join at h
  split at h
  · exact absurd h nofun
  · split at h
    · exact absurd h nofun
    · split at h
      · exact absurd h nofun
      · next hm =>
        obtain ⟨-, rfl⟩ := Round.again.inj h
        have := Network.prefixLength_of_merge? hm
        omega

/-- Adds the addresses of a network to the set. -/
def insert (s : NetworkSet) (n : Network) : NetworkSet :=
  match _h : s.insertRound n with
  | .settled t => t
  | .again t m => t.insert m
termination_by n.prefixLength
decreasing_by exact prefixLength_lt_of_insertRound _h

/-- Adds the addresses of several networks, from the first one on. -/
def insertMany (s : NetworkSet) (ns : List Network) : NetworkSet := ns.foldl insert s

/-- The set of the addresses of several networks. -/
def ofList (ns : List Network) : NetworkSet := insertMany empty ns

end NetworkSet

/-- The fewest networks with the same addresses as the given ones, in order. -/
def Network.reduce (ns : List Network) : List Network := (NetworkSet.ofList ns).networks

end Cidr
