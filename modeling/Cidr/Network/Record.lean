import Cidr.Failure
import Cidr.Network.Addresses
import Cidr.Network.Certificate
import Cidr.Network.Hierarchy
import Cidr.Network.Subnets
import Cidr.Wide.Guarded

/-!
# Records of networks

The record of a network is its address, its prefix length and its mask as plain
data.  Nothing in a record says that the three fit together.  The operations on
networks are done on records by looking at the three fields alone: an address is
tested by masking it with the mask that the record has, and a record is made by
masking an address with a new mask.  What is always there in the record of a
network is asked for where it is used, and its absence is a failure.

## Main definitions

* `Network.Record`, `Network.record` — the type, and the record of a network.
* `Network.Record.WellFormed` — the three fields fit together.
* `Network.Record.assemble` — the one place where records are made.
* `Network.Record.ofAddress`, `Network.Record.containing` — the records that
  begin at an address, and around any address.
* `Network.Record.merge?`, `Network.Record.sibling?`, … — the operations on
  networks, on records.
* `SubnetWalk.Record` — the subnets of a record that are still to come.
-/

namespace Cidr

/-- A network as plain data. -/
structure Network.Record where
  /-- The first address. -/
  address : Address
  /-- The number of bits that the addresses have in common. -/
  prefixLength : Nat
  /-- The mask of these bits. -/
  netmask : Address
  deriving DecidableEq, Repr, Inhabited

/-- The record of a network. -/
def Network.record (n : Network) : Network.Record := ⟨n.address, n.prefixLength, n.netmask⟩

/-- The subnets of a record that are still to come. -/
structure SubnetWalk.Record where
  /-- The record that comes next, unless all have been given out. -/
  upcoming : Option Network.Record
  /-- The last address of the last record. -/
  last : Address
  deriving DecidableEq, Repr

/-- The walk over the records of subnets. -/
def SubnetWalk.record (w : SubnetWalk) : SubnetWalk.Record :=
  ⟨w.upcoming.map Network.record, w.last⟩

namespace Network.Record

open Failure

/-- The family of the addresses. -/
def family (r : Record) : Family := r.address.family

/-- The address with the prefix length, as for networks. -/
instance : ToString Record where
  toString r := toString (Prefixed.mk r.address r.prefixLength)

/-- The fields fit together: the prefix is not longer than an address, the mask is the one for its
length, and masking the address with it changes nothing. -/
structure WellFormed (r : Record) : Prop where
  prefixLength_le : r.prefixLength ≤ r.family.bitWidth
  netmask_eq : Octets.netmask r.family.octetCount r.prefixLength = .ok r.netmask.octets
  and_netmask : r.address.and r.netmask = .ok r.address

/-! ### Construction -/

/-- The mask for a prefix length of an address. -/
def maskFor (a : Address) (k : Nat) : Except Error Address :=
  if a.family.bitWidth < k then .error (.lengthOutOfRange k a.family.bitWidth)
  else do Address.ofOctets (← Octets.netmask a.family.octetCount k)

/-- The record of three fields, the first of which the last one must leave as it is. -/
def assemble (a : Address) (k : Nat) (mask : Address) : Except Failure Record :=
  if (a.and mask).toOption = some a then .ok ⟨a, k, mask⟩
  else .error (.broken "address is not its own network address")

/-- The record of a prefix length around an address. -/
def containing (a : Address) (k : Nat) : Except Failure Record := do
  let mask ← ofExcept (maskFor a k)
  let masked ← ofExcept (a.clear mask)
  assemble masked.result k mask

/-- The record that begins at an address, of which the mask must not clear a bit. -/
def ofAddress (a : Address) (k : Nat) : Except Failure Record := do
  let mask ← ofExcept (maskFor a k)
  let masked ← ofExcept (a.clear mask)
  if masked.cleared = 0 then assemble masked.result k mask
  else .error (.refused (.hostBitsSet (toString (Prefixed.mk a k))))

theorem eq_of_assemble {a mask : Address} {k : Nat} {r : Record} (h : assemble a k mask = .ok r) :
    r = ⟨a, k, mask⟩ := by
  unfold assemble at h
  split at h
  · exact (Except.ok.inj h).symm
  · exact absurd h nofun

theorem of_ofAddress_eq_ok {a : Address} {k : Nat} {r : Record} (h : ofAddress a k = .ok r) :
    r.address = a ∧ r.prefixLength = k := by
  obtain ⟨mask, -, h⟩ := bind_eq_ok_iff.1 h
  obtain ⟨masked, hmasked, h⟩ := bind_eq_ok_iff.1 h
  split at h
  · next hzero =>
    obtain rfl := eq_of_assemble h
    exact ⟨(Address.cleared_eq_zero_iff (ofExcept_eq_ok_iff.1 hmasked)).1 hzero, rfl⟩
  · exact absurd h nofun

/-- Reads a record whose address has no bits after the prefix. -/
def parse (s : String) : Except Failure Record := do
  let p ← ofExcept (Prefixed.parse s)
  ofAddress p.address p.prefixLength

/-- Reads the record around any address. -/
def parseContaining (s : String) : Except Failure Record := do
  let p ← ofExcept (Prefixed.parse s)
  containing p.address p.prefixLength

/-- The record of an address and a mask, which must be contiguous. -/
def ofMaskedOctets (address mask : Octets) : Except Failure Record := do
  let k ← ofExcept (Octets.netmaskLength mask)
  let a ← ofExcept (Address.ofOctets address)
  containing a k

/-- The record that octets name. -/
def ofCertificateOctets (a : Octets) : Except Failure Record :=
  if a.length = 4 ∨ a.length = 16 then do
    let address ← ofExcept (Address.ofOctets a)
    ofAddress address address.family.bitWidth
  else if a.length = 8 ∨ a.length = 32 then
    ofMaskedOctets (a.take (a.length / 2)) (a.drop (a.length / 2))
  else .error (.refused (.octetCount a.length))

/-! ### Parts -/

/-- The mask of the bits after the prefix. -/
def hostMask (r : Record) : Address := r.netmask.complement

/-- The number of bits after the prefix. -/
def hostBits (r : Record) : Except Failure Nat := difference r.family.bitWidth r.prefixLength

/-- The number of addresses. -/
def size (r : Record) : Except Failure Wide := do
  let bits ← r.hostBits
  Wide.twoPowGuarded r.family bits

/-- The last address: all bits after the prefix are ones. -/
def lastAddress (r : Record) : Except Failure Address :=
  require "address and host mask share a family" (r.address.or r.hostMask).toOption

/-- The first address is not greater than the last one. -/
theorem toNat_address_le {r : Record} {a : Address} (h : r.lastAddress = .ok a) :
    r.address.toNat ≤ a.toNat := by
  unfold lastAddress Address.or Address.combine at h
  split at h
  · next hf =>
    obtain rfl := Except.ok.inj h
    exact Octets.toNat_le_zipWith_or (by
      rw [r.address.length_octets, r.hostMask.length_octets, hf])
  · cases h

/-- The IPv4 address that reaches all hosts; records of one or two addresses have none. -/
def broadcast? (r : Record) : Except Failure (Option Address) :=
  if r.family = .v4 ∧ r.prefixLength < 31 then do return some (← r.lastAddress)
  else return none

/-- All addresses, in order. -/
def addresses (r : Record) : Except Failure AddressWalk := do
  let last ← r.lastAddress
  return .between r.address last

/-- The first address that is given to a host. -/
def firstHost (r : Record) : Except Failure Address := do
  let bits ← r.hostBits
  if r.family = .v4 ∧ 1 < bits then require "block has more than two addresses" r.address.succ?
  else return r.address

/-- The last address that is given to a host. -/
def lastHost (r : Record) : Except Failure Address := do
  let last ← r.lastAddress
  let bits ← r.hostBits
  if r.family = .v4 ∧ 1 < bits then require "block has more than two addresses" last.pred?
  else return last

/-- The addresses that can be assigned to hosts. -/
def hosts (r : Record) : Except Failure AddressWalk := do
  let bits ← r.hostBits
  let first ←
    if bits ≤ 1 then pure r.address
    else require "block has more than two addresses" r.address.succ?
  let last ← r.lastHost
  return .between first last

/-! ### Order -/

/-- The address comes first, then the prefix length, then the mask. -/
instance : Ord Record where
  compare m n := (compare m.address n.address).then
    ((compare m.prefixLength n.prefixLength).then (compare m.netmask n.netmask))

instance : LT Record := ltOfOrd

instance : LE Record := leOfOrd

/-- The record that comes first in the order. -/
def lower (m n : Record) : Record := if m < n then m else n

/-- The record that comes last in the order. -/
def upper (m n : Record) : Record := if m < n then n else m

/-! ### Relations -/

/-- Masking the address with the mask of the record gives the address of the record. -/
def Holds (r : Record) (a : Address) : Prop := (a.and r.netmask).toOption = some r.address

instance (r : Record) (a : Address) : Decidable (r.Holds a) :=
  inferInstanceAs (Decidable (_ = _))

/-- The prefix of `m` is a prefix of that of `n`. -/
def Contains (m n : Record) : Prop := m.prefixLength ≤ n.prefixLength ∧ m.Holds n.address

instance (m n : Record) : Decidable (m.Contains n) := inferInstanceAs (Decidable (_ ∧ _))

/-- One record contains the other. -/
def Overlaps (m n : Record) : Prop := m.Contains n ∨ n.Contains m

instance (m n : Record) : Decidable (m.Overlaps n) := inferInstanceAs (Decidable (_ ∨ _))

/-- The smaller one of two records that overlap. -/
def intersection? (m n : Record) : Option Record :=
  if m.Contains n then some n else if n.Contains m then some m else none

/-- One record begins right after the other one ends. -/
def isAdjacentTo (m n : Record) : Except Failure Bool :=
  if m.family ≠ n.family ∨ m.Overlaps n then return false
  else do
    let last ← (lower m n).lastAddress
    return decide (last.succ? = some (upper m n).address)

/-- The records are the two halves of one with a prefix one bit shorter. -/
def canMergeWith (m n : Record) : Except Failure Bool :=
  if m.prefixLength ≠ n.prefixLength ∨ m.prefixLength = 0 then return false
  else do
    if ← m.isAdjacentTo n then
      let k ← difference m.prefixLength 1
      let low := (lower m n).address
      return decide ((low.clearAfter k).toOption.map Masked.result = some low)
    else return false

/-- The record that two halves make up. -/
def merge? (m n : Record) : Except Failure (Option Record) := do
  if ← m.canMergeWith n then
    let k ← difference m.prefixLength 1
    accepted? (ofAddress (lower m n).address k)
  else return none

/-- Merging shortens the prefix. -/
theorem prefixLength_lt_of_merge? {m n r : Record} (h : m.merge? n = .ok (some r)) :
    r.prefixLength < m.prefixLength := by
  obtain ⟨b, -, h⟩ := bind_eq_ok_iff.1 h
  cases b with
  | false => exact absurd (Except.ok.inj h) nofun
  | true =>
    obtain ⟨k, hk, h⟩ := bind_eq_ok_iff.1 h
    obtain ⟨hle, rfl⟩ := difference_eq_ok_iff.1 hk
    rw [(of_ofAddress_eq_ok (accepted?_eq_ok_some_iff.1 h)).2]
    omega

/-! ### The tree of records -/

/-- The record with a prefix one bit shorter. -/
def supernet? (r : Record) : Except Failure (Option Record) :=
  if r.prefixLength = 0 then return none
  else do
    let k ← difference r.prefixLength 1
    accepted? (containing r.address k)

/-- The record of a prefix length that begins at an address, if there is that address. -/
def beginning? (start? : Option Address) (k : Nat) : Except Failure (Option Record) :=
  match start? with
  | some a => accepted? (ofAddress a k)
  | none => return none

/-- The other half of the supernet. -/
def sibling? (r : Record) : Except Failure (Option Record) := do
  match ← r.supernet? with
  | some parent =>
    if parent.address = r.address then
      let last ← r.lastAddress
      beginning? last.succ? r.prefixLength
    else beginning? (some parent.address) r.prefixLength
  | none => return none

/-- The record around this one with a prefix of `k` bits. -/
def supernetTo (r : Record) (k : Nat) : Except Failure Record :=
  if r.prefixLength < k then .error (.refused (.wrongDirection r.prefixLength k))
  else containing r.address k

/-- The subnets with a prefix of `k` bits. -/
def subnets (r : Record) (k : Nat) : Except Failure SubnetWalk.Record :=
  if k < r.prefixLength then .error (.refused (.wrongDirection r.prefixLength k))
  else do
    let first ← ofAddress r.address k
    let last ← r.lastAddress
    return ⟨some first, last⟩

end Network.Record

namespace SubnetWalk.Record

/-- The next record, and the walk from there on. -/
def next? (w : Record) : Except Failure (Option (Network.Record × Record)) :=
  match w.upcoming with
  | some r => do
    let last ← r.lastAddress
    let upcoming ←
      if last = w.last then pure none else Network.Record.beginning? last.succ? r.prefixLength
    return some (r, { w with upcoming })
  | none => return none

/-- The record at position `k`, counted from zero. -/
def item? : (k : Nat) → Record → Except Failure (Option Network.Record)
  | 0, w => do return (← w.next?).map Prod.fst
  | k + 1, w => do
    match ← w.next? with
    | some (_, rest) => rest.item? k
    | none => return none

end SubnetWalk.Record

end Cidr
