import Cidr.Address.GuardedParser
import Cidr.Network.History
import Cidr.Purpose

/-!
# What it means that no guard fails

Each part of the library has operations that look at everything they take, put,
count and move.  No guard fails if such an operation always gives what the plain one
gives, which looks at nothing, or refuses the same inputs for the same causes.  This
is asked here of octets, wide numbers, addresses and their texts for all inputs, and
of networks, interfaces and sets for their records.

## Main definitions

* `Prefixed.parseGuarded` — reads an address with a prefix length.
* `Network.Record.ofCertificateOctetsGuarded` — the record that octets name.
* `NetworkSet.Record.blockAtGuarded` — the largest record at the beginning of an
  interval.
* `Octets.Unfailing` — no guard fails on any input, or in masking on one that is short
  enough.
* `UInt33.Unfailing`, `UInt129.Unfailing`, `Wide.Unfailing`, `Address.Unfailing` — no
  guard fails on any input.
* `Network.Unfailing`, `Network.UnfailingWith` — none fails on the record of a
  network, or on those of two.
* `Network.Record.Unfailing`, `Interface.Record.Unfailing`,
  `NetworkSet.Record.Unfailing` — none fails where records and sets are made.
-/

namespace Cidr

open Failure

/-! ### Addresses with a prefix length -/

namespace Prefixed

/-- The number of ones of a mask in which they stand first, or else the number of zeros of a host
mask, in which those stand first. -/
def maskLengthGuarded (mask : Octets) : Except Failure Nat := do
  match ← accepted? (Octets.netmaskLengthGuarded mask) with
  | some k => return k
  | none => Octets.netmaskLengthGuarded mask.complement

/-- Reads what follows the slash.  A number within the width is kept in an octet. -/
def readLengthGuarded (f : Family) (s : List Char) : Except Failure Nat :=
  match Decimal.value? s with
  | some k =>
    if lengthLimit ≤ k then .error (.refused (.notPrefixLength (String.ofList s)))
    else if f.bitWidth < k then .error (.refused (.lengthOutOfRange k f.bitWidth))
    else octet k
  | none =>
    if f = .v4 ∧ '.' ∈ s then do
      match ← accepted? (Address.parseGuarded (String.ofList s)) with
      | some mask => maskLengthGuarded mask.octets
      | none => .error (.refused (.notPrefixLength (String.ofList s)))
    else .error (.refused (.notPrefixLength (String.ofList s)))

/-- Reads an address with a prefix length.  The address is read first. -/
def parseGuarded (s : String) : Except Failure Prefixed := do
  let address ← Address.parseGuarded (String.ofList (addressPart s.toList))
  match lengthPart? s.toList with
  | some length => return ⟨address, ← readLengthGuarded address.family length⟩
  | none => return ⟨address, address.family.bitWidth⟩

end Prefixed

/-! ### Certificates -/

/-- The record that octets name, of which the first half are those of the address. -/
def Network.Record.ofCertificateOctetsGuarded (a : Octets) : Except Failure Record :=
  if a.length = 4 ∨ a.length = 16 then do
    let address ← Address.ofOctetsGuarded a
    ofAddress address address.family.bitWidth
  else if a.length = 8 ∨ a.length = 32 then do
    let address ← slice a 0 (a.length / 2)
    let mask ← slice a (a.length / 2) a.length
    let k ← Octets.netmaskLengthGuarded mask
    containing (← Address.ofOctetsGuarded address) k
  else .error (.refused (.octetCount a.length))

/-! ### Intervals -/

/-- The number of addresses from `first` to `last`. -/
def Network.spanGuarded (first last : Address) : Except Failure (Option Wide) := do
  match ← last.toWide.subGuarded first.toWide with
  | some d => d.addGuarded (.one first.family)
  | none => return none

/-- The largest record that begins at `first` and ends at `last` or before. -/
def NetworkSet.Record.blockAtGuarded (first last : Address) : Except Failure Network.Record := do
  let span ← accept (.notNetwork s!"{first} - {last}") (← Network.spanGuarded first last)
  let width := first.family.bitWidth
  let bits ← difference (← span.bitLengthGuarded) 1
  let k ← octet (← difference width (min (min first.toWide.trailingZeros width) bits))
  Network.Record.ofAddress first k

/-! ### Plain values -/

/-- No guard on octets fails.  Of masking this is asked where all bits of the target can be counted
in 32 bits. -/
structure Octets.Unfailing : Prop where
  netmask : ∀ count k, netmaskGuarded count k = ofExcept (Octets.netmask count k)
  netmaskLength : ∀ mask, netmaskLengthGuarded mask = ofExcept (Octets.netmaskLength mask)
  clear : ∀ target mask : Octets, 8 * target.length < UInt32.size →
    target.clearGuarded mask = ofExcept (target.clear mask)
  compare : ∀ a b : Octets, a.compareGuarded b = .ok (a.compareUnsigned b)

/-- No guard on numbers of 33 bits fails. -/
structure UInt33.Unfailing : Prop where
  add : ∀ x y : UInt33, x.addGuarded y = .ok (x.add? y)
  shiftLeft : ∀ (x : UInt33) n, x.shiftLeftGuarded n = ofExcept (x.shiftLeft n)
  shiftRight : ∀ (x : UInt33) n, x.shiftRightGuarded n = ofExcept (x.shiftRight n)
  bitLength : ∀ x : UInt33, x.bitLengthGuarded = .ok x.bitLength
  ofOctets : ∀ a, ofOctetsGuarded a = ofExcept (UInt33.ofOctets a)

/-- No guard on numbers of 129 bits fails. -/
structure UInt129.Unfailing : Prop where
  add : ∀ x y : UInt129, x.addGuarded y = .ok (x.add? y)
  sub : ∀ x y : UInt129, x.subGuarded y = .ok (x.sub? y)
  shiftLeft : ∀ (x : UInt129) n, x.shiftLeftGuarded n = ofExcept (x.shiftLeft n)
  shiftRight : ∀ (x : UInt129) n, x.shiftRightGuarded n = ofExcept (x.shiftRight n)
  bitLength : ∀ x : UInt129, x.bitLengthGuarded = .ok x.bitLength
  ofOctets : ∀ a, ofOctetsGuarded a = ofExcept (UInt129.ofOctets a)
  digits : ∀ x : UInt129, x.digitsGuarded = .ok x.digits

/-- No guard on wide numbers fails. -/
structure Wide.Unfailing : Prop where
  add : ∀ x y : Wide, x.addGuarded y = .ok (x.add? y)
  sub : ∀ x y : Wide, x.subGuarded y = .ok (x.sub? y)
  shiftLeft : ∀ (x : Wide) n, x.shiftLeftGuarded n = ofExcept (x.shiftLeft n)
  shiftRight : ∀ (x : Wide) n, x.shiftRightGuarded n = ofExcept (x.shiftRight n)
  bitLength : ∀ x : Wide, x.bitLengthGuarded = .ok x.bitLength
  ofOctets : ∀ f a, ofOctetsGuarded f a = ofExcept (Wide.ofOctets f a)

/-- No guard on addresses and their texts fails. -/
structure Address.Unfailing : Prop where
  ofOctets : ∀ a, ofOctetsGuarded a = ofExcept (Address.ofOctets a)
  netmask : ∀ f k, netmaskGuarded f k = ofExcept (Address.netmask f k)
  clear : ∀ a mask : Address, a.clearGuarded mask = ofExcept (a.clear mask)
  compare : ∀ a b : Address, a.compareGuarded b = .ok (Ord.compare a b)
  add : ∀ (a : Address) n, a.addGuarded n = .ok (a.add? n)
  sub : ∀ (a : Address) n, a.subGuarded n = .ok (a.sub? n)
  shiftLeft : ∀ (a : Address) n, a.shiftLeftGuarded n = ofExcept (a.shiftLeft n)
  shiftRight : ∀ (a : Address) n, a.shiftRightGuarded n = ofExcept (a.shiftRight n)
  isIPv4Mapped : ∀ a : Address, a.isIPv4MappedGuarded = .ok (decide a.IsIPv4Mapped)
  embeddedIPv4 : ∀ a : Address, a.embeddedIPv4Guarded = .ok a.embeddedIPv4?
  toIPv6 : ∀ a : Address, a.toIPv6Guarded = .ok a.toIPv6
  canonical : ∀ a : Address, a.canonicalGuarded = .ok a.canonical
  expanded : ∀ a : Address, a.expandedGuarded = .ok a.expandedChars
  parse : ∀ s, parseGuarded s = ofExcept (Address.parse s)
  parsePrefixed : ∀ s, Prefixed.parseGuarded s = ofExcept (Prefixed.parse s)

/-! ### Records -/

/-- Wherever a record is made, it is assembled of fields that fit together. -/
structure Network.Record.Unfailing : Prop where
  ofAddress : ∀ a k, Record.ofAddress a k = ofExcept ((Network.ofAddress a k).map record)
  containing : ∀ a k, Record.containing a k = ofExcept ((Network.containing a k).map record)
  parse : ∀ s, Record.parse s = ofExcept ((Network.parse s).map record)
  parseContaining : ∀ s,
    Record.parseContaining s = ofExcept ((Network.parseContaining s).map record)
  ofCertificateOctets : ∀ a,
    ofCertificateOctetsGuarded a = ofExcept ((Network.ofCertificateOctets a).map record)
  /-- The networks that are set aside can be read. -/
  texts : ∀ p f, (Purpose.texts p f).mapM Record.parse = .ok ((p.networks f).map record)

/-- No guard fails on the record of the network. -/
structure Network.Unfailing (n : Network) : Prop where
  hostBits : n.record.hostBits = .ok n.hostBits
  size : n.record.size = .ok n.size
  lastAddress : n.record.lastAddress = .ok n.lastAddress
  broadcast : n.record.broadcast? = .ok n.broadcast?
  addresses : n.record.addresses = .ok n.addresses
  firstHost : n.record.firstHost = .ok n.firstHost
  lastHost : n.record.lastHost = .ok n.lastHost
  hosts : n.record.hosts = .ok n.hosts
  supernet : n.record.supernet? = .ok (n.supernet?.map record)
  sibling : n.record.sibling? = .ok (n.sibling?.map record)
  supernetTo : ∀ k, n.record.supernetTo k = ofExcept ((n.supernetTo k).map record)
  subnets : ∀ k, n.record.subnets k = ofExcept ((n.subnets k).map SubnetWalk.record)
  subnet : ∀ k position, (do (← n.record.subnets k).item? position) =
    ofExcept ((n.subnets k).map fun w => (Walk.item? position w).map record)

/-- No guard fails on the records of both networks. -/
structure Network.UnfailingWith (m n : Network) : Prop where
  isAdjacentTo : m.record.isAdjacentTo n.record = .ok (decide (m.IsAdjacentTo n))
  canMergeWith : m.record.canMergeWith n.record = .ok (decide (m.CanMergeWith n))
  merge : m.record.merge? n.record = .ok ((m.merge? n).map record)
  exclude : m.record.exclude n.record = .ok ((m.exclude n).map record)

/-- Wherever the record of an interface is made, the network holds the address. -/
structure Interface.Record.Unfailing : Prop where
  ofAddress : ∀ a k, Record.ofAddress a k = ofExcept ((Interface.ofAddress a k).map record)
  parse : ∀ s, Record.parse s = ofExcept ((Interface.parse s).map record)
  inNetwork : ∀ a (n : Network),
    Record.inNetwork a n.record = ofExcept ((Interface.inNetwork a n).map record)
  host : ∀ (n : Network) position,
    Record.host? n.record position = .ok ((Walk.item? position (hosts n)).map record)

/-- No guard on sets fails: no range ends before it begins, and no block is empty. -/
structure NetworkSet.Record.Unfailing : Prop where
  insert : ∀ (s : NetworkSet) n, s.record.insert n.record = .ok (s.insert n).record
  insertMany : ∀ (s : NetworkSet) ns,
    s.record.insertMany (ns.map Network.record) = .ok (s.insertMany ns).record
  blockAt : ∀ first last,
    blockAtGuarded first last = ofExcept ((Network.blockAt first last).map Network.record)
  ofInterval : ∀ first last,
    Record.ofInterval first last = ofExcept ((NetworkSet.ofInterval first last).map record)

end Cidr
