import Cidr.Address.Arithmetic
import Cidr.Address.ZeroRun
import Cidr.Octets.Guarded
import Cidr.Wide.Guarded

/-!
# Guarded work on addresses

Octets are copied into an address, taken out of it one by one, and written around the
run of zeros that a text leaves out.  Sums, differences and shifts are those of wide
numbers.  Each access and each copy is looked at when it comes up.

## Main definitions

* `Address.ofOctetsGuarded`, `Address.netmaskGuarded`, `Address.clearGuarded` — ways
  to make an address.
* `Address.addGuarded`, `Address.subGuarded`, `Address.shiftLeftGuarded`,
  `Address.shiftRightGuarded` — arithmetic.
* `Address.embeddedIPv4Guarded`, `Address.toIPv6Guarded` — IPv4 inside IPv6.
* `Address.canonicalGuarded`, `Address.expandedGuarded` — the written forms.
-/

namespace Cidr.Address

open Failure

/-! ### Octets -/

/-- The address that the octets stand for.  They are copied into as many as its family asks for. -/
def ofOctetsGuarded (a : Octets) : Except Failure Address :=
  match Family.ofOctetCount? a.length with
  | some f =>
    require "lengths of a copy differ"
      (if h : a.length = f.octetCount then some ⟨f, a, h⟩ else none)
  | none => .error (.refused (.octetCount a.length))

/-- The mask for a prefix length of a family. -/
def netmaskGuarded (f : Family) (k : Nat) : Except Failure Address := do
  ofOctetsGuarded (← Octets.netmaskGuarded f.octetCount k)

/-- Keeps the bits of an address that are set in a mask of the same family. -/
def clearGuarded (a mask : Address) : Except Failure (Masked Address) :=
  if h : a.family = mask.family then do
    let left ← a.octets.clearGuarded mask.octets
    return ⟨zipOctets (· &&& ·) a mask h, left.cleared⟩
  else .error (.refused .familiesDiffer)

/-- Compares addresses: the families decide first, and then the numbers. -/
def compareGuarded (a b : Address) : Except Failure Ordering :=
  match compare a.family b.family with
  | .eq => a.octets.compareGuarded b.octets
  | o => return o

/-! ### Arithmetic -/

/-- The address with a given number, if it does not need the extra bit. -/
def ofWideGuarded (x : Wide) : Except Failure (Option Address) :=
  if x.octets.length = x.family.octetCount then accepted? (ofOctetsGuarded x.octets)
  else return none

/-- The address whose number comes out of an operation on that of another one and on a count. -/
def moveGuarded (op : Wide → Wide → Except Failure (Option Wide)) (a : Address) (n : Nat) :
    Except Failure (Option Address) :=
  match Wide.ofNat? a.family n with
  | some count => do
    match ← op a.toWide count with
    | some x => ofWideGuarded x
    | none => return none
  | none => return none

/-- The address `n` places on, if there is one. -/
def addGuarded : Address → Nat → Except Failure (Option Address) := moveGuarded Wide.addGuarded

/-- The address `n` places back, if there is one. -/
def subGuarded : Address → Nat → Except Failure (Option Address) := moveGuarded Wide.subGuarded

/-- The bits moved up by `n` places; those above the width are lost. -/
def shiftLeftGuarded (a : Address) (n : Nat) : Except Failure Address := do
  return ofLow (← a.toWide.shiftLeftGuarded n)

/-- The bits moved down by `n` places. -/
def shiftRightGuarded (a : Address) (n : Nat) : Except Failure Address := do
  return ofLow (← a.toWide.shiftRightGuarded n)

/-! ### IPv4 inside IPv6 -/

/-- Four octets from a position on. -/
def fourGuarded (a : Octets) (start : Nat) : Except Failure Octets := do
  return [← item a start, ← item a (start + 1), ← item a (start + 2), ← item a (start + 3)]

/-- Whether the address is the counterpart of an IPv4 address. -/
def isIPv4MappedGuarded (a : Address) : Except Failure Bool :=
  match a.family with
  | .v4 => return false
  | .v6 => do
    let zeros ← slice a.octets 0 10
    let b ← item a.octets 10
    let c ← item a.octets 11
    return zeros.all (· = 0) && (b = 0xFF && c = 0xFF)

/-- The IPv4 address that an IPv6 counterpart holds. -/
def embeddedIPv4Guarded (a : Address) : Except Failure (Option Address) := do
  if ← a.isIPv4MappedGuarded then return some (← ofOctetsGuarded (← fourGuarded a.octets 12))
  else return none

/-- The counterpart of an IPv4 address; an IPv6 address stays as it is. -/
def toIPv6Guarded (a : Address) : Except Failure Address :=
  match a.family with
  | .v4 => do
    let out ← overwrite (List.replicate 16 0) 10 [0xFF]
    let out ← overwrite out 11 [0xFF]
    let out ← overwrite out 12 (← sized 4 a.octets)
    ofOctetsGuarded out
  | .v6 => return a

/-! ### Written forms -/

/-- Hextets in hexadecimal, where two colons stand for the run of zeros that a single pass finds. -/
def compressedGuarded (hs : List UInt16) : Except Failure (List Char) :=
  let run := ZeroRun.scan hs
  if run.length < 2 then return groups hs
  else do
    let head ← slice hs 0 run.start
    let tail ← slice hs (run.start + run.length) hs.length
    return groups head ++ ':' :: ':' :: groups tail

/-- The characters of the canonical text. -/
def canonicalGuarded (a : Address) : Except Failure (List Char) :=
  match a.family with
  | .v4 => do return dotted (← fourGuarded a.octets 0)
  | .v6 => do
    if ← a.isIPv4MappedGuarded then return "::ffff:".toList ++ dotted (← fourGuarded a.octets 12)
    else compressedGuarded (← a.octets.hextetsGuarded)

/-- The characters of the text with every segment at full width. -/
def expandedGuarded (a : Address) : Except Failure (List Char) :=
  match a.family with
  | .v4 => a.canonicalGuarded
  | .v6 => do
    let hs ← a.octets.hextetsGuarded
    return [':'].intercalate (hs.map fun h => (Hex.digits h.toNat).leftpad 4 '0')

end Cidr.Address
