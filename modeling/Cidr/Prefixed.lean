import Cidr.Address.Parser

/-!
# Addresses with a prefix length

Networks and interfaces are both written as an address, a slash and a prefix
length.  When reading, the length may be missing, which means the full width of
the address; after an IPv4 address it may also be a mask.

## Main definitions

* `Prefixed` — an address with a prefix length.
* `Prefixed.canonical`, `Prefixed.expanded` — the written forms.
* `Prefixed.readLength` — reads what follows the slash.
* `Prefixed.parse` — reads an address with a prefix length.
-/

namespace Cidr

/-- An address with a prefix length, which may be out of range. -/
structure Prefixed where
  /-- The address. -/
  address : Address
  /-- The prefix length. -/
  prefixLength : Nat
  deriving DecidableEq, Repr, Inhabited

namespace Prefixed

/-! ### Written forms -/

/-- A written address followed by a written length. -/
def slashed (address : List Char) (length : Nat) : List Char :=
  address ++ '/' :: Decimal.digits length

/-- The characters of the canonical text. -/
def canonical (p : Prefixed) : List Char := slashed p.address.canonical p.prefixLength

instance : ToString Prefixed where
  toString p := String.ofList p.canonical

/-- The text with every segment of the address at full width. -/
def expanded (p : Prefixed) : String :=
  String.ofList (slashed p.address.expandedChars p.prefixLength)

/-! ### Reading -/

/-- One more than the greatest number that is taken for a length. -/
def lengthLimit : Nat := UInt32.size

/-- The number of ones of a mask in which they stand first, or else the number of zeros of a host
mask, in which those stand first. -/
def maskLength (mask : Octets) : Except Error Nat :=
  match Octets.netmaskLength mask with
  | .ok k => .ok k
  | .error _ => Octets.netmaskLength mask.complement

/-- Reads what follows the slash: a number, or after an IPv4 address a text with a point that is
an address of either family and serves as a mask. -/
def readLength (f : Family) (s : List Char) : Except Error Nat :=
  match Decimal.value? s with
  | some k =>
    if lengthLimit ≤ k then .error (.notPrefixLength (String.ofList s))
    else if f.bitWidth < k then .error (.lengthOutOfRange k f.bitWidth)
    else .ok k
  | none =>
    match if f = .v4 ∧ '.' ∈ s then Address.read? s else none with
    | some mask => maskLength mask.octets
    | none => .error (.notPrefixLength (String.ofList s))

/-- The text before the first slash. -/
def addressPart (s : List Char) : List Char := s.takeWhile (· ≠ '/')

/-- The text after the first slash, if there is one. -/
def lengthPart? (s : List Char) : Option (List Char) := (s.dropWhile (· ≠ '/')).tail?

/-- Reads an address with a prefix length.  The address is read first. -/
def parse (s : String) : Except Error Prefixed := do
  let address ← Address.parse (String.ofList (addressPart s.toList))
  match lengthPart? s.toList with
  | some length => return ⟨address, ← readLength address.family length⟩
  | none => return ⟨address, address.family.bitWidth⟩

end Prefixed

end Cidr
