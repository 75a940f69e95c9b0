/-!
# Reasons for rejecting input

Every operation that can refuse its input answers with an `Error`, a value that
names the cause.  Overflow is not an error: bounded arithmetic answers `none`.

## Main definitions

* `Error` — the causes.
* `Error.message` — the text shown for each cause.
-/

namespace Cidr

/-- Why an input is refused. -/
inductive Error where
  /-- The text is not an address. -/
  | notAddress (text : String)
  /-- The text does not describe a network. -/
  | notNetwork (text : String)
  /-- The text after the slash is neither a length nor a mask. -/
  | notPrefixLength (text : String)
  /-- The prefix length exceeds the number of bits there are. -/
  | lengthOutOfRange (length bound : Nat)
  /-- A subnet was asked for with a shorter length, or a supernet with a longer one. -/
  | wrongDirection (source target : Nat)
  /-- A one follows a zero in the mask. -/
  | maskNotContiguous
  /-- The operands have different numbers of octets. -/
  | sizesDiffer (left right : Nat)
  /-- No value of the wanted kind has this many octets. -/
  | octetCount (count : Nat)
  /-- The address of the network, written as `address/length`, has bits set below its prefix. -/
  | hostBitsSet (network : String)
  /-- The address does not belong to the network. -/
  | outsideNetwork (address network : String)
  /-- One operand is IPv4 and the other IPv6. -/
  | familiesDiffer
  /-- The shift exceeds the largest one the width allows. -/
  | shiftOutOfRange (shift bound : Nat)
  deriving DecidableEq, Repr, Inhabited

/-- The text shown for an error. -/
def Error.message : Error → String
  | notAddress text => s!"Invalid IP address: {text}"
  | notNetwork text => s!"Invalid IP network: {text}"
  | notPrefixLength text => s!"Invalid prefix: {text}"
  | lengthOutOfRange length bound => s!"Prefix {length} should equal or less than {bound}"
  | wrongDirection source target => s!"Cannot go from /{source} to /{target} in this direction"
  | maskNotContiguous => "Netmask is not contiguous"
  | sizesDiffer left right => s!"Operand lengths differ: {left} vs {right}"
  | octetCount count => s!"Invalid byte length: {count}"
  | hostBitsSet network => s!"{network} has host bits set"
  | outsideNetwork address network => s!"{address} is outside network {network}"
  | familiesDiffer => "Address families differ"
  | shiftOutOfRange shift bound => s!"Shift {shift} out of range 0..={bound}"

instance : ToString Error := ⟨Error.message⟩

end Cidr
