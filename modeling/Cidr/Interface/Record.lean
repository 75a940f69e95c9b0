import Cidr.Interface
import Cidr.Network.Record

/-!
# Records of interfaces

The record of an interface is its address, a prefix length and the record of a
network as plain data.  Nothing in it says that the network holds the address or
has that prefix length.

## Main definitions

* `Interface.Record`, `Interface.record` — the type, and the record of an
  interface.
* `Interface.Record.associate` — the one place where records of interfaces are
  made.
* `Interface.Record.ofAddress`, `Interface.Record.inNetwork`,
  `Interface.Record.host?` — the interfaces of an address and of a network.
-/

namespace Cidr

/-- An interface as plain data. -/
structure Interface.Record where
  /-- The address of the host. -/
  address : Address
  /-- The number of bits that the addresses of the network have in common. -/
  prefixLength : Nat
  /-- The record of the network. -/
  network : Network.Record
  deriving DecidableEq, Repr, Inhabited

namespace Interface

/-- The record of an interface. -/
def record (i : Interface) : Record := ⟨i.address, i.prefixLength, i.network.record⟩

namespace Record

open Failure

/-- The record of an address and a network that must hold it. -/
def associate (a : Address) (r : Network.Record) : Except Failure Record :=
  if r.Holds a then .ok ⟨a, r.prefixLength, r⟩
  else .error (.broken "address is not in its network")

/-- The interface of an address in the network around it with a given prefix length. -/
def ofAddress (a : Address) (k : Nat) : Except Failure Record := do
  let network ← Network.Record.containing a k
  associate a network

/-- The interface of an address in a network that must hold it. -/
def inNetwork (a : Address) (r : Network.Record) : Except Failure Record :=
  if r.Holds a then associate a r
  else .error (.refused (.outsideNetwork (toString a) (toString r)))

/-- Reads an interface: a host address with a prefix length. -/
def parse (s : String) : Except Failure Record := do
  let p ← ofExcept (Prefixed.parse s)
  ofAddress p.address p.prefixLength

/-- The interface of the host address at position `k`, counted from zero. -/
def host? (r : Network.Record) (k : Nat) : Except Failure (Option Record) := do
  let addresses ← r.hosts
  match Walk.item? k addresses with
  | some a => return some (← associate a r)
  | none => return none

end Record

end Interface

end Cidr
