import Cidr.Network.History

/-!
# How interfaces come about

The record of an interface is made in one of four ways: around an address, in a
network that has come about, as a host of such a network, or from a text.  Only
the first and the last of them make a network of their own.

## Main definitions

* `Interface.Record.Obtained` — the records of interfaces that come about.
-/

namespace Cidr.Interface.Record

/-- The record of an interface comes about.  The networks that it may be put in are those that come
about themselves. -/
inductive Obtained : Record → Prop
  /-- The network is put around the address. -/
  | ofAddress {a : Address} {k : Nat} {i : Record} (h : Record.ofAddress a k = .ok i) : Obtained i
  /-- The address is put in a network. -/
  | inNetwork {a : Address} {r : Network.Record} {i : Record} (hr : r.Reachable)
      (h : Record.inNetwork a r = .ok i) : Obtained i
  /-- The network gives out the address as one for hosts. -/
  | host {r : Network.Record} {position : Nat} {i : Record} (hr : r.Reachable)
      (h : Record.host? r position = .ok (some i)) : Obtained i
  /-- A text is read. -/
  | parse {s : String} {i : Record} (h : Record.parse s = .ok i) : Obtained i

end Cidr.Interface.Record
