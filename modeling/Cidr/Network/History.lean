import Cidr.Interface.Record
import Cidr.NetworkSet.Record

/-!
# Histories of records

Records come about one after the other, made of addresses, texts and octets, or
of records that came about before.  An operation whose input is refused adds no
record, and neither does one that is asked for with a record that has not come
about.  If something is missing that is there for the records of networks, the
history fails.

## Main definitions

* `NetworkSet.Record.Operation`, `NetworkSet.Record.run` — the changes of a set
  of records, and a sequence of them.
* `Network.Record.Operation`, `Network.Record.Operation.results` — the operations
  that give records, and what they give.
* `Network.Record.step`, `Network.Record.run` — the records after one operation
  more, and after a sequence of them.
* `Network.Record.Reachable` — coming about in some history.
-/

namespace Cidr

/-! ### Sets of records -/

namespace NetworkSet.Record

/-- A change of a set of records. -/
inductive Operation where
  /-- Adds a record. -/
  | insert (r : Network.Record)
  /-- Adds records, from the first one on. -/
  | extend (rs : List Network.Record)
  /-- Starts anew from the records. -/
  | collect (rs : List Network.Record)
  /-- Starts anew from the addresses of an interval. -/
  | replaceByInterval (first last : Address)
  /-- Adds the records that make up an interval. -/
  | extendByInterval (first last : Address)
  deriving DecidableEq, Repr

namespace Operation

/-- The records that an operation is asked for with. -/
def operands : Operation → List Network.Record
  | insert r => [r]
  | extend rs => rs
  | collect rs => rs
  | replaceByInterval _ _ => []
  | extendByInterval _ _ => []

/-- The set after an operation. -/
def apply (s : Record) : Operation → Except Failure Record
  | insert r => s.insert r
  | extend rs => s.insertMany rs
  | collect rs => empty.insertMany rs
  | replaceByInterval first last => ofInterval first last
  | extendByInterval first last => do
    let t ← ofInterval first last
    s.insertMany t.networks

end Operation

/-- The set after one operation more; one whose input is refused changes nothing. -/
def step (s : Record) (op : Operation) : Except Failure Record := do
  let t? ← Failure.accepted? (op.apply s)
  return t?.getD s

/-- The set after a sequence of operations. -/
def run (s : Record) (ops : List Operation) : Except Failure Record := ops.foldlM step s

end NetworkSet.Record

/-! ### Records -/

namespace Network.Record

/-- An operation that gives records. -/
inductive Operation where
  /-- The record that begins at an address. -/
  | ofAddress (a : Address) (k : Nat)
  /-- The record around an address. -/
  | containing (a : Address) (k : Nat)
  /-- Reads the record that begins at an address. -/
  | parse (s : String)
  /-- Reads the record around an address. -/
  | parseContaining (s : String)
  /-- The record that octets name. -/
  | ofCertificateOctets (a : Octets)
  /-- The record with a prefix one bit shorter. -/
  | supernet (r : Record)
  /-- The other half of the supernet. -/
  | sibling (r : Record)
  /-- The record around another one. -/
  | supernetTo (r : Record) (k : Nat)
  /-- The subnet at a position. -/
  | subnet (r : Record) (k position : Nat)
  /-- The record that two halves make up. -/
  | merge (m n : Record)
  /-- The smaller one of two records that overlap. -/
  | intersection (m n : Record)
  /-- The records with the addresses of one that are not in the other. -/
  | exclude (m n : Record)
  /-- The network of the interface of an address. -/
  | ofInterface (a : Address) (k : Nat)
  /-- The network of an interface that is read. -/
  | ofParsedInterface (s : String)
  /-- The network of an interface in a record. -/
  | ofInterfaceIn (a : Address) (r : Record)
  /-- The network of the interface of a host at a position. -/
  | ofHost (r : Record) (position : Nat)
  /-- The records of a set with a history of its own. -/
  | ofSet (ops : List NetworkSet.Record.Operation)
  deriving DecidableEq, Repr

namespace Operation

/-- The records that an operation is asked for with. -/
def operands : Operation → List Record
  | ofAddress _ _ => []
  | containing _ _ => []
  | parse _ => []
  | parseContaining _ => []
  | ofCertificateOctets _ => []
  | supernet r => [r]
  | sibling r => [r]
  | supernetTo r _ => [r]
  | subnet r _ _ => [r]
  | merge m n => [m, n]
  | intersection m n => [m, n]
  | exclude m n => [m, n]
  | ofInterface _ _ => []
  | ofParsedInterface _ => []
  | ofInterfaceIn _ r => [r]
  | ofHost r _ => [r]
  | ofSet ops => ops.flatMap NetworkSet.Record.Operation.operands

/-- The records that an operation gives. -/
def results : Operation → Except Failure (List Record)
  | ofAddress a k => do return [← Record.ofAddress a k]
  | containing a k => do return [← Record.containing a k]
  | parse s => do return [← Record.parse s]
  | parseContaining s => do return [← Record.parseContaining s]
  | ofCertificateOctets a => do return [← Record.ofCertificateOctets a]
  | supernet r => do return (← r.supernet?).toList
  | sibling r => do return (← r.sibling?).toList
  | supernetTo r k => do return [← r.supernetTo k]
  | subnet r k position => do return (← (← r.subnets k).item? position).toList
  | merge m n => do return (← m.merge? n).toList
  | intersection m n => return (m.intersection? n).toList
  | exclude m n => m.exclude n
  | ofInterface a k => do return [(← Interface.Record.ofAddress a k).network]
  | ofParsedInterface s => do return [(← Interface.Record.parse s).network]
  | ofInterfaceIn a r => do return [(← Interface.Record.inNetwork a r).network]
  | ofHost r position => do
    return ((← Interface.Record.host? r position).map Interface.Record.network).toList
  | ofSet ops => do return (← NetworkSet.Record.empty.run ops).networks

end Operation

/-- The records that have come about after one operation more. -/
def step (known : List Record) (op : Operation) : Except Failure (List Record) :=
  if ∀ r ∈ op.operands, r ∈ known then do
    let results? ← Failure.accepted? op.results
    return known ++ results?.getD []
  else return known

/-- The records that have come about after a sequence of operations. -/
def run (known : List Record) (ops : List Operation) : Except Failure (List Record) :=
  ops.foldlM step known

/-- The record is among those that come about in some history. -/
def Reachable (r : Record) : Prop := ∃ ops rs, run [] ops = .ok rs ∧ r ∈ rs

end Network.Record

end Cidr
