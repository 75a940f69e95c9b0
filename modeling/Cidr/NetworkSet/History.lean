import Cidr.NetworkSet.Interval

/-!
# Histories of network sets

A network set comes about by operations that are applied one after the other,
the first one to the set without networks.  An operation that fails leaves the
set as it is.

## Main definitions

* `NetworkSet.Operation`, `NetworkSet.Operation.apply` — the operations.
* `NetworkSet.step`, `NetworkSet.run` — what an operation, or a sequence of
  them, makes of a set.
-/

namespace Cidr.NetworkSet

/-- A change of a network set. -/
inductive Operation where
  /-- Adds a network. -/
  | insert (n : Network)
  /-- Adds networks, from the first one on. -/
  | extend (ns : List Network)
  /-- Starts anew from the networks. -/
  | collect (ns : List Network)
  /-- Starts anew from the addresses of an interval. -/
  | replaceByInterval (first last : Address)
  /-- Adds the networks that make up an interval. -/
  | extendByInterval (first last : Address)
  deriving DecidableEq, Repr

/-- The set after an operation, which fails only if an interval is refused. -/
def Operation.apply (s : NetworkSet) : Operation → Except Error NetworkSet
  | .insert n => .ok (s.insert n)
  | .extend ns => .ok (s.insertMany ns)
  | .collect ns => .ok (ofList ns)
  | .replaceByInterval first last => ofInterval first last
  | .extendByInterval first last => do return s.insertMany (← ofInterval first last).networks

/-- The set after one operation more; one that fails changes nothing. -/
def step (s : NetworkSet) (op : Operation) : NetworkSet :=
  match op.apply s with
  | .ok t => t
  | .error _ => s

/-- The set after a sequence of operations. -/
def run (s : NetworkSet) (ops : List Operation) : NetworkSet := ops.foldl step s

end Cidr.NetworkSet
