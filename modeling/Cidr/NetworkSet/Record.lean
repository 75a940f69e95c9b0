import Cidr.Network.Record
import Cidr.NetworkSet.Interval

/-!
# Sets of records

The operations on network sets are done on records, as those on networks are.
What is always there for the records of networks is asked for where it is used:
no network ends before it begins, and the sides of a difference begin and end
within the space of addresses.

## Main definitions

* `NetworkSet.Record`, `NetworkSet.record` — records filed by address, and those
  of a network set.
* `NetworkSet.Record.insert` — insertion.
* `NetworkSet.Record.fill`, `NetworkSet.Record.ofInterval` — the addresses of an
  interval.
* `Network.Record.exclude` — the addresses of a record that are not in another.
-/

namespace Cidr

/-- Records, each under the address it is filed at, in the order of those addresses. -/
structure NetworkSet.Record where
  /-- The addresses with their records. -/
  entries : List (Address × Network.Record)
  deriving DecidableEq, Repr, Inhabited

namespace NetworkSet

/-- The records of a network set. -/
def record (s : NetworkSet) : Record := ⟨s.entries.map fun e => (e.1, e.2.record)⟩

namespace Record

open Failure

/-- The set without records. -/
def empty : Record := ⟨[]⟩

/-- The records in order. -/
def networks (s : Record) : List Network.Record := s.entries.map Prod.snd

/-! ### Access by address -/

/-- The record filed at an address. -/
def find? (s : Record) (a : Address) : Option Network.Record :=
  (s.entries.find? fun e => e.1 = a).map Prod.snd

/-- The last record that is filed at an address or before it. -/
def floor? (s : Record) (a : Address) : Option Network.Record :=
  (s.entries.filter fun e => e.1 ≤ a).getLast?.map Prod.snd

/-- The set without the records that are filed between two addresses, which must be in order. -/
def eraseBetween (s : Record) (first last : Address) : Except Failure Record :=
  require "range start is greater than range end"
    (if first ≤ last then some ⟨s.entries.filter fun e => ¬ (first ≤ e.1 ∧ e.1 ≤ last)⟩ else none)

/-- The set without the record that is filed at an address. -/
def erase (s : Record) (a : Address) : Record := ⟨s.entries.filter fun e => e.1 ≠ a⟩

/-- Files a record in the order of addresses, instead of one that is filed at the same one. -/
def placeIn (a : Address) (r : Network.Record) :
    List (Address × Network.Record) → List (Address × Network.Record)
  | [] => [(a, r)]
  | e :: es =>
    match compare a e.1 with
    | .lt => (a, r) :: e :: es
    | .eq => (e.1, r) :: es
    | .gt => e :: placeIn a r es

/-- The set with one record more, filed at its own address. -/
def place (s : Record) (r : Network.Record) : Record := ⟨placeIn r.address r s.entries⟩

/-! ### Insertion -/

/-- What one step of an insertion leads to. -/
inductive Round where
  /-- The insertion is complete. -/
  | settled (s : Record)
  /-- A larger record is still to be inserted. -/
  | again (s : Record) (r : Network.Record)
  deriving DecidableEq, Repr

/-- A record of the set covers the record: only the closest one before can. -/
def Covers (s : Record) (r : Network.Record) : Prop := ∃ m ∈ s.floor? r.address, m.Contains r

instance (s : Record) (r : Network.Record) : Decidable (s.Covers r) :=
  inferInstanceAs (Decidable (∃ m ∈ s.floor? r.address, m.Contains r))

/-- The other half of the record, if the set has it. -/
def siblingIn? (s : Record) (r : Network.Record) : Except Failure (Option Network.Record) := do
  match ← r.sibling? with
  | some half => return if s.find? half.address = some half then some half else none
  | none => return none

/-- Adds a record whose addresses are not in the set: with its other half, if the set has it, it
makes way for the record that both make up. -/
def join (s : Record) (r : Network.Record) : Except Failure Round := do
  match ← s.siblingIn? r with
  | some half =>
    match ← r.merge? half with
    | some whole => return .again (s.erase half.address) whole
    | none => return .settled ((s.erase half.address).place r)
  | none => return .settled (s.place r)

/-- One step of an insertion. -/
def insertRound (s : Record) (r : Network.Record) : Except Failure Round :=
  if s.Covers r then return .settled s
  else do
    let last ← r.lastAddress
    let rest ← s.eraseBetween r.address last
    rest.join r

theorem prefixLength_lt_of_join {s t : Record} {m r : Network.Record}
    (h : s.join r = .ok (.again t m)) : m.prefixLength < r.prefixLength := by
  obtain ⟨half?, -, h⟩ := bind_eq_ok_iff.1 h
  cases half? with
  | none => exact absurd (Except.ok.inj h) nofun
  | some half =>
    obtain ⟨whole?, hmerge, h⟩ := bind_eq_ok_iff.1 h
    cases whole? with
    | none => exact absurd (Except.ok.inj h) nofun
    | some whole =>
      obtain ⟨-, rfl⟩ := Round.again.inj (Except.ok.inj h)
      exact Network.Record.prefixLength_lt_of_merge? hmerge

/-- A step that is not the last one shortens the prefix. -/
theorem prefixLength_lt_of_insertRound {s t : Record} {m r : Network.Record}
    (h : s.insertRound r = .ok (.again t m)) : m.prefixLength < r.prefixLength := by
  unfold insertRound at h
  split at h
  · exact absurd (Except.ok.inj h) nofun
  · obtain ⟨last, -, h⟩ := bind_eq_ok_iff.1 h
    obtain ⟨rest, -, h⟩ := bind_eq_ok_iff.1 h
    exact prefixLength_lt_of_join h

/-- Adds the addresses of a record to the set. -/
def insert (s : Record) (r : Network.Record) : Except Failure Record :=
  match _h : s.insertRound r with
  | .error e => .error e
  | .ok (.settled t) => .ok t
  | .ok (.again t m) => t.insert m
termination_by r.prefixLength
decreasing_by exact prefixLength_lt_of_insertRound _h

/-- Adds the addresses of several records, from the first one on. -/
def insertMany (s : Record) (rs : List Network.Record) : Except Failure Record :=
  rs.foldlM insert s

/-! ### Intervals -/

/-- The largest record that begins at `first` and ends at `last` or before. -/
def blockAt (first last : Address) : Except Failure Network.Record :=
  match Network.span? first last with
  | some span => do
    let width := first.family.bitWidth
    let bits ← difference span.bitLength 1
    Network.Record.ofAddress first (width - min (min first.toWide.trailingZeros width) bits)
  | none => .error (.refused (.notNetwork s!"{first} - {last}"))

theorem of_blockAt_eq_ok {first last : Address} {r : Network.Record}
    (h : blockAt first last = .ok r) : r.address = first ∧ first.toNat ≤ last.toNat := by
  unfold blockAt at h
  split at h
  · next span hspan =>
    obtain ⟨bits, -, h⟩ := bind_eq_ok_iff.1 h
    refine ⟨(Network.Record.of_ofAddress_eq_ok h).1, ?_⟩
    obtain ⟨d, hd, -⟩ := Option.bind_eq_some_iff.1 hspan
    rw [Wide.sub?_eq, Address.toNat_toWide, Address.toNat_toWide] at hd
    split at hd
    · next hle => exact hle.2
    · exact absurd hd nofun
  · exact absurd h nofun

/-- Adds the records of an interval from left to right. -/
def fill (s : Record) (first last : Address) : Except Failure Record :=
  match _hr : blockAt first last with
  | .error e => .error e
  | .ok r =>
    match _hs : r.lastAddress with
    | .error e => .error e
    | .ok stop =>
      match s.insert r with
      | .error e => .error e
      | .ok t =>
        if stop = last then .ok t
        else
          match _hn : stop.succ? with
          | some next => t.fill next last
          | none => .error (.refused (.notNetwork (toString stop)))
termination_by last.toNat + 1 - first.toNat
decreasing_by
  obtain ⟨rfl, hle⟩ := of_blockAt_eq_ok _hr
  have hstop := Network.Record.toNat_address_le _hs
  have hnext := (Address.succ?_eq_some _hn).2
  omega

/-- The set of the addresses from `first` to `last`. -/
def ofInterval (first last : Address) : Except Failure Record :=
  if first.family ≠ last.family then .error (.refused .familiesDiffer)
  else if last < first then .error (.refused (.notNetwork s!"{first} - {last}"))
  else empty.fill first last

end Record

end NetworkSet

namespace Network.Record

open Failure

/-! ### Differences -/

/-- The records of an interval inside a record. -/
def cover (first last : Address) : Except Failure (List Record) := do
  let s? ← accepted? (NetworkSet.Record.ofInterval first last)
  let s ← require "range inside self" s?
  return s.networks

/-- The records that make up the part of `m` before `n`. -/
def before (m n : Record) : Except Failure (List Record) :=
  if m.address < n.address then do
    let last ← require "other starts above self" n.address.pred?
    cover m.address last
  else return []

/-- The records that make up the part of `m` after `n`. -/
def after (m n : Record) : Except Failure (List Record) := do
  let last ← m.lastAddress
  let inner ← n.lastAddress
  if inner < last then
    let first ← require "other ends below self" inner.succ?
    cover first last
  else return []

/-- The fewest records with the addresses of `m` that are not in `n`, in order. -/
def exclude (m n : Record) : Except Failure (List Record) :=
  if m.Overlaps n then do
    let low ← m.before n
    let high ← m.after n
    return low ++ high
  else return [m]

end Network.Record

end Cidr
