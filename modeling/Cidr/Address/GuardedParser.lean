import Cidr.Address.Guarded
import Cidr.Address.Parser

/-!
# Guarded reading of addresses

The fields of an IPv6 address are looked through for the gap, and the groups before
and after it are counted.  They are then put at both ends of sixteen zero octets.
What is taken from the counts, each field that is looked at and each pair of octets
that is put in its place is checked.

## Main definitions

* `Address.gapGuarded` — where zeros were left out.
* `Address.countsGuarded` — how many groups there are before and after the gap.
* `Address.placeGuarded` — puts groups in their places.
* `Address.parseGuarded` — reads an address.
-/

namespace Cidr.Address

open Failure

variable (cause : Error) (fields : List (Option UInt16))

/-! ### The gap -/

/-- The gap after the field at a position.  A second one is refused. -/
def gapStep (gap : Option Nat) (i : Nat) : Except Failure (Option Nat) := do
  match ← item fields i, gap with
  | some _, _ => return gap
  | none, none => return some i
  | none, some _ => .error (.refused cause)

/-- The position of the gap, which is looked for between the first and the last field. -/
def gapGuarded : Except Failure (Option Nat) := do
  let last ← difference fields.length 1
  ((List.range last).drop 1).foldlM (gapStep cause fields) none

/-! ### Counts -/

/-- The number of groups on one side of the gap.  If the outermost field there is empty, it must be
the only one, and does not count. -/
def sideGuarded (count : Nat) (outermost : Option UInt16) : Except Failure Nat :=
  match outermost with
  | some _ => return count
  | none => do
    let rest ← difference count 1
    if rest ≠ 0 then .error (.refused cause) else return rest

/-- The numbers of groups before and after the gap.  Without a gap there must be eight groups. -/
def countsGuarded : Except Failure (Nat × Nat) := do
  match ← gapGuarded cause fields with
  | some i =>
    let head ← sideGuarded cause i (← item fields 0)
    let last ← difference fields.length 1
    let tail ← sideGuarded cause (← difference (← difference fields.length i) 1)
      (← item fields last)
    if 7 < head + tail then .error (.refused cause) else return (head, tail)
  | none => if fields.length ≠ 8 then .error (.refused cause) else return (8, 0)

/-! ### Places -/

/-- Puts a number of fields in their places, from the field at `source` and the place `target` on.
A field without a group is refused. -/
def placeGuarded (out : Octets) (target source : Nat) : (count : Nat) → Except Failure Octets
  | 0 => return out
  | count + 1 => do
    match ← item fields source with
    | some h =>
      let out ← overwrite out (target * 2) (Octets.ofNat 2 h.toNat)
      placeGuarded out (target + 1) (source + 1) count
    | none => .error (.refused cause)

/-- The address that the fields stand for. -/
def ofFieldsGuarded : Except Failure Address := do
  let (head, tail) ← countsGuarded cause fields
  let out ← placeGuarded cause fields (List.replicate 16 0) 0 0 head
  let target ← difference 8 tail
  let source ← difference fields.length tail
  ofOctetsGuarded (← placeGuarded cause fields out target source tail)

/-! ### Addresses -/

/-- Reads an IPv6 address. -/
def readColonsGuarded (s : List Char) : Except Failure Address :=
  let parts := s.splitOn ':'
  if parts.length < 3 then .error (.refused cause)
  else do
    let fields ← accept cause (readFields? parts)
    if 9 < fields.length then .error (.refused cause) else ofFieldsGuarded cause fields

/-- Reads an address. -/
def parseGuarded (s : String) : Except Failure Address :=
  if ':' ∈ s.toList then readColonsGuarded (.notAddress s) s.toList
  else accept (.notAddress s) (readDotted? s.toList)

end Cidr.Address
