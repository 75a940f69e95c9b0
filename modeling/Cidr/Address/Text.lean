import Cidr.Address.Mapped
import Cidr.Text.Decimal
import Cidr.Text.Hex

/-!
# Written addresses

An IPv4 address is written as a dotted quad.  The canonical text of an IPv6
address leaves out its longest run of zero hextets; the counterparts of IPv4
addresses end in a dotted quad.  The expanded text shows every digit.

## Main definitions

* `ZeroRun.longest` — the run of zero hextets that is left out.
* `Address.canonical` — the canonical text.
* `Address.expanded` — the text with every segment at full width.
* `Address.display` — either of them, as asked for.
* `Address.withMask` — an address and a mask.
-/

namespace Cidr

/-! ### Runs of zeros -/

/-- A stretch of consecutive zero hextets. -/
structure ZeroRun where
  /-- The number of hextets before it. -/
  start : Nat
  /-- The number of its hextets. -/
  length : Nat
  deriving DecidableEq, Repr

/-- The number of zero hextets that a sequence begins with. -/
def ZeroRun.leading (hs : List UInt16) : Nat := (hs.takeWhile (· = 0)).length

/-- The longest run of zero hextets, and of several the leftmost one. -/
def ZeroRun.longest : List UInt16 → ZeroRun
  | [] => ⟨0, 0⟩
  | h :: hs =>
    let later := longest hs
    if later.length ≤ leading (h :: hs) then ⟨0, leading (h :: hs)⟩
    else ⟨later.start + 1, later.length⟩

namespace Address

/-! ### The canonical text -/

/-- Octets in decimal, with a point between them. -/
def dotted (a : Octets) : List Char := ['.'].intercalate (a.map fun b => Decimal.digits b.toNat)

/-- Hextets in hexadecimal, with a colon between them. -/
def groups (hs : List UInt16) : List Char := [':'].intercalate (hs.map fun h => Hex.digits h.toNat)

/-- Hextets in hexadecimal, where two colons stand for the longest run of at least two zeros. -/
def compressed (hs : List UInt16) : List Char :=
  let run := ZeroRun.longest hs
  if run.length < 2 then groups hs
  else groups (hs.take run.start) ++ ':' :: ':' :: groups (hs.drop (run.start + run.length))

/-- The characters of the canonical text. -/
def canonical (a : Address) : List Char :=
  match a.family with
  | .v4 => dotted a.octets
  | .v6 =>
    if a.IsIPv4Mapped then "::ffff:".toList ++ dotted (a.octets.drop 12)
    else compressed a.hextets

instance : ToString Address where
  toString a := String.ofList a.canonical

/-! ### The expanded text -/

/-- The characters of the text with every segment at full width. -/
def expandedChars (a : Address) : List Char :=
  match a.family with
  | .v4 => a.canonical
  | .v6 => [':'].intercalate (a.hextets.map fun h => (Hex.digits h.toNat).leftpad 4 '0')

/-- The text with every segment at full width. -/
def expanded (a : Address) : String := String.ofList a.expandedChars

/-- The text to show, canonical or in the alternate form, which is the expanded one. -/
def display (alternate : Bool) (a : Address) : String :=
  match a.family with
  | .v4 => toString a
  | .v6 => if alternate then a.expanded else toString a

/-! ### Addresses with masks -/

/-- The canonical texts of an address and a mask with a slash between them. -/
def withMask (a mask : Address) : String :=
  String.ofList (a.canonical ++ '/' :: mask.canonical)

end Address

end Cidr
