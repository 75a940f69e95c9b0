import Cidr.Address.Text

/-!
# Reading addresses

A text with a colon is read as IPv6, any other text as IPv4.

A dotted quad is four decimal numbers below 256, without leading zeros, joined
by points.  An IPv6 address is cut at its colons into fields: groups of one to
four hexadecimal digits, empty fields, and at the end perhaps a dotted quad.  An
empty field between two others is the gap where zeros were left out, of which
there is one at most.  An empty field at either end is only read next to the gap.

## Main definitions

* `Address.readDotted?` — reads a dotted quad.
* `Address.readGroup?`, `Address.readFields?` — read the fields of an IPv6 address.
* `Address.gaps` — where zeros were left out.
* `Address.readColons?` — reads an IPv6 address.
* `Address.parse` — reads an address.
-/

namespace Cidr.Address

/-! ### Dotted quads -/

/-- The character stands from `lo` to `hi`. -/
def within (lo hi c : Char) : Bool := lo ≤ c && c ≤ hi

/-- The text is a decimal number below 256 without leading zeros. -/
def isOctetText : List Char → Bool
  | [c] => c.isDigit
  | [b, c] => within '1' '9' b && c.isDigit
  | [a, b, c] =>
    a == '1' && b.isDigit && c.isDigit ||
    a == '2' && within '0' '4' b && c.isDigit ||
    a == '2' && b == '5' && within '0' '5' c
  | _ => false

/-- Reads a number below 256 as it is written. -/
def readOctet? (s : List Char) : Option UInt8 :=
  if isOctetText s then do
    let n ← Decimal.value? s
    if n < 256 then some (UInt8.ofNat n) else none
  else none

/-- Reads a dotted quad. -/
def readDotted? (s : List Char) : Option Address :=
  match s.splitOn '.' with
  | [a, b, c, d] => return v4 (← readOctet? a) (← readOctet? b) (← readOctet? c) (← readOctet? d)
  | _ => none

/-! ### Fields -/

/-- Reads a group of one to four hexadecimal digits. -/
def readGroup? (s : List Char) : Option UInt16 :=
  if s.length ≤ 4 then (Hex.value? s).map UInt16.ofNat else none

/-- Reads a field, which may be empty. -/
def readField? (s : List Char) : Option (Option UInt16) :=
  if s = [] then some none else (readGroup? s).map some

/-- Reads fields; the last of them may be a dotted quad, which counts for two. -/
def readFields? : List (List Char) → Option (List (Option UInt16))
  | [] => some []
  | [s] =>
    if '.' ∈ s then (readDotted? s).map fun a => a.hextets.map some
    else (readField? s).map ([·])
  | s :: t :: rest => return (← readField? s) :: (← readFields? (t :: rest))

/-! ### Gaps -/

/-- The positions of the empty fields other than the first and the last one. -/
def gaps (fields : List (Option UInt16)) : List Nat :=
  (List.range (fields.length - 1)).filter fun i => 0 < i ∧ fields[i]? = some none

/-- The groups on one side of the gap, where one empty field alone stands for none. -/
def side? (fields : List (Option UInt16)) : Option (List UInt16) :=
  if fields = [none] then some [] else fields.mapM id

/-- The address with the given hextets at both ends and zeros between them. -/
def elided? (head tail : List UInt16) : Option Address :=
  if h : head.length + tail.length ≤ 7 then
    let zeros := List.replicate (8 - (head.length + tail.length)) 0
    some (ofHextets (head ++ zeros ++ tail) (by simp [zeros]; omega))
  else none

/-- The address with the given hextets, of which there must be eight. -/
def whole? (hs : List UInt16) : Option Address :=
  if h : hs.length = 8 then some (ofHextets hs h) else none

/-- The address that the fields stand for. -/
def ofFields? (fields : List (Option UInt16)) : Option Address :=
  match gaps fields with
  | [] => do whole? (← fields.mapM id)
  | [i] => do elided? (← side? (fields.take i)) (← side? (fields.drop (i + 1)))
  | _ => none

/-- Reads an IPv6 address. -/
def readColons? (s : List Char) : Option Address :=
  let parts := s.splitOn ':'
  if parts.length < 3 then none
  else do
    let fields ← readFields? parts
    if fields.length ≤ 9 then ofFields? fields else none

/-! ### Addresses -/

/-- Reads the characters of an address. -/
def read? (s : List Char) : Option Address := if ':' ∈ s then readColons? s else readDotted? s

/-- Reads an address. -/
def parse (s : String) : Except Error Address :=
  match read? s.toList with
  | some a => .ok a
  | none => .error (.notAddress s)

end Cidr.Address
