import Cidr.Bounds
import Cidr.Wide.Basic

/-!
# Guarded work on wide numbers

Sums and differences of wide numbers are made one machine operation at a time.
An operation on limbs may wrap around, which leaves a one for the next limb.  The
ones that reach the extra bit are counted in an octet, for differences in an octet
with a sign.  A shift moves each limb by fewer places than a limb has bits, and an
encoding is cut into limbs of the right size.  Each value on the way is looked at
as soon as it is there, and one that does not fit its place is a failure.

## Main definitions

* `Limb.addChained`, `Limb.subChained` — two operations on limbs, one after the
  other, with the ones that each of them leaves.
* `UInt33.addGuarded`, `UInt129.addGuarded`, `Wide.addGuarded` — sums.
* `UInt129.subGuarded`, `Wide.subGuarded` — differences.
* `Wide.shiftLeftGuarded`, `Wide.shiftRightGuarded`, `Wide.twoPowGuarded` — shifts.
* `Wide.bitLengthGuarded` — the place of the highest bit.
* `Wide.ofOctetsGuarded`, `UInt129.digitsGuarded` — encodings and decimal digits.
-/

namespace Cidr

open Failure

/-! ### One limb -/

namespace Limb

/-- The sum of two limbs that must not wrap around. -/
def addGuarded (x y : UInt64) : Except Failure UInt64 :=
  require "sum of limbs wraps around" (if x.toNat + y.toNat < UInt64.size then some (x + y) else none)

/-- The sum of two limbs, and whether it wrapped around. -/
def addWrapping (x y : UInt64) : UInt64 × Bool := (x + y, UInt64.size ≤ x.toNat + y.toNat)

/-- The difference of two limbs, and whether it wrapped around. -/
def subWrapping (x y : UInt64) : UInt64 × Bool := (x - y, x.toNat < y.toNat)

/-- What two operations on limbs leave, one after the other. -/
structure Chained where
  /-- The limb after both. -/
  limb : UInt64
  /-- Whether the first one wrapped around. -/
  first : Bool
  /-- Whether the second one did. -/
  second : Bool
  deriving DecidableEq, Repr

/-- Adds a limb and then a carry. -/
def addChained (x y : UInt64) (c : Bool) : Chained :=
  let (s, first) := addWrapping x y
  let (limb, second) := addWrapping s c.toUInt64
  { limb, first, second }

/-- Subtracts a limb and then a borrow. -/
def subChained (x y : UInt64) (b : Bool) : Chained :=
  let (d, first) := subWrapping x y
  let (limb, second) := subWrapping d b.toUInt64
  { limb, first, second }

end Limb

/-! ### Numbers of 33 bits -/

/-- The sum in one limb, which is then compared with the greatest number. -/
def UInt33.addGuarded (x y : UInt33) : Except Failure (Option UInt33) := do
  let word ← Limb.addGuarded x.word y.word
  return if h : word.toNat < 1 <<< 33 then some ⟨word, h⟩ else none

/-! ### Numbers of 129 bits -/

namespace UInt129

/-- The sum limb by limb.  The extra bits and the carries of the upper limb are counted one after
the other. -/
def addGuarded (x y : UInt129) : Except Failure (Option UInt129) := do
  let (lo, c) := Limb.addWrapping x.lo y.lo
  let hi := Limb.addChained x.hi y.hi c
  let top ← [y.top, hi.first, hi.second].foldlM (fun n b => octet (n + b.toNat)) x.top.toNat
  return if 2 ≤ top then none else some ⟨top = 1, hi.limb, lo⟩

/-- The difference limb by limb.  What is left of the extra bits must be a bit. -/
def subGuarded (x y : UInt129) : Except Failure (Option UInt129) :=
  if compare x y = .lt then return none
  else do
    let (lo, b) := Limb.subWrapping x.lo y.lo
    let hi := Limb.subChained x.hi y.hi b
    let top ← [y.top, hi.first, hi.second].foldlM (fun n b => signedOctet (n - b.toInt)) x.top.toInt
    if top = 0 ∨ top = 1 then return some ⟨top = 1, hi.limb, lo⟩
    else .error (.broken "borrow escaped the extra bit")

end UInt129

/-! ### Wide numbers -/

namespace Wide

/-- The sum within one family. -/
def addGuarded : Wide → Wide → Except Failure (Option Wide)
  | v4 x, v4 y => do return (← x.addGuarded y).map v4
  | v6 x, v6 y => do return (← x.addGuarded y).map v6
  | _, _ => return none

/-- The difference within one family.  One of 33 bits is a single operation on limbs. -/
def subGuarded : Wide → Wide → Except Failure (Option Wide)
  | v4 x, v4 y => return (x.sub? y).map v4
  | v6 x, v6 y => do return (← x.subGuarded y).map v6
  | _, _ => return none

end Wide

/-! ### Shifts -/

namespace Limb

/-- The bits of a limb moved up. -/
def shiftLeftGuarded (x : UInt64) (n : Nat) : Except Failure UInt64 := do
  return x <<< UInt64.ofNat (← places 64 n)

/-- The bits of a limb moved down. -/
def shiftRightGuarded (x : UInt64) (n : Nat) : Except Failure UInt64 := do
  return x >>> UInt64.ofNat (← places 64 n)

end Limb

namespace UInt33

/-- The bits moved up by `n` places. -/
def shiftLeftGuarded (x : UInt33) (n : Nat) : Except Failure UInt33 :=
  if 32 < n then .error (.refused (.shiftOutOfRange n 32))
  else do return ofLow (← Limb.shiftLeftGuarded x.word n)

/-- The bits moved down by `n` places. -/
def shiftRightGuarded (x : UInt33) (n : Nat) : Except Failure UInt33 :=
  if 32 < n then .error (.refused (.shiftOutOfRange n 32))
  else do return ofLow (← Limb.shiftRightGuarded x.word n)

end UInt33

namespace UInt129

/-- The bits moved up by `n` places, limb by limb. -/
def shiftLeftGuarded (x : UInt129) (n : Nat) : Except Failure UInt129 :=
  if 128 < n then .error (.refused (.shiftOutOfRange n 128))
  else if n = 0 then return x
  else if n < 64 then do
    let rest ← difference 64 n
    let top ← Limb.shiftRightGuarded x.hi rest
    let hi ← Limb.shiftLeftGuarded x.hi n
    let spilled ← Limb.shiftRightGuarded x.lo rest
    let lo ← Limb.shiftLeftGuarded x.lo n
    return ⟨top &&& 1 = 1, hi ||| spilled, lo⟩
  else if n = 64 then return ⟨x.hi &&& 1 = 1, x.lo, 0⟩
  else if n < 128 then do
    let top ← Limb.shiftRightGuarded x.lo (← difference 128 n)
    let hi ← Limb.shiftLeftGuarded x.lo (← difference n 64)
    return ⟨top &&& 1 = 1, hi, 0⟩
  else return ⟨x.lo &&& 1 = 1, 0, 0⟩

/-- The bits moved down by `n` places, limb by limb. -/
def shiftRightGuarded (x : UInt129) (n : Nat) : Except Failure UInt129 :=
  if 128 < n then .error (.refused (.shiftOutOfRange n 128))
  else if n = 0 then return x
  else if n < 64 then do
    let rest ← difference 64 n
    let hi ← Limb.shiftRightGuarded x.hi n
    let spilledTop ← Limb.shiftLeftGuarded x.top.toUInt64 rest
    let lo ← Limb.shiftRightGuarded x.lo n
    let spilled ← Limb.shiftLeftGuarded x.hi rest
    return ⟨false, hi ||| spilledTop, lo ||| spilled⟩
  else if n = 64 then return ⟨false, x.top.toUInt64, x.hi⟩
  else if n < 128 then do
    let lo ← Limb.shiftRightGuarded x.hi (← difference n 64)
    let spilled ← Limb.shiftLeftGuarded x.top.toUInt64 (← difference 128 n)
    return ⟨false, 0, lo ||| spilled⟩
  else return ⟨false, 0, x.top.toUInt64⟩

end UInt129

namespace Wide

/-- The bits moved up by `n` places within the width of the family. -/
def shiftLeftGuarded : Wide → Nat → Except Failure Wide
  | v4 x, n => do return v4 (← x.shiftLeftGuarded n)
  | v6 x, n => do return v6 (← x.shiftLeftGuarded n)

/-- The bits moved down by `n` places. -/
def shiftRightGuarded : Wide → Nat → Except Failure Wide
  | v4 x, n => do return v4 (← x.shiftRightGuarded n)
  | v6 x, n => do return v6 (← x.shiftRightGuarded n)

/-- The number of a family in which bit `k` alone is set.  The extra bit of 129 is set on its own,
any other one by a shift of 128 bits. -/
def twoPowGuarded : Family → Nat → Except Failure Wide
  | .v4, k => do return v4 (.ofLow (← Limb.shiftLeftGuarded 1 (min k 32)))
  | .v6, k =>
    if 128 ≤ k then return v6 ⟨true, 0, 0⟩
    else do
      let n := 1 <<< (← places 128 k)
      return v6 ⟨false, UInt64.ofNat (n >>> 64), UInt64.ofNat n⟩

end Wide

/-! ### The place of the highest bit -/

/-- The number of bits up to the highest one; 0 for zero. -/
def Limb.bitLengthGuarded (x : UInt64) : Except Failure Nat :=
  Failure.difference 64 x.toBitVec.clz.toNat

/-- The number of bits up to the highest one; 0 for zero. -/
def UInt33.bitLengthGuarded (x : UInt33) : Except Failure Nat := Limb.bitLengthGuarded x.word

/-- The number of bits up to the highest one; 0 for zero. -/
def UInt129.bitLengthGuarded (x : UInt129) : Except Failure Nat :=
  if x.top then return 129
  else if x.hi ≠ 0 then difference 128 x.hi.toBitVec.clz.toNat
  else Limb.bitLengthGuarded x.lo

/-- The number of bits up to the highest one; 0 for zero. -/
def Wide.bitLengthGuarded : Wide → Except Failure Nat
  | v4 x => x.bitLengthGuarded
  | v6 x => x.bitLengthGuarded

/-! ### Encodings -/

/-- Takes an encoding of `count` octets, or of one more that is 0 or 1, apart. -/
def Octets.splitExtraBitGuarded (count : Nat) (a : Octets) : Except Failure (Bool × Octets) :=
  if a.length = count then return (false, a)
  else if a.length = count + 1 then do
    let b ← item a 0
    if b ≤ 1 then return (b = 1, ← slice a 1 a.length)
    else .error (.refused (.octetCount a.length))
  else .error (.refused (.octetCount a.length))

/-- The number that 4 octets stand for, or 5 of which the first is at most 1. -/
def UInt33.ofOctetsGuarded (a : Octets) : Except Failure UInt33 := do
  let (extra, rest) ← Octets.splitExtraBitGuarded 4 a
  let word ← sized 4 rest
  return ofLow (extra.toUInt64 <<< 32 ||| UInt64.ofNat (Octets.toNat word))

/-- The number that 16 octets stand for, or 17 of which the first is at most 1. -/
def UInt129.ofOctetsGuarded (a : Octets) : Except Failure UInt129 := do
  let (top, rest) ← Octets.splitExtraBitGuarded 16 a
  let hi ← sized 8 (← slice rest 0 8)
  let lo ← sized 8 (← slice rest 8 rest.length)
  return ⟨top, UInt64.ofNat (Octets.toNat hi), UInt64.ofNat (Octets.toNat lo)⟩

/-- The number of a family that an encoding stands for. -/
def Wide.ofOctetsGuarded : Family → Octets → Except Failure Wide
  | .v4, a => do return v4 (← UInt33.ofOctetsGuarded a)
  | .v6, a => do return v6 (← UInt129.ofOctetsGuarded a)

/-! ### Decimal digits -/

namespace Decimal

/-- The values of the digits of a written number, the least significant one first. -/
def lowDigitsGuarded (s : List Char) : Except Failure (List Nat) :=
  s.reverse.mapM fun c => difference c.toNat '0'.toNat

/-- Adds a carry to digits given with the least significant one first. -/
def addCarryGuarded : List Nat → (carry : Nat) → Except Failure (List Nat)
  | [], carry => return addCarry [] carry
  | x :: a, carry => do
    let sum ← octet (x + carry)
    return sum % 10 :: (← addCarryGuarded a (sum / 10))

/-- Adds two sequences of digits, the least significant one first, and a carry. -/
def addDigitsGuarded : List Nat → List Nat → (carry : Nat) → Except Failure (List Nat)
  | [], b, carry => addCarryGuarded b carry
  | x :: a, [], carry => addCarryGuarded (x :: a) carry
  | x :: a, y :: b, carry => do
    let sum ← octet (x + y + carry)
    return sum % 10 :: (← addDigitsGuarded a b (sum / 10))

/-- The sum of two written numbers. -/
def addGuarded (a b : List Char) : Except Failure (List Char) := do
  let digits ← addDigitsGuarded (← lowDigitsGuarded a) (← lowDigitsGuarded b) 0
  return (digits.map Nat.digitChar).reverse

end Decimal

/-- The decimal digits.  The digits of the extra bit are added to those of the rest. -/
def UInt129.digitsGuarded (x : UInt129) : Except Failure (List Char) :=
  if x.top then Decimal.addGuarded (Decimal.digits (1 <<< 128)) (Decimal.digits x.lowNat)
  else return Decimal.digits x.lowNat

end Cidr
