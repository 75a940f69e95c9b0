import Cidr.Bounds
import Cidr.Octets.Hextet
import Cidr.Octets.Mask

/-!
# Guarded work on octets

Masks are written octet by octet and read bit by bit, with the ones counted in an
octet.  They are put on octets one by one, and the ones that this clears are counted
in 32 bits, however long the sequence is.  Sequences are cut where their leading zeros
end, and into pieces of two.  Each access and each count is looked at when it comes up.

## Main definitions

* `Octets.netmaskGuarded`, `Octets.netmaskLengthGuarded` — contiguous masks.
* `Octets.clearGuarded` — masking, with the number of ones it cleared.
* `Octets.hextetsGuarded` — the pairs of octets of a sequence.
* `Octets.compareGuarded` — the order of the numbers.
-/

namespace Cidr

open Failure

namespace Octets

/-! ### Masks -/

/-- The contiguous mask for a prefix length.  Full octets are set first, and then the one in which
the mask ends, if it does so within an octet. -/
def netmaskGuarded (count k : Nat) : Except Failure Octets :=
  if maxMaskCount < count then .error (.refused (.octetCount count))
  else if 8 * count < k then .error (.refused (.lengthOutOfRange k (8 * count)))
  else do
    let full := k / 8
    let zeros := List.replicate count 0
    let mask := (zeros.take full).map (fun _ => 0xFF) ++ zeros.drop full
    if 0 < k % 8 then
      let up ← places 8 (← difference 8 (k % 8))
      overwrite mask full [0xFF <<< UInt8.ofNat up]
    else return mask

/-- What reading a mask keeps. -/
structure MaskScan where
  /-- The number of ones so far. -/
  count : Nat
  /-- Whether there has been a zero. -/
  seenZero : Bool
  deriving DecidableEq, Repr

/-- The next bit of a mask.  There must be no one after a zero. -/
def MaskScan.bit (s : MaskScan) (bit : Bool) : Except Failure MaskScan :=
  if bit then
    if s.seenZero then .error (.refused .maskNotContiguous)
    else do return { s with count := ← octet (s.count + 1) }
  else return { s with seenZero := true }

/-- The next octet of a mask, from its highest bit on. -/
def MaskScan.octet (s : MaskScan) (b : UInt8) : Except Failure MaskScan :=
  (List.range 8).reverse.foldlM (fun s i => do
    let down ← places 8 i
    s.bit (b >>> UInt8.ofNat down &&& 1 = 1)) s

/-- The prefix length of a contiguous mask. -/
def netmaskLengthGuarded (mask : Octets) : Except Failure Nat :=
  if maxMaskCount < mask.length then .error (.refused (.octetCount mask.length))
  else do return (← mask.foldlM MaskScan.octet ⟨0, false⟩).count

/-! ### Masking -/

/-- Puts a mask on one octet more.  The ones that have been cleared are counted in 32 bits. -/
def maskNextGuarded (done : Masked Octets) (t m : UInt8) : Except Failure (Masked Octets) := do
  let masked := t &&& m
  let cleared ← word (done.cleared + weight [t ^^^ masked])
  return ⟨done.result ++ [masked], cleared⟩

/-- Puts a mask on the octets, from the first one on. -/
def maskAllGuarded (done : Masked Octets) : Octets → Octets → Except Failure (Masked Octets)
  | t :: target, m :: mask => do maskAllGuarded (← maskNextGuarded done t m) target mask
  | _, _ => return done

/-- Keeps the bits of the target that are set in the mask. -/
def clearGuarded (target mask : Octets) : Except Failure (Masked Octets) :=
  if target.length = mask.length then maskAllGuarded ⟨[], 0⟩ target mask
  else .error (.refused (.sizesDiffer target.length mask.length))

/-! ### Pieces -/

/-- Cuts a sequence into pieces of two octets; the last piece may be a single one. -/
def chunks : Octets → List Octets
  | a :: b :: rest => [a, b] :: chunks rest
  | [a] => [[a]]
  | [] => []

/-- The pairs of octets of a sequence. -/
def hextetsGuarded (a : Octets) : Except Failure (List UInt16) :=
  a.chunks.mapM fun c => do return hextet (← item c 0) (← item c 1)

/-- The sequence without its leading zeros. -/
def significantGuarded (a : Octets) : Except Failure Octets :=
  slice a ((a.findIdx? (· ≠ 0)).getD a.length) a.length

/-- Compares the numbers that two sequences stand for. -/
def compareGuarded (a b : Octets) : Except Failure Ordering := do
  let a ← significantGuarded a
  let b ← significantGuarded b
  return (compare a.length b.length).then (List.compareLex compare a b)

end Octets

end Cidr
