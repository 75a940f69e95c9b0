import Cidr.Address.Basic

/-!
# Masking in place

Octets can be masked where they are.  The mask is put on one octet after the other,
and the ones that this clears are counted.  The answer is their number, or the cause
why there is none, and either way something is left in place.

## Main definitions

* `Octets.maskInPlace`, `Address.maskInPlace` — masks octets, or an address.
* `Address.maskLengthInPlace` — keeps the first bits of an address.
-/

namespace Cidr

namespace Octets

/-- Puts a mask on one octet more. -/
def maskNext (done : Masked Octets) (t m : UInt8) : Masked Octets :=
  let masked := t &&& m
  ⟨done.result ++ [masked], done.cleared + weight [t ^^^ masked]⟩

/-- Puts a mask on the octets, from the first one on. -/
def maskAll (done : Masked Octets) : Octets → Octets → Masked Octets
  | t :: target, m :: mask => maskAll (maskNext done t m) target mask
  | _, _ => done

/-- Masks octets in place: how many ones this clears, and what is left.  The count has no bound
here; the octets of an address need a small one only. -/
def maskInPlace (target mask : Octets) : Except Error Nat × Octets :=
  if target.length = mask.length then
    let done := maskAll ⟨[], 0⟩ target mask
    (.ok done.cleared, done.result)
  else (.error (.sizesDiffer target.length mask.length), target)

theorem maskAll_eq (done : Masked Octets) (target mask : Octets) :
    maskAll done target mask = ⟨done.result ++ target.zipWith (· &&& ·) mask,
      done.cleared + (lost target mask).weight⟩ := by
  induction target generalizing done mask with
  | nil => simp [maskAll, lost]
  | cons t target ih =>
    cases mask with
    | nil => simp [maskAll, lost]
    | cons m mask =>
      rw [maskAll, ih, maskNext, weight_lost_cons]
      simp [Nat.add_assoc]

/-- What is left is as long as before. -/
theorem length_maskInPlace (target mask : Octets) :
    (target.maskInPlace mask).2.length = target.length := by
  rw [maskInPlace]
  split
  · next h => simp [maskAll_eq, h]
  · rfl

end Octets

namespace Address

/-- Masks an address in place with a mask of the same family. -/
def maskInPlace (a mask : Address) : Except Error Nat × Address :=
  if a.family = mask.family then
    let left := a.octets.maskInPlace mask.octets
    (left.1, {
      family := a.family
      octets := left.2
      length_octets := (Octets.length_maskInPlace _ _).trans a.length_octets })
  else (.error .familiesDiffer, a)

/-- Keeps the first `k` bits of an address in place. -/
def maskLengthInPlace (a : Address) (k : Nat) : Except Error Nat × Address :=
  match netmask a.family k with
  | .ok mask => a.maskInPlace mask
  | .error e => (.error e, a)

end Address

end Cidr
