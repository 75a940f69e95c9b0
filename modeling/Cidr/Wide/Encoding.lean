import Cidr.Octets.Basic

/-!
# Encodings with an extra bit

A number one bit wider than an address is encoded in the octets of an address
when it fits, and otherwise in one octet more, which is then 1.  When reading, a
leading octet of 0 is also let through.

## Main definitions

* `Octets.withExtraBit` — the encoding made of the extra bit and the rest.
* `Octets.splitExtraBit?` — the extra bit of an encoding and the rest.
-/

namespace Cidr.Octets

/-- Writes the extra bit, if it is set, before the octets of the rest. -/
def withExtraBit (extra : Bool) (rest : Octets) : Octets := if extra then 1 :: rest else rest

/-- Takes an encoding of `count` octets, or of one more that is 0 or 1, apart. -/
def splitExtraBit? (count : Nat) (a : Octets) : Option (Bool × Octets) :=
  if a.length = count then some (false, a)
  else match a with
    | [] => none
    | b :: rest => if rest.length = count ∧ b ≤ 1 then some (b = 1, rest) else none

theorem le_one_iff {b : UInt8} : b ≤ 1 ↔ b = 0 ∨ b = 1 := by
  rw [UInt8.le_iff_toNat_le, ← UInt8.toNat_inj, ← UInt8.toNat_inj]
  change b.toNat ≤ 1 ↔ b.toNat = 0 ∨ b.toNat = 1
  omega

theorem length_withExtraBit (extra : Bool) (rest : Octets) :
    (withExtraBit extra rest).length = extra.toNat + rest.length := by
  cases extra
  · simp [withExtraBit]
  · simp [withExtraBit, Nat.add_comm]

theorem toNat_withExtraBit (extra : Bool) (rest : Octets) :
    toNat (withExtraBit extra rest) = extra.toNat <<< (8 * rest.length) + toNat rest := by
  cases extra <;> simp [withExtraBit]

/-- Taking an encoding apart undoes putting it together. -/
@[simp] theorem splitExtraBit?_withExtraBit (extra : Bool) (rest : Octets) :
    splitExtraBit? rest.length (withExtraBit extra rest) = some (extra, rest) := by
  cases extra <;> simp [splitExtraBit?, withExtraBit]

/-- What is taken apart has the size asked for and stands for the same number. -/
theorem splitExtraBit?_eq_some {count : Nat} {a rest : Octets} {extra : Bool}
    (h : splitExtraBit? count a = some (extra, rest)) :
    rest.length = count ∧ toNat a = extra.toNat <<< (8 * count) + toNat rest := by
  unfold splitExtraBit? at h
  split at h
  case isTrue hlen => simp_all
  case isFalse hlen =>
    split at h
    · simp at h
    · next b tail =>
      split at h
      case isTrue hb =>
        obtain ⟨htail, hb⟩ := hb
        simp only [Option.some.injEq, Prod.mk.injEq] at h
        obtain ⟨rfl, rfl⟩ := h
        refine ⟨htail, ?_⟩
        rcases le_one_iff.1 hb with rfl | rfl
        · simp
        · simp [htail]
      case isFalse => simp at h

end Cidr.Octets
