import Cidr.Address.Grammar
import Cidr.Prefixed

/-!
# The meaning of texts with a prefix length

What a text of an address with a prefix length means.  A text that is none also
has a meaning, the reason for which it is refused, so that it is settled for every
text which of several faults counts.

The text is cut at its first slash.  In front there must be an address, and a text
without a slash is that of an address at full length.  After the slash there is a
decimal number, or if the address is IPv4 a mask: a text with a point that is an
address of either family, in which ones come before zeros, or else zeros before
ones.

## Main definitions

* `Prefixed.IsCut` — a text is cut at its first slash.
* `Prefixed.LengthMeaning` — the meaning of the text after the slash.
* `Prefixed.Meaning` — the meaning of a whole text.
-/

namespace Cidr.Prefixed

open Address (IsText)

/-- The text is cut at its first slash, if there is one. -/
inductive IsCut : (s front : List Char) → (rest? : Option (List Char)) → Prop
  /-- There is no slash. -/
  | whole {s : List Char} (hs : '/' ∉ s) : IsCut s s none
  /-- The rest begins after the slash. -/
  | slash {front rest : List Char} (hfront : '/' ∉ front) :
      IsCut (front ++ '/' :: rest) front (some rest)

/-- The length that a text after the slash stands for, or the reason why it stands for none. -/
inductive LengthMeaning (f : Family) (s : List Char) : (r : Except Error Nat) → Prop
  /-- A number up to the width. -/
  | number {v : Nat} (hs : IsNumeral 10 s v) (hv : v ≤ f.bitWidth) : LengthMeaning f s (.ok v)
  /-- A greater number that takes no more than 32 bits. -/
  | outOfRange {v : Nat} (hs : IsNumeral 10 s v) (hv : f.bitWidth < v) (hle : v ≤ 4294967295) :
      LengthMeaning f s (.error (.lengthOutOfRange v f.bitWidth))
  /-- A number that takes more. -/
  | tooGreat {v : Nat} (hs : IsNumeral 10 s v) (hv : 4294967295 < v) :
      LengthMeaning f s (.error (.notPrefixLength (String.ofList s)))
  /-- A mask that begins with ones. -/
  | netmask {mask : Address} {k : Nat} (hf : f = .v4) (hdot : '.' ∈ s) (hs : IsText s mask)
      (hmask : mask.octets.IsMask true k) : LengthMeaning f s (.ok k)
  /-- A mask that begins with zeros. -/
  | hostMask {mask : Address} {k : Nat} (hf : f = .v4) (hdot : '.' ∈ s) (hs : IsText s mask)
      (hnot : ∀ j, ¬ mask.octets.IsMask true j) (hmask : mask.octets.IsMask false k) :
      LengthMeaning f s (.ok k)
  /-- An address that is no mask. -/
  | notContiguous {mask : Address} (hf : f = .v4) (hdot : '.' ∈ s) (hs : IsText s mask)
      (hnot : ∀ b j, ¬ mask.octets.IsMask b j) : LengthMeaning f s (.error .maskNotContiguous)
  /-- A text with a point that is no address. -/
  | notMask (hf : f = .v4) (hdot : '.' ∈ s) (hs : ∀ mask, ¬ IsText s mask) :
      LengthMeaning f s (.error (.notPrefixLength (String.ofList s)))
  /-- A text that is neither a number nor taken for a mask. -/
  | neither (hs : ∀ v, ¬ IsNumeral 10 s v) (hmask : ¬ (f = .v4 ∧ '.' ∈ s)) :
      LengthMeaning f s (.error (.notPrefixLength (String.ofList s)))

/-- The address with a prefix length that a text stands for, or the reason why it stands for none.
The address is looked at first. -/
inductive Meaning (s : List Char) : (r : Except Error Prefixed) → Prop
  /-- There is no address in front. -/
  | notAddress {front : List Char} {rest? : Option (List Char)} (hcut : IsCut s front rest?)
      (hfront : ∀ a, ¬ IsText front a) :
      Meaning s (.error (.notAddress (String.ofList front)))
  /-- Nothing follows the address. -/
  | bare {front : List Char} {a : Address} (hcut : IsCut s front none) (hfront : IsText front a) :
      Meaning s (.ok ⟨a, a.family.bitWidth⟩)
  /-- The address is followed by a text with a meaning of its own. -/
  | slashed {front rest : List Char} {a : Address} {r : Except Error Nat}
      (hcut : IsCut s front (some rest)) (hfront : IsText front a)
      (hrest : LengthMeaning a.family rest r) : Meaning s (r.map (Prefixed.mk a))

end Cidr.Prefixed
