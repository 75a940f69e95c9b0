import Cidr.Address.Basic
import Cidr.Text.Numeral
import Mathlib.Data.List.Forall2

/-!
# The grammar of addresses

What a text of an address looks like, and which octets or hextets it stands for.

A dotted quad is four decimal numbers below 256, without leading zeros, joined by
points.  A group is one to four hexadecimal digits.  An IPv6 address is eight
groups joined by colons, or two such sequences of at most seven groups together
on both sides of `::`, which stands for the zeros that are missing.  In place of
the last two groups there may be a dotted quad.

## Main definitions

* `Address.IsQuad` — dotted quads.
* `Address.IsGroup`, `Address.IsTail` — groups and sequences of them.
* `Address.IsLowerGroup` — groups as they are written canonically.
* `Address.IPv6Text` — texts of IPv6 addresses.
* `Address.IsText` — texts of addresses.
-/

namespace Cidr

/-- The text is made of parts that stand for the given values, with a separator between them. -/
def IsJoined {α : Type} (sep : Char) (IsPart : List Char → α → Prop) (s : List Char)
    (as : List α) : Prop :=
  ∃ parts, List.Forall₂ IsPart parts as ∧ s = [sep].intercalate parts

namespace Address

/-- The text is a decimal number for the octet, without leading zeros. -/
def IsOctet (s : List Char) (b : UInt8) : Prop := IsPlainNumeral 10 s b.toNat

/-- The text is a dotted quad for the four octets. -/
def IsQuad (s : List Char) (a : Octets) : Prop := a.length = 4 ∧ IsJoined '.' IsOctet s a

/-- The text is a group of one to four hexadecimal digits for the hextet. -/
structure IsGroup (s : List Char) (h : UInt16) : Prop where
  /-- There are at most four digits. -/
  length_le : s.length ≤ 4
  /-- The digits stand for the hextet. -/
  isNumeral : IsNumeral 16 s h.toNat

/-- The text is a group in lower case and without zeros in front. -/
def IsLowerGroup (s : List Char) (h : UInt16) : Prop := IsLowerNumeral 16 s h.toNat

/-- The parts are groups for the hextets, where a dotted quad may stand last for two of them. -/
inductive IsTail : (parts : List (List Char)) → (hs : List UInt16) → Prop
  /-- There is nothing more. -/
  | nil : IsTail [] []
  /-- A dotted quad ends the sequence. -/
  | quad {s : List Char} {a : Octets} (hs : IsQuad s a) : IsTail [s] a.hextets
  /-- A group comes first. -/
  | cons {s : List Char} {h : UInt16} {parts : List (List Char)} {hs : List UInt16}
      (hgroup : IsGroup s h) (htail : IsTail parts hs) : IsTail (s :: parts) (h :: hs)

/-- The text is an IPv6 address with the given hextets. -/
inductive IPv6Text : (s : List Char) → (hs : List UInt16) → Prop
  /-- All hextets are written. -/
  | full {parts : List (List Char)} {hs : List UInt16} (htail : IsTail parts hs)
      (hlen : hs.length = 8) : IPv6Text ([':'].intercalate parts) hs
  /-- Zeros are left out. -/
  | elided {s : List Char} {parts : List (List Char)} {hs ks : List UInt16}
      (hhead : IsJoined ':' IsGroup s hs) (htail : IsTail parts ks)
      (hlen : hs.length + ks.length ≤ 7) :
      IPv6Text (s ++ ':' :: ':' :: [':'].intercalate parts)
        (hs ++ List.replicate (8 - (hs.length + ks.length)) 0 ++ ks)

/-- The text is one of the address. -/
def IsText (s : List Char) (a : Address) : Prop :=
  a.family = .v4 ∧ IsQuad s a.octets ∨ a.family = .v6 ∧ IPv6Text s a.hextets

end Address

end Cidr
