/-!
# Address families

An address belongs to one of two families, which differ in the number of octets
and in the character that separates the segments of the written form.

## Main definitions

* `Family` — IPv4 or IPv6, in that order.
* `Family.octetCount`, `Family.bitWidth` — the size of an address of the family.
* `Family.ofOctetCount?` — the family whose addresses have a given size.
-/

namespace Cidr

/-- The family of an address. -/
inductive Family where
  /-- Four octets, written as a dotted quad. -/
  | v4
  /-- Sixteen octets, written as groups of hexadecimal digits. -/
  | v6
  deriving DecidableEq, Repr, Inhabited, Ord

namespace Family

/-- The number of octets of an address. -/
def octetCount : Family → Nat
  | v4 => 4
  | v6 => 16

/-- The number of bits of an address. -/
def bitWidth : Family → Nat
  | v4 => 32
  | v6 => 128

/-- The character between two segments of a written address. -/
def separator : Family → Char
  | v4 => '.'
  | v6 => ':'

/-- The family whose addresses have `count` octets. -/
def ofOctetCount? : Nat → Option Family
  | 4 => some v4
  | 16 => some v6
  | _ => none

instance : ToString Family where
  toString
    | v4 => "IPv4"
    | v6 => "IPv6"

@[simp] theorem octetCount_v4 : v4.octetCount = 4 := rfl

@[simp] theorem octetCount_v6 : v6.octetCount = 16 := rfl

@[simp] theorem bitWidth_v4 : v4.bitWidth = 32 := rfl

@[simp] theorem bitWidth_v6 : v6.bitWidth = 128 := rfl

theorem bitWidth_eq (f : Family) : f.bitWidth = 8 * f.octetCount := by cases f <;> rfl

/-- The size of an address determines its family. -/
theorem ofOctetCount?_eq_some_iff {count : Nat} {f : Family} :
    ofOctetCount? count = some f ↔ f.octetCount = count := by
  unfold ofOctetCount?
  split <;> cases f <;> simp_all [eq_comm]

theorem octetCount_inj {f g : Family} (h : f.octetCount = g.octetCount) : f = g := by
  revert h
  cases f <;> cases g <;> decide

end Family

end Cidr
