import Cidr.Family
import Cidr.Octets.Hextet
import Cidr.Octets.Mask

/-!
# Addresses

An address is a family and as many octets as the family asks for.  The bits of
an address are worked on octet by octet; operations on two addresses ask for one
family.

## Main definitions

* `Address`, `Address.toNat` — the type and the number an address stands for.
* `Address.ofOctets`, `Address.ofHextets`, `Address.v4` — ways to make one.
* `Address.and`, `Address.or`, `Address.xor`, `Address.complement` — bitwise work.
* `Address.ones`, `Address.netmask` — contiguous masks.
* `Address.clear`, `Address.truncate` — masking.
* The order puts IPv4 before IPv6 and otherwise compares the numbers.
-/

namespace Cidr

/-- An IPv4 or IPv6 address. -/
structure Address where
  /-- The family. -/
  family : Family
  /-- The octets, the most significant one first. -/
  octets : Octets
  /-- There are as many octets as the family asks for. -/
  length_octets : octets.length = family.octetCount
  deriving DecidableEq, Repr

namespace Address

/-- The octets determine an address. -/
theorem octets_inj {a b : Address} (h : a.octets = b.octets) : a = b := by
  obtain ⟨f, o, ho⟩ := a
  obtain ⟨g, p, hp⟩ := b
  obtain rfl : o = p := h
  obtain rfl : f = g := Family.octetCount_inj (ho.symm.trans hp)
  rfl

/-- The address that the octets stand for. -/
def ofOctets (a : Octets) : Except Error Address :=
  match h : Family.ofOctetCount? a.length with
  | some f => .ok ⟨f, a, (Family.ofOctetCount?_eq_some_iff.1 h).symm⟩
  | none => .error (.octetCount a.length)

/-- The IPv4 address of four octets. -/
def v4 (a b c d : UInt8) : Address := ⟨.v4, [a, b, c, d], rfl⟩

/-- The IPv6 address of eight hextets. -/
def ofHextets (hs : List UInt16) (h : hs.length = 8) : Address where
  family := .v6
  octets := Octets.ofHextets hs
  length_octets := by rw [Octets.length_ofHextets, h]; rfl

/-- The hextets of an address, half as many as its octets. -/
def hextets (a : Address) : List UInt16 := a.octets.hextets

/-- The number that an address stands for. -/
def toNat (a : Address) : Nat := Octets.toNat a.octets

theorem toNat_lt (a : Address) : a.toNat < 1 <<< a.family.bitWidth := by
  have h := Octets.toNat_lt a.octets
  rw [a.length_octets, ← Family.bitWidth_eq] at h
  exact h

/-- Within a family the number determines the address. -/
theorem toNat_inj {a b : Address} (hf : a.family = b.family) (h : a.toNat = b.toNat) : a = b :=
  octets_inj (Octets.toNat_inj (by rw [a.length_octets, b.length_octets, hf]) h)

instance : Inhabited Address := ⟨v4 0 0 0 0⟩

/-! ### Order -/

/-- IPv4 addresses come first; within a family the numbers decide. -/
instance : Ord Address where
  compare a b := (compare a.family b.family).then (a.octets.compareUnsigned b.octets)

instance : LT Address := ltOfOrd

instance : LE Address := leOfOrd

/-! ### Bitwise work -/

/-- Applies an operation octet by octet to two addresses of one family. -/
def zipOctets (f : UInt8 → UInt8 → UInt8) (a b : Address) (h : a.family = b.family) : Address where
  family := a.family
  octets := a.octets.zipWith f b.octets
  length_octets := by rw [List.length_zipWith, a.length_octets, b.length_octets, h, Nat.min_self]

/-- Applies an operation octet by octet, refusing addresses of different families. -/
def combine (f : UInt8 → UInt8 → UInt8) (a b : Address) : Except Error Address :=
  if h : a.family = b.family then .ok (zipOctets f a b h) else .error .familiesDiffer

/-- The bits that are set in both addresses. -/
def and (a b : Address) : Except Error Address := combine (· &&& ·) a b

/-- The bits that are set in one address at least. -/
def or (a b : Address) : Except Error Address := combine (· ||| ·) a b

/-- The bits that are set in exactly one of the addresses. -/
def xor (a b : Address) : Except Error Address := combine (· ^^^ ·) a b

/-- The bits that are not set. -/
def complement (a : Address) : Address where
  family := a.family
  octets := a.octets.complement
  length_octets := by rw [Octets.length_complement, a.length_octets]

@[simp] theorem family_zipOctets (f : UInt8 → UInt8 → UInt8) (a b : Address)
    (h : a.family = b.family) : (zipOctets f a b h).family = a.family := rfl

@[simp] theorem family_complement (a : Address) : a.complement.family = a.family := rfl

/-! ### Masks -/

/-- The address whose first `k` bits are the ones; all of them from the width on. -/
def ones (f : Family) (k : Nat) : Address := ⟨f, Octets.ones f.octetCount k, Octets.length_ones _ _⟩

/-- The mask for a prefix length of a family. -/
def netmask (f : Family) (k : Nat) : Except Error Address :=
  if k ≤ f.bitWidth then .ok (ones f k) else .error (.lengthOutOfRange k f.bitWidth)

/-- Addresses are not too long to serve as masks. -/
theorem length_octets_le (a : Address) : a.octets.length ≤ Octets.maxMaskCount := by
  rw [a.length_octets]
  cases a.family <;> decide

@[simp] theorem family_ones (f : Family) (k : Nat) : (ones f k).family = f := rfl

/-- Keeps the bits of an address that are set in a mask of the same family. -/
def clear (a mask : Address) : Except Error (Masked Address) :=
  if h : a.family = mask.family then
    .ok ⟨zipOctets (· &&& ·) a mask h, (Octets.lost a.octets mask.octets).weight⟩
  else .error .familiesDiffer

/-- The count of a masking is zero exactly where the masking changed nothing. -/
theorem cleared_eq_zero_iff {a mask : Address} {m : Masked Address} (h : a.clear mask = .ok m) :
    m.cleared = 0 ↔ m.result = a := by
  unfold clear at h
  split at h
  · next hf =>
    obtain rfl := Except.ok.inj h
    have hlen : a.octets.length = mask.octets.length := by
      rw [a.length_octets, mask.length_octets, hf]
    exact (Octets.weight_lost_eq_zero_iff hlen).trans
      ⟨fun h' => octets_inj (a := zipOctets (· &&& ·) a mask hf) h', congrArg octets⟩
  · exact absurd h nofun

/-- Keeps the first `k` bits of an address. -/
def clearAfter (a : Address) (k : Nat) : Except Error (Masked Address) := do
  clear a (← netmask a.family k)

/-- The address with the bits after the first `k` set to zero. -/
def truncate (a : Address) (k : Nat) : Address where
  family := a.family
  octets := a.octets.truncate k
  length_octets := by rw [Octets.length_truncate, a.length_octets]

@[simp] theorem family_truncate (a : Address) (k : Nat) : (a.truncate k).family = a.family := rfl

@[simp] theorem octets_truncate (a : Address) (k : Nat) :
    (a.truncate k).octets = a.octets.truncate k := rfl

@[simp] theorem truncate_truncate_self (a : Address) (k : Nat) :
    (a.truncate k).truncate k = a.truncate k :=
  octets_inj (Octets.truncate_truncate_self _ _)

end Address

end Cidr
