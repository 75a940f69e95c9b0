import Cidr.Proofs.Address
import Cidr.Proofs.Wide.Bits

/-!
# Every order is that of numbers

Octet sequences are compared by what is left of them without leading zeros, first
by size and then from the left.  Numbers of 129 bits are compared by the extra bit,
then limb by limb, and those of 33 bits by their limb.  All of these are the order
of the numbers that are stood for, so they agree with each other: an encoding with
an extra octet is compared in the right way with one that has none.

Addresses and numbers that carry a family are compared by the family first.  Within
a family they are in the order of the numbers.

## Main definitions

* `FamilyOrder` — IPv4 comes first, and within a family the numbers decide.

## Main results

* `FamilyOrder.of_compare_eq` — to compare by family and then by value is such an order.
* `Address.familyOrder`, `Wide.familyOrder` — addresses and numbers with a family.
* `order_exact` — **octets, addresses and wide numbers are in the order of numbers.**
-/

namespace Cidr

/-- What is of family IPv4 comes before what is of family IPv6, and within a family the order is
that of the values. -/
structure FamilyOrder {α : Type} [Ord α] (family : α → Family) (value : α → Nat) : Prop where
  v4_before_v6 : ∀ x y : α, family x = .v4 → family y = .v6 →
    compare x y = .lt ∧ compare y x = .gt
  compare_eq : ∀ x y : α, family x = family y → compare x y = compare (value x) (value y)
  /-- Only what is the same is equal in the order. -/
  compare_eq_eq_iff : ∀ x y : α, compare x y = .eq ↔ x = y

theorem Family.compare_eq_eq_iff {f g : Family} : compare f g = .eq ↔ f = g := by
  cases f <;> cases g <;> decide

namespace FamilyOrder

variable {α : Type} [Ord α] {family : α → Family} {value : α → Nat}

/-- **Comparing the families and then the values** is an order by family, if the two determine what
is compared. -/
theorem of_compare_eq
    (h : ∀ x y, compare x y = (compare (family x) (family y)).then (compare (value x) (value y)))
    (hext : ∀ x y, family x = family y → value x = value y → x = y) :
    FamilyOrder family value where
  v4_before_v6 := by
    intro x y hx hy
    rw [h, h, hx, hy]
    exact ⟨rfl, rfl⟩
  compare_eq := by
    intro x y hf
    rw [h, Family.compare_eq_eq_iff.2 hf]
    rfl
  compare_eq_eq_iff := by
    intro x y
    rw [h, Ordering.then_eq_eq, Family.compare_eq_eq_iff, Nat.compare_eq_eq]
    constructor
    · rintro ⟨hf, hn⟩
      exact hext x y hf hn
    · rintro rfl
      exact ⟨rfl, rfl⟩

end FamilyOrder

/-! ### Addresses -/

theorem Address.familyOrder : FamilyOrder Address.family (fun a => a.toWide.toNat) := by
  refine .of_compare_eq ?_ ?_
  · intro a b
    rw [toNat_toWide, toNat_toWide]
    exact compare_eq a b
  · intro a b hf hn
    rw [toNat_toWide, toNat_toWide] at hn
    exact toNat_inj hf hn

/-! ### Wide numbers -/

theorem UInt33.compare_eq (x y : UInt33) : compare x y = compare x.toNat y.toNat :=
  Limb.compare_eq x.word y.word

theorem Wide.familyOrder : FamilyOrder Wide.family Wide.toNat := by
  refine .of_compare_eq ?_ (fun x y => Wide.ext)
  rintro (x | x) (y | y)
  case v4.v4 => exact x.compare_eq y
  case v6.v6 => exact x.compare_eq y
  all_goals rfl

/-- Sequences that stand for values are compared like the values. -/
theorem Octets.compareUnsigned_of_toNat {a b : Octets} {m n : Nat} (ha : toNat a = m)
    (hb : toNat b = n) : a.compareUnsigned b = compare m n := by
  rw [compareUnsigned_eq, ha, hb]

/-- **Octets, addresses and wide numbers are in the order of numbers.**  Sequences of any sizes are
compared like the numbers they stand for.  Addresses are compared like their numbers once it is
settled that all of IPv4 comes before all of IPv6.  The numbers of 33 and of 129 bits are compared by
value, which is how their encodings compare, with or without the extra octet; the same holds of
numbers that carry a family, where IPv4 comes first again. -/
theorem order_exact :
    (∀ a b : Octets, a.compareUnsigned b = compare a.toNat b.toNat) ∧
    FamilyOrder Address.family (fun a => a.toWide.toNat) ∧
    (∀ x y : UInt33, compare x y = compare x.toNat y.toNat ∧
      x.octets.compareUnsigned y.octets = compare x y) ∧
    (∀ x y : UInt129, compare x y = compare x.toNat y.toNat ∧
      x.octets.compareUnsigned y.octets = compare x y) ∧
    FamilyOrder Wide.family Wide.toNat ∧
    ∀ x y : Wide, x.family = y.family → x.octets.compareUnsigned y.octets = compare x y := by
  refine ⟨Octets.compareUnsigned_eq, Address.familyOrder, ?_, ?_, Wide.familyOrder, ?_⟩
  · intro x y
    rw [x.compare_eq y]
    exact ⟨rfl, Octets.compareUnsigned_of_toNat x.toNat_octets y.toNat_octets⟩
  · intro x y
    rw [x.compare_eq y]
    exact ⟨rfl, Octets.compareUnsigned_of_toNat x.toNat_octets y.toNat_octets⟩
  · intro x y hf
    rw [Wide.familyOrder.compare_eq x y hf]
    exact Octets.compareUnsigned_of_toNat x.toNat_octets y.toNat_octets

/-- The last address of IPv4 and the first one of IPv6, the greatest number of 33 bits and the least
one of 129, and two encodings of different sizes. -/
theorem order_exact_at_ends :
    (compare (Address.v4 255 255 255 255) (.ones .v6 0) = .lt ∧
      compare (Address.ones .v6 0) (.v4 255 255 255 255) = .gt) ∧
    (compare (Wide.max .v4) (.zero .v6) = .lt ∧ compare (Wide.zero .v6) (.max .v4) = .gt) ∧
    (Wide.max .v4).octets.compareUnsigned (Wide.one .v4).octets = .gt := by
  obtain ⟨-, haddress, -, -, hwide, hoctets⟩ := order_exact
  exact ⟨haddress.v4_before_v6 _ _ rfl rfl, hwide.v4_before_v6 _ _ rfl rfl,
    (hoctets (.max .v4) (.one .v4) rfl).trans (by decide)⟩

end Cidr
