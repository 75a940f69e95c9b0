import Cidr.Address.Basic
import Cidr.Wide.Basic

/-!
# Arithmetic on addresses

An address is a number of its family that does not need the extra bit.  Sums,
differences and shifts are taken of that number; a sum or difference that is no
address is missing, and what a shift moves past the width is lost.

## Main definitions

* `Address.toWide`, `Address.ofWide?` — an address as a number, and back.
* `Address.add?`, `Address.sub?` — the address so many places on, or back.
* `Address.succ?`, `Address.pred?` — the neighbours of an address.
* `Address.shiftLeft`, `Address.shiftRight` — shifts.
-/

namespace Cidr

namespace Address

/-! ### Addresses as numbers -/

/-- The number of an address, with room for one bit more. -/
def toWide (a : Address) : Wide :=
  match a.family with
  | .v4 => .v4 (.ofUInt32 (UInt32.ofNat a.toNat))
  | .v6 => .v6 ⟨false, UInt64.ofNat (a.toNat >>> 64), UInt64.ofNat a.toNat⟩

/-- The address with a given number, if it does not need the extra bit. -/
def ofWide? (x : Wide) : Option Address :=
  if h : x.octets.length = x.family.octetCount then some ⟨x.family, x.octets, h⟩ else none

/-- The address that is left of a number without its extra bit. -/
def ofLow (x : Wide) : Address :=
  ⟨x.family, Octets.ofNat x.family.octetCount x.toNat, Octets.length_ofNat _ _⟩

@[simp] theorem family_toWide (a : Address) : a.toWide.family = a.family := by
  unfold toWide
  split <;> simp_all

@[simp] theorem toNat_toWide (a : Address) : a.toWide.toNat = a.toNat := by
  have h := a.toNat_lt
  unfold toWide
  split
  · next hf =>
    rw [hf, Family.bitWidth_v4] at h
    change (UInt32.ofNat a.toNat).toUInt64.toNat = a.toNat
    rw [UInt32.toNat_toUInt64, UInt32.toNat_ofNat']
    omega
  · next hf =>
    rw [hf, Family.bitWidth_v6] at h
    rw [Wide.toNat_v6, UInt129.toNat_eq, UInt64.toNat_ofNat', UInt64.toNat_ofNat',
      Bool.toNat_false]
    omega

/-- An address made of a number keeps its family and its value. -/
theorem ofWide?_eq_some {x : Wide} {a : Address} (h : ofWide? x = some a) :
    a.family = x.family ∧ a.toNat = x.toNat := by
  unfold ofWide? at h
  split at h
  · obtain rfl := Option.some.inj h
    exact ⟨rfl, x.toNat_octets⟩
  · simp at h

/-! ### Sums and differences -/

/-- The address `n` places on, if there is one. -/
def add? (a : Address) (n : Nat) : Option Address := do
  ofWide? (← a.toWide.add? (← Wide.ofNat? a.family n))

/-- The address `n` places back, if there is one. -/
def sub? (a : Address) (n : Nat) : Option Address := do
  ofWide? (← a.toWide.sub? (← Wide.ofNat? a.family n))

/-- The next address, if there is one. -/
def succ? (a : Address) : Option Address := a.add? 1

/-- The address before, if there is one. -/
def pred? (a : Address) : Option Address := a.sub? 1

/-- The address `n` places on has a number greater by `n`. -/
theorem add?_eq_some {a b : Address} {n : Nat} (h : a.add? n = some b) :
    b.family = a.family ∧ b.toNat = a.toNat + n := by
  obtain ⟨w, hw, h⟩ := Option.bind_eq_some_iff.1 h
  obtain ⟨s, hs, h⟩ := Option.bind_eq_some_iff.1 h
  obtain ⟨hfw, hnw⟩ := Wide.ofNat?_eq_some_iff.1 hw
  rw [Wide.add?_eq, family_toWide, if_pos hfw.symm, Wide.ofNat?_eq_some_iff, toNat_toWide] at hs
  obtain ⟨hf, hn⟩ := ofWide?_eq_some h
  exact ⟨hf.trans hs.1, by rw [hn, hs.2, hnw]⟩

theorem succ?_eq_some {a b : Address} (h : a.succ? = some b) :
    b.family = a.family ∧ b.toNat = a.toNat + 1 := add?_eq_some h

/-! ### Shifts -/

/-- The bits moved up by `n` places; those above the width are lost. -/
def shiftLeft (a : Address) (n : Nat) : Except Error Address := (a.toWide.shiftLeft n).map ofLow

/-- The bits moved down by `n` places. -/
def shiftRight (a : Address) (n : Nat) : Except Error Address := (a.toWide.shiftRight n).map ofLow

end Address

end Cidr
