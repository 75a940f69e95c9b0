import Cidr.Address.Arithmetic
import Cidr.Prefixed

/-!
# Networks

A network is a block of addresses that agree in their first bits: an address and
the number of bits that count, the prefix length.  All bits of the address after
the prefix are zero.

## Main definitions

* `Network` — the type.
* `Network.ofAddress` — the network of an address that has no bits after the prefix.
* `Network.containing` — the network around any address.
* `Network.netmask`, `Network.hostMask`, `Network.lastAddress`, `Network.size`.
* The order is by address, and then the shorter prefix comes first.
-/

namespace Cidr

/-- A block of addresses with a common prefix. -/
structure Network where
  /-- The first address of the block. -/
  address : Address
  /-- The number of bits that the addresses of the block have in common. -/
  prefixLength : Nat
  /-- There are no more such bits than an address has. -/
  prefixLength_le : prefixLength ≤ address.family.bitWidth
  /-- The first address has no bits after the prefix. -/
  truncate_address : address.truncate prefixLength = address
  deriving DecidableEq, Repr

namespace Network

/-- Address and prefix length determine a network. -/
theorem ext {m n : Network} (ha : m.address = n.address)
    (hk : m.prefixLength = n.prefixLength) : m = n := by
  cases m
  cases n
  simp_all

/-- The family of the addresses. -/
def family (n : Network) : Family := n.address.family

/-! ### Construction -/

/-- The network of a prefix length around an address. -/
def enclosing (a : Address) (k : Nat) (h : k ≤ a.family.bitWidth) : Network where
  address := a.truncate k
  prefixLength := k
  prefixLength_le := h
  truncate_address := a.truncate_truncate_self k

/-- The network of a prefix length around an address, refusing lengths out of range. -/
def containing (a : Address) (k : Nat) : Except Error Network :=
  if h : k ≤ a.family.bitWidth then .ok (enclosing a k h)
  else .error (.lengthOutOfRange k a.family.bitWidth)

/-- The network that begins at an address, which must have no bits after the prefix. -/
def ofAddress (a : Address) (k : Nat) : Except Error Network := do
  let n ← containing a k
  if n.address = a then return n
  else throw (.hostBitsSet (toString (Prefixed.mk a k)))

theorem containing_of_le {a : Address} {k : Nat} (hk : k ≤ a.family.bitWidth) :
    containing a k = .ok (enclosing a k hk) := dif_pos hk

theorem containing_of_not_le {a : Address} {k : Nat} (hk : ¬ k ≤ a.family.bitWidth) :
    containing a k = .error (.lengthOutOfRange k a.family.bitWidth) := dif_neg hk

theorem ofAddress_of_le {a : Address} {k : Nat} (hk : k ≤ a.family.bitWidth) :
    ofAddress a k = if a.truncate k = a then .ok (enclosing a k hk)
      else .error (.hostBitsSet (toString (Prefixed.mk a k))) := by
  rw [ofAddress, containing_of_le hk]
  rfl

theorem ofAddress_of_not_le {a : Address} {k : Nat} (hk : ¬ k ≤ a.family.bitWidth) :
    ofAddress a k = .error (.lengthOutOfRange k a.family.bitWidth) := by
  rw [ofAddress, containing_of_not_le hk]
  rfl

theorem containing_eq_ok_iff {a : Address} {k : Nat} {n : Network} :
    containing a k = .ok n ↔ n.address = a.truncate k ∧ n.prefixLength = k := by
  constructor
  · intro h
    by_cases hk : k ≤ a.family.bitWidth
    · rw [containing_of_le hk] at h
      obtain rfl := Except.ok.inj h
      exact ⟨rfl, rfl⟩
    · simp [containing_of_not_le hk] at h
  · rintro ⟨ha, rfl⟩
    have hk := n.prefixLength_le
    rw [ha, Address.family_truncate] at hk
    rw [containing_of_le hk]
    exact congrArg Except.ok (ext ha.symm rfl)

theorem ofAddress_eq_ok_iff {a : Address} {k : Nat} {n : Network} :
    ofAddress a k = .ok n ↔ n.address = a ∧ n.prefixLength = k := by
  constructor
  · intro h
    by_cases hk : k ≤ a.family.bitWidth
    · rw [ofAddress_of_le hk] at h
      split at h
      · next ha =>
        obtain rfl := Except.ok.inj h
        exact ⟨ha, rfl⟩
      · simp at h
    · simp [ofAddress_of_not_le hk] at h
  · rintro ⟨rfl, rfl⟩
    rw [ofAddress_of_le n.prefixLength_le, if_pos n.truncate_address]
    exact congrArg Except.ok (ext n.truncate_address rfl)

instance : Inhabited Network := ⟨enclosing default 0 (Nat.zero_le _)⟩

/-! ### Parts -/

/-- The mask of the prefix. -/
def netmask (n : Network) : Address := .ones n.family n.prefixLength

/-- The mask of the bits after the prefix. -/
def hostMask (n : Network) : Address := n.netmask.complement

/-- The number of bits after the prefix. -/
def hostBits (n : Network) : Nat := n.family.bitWidth - n.prefixLength

/-- The number of addresses. -/
def size (n : Network) : Wide := .twoPow n.family n.hostBits

/-- The last address: all bits after the prefix are ones. -/
def lastAddress (n : Network) : Address := .zipOctets (· ||| ·) n.address n.hostMask rfl

/-- The IPv4 address that reaches all hosts; networks of one or two addresses have none. -/
def broadcast? (n : Network) : Option Address :=
  if n.family = .v4 ∧ n.prefixLength < 31 then some n.lastAddress else none

@[simp] theorem family_enclosing (a : Address) (k : Nat) (h : k ≤ a.family.bitWidth) :
    (enclosing a k h).family = a.family := rfl

@[simp] theorem prefixLength_enclosing (a : Address) (k : Nat) (h : k ≤ a.family.bitWidth) :
    (enclosing a k h).prefixLength = k := rfl

@[simp] theorem family_lastAddress (n : Network) : n.lastAddress.family = n.family := rfl

/-- The first address is not greater than the last one. -/
theorem toNat_address_le (n : Network) : n.address.toNat ≤ n.lastAddress.toNat :=
  Octets.toNat_le_zipWith_or (by
    rw [n.address.length_octets, n.hostMask.length_octets]
    rfl)

/-! ### Order -/

instance : Ord Network where
  compare m n := (compare m.address n.address).then (compare m.prefixLength n.prefixLength)

instance : LT Network := ltOfOrd

instance : LE Network := leOfOrd

/-! ### Written forms -/

/-- The first address with the prefix length. -/
def prefixed (n : Network) : Prefixed := ⟨n.address, n.prefixLength⟩

instance : ToString Network where
  toString n := toString n.prefixed

/-- The text with every segment of the address at full width. -/
def expanded (n : Network) : String := n.prefixed.expanded

/-- The first address and the mask of the prefix. -/
def withNetmask (n : Network) : String := n.address.withMask n.netmask

/-- The first address and the mask of the bits after the prefix. -/
def withHostMask (n : Network) : String := n.address.withMask n.hostMask

/-! ### Reading -/

/-- Reads a network whose address has no bits after the prefix. -/
def parse (s : String) : Except Error Network := do
  let p ← Prefixed.parse s
  ofAddress p.address p.prefixLength

/-- Reads the network around any address. -/
def parseContaining (s : String) : Except Error Network := do
  let p ← Prefixed.parse s
  containing p.address p.prefixLength

end Network

end Cidr
