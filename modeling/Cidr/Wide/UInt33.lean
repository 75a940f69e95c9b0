import Cidr.Wide.Encoding
import Cidr.Wide.Limb
import Cidr.Text.Decimal

/-!
# Unsigned integers of 33 bits

An IPv4 block holds up to `2 ^ 32` addresses, one more than the greatest IPv4
address.  Numbers of 33 bits count them.  They are kept in one limb, whose
upper bits are zero.

## Main definitions

* `UInt33`, `UInt33.toNat`, `UInt33.ofNat?` — the type and its values.
* `UInt33.add?`, `UInt33.sub?` — arithmetic, `none` where it leaves the range.
* `UInt33.shiftLeft`, `UInt33.shiftRight` — shifts by up to 32 places.
* `UInt33.octets`, `UInt33.ofOctets` — the encoding in 4 or 5 octets.
-/

namespace Cidr

/-- An unsigned integer of 33 bits. -/
structure UInt33 where
  /-- The limb that holds the number. -/
  word : UInt64
  /-- The upper bits of the limb are zero. -/
  word_lt : word.toNat < 1 <<< 33
  deriving DecidableEq, Repr

namespace UInt33

/-- The number itself. -/
def toNat (x : UInt33) : Nat := x.word.toNat

theorem toNat_lt (x : UInt33) : x.toNat < 1 <<< 33 := x.word_lt

theorem toNat_inj {x y : UInt33} (h : x.toNat = y.toNat) : x = y := by
  cases x
  cases y
  exact (mk.injEq ..).mpr (UInt64.toNat_inj.1 h)

/-- A number below `2 ^ 33`. -/
def ofNat? (n : Nat) : Option UInt33 :=
  if h : n < 1 <<< 33 then some ⟨UInt64.ofNat n, by rw [UInt64.toNat_ofNat']; omega⟩ else none

theorem ofNat?_eq_some_iff {n : Nat} {x : UInt33} : ofNat? n = some x ↔ x.toNat = n := by
  constructor
  · intro h
    unfold ofNat? at h
    split at h
    · next hn =>
      obtain rfl := Option.some.inj h
      rw [toNat, UInt64.toNat_ofNat']
      omega
    · simp at h
  · intro h
    subst h
    rw [ofNat?, dif_pos x.toNat_lt]
    refine congrArg some (toNat_inj ?_)
    change (UInt64.ofNat x.word.toNat).toNat = x.word.toNat
    rw [UInt64.ofNat_toNat]

/-- The number in the low 33 bits of a limb. -/
def ofLow (w : UInt64) : UInt33 where
  word := w &&& 0x1FFFFFFFF
  word_lt := by
    rw [UInt64.toNat_and]
    exact Nat.lt_of_le_of_lt Nat.and_le_right (by decide)

/-- A number of 32 bits. -/
def ofUInt32 (w : UInt32) : UInt33 where
  word := w.toUInt64
  word_lt := by
    have h := w.toNat_lt
    rw [UInt32.toNat_toUInt64]
    omega

/-- The least number. -/
def zero : UInt33 := ⟨0, by decide⟩

/-- The number one. -/
def one : UInt33 := ⟨1, by decide⟩

/-- The greatest number. -/
def max : UInt33 := ⟨0x1FFFFFFFF, by decide⟩

/-- The number in which bit `k` alone is set. -/
def twoPow (k : Nat) : UInt33 := ofLow (Limb.bit k)

instance : Inhabited UInt33 := ⟨zero⟩

instance : Ord UInt33 where
  compare x y := compare x.word y.word

/-! ### Arithmetic -/

/-- The sum, if it has 33 bits. -/
def add? (x y : UInt33) : Option UInt33 :=
  if h : (x.word + y.word).toNat < 1 <<< 33 then some ⟨x.word + y.word, h⟩ else none

/-- The difference, if it is not negative. -/
def sub? (x y : UInt33) : Option UInt33 :=
  if h : y.word ≤ x.word then
    some ⟨x.word - y.word, by
      have := x.word_lt
      rw [UInt64.toNat_sub_of_le _ _ h]
      omega⟩
  else none

/-- The sum is exact, and missing only if it does not fit. -/
theorem add?_eq (x y : UInt33) : add? x y = ofNat? (x.toNat + y.toNat) := by
  have hx := x.word_lt
  have hy := y.word_lt
  have h : (x.word + y.word).toNat = x.toNat + y.toNat := by
    rw [UInt64.toNat_add, toNat, toNat]
    omega
  have hword : x.word + y.word = UInt64.ofNat (x.toNat + y.toNat) := by
    rw [← h, UInt64.ofNat_toNat]
  simp only [add?, ofNat?, h]
  split <;> simp [hword]

/-- The difference is exact, and missing only if it is negative. -/
theorem sub?_eq (x y : UInt33) :
    sub? x y = if y.toNat ≤ x.toNat then ofNat? (x.toNat - y.toNat) else none := by
  have hx := x.word_lt
  by_cases hle : y.word ≤ x.word
  · have hnat : y.toNat ≤ x.toNat := UInt64.le_iff_toNat_le.1 hle
    have hlt : x.toNat - y.toNat < 1 <<< 33 := Nat.lt_of_le_of_lt (Nat.sub_le ..) hx
    rw [sub?, dif_pos hle, if_pos hnat, ofNat?, dif_pos hlt]
    refine congrArg some ((mk.injEq ..).mpr (UInt64.toNat_inj.1 ?_))
    rw [UInt64.toNat_sub_of_le _ _ hle, UInt64.toNat_ofNat', toNat, toNat]
    have := y.word_lt
    omega
  · have hnat : ¬ y.toNat ≤ x.toNat := fun h => hle (UInt64.le_iff_toNat_le.2 h)
    rw [sub?, dif_neg hle, if_neg hnat]

/-! ### Bitwise work -/

/-- The bits that are set in both numbers. -/
def and (x y : UInt33) : UInt33 where
  word := x.word &&& y.word
  word_lt := by
    rw [UInt64.toNat_and]
    exact Nat.lt_of_le_of_lt Nat.and_le_left x.word_lt

/-- The bits that are set in one number at least. -/
def or (x y : UInt33) : UInt33 where
  word := x.word ||| y.word
  word_lt := by
    have hx := x.word_lt
    have hy := y.word_lt
    rw [Nat.one_shiftLeft] at hx hy ⊢
    rw [UInt64.toNat_or]
    exact Nat.or_lt_two_pow hx hy

/-- The bits that are set in exactly one of the numbers. -/
def xor (x y : UInt33) : UInt33 where
  word := x.word ^^^ y.word
  word_lt := by
    have hx := x.word_lt
    have hy := y.word_lt
    rw [Nat.one_shiftLeft] at hx hy ⊢
    rw [UInt64.toNat_xor]
    exact Nat.xor_lt_two_pow hx hy

/-- The bits that are not set. -/
def complement (x : UInt33) : UInt33 := ofLow (~~~x.word)

/-- The bits moved up by `n` places; those above bit 32 are lost. -/
def shiftLeft (x : UInt33) (n : Nat) : Except Error UInt33 :=
  if n ≤ 32 then .ok (ofLow (x.word <<< UInt64.ofNat n)) else .error (.shiftOutOfRange n 32)

/-- The bits moved down by `n` places; those below bit 0 are lost. -/
def shiftRight (x : UInt33) (n : Nat) : Except Error UInt33 :=
  if n ≤ 32 then .ok (ofLow (x.word >>> UInt64.ofNat n)) else .error (.shiftOutOfRange n 32)

/-- The number of zeros below the lowest one; 33 for zero. -/
def trailingZeros (x : UInt33) : Nat := if x.word = 0 then 33 else Limb.trailingZeros x.word

/-- The number of bits up to the highest one; 0 for zero. -/
def bitLength (x : UInt33) : Nat := Limb.bitLength x.word

/-! ### Written forms -/

/-- The encoding in 4 octets, or in 5 when the extra bit is set. -/
def octets (x : UInt33) : Octets :=
  Octets.withExtraBit (x.word >>> 32 = 1) (Octets.ofNat 4 x.toNat)

/-- The encoding stands for the number. -/
theorem toNat_octets (x : UInt33) : Octets.toNat x.octets = x.toNat := by
  have hx := x.toNat_lt
  have htop : (x.word >>> 32 = 1) ↔ 1 <<< 32 ≤ x.toNat := by
    rw [← UInt64.toNat_inj, UInt64.toNat_shiftRight]
    have : x.word.toNat = x.toNat := rfl
    simp [this, Nat.shiftRight_eq_div_pow]
    omega
  simp only [octets, Octets.toNat_withExtraBit, Octets.length_ofNat, Octets.toNat_ofNat,
    Nat.reduceMul, Nat.reduceShiftLeft]
  by_cases h : 1 <<< 32 ≤ x.toNat
  · rw [decide_eq_true (htop.2 h), Bool.toNat_true]
    omega
  · rw [decide_eq_false fun h' => h (htop.1 h'), Bool.toNat_false]
    omega

/-- The number that 4 octets stand for, or 5 of which the first is at most 1. -/
def ofOctets (a : Octets) : Except Error UInt33 :=
  match Octets.splitExtraBit? 4 a with
  | some (extra, rest) =>
    .ok (ofLow (extra.toUInt64 <<< 32 ||| UInt64.ofNat (Octets.toNat rest)))
  | none => .error (.octetCount a.length)

/-- The decimal digits. -/
def digits (x : UInt33) : List Char := Decimal.digits x.toNat

instance : ToString UInt33 where
  toString x := String.ofList x.digits

end UInt33

end Cidr
