import Cidr.Error

/-!
# Octet sequences

Addresses, masks and certificate fields are sequences of octets, the most
significant one first.  A sequence stands for the natural number whose base-256
digits are its octets, and for the list of its bits.

## Main definitions

* `Octets` — a sequence of octets.
* `Octets.toNat`, `Octets.ofNat` — the number a sequence stands for, and the
  sequence of a given size that stands for a number.
* `Octets.bits`, `Octets.weight` — the bits in order, and how many are ones.
* `Octets.and`, `Octets.or`, `Octets.xor`, `Octets.complement` — bitwise work
  on sequences of one size.
* `Octets.clear` — masking, with the number of ones it cleared.
* `Octets.compareUnsigned` — the order of the numbers, whatever the sizes.
-/

namespace Cidr

/-- A sequence of octets, the most significant one first. -/
abbrev Octets := List UInt8

namespace Octets

/-! ### Values -/

/-- The number whose base-256 digits are the octets. -/
def toNat : Octets → Nat
  | [] => 0
  | b :: a => b.toNat <<< (8 * a.length) + toNat a

/-- The last `count` base-256 digits of a number. -/
def ofNat : (count : Nat) → Nat → Octets
  | 0, _ => []
  | count + 1, n => UInt8.ofNat (n >>> (8 * count)) :: ofNat count n

@[simp] theorem toNat_nil : toNat [] = 0 := rfl

@[simp] theorem toNat_cons (b : UInt8) (a : Octets) :
    toNat (b :: a) = b.toNat <<< (8 * a.length) + toNat a := rfl

@[simp] theorem ofNat_zero (n : Nat) : ofNat 0 n = [] := rfl

@[simp] theorem ofNat_succ (count n : Nat) :
    ofNat (count + 1) n = UInt8.ofNat (n >>> (8 * count)) :: ofNat count n := rfl

@[simp] theorem length_ofNat (count n : Nat) : (ofNat count n).length = count := by
  induction count with
  | zero => rfl
  | succ count ih => simp [ih]

/-- A further octet of room multiplies by 256. -/
theorem shiftLeft_octet (n count : Nat) :
    n <<< (8 * (count + 1)) = 256 * n <<< (8 * count) := by
  rw [Nat.mul_add, Nat.mul_one, Nat.add_comm, Nat.shiftLeft_add, Nat.shiftLeft_eq,
    Nat.shiftLeft_eq, Nat.shiftLeft_eq, Nat.mul_right_comm]
  omega

/-- A sequence of `n` octets stands for a number of `8 * n` bits. -/
theorem toNat_lt (a : Octets) : toNat a < 1 <<< (8 * a.length) := by
  induction a with
  | nil => simp
  | cons b a ih =>
    have hb : b.toNat <<< (8 * a.length) ≤ 255 * 1 <<< (8 * a.length) := by
      rw [Nat.shiftLeft_eq, Nat.one_shiftLeft]
      exact Nat.mul_le_mul_right _ (Nat.le_of_lt_succ b.toNat_lt)
    rw [toNat_cons, List.length_cons, shiftLeft_octet]
    omega

/-- Writing a number in `count` octets keeps its low `8 * count` bits. -/
theorem toNat_ofNat (count n : Nat) : toNat (ofNat count n) = n % 1 <<< (8 * count) := by
  induction count with
  | zero => simp [Nat.mod_one]
  | succ count ih =>
    rw [ofNat_succ, toNat_cons, length_ofNat, ih, shiftLeft_octet, Nat.mul_comm 256, Nat.mod_mul,
      UInt8.toNat_ofNat', Nat.shiftRight_eq_div_pow, Nat.shiftLeft_eq, Nat.one_shiftLeft,
      Nat.mul_comm, Nat.add_comm]

theorem toNat_ofNat_of_lt {count n : Nat} (h : n < 1 <<< (8 * count)) :
    toNat (ofNat count n) = n := by
  rw [toNat_ofNat, Nat.mod_eq_of_lt h]

/-- Sequences of one size are determined by the number they stand for. -/
theorem toNat_inj {a b : Octets} (hlen : a.length = b.length) (h : toNat a = toNat b) :
    a = b := by
  induction a generalizing b with
  | nil => exact (List.length_eq_zero_iff.1 hlen.symm).symm
  | cons x a ih =>
    cases b with
    | nil => simp at hlen
    | cons y b =>
      have hlen' : a.length = b.length := by simpa using hlen
      have ha := toNat_lt a
      have hb := toNat_lt b
      rw [toNat_cons, toNat_cons, hlen', Nat.shiftLeft_eq, Nat.shiftLeft_eq] at h
      rw [hlen', Nat.one_shiftLeft] at ha
      rw [Nat.one_shiftLeft] at hb
      -- the leading octets are the quotients by `2 ^ (8 * b.length)`
      have hx : x.toNat = y.toNat := by
        have h1 := Nat.add_mul_div_right (toNat a) x.toNat (Nat.zero_lt_of_lt ha)
        have h2 := Nat.add_mul_div_right (toNat b) y.toNat (Nat.zero_lt_of_lt hb)
        rw [Nat.div_eq_of_lt ha] at h1
        rw [Nat.div_eq_of_lt hb] at h2
        have h3 : toNat a + x.toNat * 2 ^ (8 * b.length) =
            toNat b + y.toNat * 2 ^ (8 * b.length) := by omega
        rw [h3] at h1
        omega
      have hxy : x = y := UInt8.toNat_inj.1 hx
      subst hxy
      rw [ih hlen' (by omega)]

theorem toNat_append (a b : Octets) :
    toNat (a ++ b) = toNat a <<< (8 * b.length) + toNat b := by
  induction a with
  | nil => simp
  | cons x a ih =>
    rw [List.cons_append, toNat_cons, toNat_cons, ih, List.length_append, Nat.mul_add,
      Nat.shiftLeft_add, Nat.shiftLeft_eq _ (8 * b.length), Nat.shiftLeft_eq _ (8 * b.length),
      Nat.shiftLeft_eq _ (8 * b.length), Nat.add_mul, Nat.add_assoc]

/-! ### Bits -/

/-- The eight bits of an octet, the most significant one first. -/
def octetBits (b : UInt8) : List Bool := (List.range 8).map b.toBitVec.getMsbD

/-- The bits of a sequence in order. -/
def bits (a : Octets) : List Bool := a.flatMap octetBits

/-- The number of ones among the bits. -/
def weight (a : Octets) : Nat := a.bits.count true

@[simp] theorem length_octetBits (b : UInt8) : (octetBits b).length = 8 := by simp [octetBits]

@[simp] theorem bits_nil : bits [] = [] := rfl

@[simp] theorem bits_cons (b : UInt8) (a : Octets) : bits (b :: a) = octetBits b ++ bits a := rfl

@[simp] theorem length_bits (a : Octets) : a.bits.length = 8 * a.length := by
  induction a with
  | nil => rfl
  | cons b a ih => simp [ih, Nat.mul_add, Nat.add_comm]

@[simp] theorem weight_nil : weight [] = 0 := rfl

theorem weight_cons (b : UInt8) (a : Octets) :
    weight (b :: a) = (octetBits b).count true + weight a := by
  simp [weight]

/-! ### Bitwise work -/

/-- Applies an operation octet by octet to two sequences of one size. -/
def combine (f : UInt8 → UInt8 → UInt8) (a b : Octets) : Except Error Octets :=
  if a.length = b.length then .ok (a.zipWith f b) else .error (.sizesDiffer a.length b.length)

/-- The bits that are set in both sequences. -/
def and (a b : Octets) : Except Error Octets := combine (· &&& ·) a b

/-- The bits that are set in one sequence at least. -/
def or (a b : Octets) : Except Error Octets := combine (· ||| ·) a b

/-- The bits that are set in exactly one of the sequences. -/
def xor (a b : Octets) : Except Error Octets := combine (· ^^^ ·) a b

/-- The bits that are not set. -/
def complement (a : Octets) : Octets := a.map (~~~ ·)

/-- Setting further bits does not make a number smaller. -/
theorem toNat_le_zipWith_or {a b : Octets} (h : a.length = b.length) :
    toNat a ≤ toNat (a.zipWith (· ||| ·) b) := by
  induction a generalizing b with
  | nil => simp
  | cons x a ih =>
    cases b with
    | nil => exact absurd h (by simp)
    | cons y b =>
      have hlen : a.length = b.length := by simpa using h
      have hx : x.toNat ≤ (x ||| y).toNat := by
        rw [UInt8.toNat_or]
        exact Nat.left_le_or
      rw [List.zipWith_cons_cons, toNat_cons, toNat_cons, List.length_zipWith, ← hlen, Nat.min_self]
      rw [Nat.shiftLeft_eq, Nat.shiftLeft_eq]
      exact Nat.add_le_add (Nat.mul_le_mul_right _ hx) (ih hlen)

@[simp] theorem length_complement (a : Octets) : a.complement.length = a.length := by
  simp [complement]

end Octets

/-- The result of a masking, with the number of ones it cleared. -/
structure Masked (α : Type) where
  /-- What is left. -/
  result : α
  /-- The number of ones that became zeros. -/
  cleared : Nat
  deriving DecidableEq, Repr

namespace Octets

/-- The ones of the target that the mask does not keep. -/
def lost (target mask : Octets) : Octets := target.zipWith (fun t m => t ^^^ (t &&& m)) mask

/-- The ones that are lost can be counted octet by octet. -/
theorem weight_lost_cons (t m : UInt8) (target mask : Octets) :
    (lost (t :: target) (m :: mask)).weight =
      weight [t ^^^ (t &&& m)] + (lost target mask).weight := by
  simp [lost, weight_cons]

/-- Keeps the bits of the target that are set in the mask.  The ones that this clears are counted
exactly, however many they are. -/
def clear (target mask : Octets) : Except Error (Masked Octets) := do
  let result ← and target mask
  return { result, cleared := (lost target mask).weight }

theorem true_mem_octetBits_iff {b : UInt8} : true ∈ octetBits b ↔ b ≠ 0 := by
  rw [octetBits, List.mem_map]
  constructor
  · rintro ⟨i, -, hi⟩ rfl
    simp at hi
  · intro hb
    refine Decidable.byContradiction fun hno => hb ?_
    refine UInt8.eq_of_toBitVec_eq (BitVec.eq_of_getMsbD_eq ?_)
    intro i hi
    have hbit : b.toBitVec.getMsbD i ≠ true := fun h => hno ⟨i, List.mem_range.2 hi, h⟩
    simpa using hbit

theorem weight_eq_zero_iff {a : Octets} : a.weight = 0 ↔ ∀ b ∈ a, b = 0 := by
  rw [weight, List.count_eq_zero, bits, List.mem_flatMap]
  simp only [true_mem_octetBits_iff, not_exists, not_and, ne_eq, Decidable.not_not]

/-- A mask that clears no bit changes nothing. -/
theorem weight_lost_eq_zero_iff {a mask : Octets} (hlen : a.length = mask.length) :
    (lost a mask).weight = 0 ↔ a.zipWith (· &&& ·) mask = a := by
  rw [weight_eq_zero_iff, lost]
  induction a generalizing mask with
  | nil => simp
  | cons x a ih =>
    cases mask with
    | nil => exact absurd hlen (by simp)
    | cons y mask =>
      have hlen' : a.length = mask.length := by simpa using hlen
      have hx : x ^^^ (x &&& y) = 0 ↔ x &&& y = x := by
        rw [UInt8.xor_eq_zero_iff, eq_comm]
      simp only [List.zipWith_cons_cons, List.forall_mem_cons, List.cons.injEq, ih hlen', hx]

/-! ### Order -/

/-- The sequence without its leading zeros. -/
def significant (a : Octets) : Octets := a.dropWhile (· == 0)

/-- Compares the numbers that two sequences stand for: of two sequences without
leading zeros the longer one is greater, and those of one size are compared from
the left. -/
def compareUnsigned (a b : Octets) : Ordering :=
  (compare a.significant.length b.significant.length).then
    (List.compareLex compare a.significant b.significant)

end Octets

end Cidr
