import Cidr.Proofs.Octets

/-!
# The bits of masks

A mask is read bit by bit: after the first zero there must be no one.  The
complement of a mask is read in the same way, with zeros and ones exchanged.

## Main results

* `Octets.netmaskLength_eq_ok_iff` — **a length is read from contiguous masks,** and
  from nothing else.
* `Octets.isMask_ones`, `Octets.IsMask.eq_ones`, `Octets.isMask_complement_iff` — what
  contiguous masks and complements look like.
-/

namespace Cidr.Octets

variable {mask : Octets} {b : Bool} {j k : Nat}

/-! ### Bits -/

theorem octetBits_not (b : UInt8) : octetBits (~~~b) = (octetBits b).map (!·) := by
  rw [octetBits, octetBits, List.map_map]
  refine List.map_congr_left ?_
  intro i hi
  have hi : i < 8 := List.mem_range.1 hi
  simp [BitVec.getMsbD_not, hi]

theorem bits_complement (a : Octets) : a.complement.bits = a.bits.map (!·) := by
  induction a with
  | nil => rfl
  | cons b a ih =>
    change octetBits (~~~b) ++ bits (complement a) = _
    rw [ih, octetBits_not, bits_cons, List.map_append]

theorem octetBits_leadingOnes (hk : k ≤ 8) :
    octetBits (leadingOnes k) = List.replicate k true ++ List.replicate (8 - k) false := by
  revert k
  decide

theorem octetBits_inj {b c : UInt8} (h : octetBits b = octetBits c) : b = c := by
  refine UInt8.eq_of_toBitVec_eq (BitVec.eq_of_getMsbD_eq ?_)
  intro i hi
  exact List.map_inj_left.1 h i (List.mem_range.2 hi)

/-- A sequence is determined by its bits. -/
theorem bits_inj {a b : Octets} (h : a.bits = b.bits) : a = b := by
  have hlen : a.length = b.length := by
    have := congrArg List.length h
    rw [length_bits, length_bits] at this
    omega
  induction a generalizing b with
  | nil => exact (List.length_eq_zero_iff.1 hlen.symm).symm
  | cons x a ih =>
    cases b with
    | nil => exact absurd hlen (by simp)
    | cons y b =>
      rw [bits_cons, bits_cons] at h
      obtain ⟨hx, ha⟩ := List.append_inj h (by rw [length_octetBits, length_octetBits])
      rw [octetBits_inj hx, ih ha (by simpa using hlen)]

/-! ### The shape of masks -/

/-- The first bit of the other kind ends the mask, so the length is determined. -/
theorem IsMask.unique (hj : IsMask b j mask) (hk : IsMask b k mask) : j = k := by
  have hcount : ∀ i, IsMask b i mask → mask.bits.count b = i := by
    intro i hi
    rw [hi, List.count_append, List.count_replicate_self, List.count_replicate]
    simp
  rw [← hcount j hj, hcount k hk]

/-- The mask for a prefix length begins with as many ones. -/
theorem isMask_ones {count : Nat} (hk : k ≤ 8 * count) : IsMask true k (ones count k) := by
  rw [IsMask, length_ones]
  induction count generalizing k with
  | zero =>
    obtain rfl : k = 0 := by omega
    rfl
  | succ count ih =>
    rw [ones_succ, bits_cons, ih (by omega)]
    rcases Nat.le_total k 8 with h | h
    · -- the mask ends in the first octet
      rw [octetBits_leadingOnes h, Nat.sub_eq_zero_of_le h, List.append_assoc, List.replicate_zero,
        List.nil_append, Bool.not_true, List.replicate_append_replicate]
      congr 2
      omega
    · -- the first octet is full
      rw [leadingOnes_of_le h, ← leadingOnes_of_le (Nat.le_refl 8), octetBits_leadingOnes
        (Nat.le_refl 8), List.replicate_zero, List.append_nil, ← List.append_assoc,
        List.replicate_append_replicate]
      congr 2 <;> omega

/-- A mask has no more ones than bits. -/
theorem IsMask.le (h : IsMask b k mask) : k ≤ 8 * mask.length := by
  have hlen := congrArg List.length h
  rw [length_bits, List.length_append, List.length_replicate, List.length_replicate] at hlen
  omega

/-- A contiguous mask is determined by its size and the number of its ones. -/
theorem IsMask.eq_ones (h : IsMask true k mask) : mask = ones mask.length k := by
  refine bits_inj (h.trans ?_)
  rw [isMask_ones h.le, length_ones]

/-- To keep the bits of a contiguous mask is to truncate. -/
theorem and_ones (a : Octets) (k : Nat) : a.and (ones a.length k) = .ok (a.truncate k) :=
  if_pos (length_ones _ _).symm

/-- Complements exchange zeros and ones. -/
theorem isMask_complement_iff : IsMask b k mask.complement ↔ IsMask (!b) k mask := by
  have hnot : ∀ l m : List Bool, l.map (!·) = m ↔ l = m.map (!·) := by
    intro l m
    constructor <;> rintro rfl <;> simp [Function.comp_def]
  rw [IsMask, bits_complement, hnot, length_complement, List.map_append, List.map_replicate,
    List.map_replicate]
  rfl

/-- A mask without bits of the first kind is full of those of the other. -/
theorem isMask_zero_iff : IsMask b 0 mask ↔ IsMask (!b) (8 * mask.length) mask := by
  simp [IsMask]

/-- A mask with bits of both kinds begins with those of one kind only. -/
theorem IsMask.not_other (h : IsMask b k mask) (hpos : 0 < k) (hlt : k < 8 * mask.length)
    (j : Nat) : ¬ IsMask (!b) j mask := by
  intro hj
  cases j with
  | zero =>
    rw [isMask_zero_iff, Bool.not_not] at hj
    exact absurd (h.unique hj) (Nat.ne_of_lt hlt)
  | succ j =>
    obtain ⟨k, rfl⟩ := Nat.exists_eq_succ_of_ne_zero (Nat.ne_of_gt hpos)
    have hhead := congrArg List.head? (h.symm.trans hj)
    simp [List.replicate_succ] at hhead

/-! ### Reading -/

/-- No one follows the first zero exactly if the bits are ones and then zeros. -/
theorem isMask_true_iff :
    IsMask true k mask ↔
      true ∉ mask.bits.dropWhile id ∧ (mask.bits.takeWhile id).length = k := by
  rw [IsMask, ← length_bits, Bool.not_true]
  generalize mask.bits = l
  induction l generalizing k with
  | nil =>
    cases k with
    | zero => simp
    | succ k => simp [List.replicate_succ]
  | cons b l ih =>
    cases b with
    | false =>
      cases k with
      | zero =>
        simp [List.replicate_succ, List.eq_replicate_iff]
      | succ k => simp [List.replicate_succ]
    | true =>
      cases k with
      | zero => simp [List.replicate_succ]
      | succ k => simp [List.replicate_succ, ih]

/-- **A length is read from contiguous masks,** and from nothing else. -/
theorem netmaskLength_eq_ok_iff (hlen : mask.length ≤ maxMaskCount) :
    netmaskLength mask = .ok k ↔ IsMask true k mask := by
  rw [netmaskLength, if_neg (Nat.not_lt.2 hlen), isMask_true_iff]
  split
  · next h => simp [h]
  · next h => simp [h]

/-- What is no mask is refused. -/
theorem netmaskLength_eq_error (hlen : mask.length ≤ maxMaskCount)
    (h : ∀ k, ¬ IsMask true k mask) : netmaskLength mask = .error .maskNotContiguous := by
  rw [netmaskLength, if_neg (Nat.not_lt.2 hlen), if_pos]
  by_contra hone
  exact h _ (isMask_true_iff.2 ⟨hone, rfl⟩)

end Cidr.Octets
