import Cidr.Proofs.Octets.Guarded

/-!
# Masks and prefix lengths

A mask is written from a prefix length octet by octet, and a prefix length is read
from a mask bit by bit.  In between stands what a mask is, ones and then zeros: this
is what is written for a length that has room, and nothing else is read as one.
Hence the two undo each other.

When a mask and its complement are both read, the first bits of the sequence are
ones and zeros at once, unless there are bits of one kind only.

## Main results

* `Octets.netmask_eq_ok_iff` — **masks are written** with the ones of the prefix in front.
* `Octets.IsMask.getElem?_bits` — the bits of a mask one by one.
* `Octets.isMask_and_complement_iff` — a mask whose complement is one, too, is full or empty.
* `Octets.netmask_exact` — **writing and reading masks are inverse to each other.**
-/

namespace Cidr.Octets

variable {mask : Octets} {count i k : Nat}

theorem netmask_eq_ok_iff (hcount : count ≤ maxMaskCount) :
    netmask count k = .ok mask ↔ mask.length = count ∧ IsMask true k mask := by
  constructor
  · intro h
    have hk : k ≤ 8 * count := by
      by_contra hlt
      rw [netmask, if_neg (Nat.not_lt.2 hcount), if_pos (Nat.not_le.1 hlt)] at h
      cases h
    obtain rfl := Except.ok.inj ((netmask_eq_ok hcount hk).symm.trans h)
    exact ⟨length_ones _ _, isMask_ones hk⟩
  · rintro ⟨rfl, h⟩
    rw [netmask_eq_ok hcount h.le, ← h.eq_ones]

/-- The bits before the prefix length are ones, and the others are not. -/
theorem IsMask.getElem?_bits (h : IsMask true k mask) (hi : i < 8 * mask.length) :
    mask.bits[i]? = some (decide (i < k)) := by
  have hk := h.le
  rw [IsMask] at h
  rw [h, List.getElem?_append, List.length_replicate]
  split
  case isTrue hlt => rw [List.getElem?_replicate, if_pos hlt, decide_eq_true hlt]
  case isFalse hge =>
    rw [List.getElem?_replicate, if_pos (by omega), decide_eq_false hge]
    rfl

/-! ### Full and empty masks -/

theorem isMask_true_zero_iff : IsMask true 0 mask ↔ ∀ b ∈ mask, b = 0 := by
  have hones : ones mask.length 0 = List.replicate mask.length 0 := by
    rw [ones_eq (Nat.zero_le _)]
    rfl
  constructor
  · intro h
    exact (List.eq_replicate_iff.1 (h.eq_ones.trans hones)).2
  · intro h
    rw [List.eq_replicate_iff.2 ⟨rfl, h⟩, ← hones]
    exact isMask_ones (Nat.zero_le _)

theorem isMask_true_full_iff : IsMask true (8 * mask.length) mask ↔ ∀ b ∈ mask, b = 255 := by
  have hcomplement : (∀ b ∈ mask.complement, b = 0) ↔ ∀ b ∈ mask, b = 255 := by
    rw [complement, List.forall_mem_map]
    exact forall₂_congr fun b _ => UInt8.not_eq_comm
  rw [← hcomplement, ← isMask_true_zero_iff, isMask_complement_iff, isMask_zero_iff]
  rfl

/-- **A mask whose complement is a mask, too, has bits of one kind only.** -/
theorem isMask_and_complement_iff :
    (∃ j, IsMask true j mask) ∧ (∃ k, IsMask true k mask.complement) ↔
      (∀ b ∈ mask, b = 0) ∨ ∀ b ∈ mask, b = 255 := by
  simp only [isMask_complement_iff, ← isMask_true_zero_iff, ← isMask_true_full_iff]
  constructor
  · rintro ⟨⟨j, hj⟩, k, hk⟩
    rcases Nat.eq_zero_or_pos j with rfl | hpos
    · exact Or.inl hj
    rcases Nat.lt_or_eq_of_le hj.le with hlt | rfl
    · exact absurd hk (hj.not_other hpos hlt k)
    · exact Or.inr hj
  · rintro (h | h)
    · exact ⟨⟨_, h⟩, _, isMask_zero_iff.1 h⟩
    · exact ⟨⟨_, h⟩, _, isMask_zero_iff.2 h⟩

/-- **Writing and reading masks are inverse to each other.**  A prefix length is read from a sequence
of at most 16 octets exactly if it is written as this sequence; what is not written for any length is
refused, and so is what has more octets.  A length is written if there are enough bits, and then the
bits before it are ones and the others are not.  A sequence and its complement are both read only if
all bits are the same.  The steps octet by octet and bit by bit lead to the same results. -/
theorem netmask_exact :
    (∀ mask : Octets, mask.length ≤ 16 →
      (∀ k, netmaskLength mask = .ok k ↔ netmask mask.length k = .ok mask) ∧
      ((∀ k, netmask mask.length k ≠ .ok mask) → netmaskLength mask = .error .maskNotContiguous) ∧
      ((∃ j, netmaskLength mask = .ok j) ∧ (∃ k, netmaskLength mask.complement = .ok k) ↔
        (∀ b ∈ mask, b = 0) ∨ ∀ b ∈ mask, b = 255)) ∧
    (∀ mask : Octets, 16 < mask.length →
      netmaskLength mask = .error (.octetCount mask.length)) ∧
    (∀ count k, count ≤ 16 →
      ((∃ mask, netmask count k = .ok mask) ↔ k ≤ 8 * count) ∧
      ∀ mask, netmask count k = .ok mask →
        mask.length = count ∧ ∀ i < 8 * count, mask.bits[i]? = some (decide (i < k))) ∧
    (∀ count k, netmaskGuarded count k = Failure.ofExcept (netmask count k)) ∧
    ∀ mask, netmaskLengthGuarded mask = Failure.ofExcept (netmaskLength mask) := by
  refine ⟨?_, fun mask hlen => if_pos hlen, ?_, netmaskGuarded_eq, netmaskLengthGuarded_eq⟩
  · intro mask hlen
    have hwritten : ∀ k, netmask mask.length k = .ok mask ↔ IsMask true k mask := by
      intro k
      rw [netmask_eq_ok_iff hlen, and_iff_right rfl]
    refine ⟨?_, ?_, ?_⟩
    · intro k
      rw [netmaskLength_eq_ok_iff hlen, hwritten]
    · intro hnone
      exact netmaskLength_eq_error hlen fun k hk => hnone k ((hwritten k).2 hk)
    · have hlen' : mask.complement.length ≤ 16 := by rwa [length_complement]
      simp only [netmaskLength_eq_ok_iff hlen, netmaskLength_eq_ok_iff hlen']
      exact isMask_and_complement_iff
  · intro count k hcount
    refine ⟨⟨?_, fun hk => ⟨_, netmask_eq_ok hcount hk⟩⟩, ?_⟩
    · rintro ⟨mask, h⟩
      obtain ⟨rfl, hmask⟩ := (netmask_eq_ok_iff hcount).1 h
      exact hmask.le
    · intro mask h
      obtain ⟨rfl, hmask⟩ := (netmask_eq_ok_iff hcount).1 h
      exact ⟨rfl, fun i hi => hmask.getElem?_bits hi⟩

/-- A mask that ends within an octet; ones after a zero, an octet too many and a bit too many are
refused. -/
theorem netmask_exact_within_octet :
    netmaskLength [255, 255, 240, 0] = .ok 20 ∧
    netmaskLength [255, 0, 255, 0] = .error .maskNotContiguous ∧
    netmaskLength (List.replicate 17 0) = .error (.octetCount 17) ∧
    ¬ ∃ mask, netmask 4 33 = .ok mask := by
  obtain ⟨hread, hlong, hwrite, -⟩ := netmask_exact
  refine ⟨((hread _ (by decide)).1 20).2 (by decide), (hread _ (by decide)).2.1 ?_,
    hlong _ (by decide), fun h => absurd ((hwrite 4 33 (by decide)).1.1 h) (by decide)⟩
  -- bit 8 is a zero, and bit 16 is a one
  intro k hk
  obtain ⟨-, hbits⟩ := (hwrite 4 k (by decide)).2 _ hk
  have h8 : false = decide (8 < k) := Option.some.inj (hbits 8 (by decide))
  have h16 : true = decide (16 < k) := Option.some.inj (hbits 16 (by decide))
  rw [eq_comm, decide_eq_false_iff_not] at h8
  rw [eq_comm, decide_eq_true_iff] at h16
  omega

end Cidr.Octets
