import Cidr.Octets.Guarded
import Cidr.Proofs.Octets.Mask

/-!
# Guards on octets

A mask that ends within an octet ends within the sequence, and has at least one and
at most seven ones there.  Up to the first zero there are no more ones than bits in
a mask, so they can be counted in an octet.  The ones that a mask clears are counted
too, but the sequences may have any length here, and 32 bits are not enough for the
longest ones.

## Main results

* `Octets.netmaskGuarded_eq`, `Octets.netmaskLengthGuarded_eq` — **masks are written
  and read without a failure.**
* `Octets.clearGuarded_eq` — **masking fails if 2 ^ 32 ones or more are cleared,** and
  in no other case.
* `Octets.hextetsGuarded_eq`, `Octets.compareGuarded_eq` — sequences are cut within
  their bounds.
-/

namespace Cidr.Octets

open Failure

/-! ### Writing masks -/

theorem getElem?_ones {count k i : Nat} (hi : i < count) :
    (ones count k)[i]? = some (leadingOnes (k - 8 * i)) := by
  induction count generalizing k i with
  | zero => omega
  | succ count ih =>
    cases i with
    | zero => rfl
    | succ i =>
      rw [ones_succ, List.getElem?_cons_succ, ih (by omega)]
      congr 2
      omega

/-- The ones of an octet are what is left of a full one when zeros come in from below. -/
theorem shiftLeft_full {k : Nat} (hpos : 0 < k) (hk : k < 8) :
    (0xFF : UInt8) <<< UInt8.ofNat (8 - k) = leadingOnes k := by
  have hall : ∀ k < 8, 0 < k → (0xFF : UInt8) <<< UInt8.ofNat (8 - k) = leadingOnes k := by decide
  exact hall k hk hpos

/-- A mask is full at first, then there may be an octet with some ones, and then zeros. -/
theorem ones_eq {count k : Nat} (hk : k ≤ 8 * count) :
    ones count k = List.replicate (k / 8) 0xFF ++
      (if 0 < k % 8 then [leadingOnes (k % 8)] else []) ++
      List.replicate (count - (k + 7) / 8) 0 := by
  refine List.ext_getElem? ?_
  intro i
  have hlen : (if 0 < k % 8 then [leadingOnes (k % 8)] else []).length = (k + 7) / 8 - k / 8 := by
    split
    · rw [List.length_singleton]
      omega
    · rw [List.length_nil]
      omega
  rw [List.getElem?_append, List.getElem?_append, List.length_append, List.length_replicate, hlen,
    List.getElem?_replicate, List.getElem?_replicate]
  rcases Nat.lt_or_ge i count with hi | hi
  · rw [getElem?_ones hi]
    rcases Nat.lt_trichotomy i (k / 8) with hfull | hlast | hzero
    · rw [if_pos (by omega), if_pos hfull, if_pos hfull, leadingOnes_of_le (by omega)]
    · rcases Nat.eq_zero_or_pos (k % 8) with h0 | hpos
      · -- the mask ends with a full octet, and this one is the first of the zeros
        rw [if_neg (by omega), if_pos (by omega), show k - 8 * i = 0 by omega]
        rfl
      · rw [if_pos (by omega), if_neg (by omega), if_pos hpos, show i - k / 8 = 0 by omega,
          show k - 8 * i = k % 8 by omega]
        rfl
    · rw [if_neg (by omega), if_pos (by omega), show k - 8 * i = 0 by omega]
      rfl
  · rw [List.getElem?_eq_none (by rw [length_ones]; exact hi), if_neg (by omega), if_neg (by omega)]

/-- **Masks are written without a failure.** -/
theorem netmaskGuarded_eq (count k : Nat) :
    netmaskGuarded count k = ofExcept (netmask count k) := by
  rw [netmaskGuarded, netmask]
  split
  · rfl
  split
  · rfl
  next hcount hk =>
    have hk' : k ≤ 8 * count := Nat.le_of_not_lt hk
    have hfull : ((List.replicate count (0 : UInt8)).take (k / 8)).map (fun _ => 0xFF) ++
        (List.replicate count 0).drop (k / 8) =
        List.replicate (k / 8) 0xFF ++ List.replicate (count - k / 8) (0 : UInt8) := by
      rw [List.take_replicate, List.map_replicate, List.drop_replicate,
        Nat.min_eq_left (by omega)]
    dsimp only
    rw [ofExcept_ok, ones_eq hk', hfull]
    split
    · next hpos =>
      -- the mask ends within an octet, and this is one of the sequence
      have hlt : k % 8 < 8 := Nat.mod_lt k (by decide)
      have hroom : k / 8 + 1 ≤ count := by omega
      rw [difference_eq_ok (Nat.le_of_lt hlt), ok_bind, places_eq_ok (by omega), ok_bind,
        shiftLeft_full hpos hlt, overwrite_eq_ok (by simp; omega)]
      have hdrop : ((List.replicate (k / 8) 0xFF ++
          List.replicate (count - k / 8) (0 : UInt8)).drop (k / 8 + 1)) =
          List.replicate (count - (k + 7) / 8) 0 := by
        rw [← List.drop_drop, List.drop_left' List.length_replicate, List.drop_replicate,
          show count - k / 8 - 1 = count - (k + 7) / 8 by omega]
      rw [List.take_left' List.length_replicate, List.length_singleton, hdrop]
    · next hzero =>
      rw [List.append_nil, show (k + 7) / 8 = k / 8 by omega]
      rfl

/-! ### Reading masks -/

/-- What is left of an octet moved down by some places tells its bit there. -/
theorem shiftRight_and_one_eq_one_iff {b : UInt8} {i : Nat} (hi : i < 8) :
    b >>> UInt8.ofNat i &&& 1 = 1 ↔ b.toBitVec.getMsbD (7 - i) = true := by
  rw [← UInt8.toNat_inj, UInt8.toNat_and, UInt8.toNat_shiftRight, UInt8.toNat_ofNat',
    Nat.mod_eq_of_lt (by omega : i < 2 ^ 8), Nat.mod_eq_of_lt hi]
  change b.toNat >>> i &&& 1 = 1 ↔ _
  rw [Nat.and_one_is_mod, BitVec.getMsbD_eq_getLsbD, BitVec.getLsbD,
    show 8 - 1 - (7 - i) = i by omega, decide_eq_true (by omega : 7 - i < 8), Bool.true_and,
    Nat.testBit_eq_decide_div_mod_eq, decide_eq_true_eq, Nat.shiftRight_eq_div_pow]
  rfl

namespace MaskScan

variable {s : MaskScan}

/-- An octet is read as its bits, from the highest one on. -/
theorem octet_eq (s : MaskScan) (b : UInt8) : s.octet b = (octetBits b).foldlM bit s := by
  have hbits : octetBits b =
      (List.range 8).reverse.map fun i => decide (b >>> UInt8.ofNat i &&& 1 = 1) := by
    have hreverse : (List.range 8).reverse = (List.range 8).map (7 - ·) := by decide
    rw [hreverse, List.map_map, octetBits]
    refine List.map_congr_left ?_
    intro i hi
    have hi : i < 8 := List.mem_range.1 hi
    have hbit := shiftRight_and_one_eq_one_iff (b := b) (i := 7 - i) (by omega)
    rw [show 7 - (7 - i) = i by omega] at hbit
    change b.toBitVec.getMsbD i = decide (b >>> UInt8.ofNat (7 - i) &&& 1 = 1)
    rw [Bool.eq_iff_iff, decide_eq_true_eq]
    exact hbit.symm
  rw [octet, hbits, List.foldlM_map]
  rfl

/-- A mask is read as its bits. -/
theorem foldlM_octet (s : MaskScan) (mask : Octets) :
    mask.foldlM octet s = mask.bits.foldlM bit s := by
  induction mask generalizing s with
  | nil => rfl
  | cons b mask ih =>
    rw [List.foldlM_cons, bits_cons, List.foldlM_append, octet_eq]
    exact bind_congr ih

/-- After a zero all bits must be zeros. -/
theorem foldlM_bit_of_seenZero (h : s.seenZero = true) (bs : List Bool) :
    bs.foldlM bit s =
      if true ∈ bs then .error (.refused .maskNotContiguous) else .ok s := by
  induction bs with
  | nil => rfl
  | cons b bs ih =>
    rw [List.foldlM_cons]
    cases b with
    | true => rw [bit, if_pos rfl, if_pos h, if_pos List.mem_cons_self]; rfl
    | false =>
      have hs : s.bit false = .ok s := by
        rw [bit, if_neg Bool.false_ne_true, ← h]
        rfl
      rw [hs, ok_bind, ih]
      simp

/-- Up to the first zero the ones are counted. -/
theorem foldlM_bit {n : Nat} {bs : List Bool} (h : n + bs.length < 256) :
    (do return (← bs.foldlM bit ⟨n, false⟩).count : Except Failure Nat) =
      if true ∈ bs.dropWhile id then .error (.refused .maskNotContiguous)
      else .ok (n + (bs.takeWhile id).length) := by
  induction bs generalizing n with
  | nil => rfl
  | cons b bs ih =>
    rw [List.length_cons] at h
    rw [List.foldlM_cons]
    cases b with
    | true =>
      have hs : bit ⟨n, false⟩ true = .ok ⟨n + 1, false⟩ := by
        rw [bit, if_pos rfl, if_neg Bool.false_ne_true, octet_eq_ok (show n + 1 < 256 by omega)]
        rfl
      rw [hs, ok_bind, ih (by omega)]
      simp [Nat.add_assoc, Nat.add_comm 1]
    | false =>
      have hs : bit ⟨n, false⟩ false = .ok ⟨n, true⟩ := rfl
      rw [hs, ok_bind, foldlM_bit_of_seenZero rfl]
      have hmem : (true ∈ (false :: bs).dropWhile id) ↔ true ∈ bs := by simp
      have hnone : (false :: bs).takeWhile id = [] := by simp
      rw [hnone, List.length_nil, Nat.add_zero]
      by_cases hone : true ∈ bs
      · rw [if_pos hone, if_pos (hmem.2 hone)]
        rfl
      · rw [if_neg hone, if_neg (fun h => hone (hmem.1 h))]
        rfl

end MaskScan

/-- **Masks are read without a failure.** -/
theorem netmaskLengthGuarded_eq (mask : Octets) :
    netmaskLengthGuarded mask = ofExcept (netmaskLength mask) := by
  rw [netmaskLengthGuarded, netmaskLength]
  split
  · rfl
  next hlen =>
    rw [MaskScan.foldlM_octet, MaskScan.foldlM_bit]
    · split
      · rfl
      · rw [Nat.zero_add, ofExcept_ok]
    · rw [maxMaskCount] at hlen
      rw [length_bits]
      omega

/-! ### Masking -/

theorem weight_le (a : Octets) : a.weight ≤ 8 * a.length := by
  rw [← length_bits]
  exact List.count_le_length

theorem length_lost_le (target mask : Octets) : (lost target mask).length ≤ target.length := by
  rw [lost, List.length_zipWith]
  exact Nat.min_le_left _ _

/-- The counts along the way do not exceed the last one, so one look at this is enough. -/
theorem maskAllGuarded_eq {done : Masked Octets} (h : done.cleared < UInt32.size)
    (target mask : Octets) :
    maskAllGuarded done target mask = (do
      let cleared ← word (done.cleared + (lost target mask).weight)
      return ⟨done.result ++ target.zipWith (· &&& ·) mask, cleared⟩) := by
  induction target generalizing done mask with
  | nil => simp [maskAllGuarded, lost, word_eq_ok h, pure, Except.pure]
  | cons t target ih =>
    cases mask with
    | nil => simp [maskAllGuarded, lost, word_eq_ok h, pure, Except.pure]
    | cons m mask =>
      rw [maskAllGuarded, maskNextGuarded, weight_lost_cons, ← Nat.add_assoc]
      rcases Nat.lt_or_ge (done.cleared + weight [t ^^^ (t &&& m)]) UInt32.size with hfits | hover
      · rw [word_eq_ok hfits, ok_bind]
        change maskAllGuarded _ target mask = _
        rw [ih hfits, List.append_assoc]
        rfl
      · rw [word_eq_error hover, word_eq_error (by omega)]
        rfl

/-- **Masks are put on octets without a failure, unless the ones that this clears are too many to
be counted in 32 bits.** -/
theorem clearGuarded_eq (target mask : Octets) :
    target.clearGuarded mask =
      if target.length = mask.length ∧ UInt32.size ≤ (lost target mask).weight then
        Except.error (Failure.broken "count exceeds a word")
      else Failure.ofExcept (target.clear mask) := by
  rw [clearGuarded, clear, and, combine]
  by_cases hlen : target.length = mask.length
  · rw [if_pos hlen, if_pos hlen, maskAllGuarded_eq (by decide), Nat.zero_add, List.nil_append]
    by_cases hover : UInt32.size ≤ (lost target mask).weight
    · rw [if_pos ⟨hlen, hover⟩, word_eq_error hover]
      rfl
    · rw [if_neg (fun h => hover h.2), word_eq_ok (Nat.not_le.1 hover)]
      rfl
  · rw [if_neg hlen, if_neg hlen, if_neg (fun h => hlen h.1)]
    rfl

/-- The bits of fewer than 2 ^ 29 octets can be counted. -/
theorem clearGuarded_of_length_lt {target : Octets} (h : 8 * target.length < UInt32.size)
    (mask : Octets) : target.clearGuarded mask = ofExcept (target.clear mask) := by
  have hweight := weight_le (lost target mask)
  have hlength := length_lost_le target mask
  rw [clearGuarded_eq, if_neg (by omega)]

theorem lost_zeros (a : Octets) : lost a (List.replicate a.length 0) = a := by
  induction a with
  | nil => rfl
  | cons b a ih =>
    rw [List.length_cons, List.replicate_succ, lost, List.zipWith_cons_cons, ← lost, ih]
    simp

/-- Zeros as a mask clear all ones. -/
theorem clear_zeros (a : Octets) :
    a.clear (List.replicate a.length 0) = .ok ⟨List.replicate a.length 0, a.weight⟩ := by
  have hzeros : a.zipWith (· &&& ·) (List.replicate a.length 0) = List.replicate a.length 0 := by
    refine List.eq_replicate_iff.2 ⟨by simp, ?_⟩
    intro b hb
    obtain ⟨i, hi, rfl⟩ := List.getElem_of_mem hb
    simp
  rw [clear, and, combine, if_pos List.length_replicate.symm, lost_zeros, hzeros]
  rfl

theorem weight_full (n : Nat) : weight (List.replicate n 0xFF) = 8 * n := by
  induction n with
  | zero => rfl
  | succ n ih =>
    have hfull : (octetBits 0xFF).count true = 8 := by decide
    rw [List.replicate_succ, weight_cons, hfull, ih]
    omega

/-- Full octets that are cleared have eight ones each. -/
theorem clear_full (n : Nat) :
    clear (List.replicate n 0xFF) (List.replicate n 0) = .ok ⟨List.replicate n 0, 8 * n⟩ := by
  have h := clear_zeros (List.replicate n 0xFF)
  rwa [List.length_replicate, weight_full] at h

/-- So many full octets that 32 bits cannot count their ones cannot be cleared. -/
theorem clearGuarded_full {n : Nat} (h : UInt32.size ≤ 8 * n) :
    clearGuarded (List.replicate n 0xFF) (List.replicate n 0) =
      .error (.broken "count exceeds a word") := by
  have hlost := lost_zeros (List.replicate n 0xFF)
  rw [List.length_replicate] at hlost
  rw [clearGuarded_eq, hlost, weight_full,
    if_pos ⟨List.length_replicate.trans List.length_replicate.symm, h⟩]

/-! ### Pieces -/

/-- A sequence of even length is cut into pieces that have two octets each. -/
theorem hextetsGuarded_eq : {a : Octets} → a.length % 2 = 0 → hextetsGuarded a = .ok a.hextets
  | [], _ => rfl
  | [_], h => by simp at h
  | x :: y :: rest, h => by
    rw [List.length_cons, List.length_cons] at h
    have ih := hextetsGuarded_eq (a := rest) (by omega)
    rw [hextetsGuarded] at ih ⊢
    rw [chunks, List.mapM_cons, ih]
    rfl

theorem significantGuarded_eq (a : Octets) : significantGuarded a = .ok a.significant := by
  have hle : a.findIdx (· ≠ 0) ≤ a.length := List.findIdx_le_length
  have hstart : (a.findIdx? (· ≠ 0)).getD a.length = a.findIdx (· ≠ 0) := by
    rw [List.findIdx?_eq_guard_findIdx_lt, Option.guard]
    split
    · rfl
    · next h =>
      rw [decide_eq_true_eq, Nat.not_lt] at h
      exact Nat.le_antisymm h hle
  rw [significantGuarded, hstart, slice_length hle, significant,
    List.dropWhile_eq_drop_findIdx_not]
  congr 3
  funext b
  rw [Bool.eq_iff_iff]
  simp

theorem compareGuarded_eq (a b : Octets) : compareGuarded a b = .ok (a.compareUnsigned b) := by
  rw [compareGuarded, significantGuarded_eq, ok_bind, significantGuarded_eq]
  rfl

end Cidr.Octets
