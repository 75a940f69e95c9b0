import Cidr.Wide.Guarded
import Mathlib.Tactic.Ring

/-!
# Sums and differences of wide numbers

A sum is missing exactly if it does not fit, and a difference exactly if it is
negative.  On the way to them nothing leaves its place: of two additions to a limb
only one wraps around, for the ones that both leave make up one carry, and what is
left of the extra bits in a difference is a bit whenever the difference is not
negative.  So no guard ever fails.

## Main results

* `Limb.addChained_eq`, `Limb.subChained_eq` — **the ones of two operations make up
  one carry or borrow.**
* `UInt129.topDifference_eq_zero_or_one` — what is left of the extra bits is a bit.
* `UInt129.addGuarded_eq`, `UInt129.subGuarded_eq`, … — guards do not fail.
* `Wide.add?_sub?_exact` — **sums and differences are exact at the full width.**
-/

namespace Cidr

/-! ### Guards -/

namespace Failure

/-- A few ones can be counted in an octet. -/
theorem foldlM_octet {n : Nat} {bs : List Bool} (h : n + bs.length < 256) :
    bs.foldlM (fun n b => octet (n + b.toNat)) n = .ok (n + (bs.map Bool.toNat).sum) := by
  induction bs generalizing n with
  | nil => rfl
  | cons b bs ih =>
    have hb := b.toNat_le
    rw [List.length_cons] at h
    rw [List.foldlM_cons, octet_eq_ok (by omega), ok_bind, ih (by omega), List.map_cons,
      List.sum_cons, Nat.add_assoc]

/-- A few ones can be taken away in an octet with a sign. -/
theorem foldlM_signedOctet {n : Int} {bs : List Bool} (h : bs.length ≤ n + 128) (h' : n < 128) :
    bs.foldlM (fun n b => signedOctet (n - b.toInt)) n = .ok (n - (bs.map Bool.toNat).sum) := by
  induction bs generalizing n with
  | nil => exact congrArg Except.ok (Int.sub_zero n).symm
  | cons b bs ih =>
    have hb := b.toNat_le
    have hint : b.toInt = b.toNat := by cases b <;> rfl
    rw [List.length_cons] at h
    rw [List.foldlM_cons, hint, signedOctet_eq_ok (by omega) (by omega), ok_bind,
      ih (by omega) (by omega), List.map_cons, List.sum_cons]
    refine congrArg Except.ok ?_
    omega

end Failure

open Failure

/-! ### One limb -/

namespace Limb

theorem addWrapping_eq (x y : UInt64) : addWrapping x y = (sum x y false, carry x y false) := by
  refine Prod.ext ?_ ?_
  · exact (UInt64.add_zero _).symm
  · exact Bool.eq_iff_iff.2 (decide_eq_true_iff.trans (carry_iff x y false).symm)

theorem subWrapping_eq (x y : UInt64) :
    subWrapping x y = (difference x y false, borrow x y false) := by
  refine Prod.ext ?_ ?_
  · exact (UInt64.sub_zero _).symm
  · exact Bool.eq_iff_iff.2 (decide_eq_true_iff.trans (borrow_iff x y false).symm)

/-- **The ones that two additions leave make up one carry.**  So only one of them wraps around. -/
theorem addChained_eq (x y : UInt64) (c : Bool) :
    (addChained x y c).limb = sum x y c ∧
      (addChained x y c).first.toNat + (addChained x y c).second.toNat = (carry x y c).toNat := by
  have hlimb : (addChained x y c).limb = sum x y c := rfl
  refine ⟨hlimb, ?_⟩
  have hfalse : false.toNat = 0 := rfl
  have hfirst := sum_add_carry x y false
  have hsecond := sum_add_carry (sum x y false) c.toUInt64 false
  have hboth := sum_add_carry x y c
  simp only [addChained, addWrapping_eq] at hlimb ⊢
  rw [hlimb, toNat_toUInt64] at hsecond
  omega

/-- **The ones that two subtractions leave make up one borrow.**  So only one of them wraps
around. -/
theorem subChained_eq (x y : UInt64) (b : Bool) :
    (subChained x y b).limb = difference x y b ∧
      (subChained x y b).first.toNat + (subChained x y b).second.toNat = (borrow x y b).toNat := by
  have hlimb : (subChained x y b).limb = difference x y b := rfl
  refine ⟨hlimb, ?_⟩
  have hfalse : false.toNat = 0 := rfl
  have hfirst := difference_add x y false
  have hsecond := difference_add (difference x y false) b.toUInt64 false
  have hboth := difference_add x y b
  simp only [subChained, subWrapping_eq] at hlimb ⊢
  rw [hlimb, toNat_toUInt64] at hsecond
  omega

end Limb

/-! ### Numbers of 33 bits -/

namespace UInt33

variable {x y z : UInt33}

/-- The limb has room for the sum of two numbers of 33 bits. -/
theorem addGuarded_eq (x y : UInt33) : x.addGuarded y = .ok (x.add? y) := by
  have hx := x.word_lt
  have hy := y.word_lt
  have hroom : x.word.toNat + y.word.toNat < UInt64.size := by
    rw [UInt64.size]
    omega
  rw [addGuarded, Limb.addGuarded, if_pos hroom, require_some, ok_bind]
  rfl

theorem ofNat?_eq_none_iff {n : Nat} : ofNat? n = none ↔ 2 ^ 33 ≤ n := by
  rw [ofNat?]
  split
  · next h => exact iff_of_false (Option.some_ne_none _) (Nat.not_le.2 h)
  · next h => exact iff_of_true rfl (Nat.not_lt.1 h)

/-- A sum that fits is exact. -/
theorem add?_eq_some_iff : x.add? y = some z ↔ z.toNat = x.toNat + y.toNat := by
  rw [add?_eq, ofNat?_eq_some_iff]

/-- A sum is missing only if it does not fit. -/
theorem add?_eq_none_iff : x.add? y = none ↔ 2 ^ 33 ≤ x.toNat + y.toNat := by
  rw [add?_eq, ofNat?_eq_none_iff]

/-- A difference that is not negative is exact. -/
theorem sub?_eq_some_iff : x.sub? y = some z ↔ z.toNat + y.toNat = x.toNat := by
  rw [sub?_eq]
  split
  · next h =>
    rw [ofNat?_eq_some_iff]
    omega
  · next h => exact iff_of_false nofun (by omega)

/-- A difference is missing only if it is negative. -/
theorem sub?_eq_none_iff : x.sub? y = none ↔ x.toNat < y.toNat := by
  have hx : x.toNat < 2 ^ 33 := x.toNat_lt
  rw [sub?_eq]
  split
  · next h =>
    rw [ofNat?_eq_none_iff]
    omega
  · next h => exact iff_of_true rfl (Nat.not_le.1 h)

end UInt33

/-! ### Numbers of 129 bits -/

namespace UInt129

variable {x y z : UInt129}

/-- The carries of the upper limb and the extra bits are too few to leave an octet. -/
theorem addGuarded_eq (x y : UInt129) : x.addGuarded y = .ok (x.add? y) := by
  obtain ⟨hlimb, hones⟩ := Limb.addChained_eq x.hi y.hi (Limb.carry x.lo y.lo false)
  have hx := x.top.toNat_le
  rw [addGuarded, Limb.addWrapping_eq, add?]
  simp only
  generalize Limb.addChained x.hi y.hi (Limb.carry x.lo y.lo false) = hi at hlimb hones ⊢
  have hcount : ([y.top, hi.first, hi.second].map Bool.toNat).sum =
      y.top.toNat + (hi.first.toNat + hi.second.toNat) := rfl
  rw [foldlM_octet (by simp only [List.length_cons, List.length_nil]; omega), ok_bind, hcount,
    hones, hlimb, ← Nat.add_assoc]
  refine congrArg Except.ok ?_
  split
  · next h => rw [if_neg (Nat.not_lt.2 h)]
  · next h => rw [if_pos (Nat.not_le.1 h)]

/-- **What is left of the extra bits is a bit** unless the difference is negative. -/
theorem topDifference_eq_zero_or_one {x y : UInt129} (h : compare x y ≠ .lt) :
    topDifference x y = 0 ∨ topDifference x y = 1 := by
  rw [compare_eq, Nat.compare_ne_lt] at h
  have hdiff := topDifference_eq x y
  have hslo := (Limb.difference x.lo y.lo false).toNat_lt
  have hshi := (Limb.difference x.hi y.hi (Limb.borrow x.lo y.lo false)).toNat_lt
  have hx := x.toNat_lt
  omega

/-- The borrows of the upper limb and the extra bits are too few to leave an octet with a sign. -/
theorem subGuarded_eq (x y : UInt129) : x.subGuarded y = .ok (x.sub? y) := by
  rw [subGuarded, sub?]
  by_cases hlt : compare x y = .lt
  · rw [if_pos hlt, if_pos hlt]
    rfl
  obtain ⟨hlimb, hones⟩ := Limb.subChained_eq x.hi y.hi (Limb.borrow x.lo y.lo false)
  have hx := x.top.toNat_le
  have hint : ∀ b : Bool, b.toInt = b.toNat := by decide
  rw [if_neg hlt, if_neg hlt, Limb.subWrapping_eq]
  simp only
  generalize Limb.subChained x.hi y.hi (Limb.borrow x.lo y.lo false) = hi at hlimb hones ⊢
  have hcount : ([y.top, hi.first, hi.second].map Bool.toNat).sum =
      y.top.toNat + (hi.first.toNat + hi.second.toNat) := rfl
  have htop : x.top.toInt - ([y.top, hi.first, hi.second].map Bool.toNat).sum =
      topDifference x y := by
    rw [hcount, hones, topDifference, hint, hint, hint]
    omega
  rw [foldlM_signedOctet (by simp only [List.length_cons, List.length_nil, hint]; omega)
    (by rw [hint]; omega), ok_bind, htop, hlimb, if_pos (topDifference_eq_zero_or_one hlt)]
  rfl

/-- A borrow goes through both limbs and takes the extra bit. -/
example : subGuarded ⟨true, 0, 0⟩ one =
    .ok (some ⟨false, 0xFFFFFFFFFFFFFFFF, 0xFFFFFFFFFFFFFFFF⟩) := by
  rfl

theorem ofNat?_eq_none_iff {n : Nat} : ofNat? n = none ↔ 2 ^ 129 ≤ n := by
  rw [ofNat?]
  split
  · next h => exact iff_of_false (Option.some_ne_none _) (Nat.not_le.2 h)
  · next h => exact iff_of_true rfl (Nat.not_lt.1 h)

/-- A sum that fits is exact. -/
theorem add?_eq_some_iff : x.add? y = some z ↔ z.toNat = x.toNat + y.toNat := by
  rw [add?_eq, ofNat?_eq_some_iff]

/-- A sum is missing only if it does not fit. -/
theorem add?_eq_none_iff : x.add? y = none ↔ 2 ^ 129 ≤ x.toNat + y.toNat := by
  rw [add?_eq, ofNat?_eq_none_iff]

/-- A difference that is not negative is exact. -/
theorem sub?_eq_some_iff : x.sub? y = some z ↔ z.toNat + y.toNat = x.toNat := by
  rw [sub?_eq]
  split
  · next h =>
    rw [ofNat?_eq_some_iff]
    omega
  · next h => exact iff_of_false nofun (by omega)

/-- A difference is missing only if it is negative. -/
theorem sub?_eq_none_iff : x.sub? y = none ↔ x.toNat < y.toNat := by
  have hx : x.toNat < 2 ^ 129 := x.toNat_lt
  rw [sub?_eq]
  split
  · next h =>
    rw [ofNat?_eq_none_iff]
    omega
  · next h => exact iff_of_true rfl (Nat.not_le.1 h)

end UInt129

/-! ### Wide numbers -/

namespace Wide

theorem addGuarded_eq (x y : Wide) : x.addGuarded y = .ok (x.add? y) := by
  cases x with
  | v4 x =>
    cases y with
    | v4 y => rw [addGuarded, UInt33.addGuarded_eq, ok_bind]; rfl
    | v6 y => rfl
  | v6 x =>
    cases y with
    | v4 y => rfl
    | v6 y => rw [addGuarded, UInt129.addGuarded_eq, ok_bind]; rfl

theorem subGuarded_eq (x y : Wide) : x.subGuarded y = .ok (x.sub? y) := by
  cases x with
  | v4 x => cases y <;> rfl
  | v6 x =>
    cases y with
    | v4 y => rfl
    | v6 y => rw [subGuarded, UInt129.subGuarded_eq, ok_bind]; rfl

theorem add?_eq_none_iff {x y : Wide} :
    x.add? y = none ↔ x.family ≠ y.family ∨ 2 ^ (x.family.bitWidth + 1) ≤ x.toNat + y.toNat := by
  cases x with
  | v4 x =>
    cases y with
    | v4 y => simp [add?, UInt33.add?_eq_none_iff]
    | v6 y => simp [add?]
  | v6 x =>
    cases y with
    | v4 y => simp [add?]
    | v6 y => simp [add?, UInt129.add?_eq_none_iff]

theorem sub?_eq_none_iff {x y : Wide} :
    x.sub? y = none ↔ x.family ≠ y.family ∨ x.toNat < y.toNat := by
  cases x with
  | v4 x =>
    cases y with
    | v4 y => simp [sub?, UInt33.sub?_eq_none_iff]
    | v6 y => simp [sub?]
  | v6 x =>
    cases y with
    | v4 y => simp [sub?]
    | v6 y => simp [sub?, UInt129.sub?_eq_none_iff]

/-- **Sums and differences are exact at the full width.**  A sum of two numbers of one type is there
exactly if it is below `2 ^ 33` or `2 ^ 129`, and a difference exactly if it is not negative; numbers
of different families have neither.  Made one machine operation at a time they come out the same, and
nothing on the way leaves its place: no limb of a sum of 33 bits wraps around, the ones of two
operations on a limb are at most one, the ones of the upper limb and the extra bits can be counted in
an octet, and what is left of the extra bits in a difference is a bit. -/
theorem add?_sub?_exact :
    (∀ x y : UInt33,
      (∀ z, x.add? y = some z ↔ z.toNat = x.toNat + y.toNat) ∧
      (x.add? y = none ↔ 2 ^ 33 ≤ x.toNat + y.toNat) ∧
      (∀ z, x.sub? y = some z ↔ z.toNat + y.toNat = x.toNat) ∧
      (x.sub? y = none ↔ x.toNat < y.toNat) ∧
      x.addGuarded y = .ok (x.add? y)) ∧
    (∀ x y : UInt129,
      (∀ z, x.add? y = some z ↔ z.toNat = x.toNat + y.toNat) ∧
      (x.add? y = none ↔ 2 ^ 129 ≤ x.toNat + y.toNat) ∧
      (∀ z, x.sub? y = some z ↔ z.toNat + y.toNat = x.toNat) ∧
      (x.sub? y = none ↔ x.toNat < y.toNat) ∧
      x.addGuarded y = .ok (x.add? y) ∧ x.subGuarded y = .ok (x.sub? y)) ∧
    (∀ x y : Wide,
      (∀ z, x.add? y = some z ↔
        x.family = y.family ∧ z.family = x.family ∧ z.toNat = x.toNat + y.toNat) ∧
      (x.add? y = none ↔
        x.family ≠ y.family ∨ 2 ^ (x.family.bitWidth + 1) ≤ x.toNat + y.toNat) ∧
      (∀ z, x.sub? y = some z ↔
        x.family = y.family ∧ z.family = x.family ∧ z.toNat + y.toNat = x.toNat) ∧
      (x.sub? y = none ↔ x.family ≠ y.family ∨ x.toNat < y.toNat) ∧
      x.addGuarded y = .ok (x.add? y) ∧ x.subGuarded y = .ok (x.sub? y)) ∧
    ∀ (x y : UInt64) (c : Bool),
      (Limb.addChained x y c).first.toNat + (Limb.addChained x y c).second.toNat ≤ 1 ∧
      (Limb.subChained x y c).first.toNat + (Limb.subChained x y c).second.toNat ≤ 1 := by
  refine ⟨?_, ?_, ?_, ?_⟩
  · intro x y
    exact ⟨fun z => UInt33.add?_eq_some_iff, UInt33.add?_eq_none_iff,
      fun z => UInt33.sub?_eq_some_iff, UInt33.sub?_eq_none_iff, x.addGuarded_eq y⟩
  · intro x y
    exact ⟨fun z => UInt129.add?_eq_some_iff, UInt129.add?_eq_none_iff,
      fun z => UInt129.sub?_eq_some_iff, UInt129.sub?_eq_none_iff, x.addGuarded_eq y,
      x.subGuarded_eq y⟩
  · intro x y
    exact ⟨fun z => add?_eq_some_iff, add?_eq_none_iff, fun z => sub?_eq_some_iff,
      sub?_eq_none_iff, x.addGuarded_eq y, x.subGuarded_eq y⟩
  · intro x y c
    rw [(Limb.addChained_eq x y c).2, (Limb.subChained_eq x y c).2]
    exact ⟨Bool.toNat_le _, Bool.toNat_le _⟩

end Wide

end Cidr
