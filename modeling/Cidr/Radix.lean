/-!
# Order of numbers by their digits

Two numbers that are each split into a leading part and a rest of some number of
bits compare by their leading parts first and then by their rests.

## Main results

* `Radix.compare_then` — comparing in that order is comparing the numbers.
-/

namespace Cidr.Radix

/-- A smaller leading part makes a smaller number, whatever the rests of `w` bits are. -/
theorem lt_of_leading_lt {a b c d w : Nat} (h : a < c) (hb : b < 1 <<< w) :
    a <<< w + b < c <<< w + d := by
  have : (a + 1) * 2 ^ w ≤ c * 2 ^ w := Nat.mul_le_mul_right _ h
  rw [Nat.add_mul, Nat.one_mul] at this
  rw [Nat.one_shiftLeft] at hb
  rw [Nat.shiftLeft_eq, Nat.shiftLeft_eq]
  omega

/-- **Digits compare from the left.**  The order of leading parts decides, and that of the
rests where the leading parts agree. -/
theorem compare_then {a b c d w : Nat} (hb : b < 1 <<< w) (hd : d < 1 <<< w) :
    (compare a c).then (compare b d) = compare (a <<< w + b) (c <<< w + d) := by
  rcases Nat.lt_trichotomy a c with h | h | h
  · rw [Nat.compare_eq_lt.2 h, Nat.compare_eq_lt.2 (lt_of_leading_lt h hb)]
    rfl
  · subst h
    rw [Nat.compare_eq_eq.2 rfl]
    rcases Nat.lt_trichotomy b d with h' | h' | h'
    · rw [Nat.compare_eq_lt.2 h', Nat.compare_eq_lt.2 (by omega)]
      rfl
    · rw [h', Nat.compare_eq_eq.2 rfl, Nat.compare_eq_eq.2 rfl]
      rfl
    · rw [Nat.compare_eq_gt.2 h', Nat.compare_eq_gt.2 (by omega)]
      rfl
  · rw [Nat.compare_eq_gt.2 h, Nat.compare_eq_gt.2 (lt_of_leading_lt h hd)]
    rfl

end Cidr.Radix
