import Cidr.Proofs.Text
import Cidr.Proofs.Wide.Guarded
import Cidr.Text.Addition
import Mathlib.Data.Nat.Digits.Defs

/-!
# Wide numbers in decimal

Numbers of up to 128 bits are written like any other number.  Where the extra bit is
set, its value and that of the other bits are added in their written form.  What is
still to come of such a sum depends on the digits that are left and on the carry alone.
A round settles the lowest digit of it, and leaves the quotient of all that is left by
ten.  So the digits that come are those of the sum of what is left, and as a number
that is used up has no digits, none of them is a superfluous zero.

## Main definitions

* `Addition.InOrder` — only digits are left, and a carry below ten.
* `Addition.rest` — the digits that are still to come.

## Main results

* `Decimal.addDigits_digits` — **adding digits is adding numbers.**
* `Addition.InOrder.round?_cases` — what a round does.
* `Addition.ends_start_iff` — **an addition ends after one round for each digit of the
  sum.**
* `decimal_exact` — **wide numbers are written in decimal.**
-/

namespace Cidr

open Failure

/-! ### Sums of digits -/

namespace Decimal

variable {a : List Char} {carry : Nat}

theorem addDigits_nil_left (ys : List Nat) (carry : Nat) :
    addDigits [] ys carry = addCarry ys carry := by rw [addDigits]

theorem addDigits_nil_right (xs : List Nat) (carry : Nat) :
    addDigits xs [] carry = addCarry xs carry := by cases xs <;> rw [addDigits]

/-- The lowest digit of a sum and the others, where a digit that is not there counts as zero. -/
theorem addDigits_eq (xs ys : List Nat) (hc : carry < 10) :
    addDigits xs ys carry = if xs = [] ∧ ys = [] ∧ carry = 0 then [] else
      (xs.headD 0 + ys.headD 0 + carry) % 10 ::
        addDigits xs.tail ys.tail ((xs.headD 0 + ys.headD 0 + carry) / 10) := by
  cases xs with
  | nil =>
    cases ys with
    | nil =>
      cases carry with
      | zero => rfl
      | succ carry =>
        rw [if_neg (by simp), addDigits_nil_left, addCarry, List.headD_nil, Nat.add_zero,
          Nat.zero_add, Nat.mod_eq_of_lt hc, Nat.div_eq_of_lt hc]
        · rfl
        · simp
    | cons y ys =>
      rw [if_neg (by simp), addDigits_nil_left, List.headD_nil, Nat.zero_add, List.tail_nil,
        addDigits_nil_left]
      rfl
  | cons x xs =>
    rw [if_neg (by simp)]
    cases ys with
    | nil =>
      rw [addDigits_nil_right, List.headD_nil, Nat.add_zero, List.tail_nil, addDigits_nil_right]
      rfl
    | cons y ys => rfl

theorem headD_digits (n : Nat) : (Nat.digits 10 n).headD 0 = n % 10 := by
  rcases Nat.eq_zero_or_pos n with rfl | hn
  · rfl
  · rw [Nat.digits_def' (by decide) hn, List.headD_cons]

theorem tail_digits (n : Nat) : (Nat.digits 10 n).tail = Nat.digits 10 (n / 10) := by
  rcases Nat.eq_zero_or_pos n with rfl | hn
  · rfl
  · rw [Nat.digits_def' (by decide) hn, List.tail_cons]

/-- **Adding digits is adding numbers,** with a carry that comes in. -/
theorem addDigits_digits (m n : Nat) (hc : carry < 10) :
    addDigits (Nat.digits 10 m) (Nat.digits 10 n) carry = Nat.digits 10 (m + n + carry) := by
  -- the sum gets smaller from one digit to the next
  generalize hs : m + n + carry = s
  induction s using Nat.strongRecOn generalizing m n carry with
  | ind s ih =>
    rw [addDigits_eq _ _ hc]
    simp only [Nat.digits_eq_nil_iff_eq_zero]
    split
    · next hzero =>
      rw [show s = 0 by omega, Nat.digits_zero]
    · next hpos =>
      rw [headD_digits, headD_digits, tail_digits, tail_digits,
        ih (s / 10) (by omega) (m / 10) (n / 10) (by omega) (by omega),
        Nat.digits_def' (by decide) (by omega : 0 < s)]
      exact congrArg (· :: _) (by omega)

/-- The digits of a number from the right: the last one, and those of a tenth of the number. -/
theorem lowDigits_digits (n : Nat) : lowDigits (digits n) = n % 10 :: Nat.digits 10 (n / 10) := by
  have hvalue : ∀ d < 10, d.digitChar.toNat - '0'.toNat = d := by decide
  induction n using Nat.strongRecOn with
  | ind n ih =>
    rcases Nat.lt_or_ge n 10 with hn | hn
    · rw [digits, Nat.toDigits_of_lt_base hn, Nat.mod_eq_of_lt hn, Nat.div_eq_of_lt hn,
        Nat.digits_zero]
      exact congrArg ([·]) (hvalue n hn)
    · have hrest := ih (n / 10) (by omega)
      rw [← Nat.digits_def' (by decide) (by omega : 0 < n / 10)] at hrest
      rw [digits, Nat.toDigits_of_base_le (by decide) hn, lowDigits, List.reverse_append,
        List.reverse_singleton, List.singleton_append, List.map_cons, hvalue _ (by omega)]
      exact congrArg _ hrest

/-- Digits are determined by their values. -/
theorem map_digitChar_lowDigits (ha : ∀ c ∈ a, c.isDigit) :
    ((lowDigits a).map Nat.digitChar).reverse = a := by
  rw [lowDigits, ← List.map_reverse, ← List.map_reverse, List.reverse_reverse, List.map_map]
  refine (List.map_congr_left ?_).trans (List.map_id a)
  intro c hc
  exact (isDigit_ten_iff.2 ⟨ha c hc, rfl⟩).eq_digitChar.symm

/-- **The sum of two written numbers is the written sum.** -/
theorem add_digits (m n : Nat) : add (digits m) (digits n) = digits (m + n) := by
  have hsum : addDigits (lowDigits (digits m)) (lowDigits (digits n)) 0 =
      lowDigits (digits (m + n)) := by
    have hlow : (m % 10 + n % 10 + 0) % 10 = (m + n) % 10 := by omega
    have hrest : m / 10 + n / 10 + (m % 10 + n % 10 + 0) / 10 = (m + n) / 10 := by omega
    rw [lowDigits_digits, lowDigits_digits, lowDigits_digits, addDigits,
      addDigits_digits _ _ (by omega), hlow, hrest]
  rw [add, hsum, map_digitChar_lowDigits fun _ => isDigit_of_mem_digits]

end Decimal

/-! ### Rounds -/

namespace Addition

variable {s t : Addition} {a b sum sum' : List Char} {rounds rounds' : Nat}

/-- The values of digits. -/
def values (a : List Char) : List Nat := a.map fun c => c.toNat - '0'.toNat

/-- Only digits are left, and the carry is less than ten. -/
structure InOrder (s : Addition) : Prop where
  isDigit_left : ∀ c ∈ s.left, c.isDigit
  isDigit_right : ∀ c ∈ s.right, c.isDigit
  carry_lt : s.carry < 10

/-- The digits of the sum that are still to come, the least significant one first. -/
def rest (s : Addition) : List Nat := Decimal.addDigits (values s.left) (values s.right) s.carry

theorem inOrder_start (ha : ∀ c ∈ a, c.isDigit) (hb : ∀ c ∈ b, c.isDigit) :
    (start a b).InOrder where
  isDigit_left c hc := ha c (List.mem_reverse.1 hc)
  isDigit_right c hc := hb c (List.mem_reverse.1 hc)
  carry_lt := Nat.zero_lt_succ 9

/-- The next digit has a value, which is less than ten. -/
theorem exists_digitValue (ha : ∀ c ∈ a, c.isDigit) :
    ∃ d < 10, digitValue a = .ok d ∧ (values a).headD 0 = d := by
  cases a with
  | nil => exact ⟨0, by decide, rfl, rfl⟩
  | cons c a =>
    have hc := ha c List.mem_cons_self
    have hdigit := isDigit_ten_iff.2 ⟨hc, rfl⟩
    rw [Char.isDigit, Bool.and_eq_true, decide_eq_true_eq] at hc
    exact ⟨_, hdigit.1, difference_eq_ok hc.1, rfl⟩

/-- **What a round does:** it gives the lowest one of the digits that are still to come.  There is
no further round when no digit is to come. -/
theorem InOrder.round?_cases (h : s.InOrder) :
    s.rest = [] ∧ s.round? = .ok none ∨
      ∃ t d, s.round? = .ok (some t) ∧ t.InOrder ∧ s.rest = d :: t.rest ∧
        t.sum = d.digitChar :: s.sum := by
  obtain ⟨x, hx, hxvalue, hxhead⟩ := exists_digitValue h.isDigit_left
  obtain ⟨y, hy, hyvalue, hyhead⟩ := exists_digitValue h.isDigit_right
  have hcarry := h.carry_lt
  have hnil : ∀ a, values a = [] ↔ a = [] := fun a => List.map_eq_nil_iff
  rw [rest, Decimal.addDigits_eq _ _ hcarry, round?, hxhead, hyhead]
  simp only [hnil]
  by_cases hend : s.left = [] ∧ s.right = [] ∧ s.carry = 0
  · rw [if_pos hend, if_pos hend]
    exact .inl ⟨rfl, rfl⟩
  · have hchar : ∀ d < 10, Char.ofNat ('0'.toNat + d) = d.digitChar := by decide
    have hzero : '0'.toNat = 48 := rfl
    rw [if_neg hend, if_neg hend, hxvalue, ok_bind, hyvalue, ok_bind, octet_eq_ok (by omega),
      ok_bind, octet_eq_ok (by omega), ok_bind, octet_eq_ok (by omega), ok_bind,
      hchar _ (by omega)]
    refine .inr ⟨_, _, rfl, ⟨?_, ?_, ?_⟩, ?_, rfl⟩
    · exact fun c hc => h.isDigit_left c (List.mem_of_mem_tail hc)
    · exact fun c hc => h.isDigit_right c (List.mem_of_mem_tail hc)
    · exact Nat.div_lt_of_lt_mul (by omega)
    · rw [rest, values, values, ← List.map_tail, ← List.map_tail]
      rfl

/-- **An addition takes a round for each digit that is still to come,** and puts these before the
others. -/
theorem InOrder.ends (h : s.InOrder) :
    Ends s.rest.length s ((s.rest.map Nat.digitChar).reverse ++ s.sum) := by
  generalize hds : s.rest = ds
  induction ds generalizing s with
  | nil =>
    rcases h.round?_cases with ⟨-, hround⟩ | ⟨t, d, -, -, hrest, -⟩
    · exact .done hround
    · rw [hds] at hrest
      cases hrest
  | cons d ds ih =>
    rcases h.round?_cases with ⟨hrest, -⟩ | ⟨t, e, hround, ht, hrest, hsum⟩
    · rw [hds] at hrest
      cases hrest
    · rw [hds] at hrest
      obtain ⟨rfl, rfl⟩ := List.cons.inj hrest
      have hends := ih ht rfl
      rw [hsum] at hends
      rw [List.map_cons, List.reverse_cons, List.append_assoc]
      exact .round hround hends

/-- An addition ends in one way only. -/
theorem Ends.unique (h : Ends rounds s sum) (h' : Ends rounds' s sum') :
    rounds = rounds' ∧ sum = sum' := by
  induction h generalizing rounds' with
  | done hround =>
    cases h' with
    | done => exact ⟨rfl, rfl⟩
    | round hround' => exact absurd (hround.symm.trans hround') nofun
  | round hround _ ih =>
    cases h' with
    | done hround' => exact absurd (hround.symm.trans hround') nofun
    | round hround' hrest =>
      cases hround.symm.trans hround'
      obtain ⟨rfl, rfl⟩ := ih hrest
      exact ⟨rfl, rfl⟩

/-- **The addition of two written numbers ends after one round for each digit of the sum.** -/
theorem ends_start_iff (ha : ∀ c ∈ a, c.isDigit) (hb : ∀ c ∈ b, c.isDigit) :
    Ends rounds (start a b) sum ↔
      sum = Decimal.add a b ∧ rounds = sum.length := by
  have hends := (inOrder_start ha hb).ends
  have hsum : ((start a b).rest.map Nat.digitChar).reverse ++ (start a b).sum = Decimal.add a b :=
    List.append_nil _
  have hlen : (start a b).rest.length = (Decimal.add a b).length := by
    rw [← hsum]
    simp [start]
  rw [hsum, hlen] at hends
  constructor
  · intro h
    obtain ⟨rfl, rfl⟩ := h.unique hends
    exact ⟨rfl, rfl⟩
  · rintro ⟨rfl, rfl⟩
    exact hends

end Addition

/-! ### Wide numbers -/

theorem UInt129.digits_eq (x : UInt129) : x.digits = Decimal.digits x.toNat := by
  rw [digits, toNat]
  cases x.top with
  | false => rw [if_neg Bool.false_ne_true, Bool.toNat_false, Nat.zero_shiftLeft, Nat.zero_add]
  | true => rw [if_pos rfl, Decimal.add_digits, Bool.toNat_true]

/-- **Wide numbers are written in decimal,** without superfluous zeros.  Where the extra bit is set,
the text is what the addition of `2 ^ 128` and the number below the extra bit ends in.  An addition
of any two decimal numbers, however long they are, ends in the text of their sum, after one round
for each of its digits, and in nothing else; no count on the way exceeds its octet. -/
theorem decimal_exact :
    (∀ x : UInt33, IsPlainNumeral 10 (toString x).toList x.toNat) ∧
    (∀ x : UInt129, IsPlainNumeral 10 (toString x).toList x.toNat) ∧
    (∀ x : Wide, IsPlainNumeral 10 (toString x).toList x.toNat) ∧
    (∀ x : UInt129, x.top = true → ∃ rounds,
      (Addition.start "340282366920938463463374607431768211456".toList
        (Decimal.digits x.lowNat)).Ends rounds (toString x).toList) ∧
    ∀ (a b : List Char) (m n : Nat), IsPlainNumeral 10 a m → IsPlainNumeral 10 b n →
      IsPlainNumeral 10 (Decimal.add a b) (m + n) ∧
      ∀ rounds sum, (Addition.start a b).Ends rounds sum ↔
        sum = Decimal.add a b ∧ rounds = sum.length := by
  have h33 : ∀ x : UInt33, IsPlainNumeral 10 (toString x).toList x.toNat := fun x =>
    isPlainNumeral_ten_iff.2 String.toList_ofList
  have h129 : ∀ x : UInt129, IsPlainNumeral 10 (toString x).toList x.toNat := by
    intro x
    rw [isPlainNumeral_ten_iff, ← x.digits_eq]
    exact String.toList_ofList
  refine ⟨h33, h129, ?_, ?_, ?_⟩
  · intro x
    cases x with
    | v4 x => exact h33 x
    | v6 x => exact h129 x
  · intro x htop
    have hextra : "340282366920938463463374607431768211456".toList =
        Decimal.digits (1 <<< 128) := by decide
    have htext : (toString x).toList =
        Decimal.add (Decimal.digits (1 <<< 128)) (Decimal.digits x.lowNat) := by
      refine String.toList_ofList.trans ?_
      rw [UInt129.digits, if_pos htop]
    rw [hextra, htext]
    exact ⟨_, (Addition.ends_start_iff (fun _ => Decimal.isDigit_of_mem_digits)
      fun _ => Decimal.isDigit_of_mem_digits).2 ⟨rfl, rfl⟩⟩
  · intro a b m n ha hb
    obtain rfl := isPlainNumeral_ten_iff.1 ha
    obtain rfl := isPlainNumeral_ten_iff.1 hb
    have hdigit : ∀ n, ∀ c ∈ Decimal.digits n, c.isDigit :=
      fun _ _ => Decimal.isDigit_of_mem_digits
    exact ⟨isPlainNumeral_ten_iff.2 (Decimal.add_digits m n),
      fun _ _ => Addition.ends_start_iff (hdigit m) (hdigit n)⟩

/-- A one is carried through all digits of a number, and the sum has a digit more.  The greatest
number of 129 bits is written by way of an addition. -/
theorem decimal_exact_of_nines :
    (IsPlainNumeral 10 "99999999999999999999".toList 99999999999999999999 ∧
      IsPlainNumeral 10 "1".toList 1 ∧
      (Addition.start "99999999999999999999".toList "1".toList).Ends 21
        "100000000000000000000".toList) ∧
    UInt129.max.top = true ∧ ∃ rounds,
      (Addition.start "340282366920938463463374607431768211456".toList
        (Decimal.digits UInt129.max.lowNat)).Ends rounds
        "680564733841876926926749214863536422911".toList := by
  obtain ⟨-, -, -, hextra, hadd⟩ := decimal_exact
  have hnines : IsPlainNumeral 10 "99999999999999999999".toList 99999999999999999999 :=
    isPlainNumeral_ten_iff.2 (by decide)
  have hone : IsPlainNumeral 10 "1".toList 1 := isPlainNumeral_ten_iff.2 (by decide)
  have hends := (hadd _ _ _ _ hnines hone).2
  have hmax : "680564733841876926926749214863536422911" = toString UInt129.max := by decide
  rw [hmax]
  exact ⟨⟨hnines, hone, (hends _ _).2 ⟨by decide, by decide⟩⟩, rfl, hextra .max rfl⟩

end Cidr
