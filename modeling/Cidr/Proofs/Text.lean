import Cidr.Text.Decimal
import Cidr.Text.Hex
import Cidr.Text.Numeral
import Mathlib.Data.List.Basic
import Mathlib.Data.List.Induction
import Mathlib.Tactic.Ring

/-!
# Reading and writing numbers

The readers of decimal and hexadecimal numbers accept exactly the numerals of
their base, and a number is written as the only numeral for it that has neither
superfluous zeros nor capital letters.

## Main results

* `Decimal.value?_eq_some_iff`, `Hex.value?_eq_some_iff` — the readers accept
  exactly the numerals.
* `isLowerNumeral_iff` — **there is one numeral without superfluous zeros or capital
  letters.**
* `isPlainNumeral_ten_iff` — in decimal it is the only one without superfluous zeros.
-/

namespace Cidr

/-! ### Digits -/

theorem toNat_lt_of_toLower {c : Char} (h : c.toLower.toNat < 128) : c.toNat < 128 := by
  change (dite _ _ _ : Char).toNat < 128 at h
  split at h
  · next hc =>
    have hle : c.toNat ≤ 90 := hc.2
    omega
  · exact h

theorem toNat_digitChar_lt {d : Nat} (hd : d < 16) : d.digitChar.toNat < 128 := by
  revert d
  decide

/-- Digits are ASCII characters. -/
theorem IsDigit.toNat_lt {base : Nat} {c : Char} {d : Nat} (h : IsDigit base c d)
    (hbase : base ≤ 16) : c.toNat < 128 := by
  apply toNat_lt_of_toLower
  rw [h.2]
  exact toNat_digitChar_lt (Nat.lt_of_lt_of_le h.1 hbase)

/-- What holds of all ASCII characters can be checked one by one. -/
theorem forall_ascii {P : Char → Prop} (h : ∀ n < 128, P (Char.ofNat n)) {c : Char}
    (hc : c.toNat < 128) : P c := by
  have := h c.toNat hc
  rwa [Char.ofNat_toNat] at this

theorem toNat_lt_of_isDigit {c : Char} (h : c.isDigit) : c.toNat < 128 := by
  rw [Char.isDigit, Bool.and_eq_true, decide_eq_true_eq, decide_eq_true_eq] at h
  have hle : c.toNat ≤ 57 := h.2
  omega

/-- A character is a digit for one number only. -/
theorem IsDigit.unique {base : Nat} {c : Char} {d e : Nat} (hbase : base ≤ 16)
    (hd : IsDigit base c d) (he : IsDigit base c e) : d = e := by
  have hinj : ∀ d < 16, ∀ e < 16, d.digitChar = e.digitChar → d = e := by decide
  exact hinj d (Nat.lt_of_lt_of_le hd.1 hbase) e (Nat.lt_of_lt_of_le he.1 hbase)
    (hd.2.symm.trans he.2)

/-- The ten decimal digits. -/
theorem isDigit_ten_iff {c : Char} {d : Nat} :
    IsDigit 10 c d ↔ c.isDigit ∧ c.toNat - '0'.toNat = d := by
  have hten : c.isDigit → IsDigit 10 c (c.toNat - '0'.toNat) := by
    intro h
    exact forall_ascii (P := fun c => c.isDigit → IsDigit 10 c (c.toNat - '0'.toNat))
      (by decide +kernel) (toNat_lt_of_isDigit h) h
  have hdigit : IsDigit 10 c d → c.isDigit := by
    intro h
    exact forall_ascii (P := fun c => ∀ d < 10, IsDigit 10 c d → c.isDigit) (by decide +kernel)
      (h.toNat_lt (by decide)) d h.1 h
  constructor
  · intro h
    exact ⟨hdigit h, (hten (hdigit h)).unique (by decide) h⟩
  · intro ⟨hc, hd⟩
    rw [← hd]
    exact hten hc

theorem IsDigit.eq_digitChar {c : Char} {d : Nat} (h : IsDigit 10 c d) : c = d.digitChar :=
  forall_ascii (P := fun c => ∀ d < 10, IsDigit 10 c d → c = d.digitChar) (by decide +kernel)
    (h.toNat_lt (by decide)) d h.1 h

/-- The hexadecimal digits of either case. -/
theorem Hex.digitValue?_eq_some_iff {c : Char} {d : Nat} :
    Hex.digitValue? c = some d ↔ IsDigit 16 c d := by
  constructor
  · intro h
    have hc : c.toNat < 128 := by
      rw [Hex.digitValue?] at h
      split at h
      · next hc => exact toNat_lt_of_isDigit hc
      split at h
      · next hc =>
        have hle : c.toNat ≤ 102 := hc.2
        omega
      split at h
      · next hc =>
        have hle : c.toNat ≤ 70 := hc.2
        omega
      · cases h
    exact forall_ascii (P := fun c => ∀ d ∈ Hex.digitValue? c, IsDigit 16 c d) (by decide +kernel)
      hc d h
  · intro h
    exact forall_ascii (P := fun c => ∀ d < 16, IsDigit 16 c d → Hex.digitValue? c = some d)
      (by decide +kernel) (h.toNat_lt (by decide)) d h.1 h

/-! ### Numerals -/

namespace IsNumeral

variable {base : Nat} {s : List Char} {n : Nat}

theorem ne_nil (h : IsNumeral base s n) : s ≠ [] := by
  cases h with
  | digit hc => simp
  | snoc hs hc => simp

/-- A numeral is made of digits. -/
theorem exists_isDigit (h : IsNumeral base s n) {c : Char} (hc : c ∈ s) :
    ∃ d, IsDigit base c d := by
  induction h with
  | digit hd =>
    rw [List.mem_singleton] at hc
    exact ⟨_, hc ▸ hd⟩
  | snoc hs hd ih =>
    rw [List.mem_append, List.mem_singleton] at hc
    cases hc with
    | inl hc => exact ih hc
    | inr hc => exact ⟨_, hc ▸ hd⟩

/-- A character that is no digit does not occur in a numeral. -/
theorem not_mem (h : IsNumeral base s n) (hbase : base ≤ 16) {c : Char}
    (hc : Hex.digitValue? c = none) : c ∉ s := by
  intro hmem
  obtain ⟨d, hd⟩ := h.exists_isDigit hmem
  have hsome : Hex.digitValue? c = some d :=
    Hex.digitValue?_eq_some_iff.2 ⟨Nat.lt_of_lt_of_le hd.1 hbase, hd.2⟩
  rw [hc] at hsome
  cases hsome

/-- A numeral of some length stands for a number below that power of the base. -/
theorem lt_pow (h : IsNumeral base s n) : n < base ^ s.length := by
  induction h with
  | digit hc => simpa using hc.1
  | @snoc s n c d hs hc ih =>
    have hd := hc.1
    have hmul : base * (n + 1) ≤ base * base ^ s.length := Nat.mul_le_mul_left _ ih
    rw [List.length_append, List.length_singleton, pow_succ']
    rw [Nat.mul_add] at hmul
    omega

/-- Zeros may stand before a numeral. -/
theorem zero_cons (hbase : 0 < base) (h : IsNumeral base s n) : IsNumeral base ('0' :: s) n := by
  have hzero : IsDigit base '0' 0 := ⟨hbase, rfl⟩
  induction h with
  | @digit c d hc =>
    have := (IsNumeral.digit hzero).snoc hc
    rwa [Nat.mul_zero, Nat.zero_add] at this
  | snoc hs hc ih => exact ih.snoc hc

theorem leftpad (hbase : 0 < base) (h : IsNumeral base s n) (count : Nat) :
    IsNumeral base (s.leftpad count '0') n := by
  rw [List.leftpad]
  induction count - s.length with
  | zero => exact h
  | succ k ih => exact ih.zero_cons hbase

/-- The written form of a number is a numeral for it. -/
theorem toDigits (hbase : 1 < base) (hle : base ≤ 16) (n : Nat) :
    IsNumeral base (base.toDigits n) n := by
  have hdigit : ∀ d < 16, d.digitChar.toLower = d.digitChar := by decide
  induction n using Nat.strongRecOn with
  | ind n ih =>
    rcases Nat.lt_or_ge n base with h | h
    · rw [Nat.toDigits_of_lt_base h]
      exact .digit ⟨h, hdigit n (by omega)⟩
    · have hmod : n % base < base := Nat.mod_lt n (by omega)
      have := (ih (n / base) (Nat.div_lt_self (by omega) hbase)).snoc
        ⟨hmod, hdigit (n % base) (by omega)⟩
      rwa [Nat.div_add_mod, ← Nat.toDigits_of_base_le hbase h] at this

end IsNumeral

/-- Digits in a row are a numeral. -/
theorem exists_isNumeral {base : Nat} {s : List Char} (hs : s ≠ [])
    (h : ∀ c ∈ s, ∃ d, IsDigit base c d) : ∃ n, IsNumeral base s n := by
  induction s using List.reverseRecOn with
  | nil => exact absurd rfl hs
  | append_singleton s c ih =>
    obtain ⟨d, hd⟩ := h c (by simp)
    by_cases hs : s = []
    · rw [hs, List.nil_append]
      exact ⟨d, .digit hd⟩
    · obtain ⟨n, hn⟩ := ih hs (fun c hc => h c (by simp [hc]))
      exact ⟨_, hn.snoc hd⟩

/-! ### Readers -/

theorem Decimal.value?_of_isNumeral {s : List Char} {n : Nat} (h : IsNumeral 10 s n) :
    Decimal.value? s = some n := by
  have hall : s.all Char.isDigit := by
    rw [List.all_eq_true]
    intro c hc
    obtain ⟨d, hd⟩ := h.exists_isDigit hc
    exact (isDigit_ten_iff.1 hd).1
  have hvalue : Nat.ofDigitChars 10 s 0 = n := by
    clear hall
    induction h with
    | digit hc =>
      rw [Nat.ofDigitChars_cons, Nat.ofDigitChars_nil, Nat.mul_zero, Nat.zero_add]
      exact (isDigit_ten_iff.1 hc).2
    | snoc hs hc ih =>
      rw [Nat.ofDigitChars_append, ih, Nat.ofDigitChars_cons, Nat.ofDigitChars_nil,
        (isDigit_ten_iff.1 hc).2]
  rw [value?, if_pos ⟨h.ne_nil, hall⟩, hvalue]

/-- **Decimal numbers are read from decimal numerals,** and from nothing else. -/
theorem Decimal.value?_eq_some_iff {s : List Char} {n : Nat} :
    Decimal.value? s = some n ↔ IsNumeral 10 s n := by
  refine ⟨?_, value?_of_isNumeral⟩
  intro h
  obtain ⟨hs, hall⟩ : s ≠ [] ∧ s.all Char.isDigit := by
    rw [value?] at h
    split at h
    · next hs => exact hs
    · cases h
  rw [List.all_eq_true] at hall
  obtain ⟨m, hm⟩ := exists_isNumeral hs fun c hc => ⟨_, isDigit_ten_iff.2 ⟨hall c hc, rfl⟩⟩
  have heq : some m = some n := (value?_of_isNumeral hm).symm.trans h
  cases heq
  exact hm

theorem Decimal.value?_eq_none_iff {s : List Char} :
    Decimal.value? s = none ↔ ∀ n, ¬ IsNumeral 10 s n := by
  simp only [← value?_eq_some_iff, Option.eq_none_iff_forall_ne_some, ne_eq]

theorem Hex.valueAfter?_of_isNumeral {s : List Char} {n : Nat} (h : IsNumeral 16 s n) :
    Hex.valueAfter? 0 s = some n := by
  induction h with
  | digit hc => rw [valueAfter?_cons, digitValue?_eq_some_iff.2 hc]; simp
  | snoc hs hc ih =>
    rw [valueAfter?_append, ih, Option.bind_some, valueAfter?_cons, digitValue?_eq_some_iff.2 hc]
    rfl

theorem Hex.exists_isDigit_of_valueAfter? {s : List Char} {k n : Nat}
    (h : Hex.valueAfter? k s = some n) {c : Char} (hc : c ∈ s) : ∃ d, IsDigit 16 c d := by
  induction s generalizing k with
  | nil => cases hc
  | cons b s ih =>
    obtain ⟨d, hd, hrest⟩ := Option.bind_eq_some_iff.1 h
    cases hc with
    | head => exact ⟨d, digitValue?_eq_some_iff.1 hd⟩
    | tail _ hc => exact ih hrest hc

/-- **Hexadecimal numbers are read from hexadecimal numerals,** and from nothing else. -/
theorem Hex.value?_eq_some_iff {s : List Char} {n : Nat} :
    Hex.value? s = some n ↔ IsNumeral 16 s n := by
  constructor
  · intro h
    rw [value?] at h
    split at h
    · cases h
    · next hs =>
      obtain ⟨m, hm⟩ := exists_isNumeral hs fun c hc => exists_isDigit_of_valueAfter? h hc
      have heq : some m = some n := (valueAfter?_of_isNumeral hm).symm.trans h
      cases heq
      exact hm
  · intro h
    rw [value?, if_neg h.ne_nil]
    exact valueAfter?_of_isNumeral h

/-! ### Plain numerals -/

/-- The written form of a number does not begin with a superfluous zero. -/
theorem eq_zero_of_head?_toDigits {base n : Nat} (hbase : 1 < base) (hle : base ≤ 16)
    (h : (base.toDigits n).head? = some '0') : n = 0 := by
  induction n using Nat.strongRecOn with
  | ind n ih =>
    rcases Nat.lt_or_ge n base with hn | hn
    · rw [Nat.toDigits_of_lt_base hn, List.head?_cons] at h
      have hzero : ∀ n < 16, n.digitChar = '0' → n = 0 := by decide
      exact hzero n (by omega) (Option.some.inj h)
    · rw [Nat.toDigits_of_base_le hbase hn, List.head?_append_of_ne_nil _ Nat.toDigits_ne_nil] at h
      have hdiv := ih (n / base) (Nat.div_lt_self (by omega) hbase) h
      exact absurd hdiv (Nat.ne_of_gt (Nat.div_pos hn (by omega)))

/-- Numbers are written with small letters. -/
theorem toLower_of_mem_toDigits {base n : Nat} {c : Char} (hbase : 1 < base) (hle : base ≤ 16)
    (h : c ∈ base.toDigits n) : c.toLower = c := by
  have hdigit : ∀ d < 16, d.digitChar.toLower = d.digitChar := by decide
  induction n using Nat.strongRecOn with
  | ind n ih =>
    rcases Nat.lt_or_ge n base with hn | hn
    · rw [Nat.toDigits_of_lt_base hn, List.mem_singleton] at h
      rw [h, hdigit n (by omega)]
    · have hmod : n % base < base := Nat.mod_lt n (by omega)
      rw [Nat.toDigits_of_base_le hbase hn, List.mem_append, List.mem_singleton] at h
      rcases h with h | h
      · exact ih (n / base) (Nat.div_lt_self (by omega) hbase) h
      · rw [h, hdigit (n % base) (by omega)]

theorem IsNumeral.eq_toDigits {base : Nat} {s : List Char} {n : Nat} (h : IsNumeral base s n)
    (hbase : 1 < base) (hlower : ∀ c ∈ s, c.toLower = c)
    (hzero : s.head? = some '0' → s = ['0']) : s = base.toDigits n := by
  induction h with
  | digit hc =>
    rw [Nat.toDigits_of_lt_base hc.1, ← hc.2, hlower _ (List.mem_singleton_self _)]
  | @snoc s n c d hs hc ih =>
    rw [List.head?_append_of_ne_nil _ hs.ne_nil] at hzero
    have hhead : s.head? ≠ some '0' := by
      intro h
      have hlen := congrArg List.length (hzero h)
      exact hs.ne_nil (by simpa using hlen)
    have heq := ih (fun c hc => hlower c (List.mem_append_left _ hc)) (fun h => absurd h hhead)
    -- the number before the last digit is not zero, or its numeral would be the digit zero
    have hn : n ≠ 0 := by
      intro hn
      rw [heq, hn, Nat.toDigits_of_lt_base (by omega)] at hhead
      exact hhead rfl
    have hd := hc.1
    have hge : base ≤ base * n + d :=
      Nat.le_trans (Nat.le_mul_of_pos_right _ (Nat.pos_of_ne_zero hn)) (Nat.le_add_right _ _)
    rw [Nat.toDigits_of_base_le hbase hge, Nat.mul_add_div (by omega), Nat.div_eq_of_lt hd,
      Nat.add_zero, Nat.mul_add_mod, Nat.mod_eq_of_lt hd, ← hc.2,
      hlower c (List.mem_append_right _ (List.mem_singleton_self _))]
    exact congrArg (· ++ [c]) heq

/-- **There is one numeral without superfluous zeros or capital letters,** the written form of the
number. -/
theorem isLowerNumeral_iff {base : Nat} {s : List Char} {n : Nat} (hbase : 1 < base)
    (hle : base ≤ 16) : IsLowerNumeral base s n ↔ s = base.toDigits n := by
  constructor
  · intro h
    exact h.isNumeral.eq_toDigits hbase h.toLower_eq h.eq_zero
  · rintro rfl
    refine ⟨⟨.toDigits hbase hle n, ?_⟩, fun c => toLower_of_mem_toDigits hbase hle⟩
    intro hhead
    rw [eq_zero_of_head?_toDigits hbase hle hhead, Nat.toDigits_of_lt_base (by omega)]
    rfl

/-- **There is one decimal numeral without superfluous zeros,** the written form of the number. -/
theorem isPlainNumeral_ten_iff {s : List Char} {n : Nat} :
    IsPlainNumeral 10 s n ↔ s = Decimal.digits n := by
  rw [Decimal.digits, ← isLowerNumeral_iff (by decide) (by decide)]
  constructor
  · intro h
    refine ⟨h, ?_⟩
    intro c hc
    obtain ⟨d, hd⟩ := h.isNumeral.exists_isDigit hc
    rw [hd.2, hd.eq_digitChar]
  · intro h
    exact h.toIsPlainNumeral

end Cidr
