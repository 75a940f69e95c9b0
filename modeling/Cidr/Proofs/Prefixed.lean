import Cidr.Failure
import Cidr.Interface
import Cidr.Prefixed.Grammar
import Cidr.Proofs.Address.Grammar
import Cidr.Proofs.Octets.Mask
import Mathlib.Data.List.TakeWhile

/-!
# Reading a prefix length

Every text has exactly one meaning, and it is what the reader answers.  That a
text has a meaning is seen without the reader, case by case; and in each case the
reader has no choice.

## Main results

* `Prefixed.isCut_iff` — the two parts of a text.
* `Prefixed.readLength_eq_iff` — lengths and masks are read by their meaning.
* `Prefixed.parse_exact` — **texts are read by their meaning,** and lengths beyond
  the width of an address make no network.
-/

namespace Cidr.Prefixed

open Address (IsText)

/-! ### Cutting -/

theorem isCut_parts (s : List Char) : IsCut s (addressPart s) (lengthPart? s) := by
  have hfront : '/' ∉ addressPart s := by
    intro h
    simpa using List.mem_takeWhile_imp h
  have hs : addressPart s ++ s.dropWhile (· ≠ '/') = s := List.takeWhile_append_dropWhile
  rw [lengthPart?]
  cases hrest : s.dropWhile (· ≠ '/') with
  | nil =>
    rw [hrest, List.append_nil] at hs
    rw [hs] at hfront ⊢
    exact .whole hfront
  | cons c rest =>
    -- what is left begins with the slash at which the front ended
    have hslash : c = '/' := by
      have hhead := List.head_dropWhile_not (· ≠ '/') (l := s) (by rw [hrest]; simp)
      simpa only [hrest, List.head_cons, decide_eq_false_iff_not, ne_eq, not_not] using hhead
    rw [hrest, hslash] at hs
    have hcut : IsCut (addressPart s ++ '/' :: rest) (addressPart s) (some rest) := .slash hfront
    rwa [hs] at hcut

/-- **A text has one front and one rest.** -/
theorem isCut_iff {s front : List Char} {rest? : Option (List Char)} :
    IsCut s front rest? ↔ addressPart s = front ∧ lengthPart? s = rest? := by
  constructor
  · intro h
    have hne : ∀ {l : List Char}, '/' ∉ l → ∀ c ∈ l, decide (c ≠ '/') = true := by
      intro l hl c hc
      exact decide_eq_true fun h => hl (h ▸ hc)
    rw [addressPart, lengthPart?]
    cases h with
    | whole hs =>
      rw [List.takeWhile_eq_self_iff.2 (hne hs), List.dropWhile_eq_nil_iff.2 (hne hs)]
      exact ⟨rfl, rfl⟩
    | slash hfront =>
      rw [List.takeWhile_append_of_pos (hne hfront), List.dropWhile_append_of_pos (hne hfront)]
      simp
  · rintro ⟨rfl, rfl⟩
    exact isCut_parts s

/-! ### Masks -/

section

variable {mask : Octets} {k : Nat}

theorem maskLength_of_isMask_true (hlen : mask.length ≤ Octets.maxMaskCount)
    (h : mask.IsMask true k) : maskLength mask = .ok k := by
  rw [maskLength, (Octets.netmaskLength_eq_ok_iff hlen).2 h]

theorem maskLength_of_forall_not (hlen : mask.length ≤ Octets.maxMaskCount)
    (h : ∀ j, ¬ mask.IsMask true j) : maskLength mask = Octets.netmaskLength mask.complement := by
  rw [maskLength, Octets.netmaskLength_eq_error hlen h]

theorem maskLength_of_isMask_false (hlen : mask.length ≤ Octets.maxMaskCount)
    (hnot : ∀ j, ¬ mask.IsMask true j) (h : mask.IsMask false k) : maskLength mask = .ok k := by
  rw [← Octets.length_complement] at hlen
  rw [maskLength_of_forall_not (by simpa using hlen) hnot, Octets.netmaskLength_eq_ok_iff hlen]
  exact Octets.isMask_complement_iff.2 h

theorem maskLength_eq_error (hlen : mask.length ≤ Octets.maxMaskCount)
    (hnot : ∀ b j, ¬ mask.IsMask b j) : maskLength mask = .error .maskNotContiguous := by
  rw [← Octets.length_complement] at hlen
  rw [maskLength_of_forall_not (by simpa using hlen) (hnot true)]
  refine Octets.netmaskLength_eq_error hlen ?_
  intro j h
  exact hnot false j (Octets.isMask_complement_iff.1 h)

end

/-! ### Lengths -/

section

variable {f : Family} {s : List Char} {r : Except Error Nat}

/-- Every text has a meaning after the slash. -/
theorem exists_lengthMeaning (f : Family) (s : List Char) : ∃ r, LengthMeaning f s r := by
  by_cases hs : ∃ v, IsNumeral 10 s v
  · obtain ⟨v, hv⟩ := hs
    rcases Nat.lt_or_ge f.bitWidth v with hwidth | hwidth
    · rcases Nat.lt_or_ge 4294967295 v with hlimit | hlimit
      · exact ⟨_, .tooGreat hv hlimit⟩
      · exact ⟨_, .outOfRange hv hwidth hlimit⟩
    · exact ⟨_, .number hv hwidth⟩
  by_cases hmask : f = .v4 ∧ '.' ∈ s
  · obtain ⟨hf, hdot⟩ := hmask
    by_cases htext : ∃ mask, IsText s mask
    · obtain ⟨mask, htext⟩ := htext
      by_cases hones : ∃ k, mask.octets.IsMask true k
      · obtain ⟨k, hk⟩ := hones
        exact ⟨_, .netmask hf hdot htext hk⟩
      rw [not_exists] at hones
      by_cases hzeros : ∃ k, mask.octets.IsMask false k
      · obtain ⟨k, hk⟩ := hzeros
        exact ⟨_, .hostMask hf hdot htext hones hk⟩
      · rw [not_exists] at hzeros
        exact ⟨_, .notContiguous hf hdot htext (Bool.forall_bool.2 ⟨hzeros, hones⟩)⟩
    · exact ⟨_, .notMask hf hdot (not_exists.1 htext)⟩
  · exact ⟨_, .neither (not_exists.1 hs) hmask⟩

/-- A number is taken for a length, or refused for its size. -/
theorem readLength_of_isNumeral {v : Nat} (hs : IsNumeral 10 s v) :
    readLength f s =
      if 4294967295 < v then .error (.notPrefixLength (String.ofList s))
      else if f.bitWidth < v then .error (.lengthOutOfRange v f.bitWidth)
      else .ok v := by
  rw [readLength, Decimal.value?_of_isNumeral hs]
  rfl

/-- A text with a point is no number, so that it is looked at as a mask. -/
theorem readLength_of_dot (hf : f = .v4) (hdot : '.' ∈ s) :
    readLength f s =
      (Address.read? s).elim (.error (.notPrefixLength (String.ofList s)))
        fun mask => maskLength mask.octets := by
  have hs : Decimal.value? s = none :=
    Decimal.value?_eq_none_iff.2 fun v hv => hv.not_mem (by decide) rfl hdot
  simp only [readLength, hs, if_pos (And.intro hf hdot)]
  cases Address.read? s <;> rfl

theorem readLength_of_isText {mask : Address} (hf : f = .v4) (hdot : '.' ∈ s)
    (hs : IsText s mask) : readLength f s = maskLength mask.octets := by
  rw [readLength_of_dot hf hdot, Address.read?_eq_some_iff.2 hs, Option.elim_some]

/-- The reader has no choice. -/
theorem LengthMeaning.readLength_eq (h : LengthMeaning f s r) : readLength f s = r := by
  have hwidth : f.bitWidth ≤ 128 := by cases f <;> decide
  cases h with
  | number hs hv => rw [readLength_of_isNumeral hs, if_neg (by omega), if_neg (by omega)]
  | outOfRange hs hv hle => rw [readLength_of_isNumeral hs, if_neg (by omega), if_pos hv]
  | tooGreat hs hv => rw [readLength_of_isNumeral hs, if_pos hv]
  | netmask hf hdot hs hmask =>
    rw [readLength_of_isText hf hdot hs,
      maskLength_of_isMask_true (Address.length_octets_le _) hmask]
  | hostMask hf hdot hs hnot hmask =>
    rw [readLength_of_isText hf hdot hs,
      maskLength_of_isMask_false (Address.length_octets_le _) hnot hmask]
  | notContiguous hf hdot hs hnot =>
    rw [readLength_of_isText hf hdot hs, maskLength_eq_error (Address.length_octets_le _) hnot]
  | notMask hf hdot hs =>
    rw [readLength_of_dot hf hdot, Address.read?_eq_none_iff.2 hs, Option.elim_none]
  | neither hs hmask => rw [readLength, Decimal.value?_eq_none_iff.2 hs, if_neg hmask]

/-- **Lengths and masks are read by their meaning.** -/
theorem readLength_eq_iff : readLength f s = r ↔ LengthMeaning f s r := by
  refine ⟨?_, LengthMeaning.readLength_eq⟩
  rintro rfl
  obtain ⟨r, hr⟩ := exists_lengthMeaning f s
  rwa [hr.readLength_eq]

end

/-! ### Whole texts -/

section

variable {s : String} {r : Except Error Prefixed}

/-- Reading goes in two steps, first the address and then what is left for it. -/
theorem parse_eq_bind (s : String) :
    parse s = (Address.parse (String.ofList (addressPart s.toList))).bind fun a =>
      (lengthPart? s.toList).elim (.ok ⟨a, a.family.bitWidth⟩)
        fun rest => (readLength a.family rest).map (Prefixed.mk a) := by
  rw [parse]
  cases Address.parse (String.ofList (addressPart s.toList)) with
  | error e => rfl
  | ok a => cases lengthPart? s.toList <;> rfl

/-- Every text has a meaning. -/
theorem exists_meaning (s : List Char) : ∃ r, Meaning s r := by
  have hcut := isCut_parts s
  by_cases hfront : ∃ a, IsText (addressPart s) a
  · obtain ⟨a, ha⟩ := hfront
    cases hrest : lengthPart? s with
    | none =>
      rw [hrest] at hcut
      exact ⟨_, .bare hcut ha⟩
    | some rest =>
      rw [hrest] at hcut
      obtain ⟨r, hr⟩ := exists_lengthMeaning a.family rest
      exact ⟨_, .slashed hcut ha hr⟩
  · exact ⟨_, .notAddress hcut (not_exists.1 hfront)⟩

theorem parse_of_isText {a : Address} (h : IsText (addressPart s.toList) a) :
    parse s =
      (lengthPart? s.toList).elim (.ok ⟨a, a.family.bitWidth⟩)
        fun rest => (readLength a.family rest).map (Prefixed.mk a) := by
  have ha : Address.parse (String.ofList (addressPart s.toList)) = .ok a := by
    rw [Address.parse_eq_ok_iff, String.toList_ofList, Address.read?_eq_some_iff]
    exact h
  rw [parse_eq_bind, ha]
  rfl

/-- The reader has no choice. -/
theorem Meaning.parse_eq (h : Meaning s.toList r) : parse s = r := by
  cases h with
  | notAddress hcut hfront =>
    obtain ⟨rfl, -⟩ := isCut_iff.1 hcut
    have hnone := Address.parse_eq_error_iff (s := String.ofList (addressPart s.toList)).2
      ⟨by rwa [String.toList_ofList, Address.read?_eq_none_iff], rfl⟩
    rw [parse_eq_bind, hnone]
    rfl
  | bare hcut hfront =>
    obtain ⟨rfl, hrest⟩ := isCut_iff.1 hcut
    rw [parse_of_isText hfront, hrest, Option.elim_none]
  | slashed hcut hfront hmeaning =>
    obtain ⟨rfl, hrest⟩ := isCut_iff.1 hcut
    rw [parse_of_isText hfront, hrest, Option.elim_some, hmeaning.readLength_eq]

theorem parse_eq_iff : parse s = r ↔ Meaning s.toList r := by
  refine ⟨?_, Meaning.parse_eq⟩
  rintro rfl
  obtain ⟨r, hr⟩ := exists_meaning s.toList
  rwa [hr.parse_eq]

/-- A text is not refused for the bits of its address. -/
theorem ne_hostBitsSet_of_parse {e : Error} {t : String} (h : parse s = .error e) :
    e ≠ .hostBitsSet t := by
  have hmeaning := parse_eq_iff.1 h
  generalize hr : Except.error e = r at hmeaning
  cases hmeaning with
  | notAddress hcut hfront =>
    cases hr
    simp
  | bare hcut hfront => cases hr
  | @slashed front rest a r hcut hfront hrest =>
    cases hrest with
    | number | netmask | hostMask => cases hr
    | outOfRange | tooGreat | notContiguous | notMask | neither =>
      cases hr
      simp

/-- The address is that of the text before the slash. -/
theorem parse_address {p : Prefixed} (h : parse s = .ok p) :
    Address.parse (String.ofList (addressPart s.toList)) = .ok p.address := by
  obtain ⟨a, ha, h⟩ := Failure.bind_eq_ok_iff.1 h
  split at h
  · obtain ⟨k, -, h⟩ := Failure.bind_eq_ok_iff.1 h
    cases h
    exact ha
  · cases h
    exact ha

/-- **Texts are read by their meaning.**  A mask of an IPv6 address may give a length that an IPv4
address does not have; then there is neither a network nor an interface with that length. -/
theorem parse_exact (s : String) :
    (∀ r, parse s = r ↔ Meaning s.toList r) ∧
    ∀ p, parse s = .ok p → p.address.family = .v4 → 32 < p.prefixLength →
      Network.ofAddress p.address p.prefixLength = .error (.lengthOutOfRange p.prefixLength 32) ∧
      Network.containing p.address p.prefixLength = .error (.lengthOutOfRange p.prefixLength 32) ∧
      Interface.ofAddress p.address p.prefixLength =
        .error (.lengthOutOfRange p.prefixLength 32) := by
  refine ⟨fun r => parse_eq_iff, ?_⟩
  intro p _ hf hlen
  have hwide : ¬ p.prefixLength ≤ p.address.family.bitWidth := by
    rw [hf]
    exact Nat.not_le.2 hlen
  have herror : Error.lengthOutOfRange p.prefixLength p.address.family.bitWidth =
      .lengthOutOfRange p.prefixLength 32 := by rw [hf]; rfl
  refine ⟨?_, ?_, ?_⟩
  · rw [Network.ofAddress_of_not_le hwide, herror]
  · rw [Network.containing_of_not_le hwide, herror]
  · rw [Interface.ofAddress, dif_neg hwide, herror]

/-- The 48 ones of an IPv6 mask are read after an IPv4 address, but make no network with it. -/
theorem parse_exact_wide_mask :
    parse "10.0.0.0/ffff:ffff:ffff::0.0.0.0" = .ok ⟨.v4 10 0 0 0, 48⟩ ∧
      Network.ofAddress (.v4 10 0 0 0) 48 = .error (.lengthOutOfRange 48 32) := by
  have hparse : parse "10.0.0.0/ffff:ffff:ffff::0.0.0.0" = .ok ⟨.v4 10 0 0 0, 48⟩ := by decide
  exact ⟨hparse, ((parse_exact _).2 _ hparse rfl (by decide)).1⟩

end

end Cidr.Prefixed
