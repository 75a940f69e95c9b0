import Cidr.Proofs.Address.Guarded
import Cidr.Proofs.Wide.Guarded

/-!
# Numbers as octets

A number one bit wider than an address is written in the octets of an address if
it fits, and in one octet more if it does not.  The numbers of 33 and of 129 bits
go through the same two steps: the extra bit is put before the rest, or taken off,
and the rest is made of limbs.  The first step decides what is read and what is
refused, and the second one keeps the value.  A value determines the number, so
that reading gives back what was written; writing does not give back what was
read, since an extra octet of 0 is left out.

An address is a number that is written without the extra octet.

## Main definitions

* `Octets.IsEncoding` — the sequences that stand for a number.
* `Octets.IsCodec` — what it means to write numbers and to read them.
* `Octets.TwoSteps` — writing and reading with the extra bit apart.

## Main results

* `Octets.TwoSteps.isCodec` — writing and reading in two steps.
* `UInt33.twoSteps`, `UInt129.twoSteps`, `Wide.twoSteps` — the numbers of each width.
* `Address.isSome_ofWide?_iff` — the numbers of the addresses are those that fit.
* `encoding_exact` — **numbers are read from exactly the sequences that stand for
  one, and the numbers that fit are those of the addresses.**
-/

namespace Cidr

namespace Octets

/-- A sequence that stands for a number of `8 * count + 1` bits. -/
inductive IsEncoding (count : Nat) : Octets → Prop where
  /-- Without the extra bit. -/
  | short {a : Octets} (length_eq : a.length = count) : IsEncoding count a
  /-- The extra bit has an octet of its own. -/
  | long {b : UInt8} {rest : Octets} (bit : b = 0 ∨ b = 1) (length_eq : rest.length = count) :
      IsEncoding count (b :: rest)

/-- The numbers of a kind are written in `count` octets and an extra bit, and are read from them. -/
structure IsCodec {α : Type} (count : Nat) (kind : α → Prop) (value : α → Nat)
    (encode : α → Octets) (decode : Octets → Except Error α) : Prop where
  /-- Reading gives back what was written. -/
  decode_encode : ∀ x, kind x → decode (encode x) = .ok x
  toNat_encode : ∀ x, kind x → toNat (encode x) = value x
  length_encode : ∀ x, kind x → value x < 2 ^ (8 * count) → (encode x).length = count
  /-- A number that does not fit is written after a 1. -/
  encode_long : ∀ x, kind x → 2 ^ (8 * count) ≤ value x →
    ∃ rest, encode x = 1 :: rest ∧ rest.length = count
  /-- What is read is the number that the sequence stands for. -/
  decode_eq_ok_iff : ∀ a x, decode a = .ok x ↔ kind x ∧ IsEncoding count a ∧ value x = toNat a
  exists_decode : ∀ a, IsEncoding count a → ∃ x, decode a = .ok x
  decode_eq_error : ∀ a, ¬ IsEncoding count a → decode a = .error (.octetCount a.length)

variable {count : Nat} {a rest : Octets}

/-! ### The extra bit -/

/-- **The sequences that stand for a number are those that can be taken apart.** -/
theorem isEncoding_iff : IsEncoding count a ↔ ∃ e, splitExtraBit? count a = some e := by
  constructor
  · rintro (hlen | ⟨hbit, hlen⟩)
    · exact ⟨_, if_pos hlen⟩
    · rw [splitExtraBit?, List.length_cons, if_neg (by omega)]
      exact ⟨_, if_pos ⟨hlen, le_one_iff.2 hbit⟩⟩
  · rintro ⟨e, he⟩
    unfold splitExtraBit? at he
    split at he
    case isTrue hlen => exact .short hlen
    case isFalse =>
      split at he
      · cases he
      · split at he
        case isTrue h => exact .long (le_one_iff.1 h.2) h.1
        case isFalse => cases he

instance (count : Nat) (a : Octets) : Decidable (IsEncoding count a) :=
  decidable_of_iff _ (Option.isSome_iff_exists.trans isEncoding_iff.symm)

theorem two_pow_le_toNat_withExtraBit (extra : Bool) (hlen : rest.length = count) :
    2 ^ (8 * count) ≤ toNat (withExtraBit extra rest) ↔ extra = true := by
  have hlt := rest.toNat_lt
  rw [toNat_withExtraBit, hlen, Nat.shiftLeft_eq]
  rw [hlen, Nat.one_shiftLeft] at hlt
  cases extra
  · rw [Bool.toNat_false, Nat.zero_mul, Nat.zero_add]
    exact iff_of_false (by omega) Bool.false_ne_true
  · rw [Bool.toNat_true, Nat.one_mul]
    exact iff_of_true (Nat.le_add_right _ _) rfl

/-! ### Writing and reading -/

section TwoSteps

variable {α : Type} {kind : α → Prop} {value : α → Nat} {encode : α → Octets}
  {decode : Octets → Except Error α} {x : α}

/-- Numbers are written and read with the extra bit and the rest apart. -/
structure TwoSteps (count : Nat) (kind : α → Prop) (value : α → Nat)
    (encode : α → Octets) (decode : Octets → Except Error α) : Prop where
  value_inj : ∀ x y, kind x → kind y → value x = value y → x = y
  toNat_encode : ∀ x, kind x → toNat (encode x) = value x
  exists_encode_eq : ∀ x, kind x → ∃ extra rest,
    encode x = withExtraBit extra rest ∧ rest.length = count
  exists_decode_eq : ∀ a extra rest, splitExtraBit? count a = some (extra, rest) →
    ∃ x, decode a = .ok x ∧ kind x ∧ value x = extra.toNat <<< (8 * count) + toNat rest
  decode_eq_error : ∀ a, splitExtraBit? count a = none → decode a = .error (.octetCount a.length)

namespace TwoSteps

theorem exists_decode (h : TwoSteps count kind value encode decode) (ha : IsEncoding count a) :
    ∃ x, decode a = .ok x ∧ kind x ∧ value x = toNat a := by
  obtain ⟨⟨extra, rest⟩, he⟩ := isEncoding_iff.1 ha
  rw [(splitExtraBit?_eq_some he).2]
  exact h.exists_decode_eq a extra rest he

theorem decode_of_not_isEncoding (h : TwoSteps count kind value encode decode)
    (ha : ¬ IsEncoding count a) : decode a = .error (.octetCount a.length) := by
  refine h.decode_eq_error a (Option.eq_none_iff_forall_ne_some.2 ?_)
  intro e he
  exact ha (isEncoding_iff.2 ⟨e, he⟩)

theorem decode_eq_ok_iff (h : TwoSteps count kind value encode decode) :
    decode a = .ok x ↔ kind x ∧ IsEncoding count a ∧ value x = toNat a := by
  constructor
  · intro hx
    by_cases ha : IsEncoding count a
    · obtain ⟨y, hy, hkind, hvalue⟩ := h.exists_decode ha
      obtain rfl := Except.ok.inj (hy.symm.trans hx)
      exact ⟨hkind, ha, hvalue⟩
    · exact absurd ((h.decode_of_not_isEncoding ha).symm.trans hx) nofun
  · rintro ⟨hkind, ha, hvalue⟩
    obtain ⟨y, hy, hkind', hvalue'⟩ := h.exists_decode ha
    rw [hy, h.value_inj x y hkind hkind' (hvalue.trans hvalue'.symm)]

/-- The extra bit is that of the value. -/
theorem exists_encode (h : TwoSteps count kind value encode decode) (hx : kind x) :
    ∃ rest, encode x = withExtraBit (2 ^ (8 * count) ≤ value x) rest ∧ rest.length = count := by
  obtain ⟨extra, rest, he, hlen⟩ := h.exists_encode_eq x hx
  have hbit := two_pow_le_toNat_withExtraBit extra hlen
  rw [← he, h.toNat_encode x hx] at hbit
  have hextra : decide (2 ^ (8 * count) ≤ value x) = extra :=
    Bool.eq_iff_iff.2 (decide_eq_true_iff.trans hbit)
  exact ⟨rest, by rw [hextra, he], hlen⟩

/-- **Numbers are read from exactly the sequences that stand for one.**  It is enough to know the
value after each step, as there is only one number with that value. -/
theorem isCodec (h : TwoSteps count kind value encode decode) :
    IsCodec count kind value encode decode where
  decode_encode := by
    intro x hx
    obtain ⟨extra, rest, he, hlen⟩ := h.exists_encode_eq x hx
    refine h.decode_eq_ok_iff.2 ⟨hx, isEncoding_iff.2 ⟨(extra, rest), ?_⟩,
      (h.toNat_encode x hx).symm⟩
    rw [he, ← hlen, splitExtraBit?_withExtraBit]
  toNat_encode := h.toNat_encode
  length_encode := by
    intro x hx hlt
    obtain ⟨rest, he, hlen⟩ := h.exists_encode hx
    rw [he, decide_eq_false (Nat.not_le.2 hlt), length_withExtraBit, hlen, Bool.toNat_false,
      Nat.zero_add]
  encode_long := by
    intro x hx hle
    obtain ⟨rest, he, hlen⟩ := h.exists_encode hx
    exact ⟨rest, by rw [he, decide_eq_true hle]; rfl, hlen⟩
  decode_eq_ok_iff _ _ := h.decode_eq_ok_iff
  exists_decode _ ha := (h.exists_decode ha).imp fun _ hx => hx.1
  decode_eq_error _ := h.decode_of_not_isEncoding

end TwoSteps

/-- Numbers that fit are those that are written without the extra octet. -/
theorem IsCodec.length_encode_iff (h : IsCodec count kind value encode decode) (hx : kind x) :
    (encode x).length = count ↔ value x < 2 ^ (8 * count) := by
  refine ⟨?_, h.length_encode x hx⟩
  intro hlen
  by_contra hge
  obtain ⟨rest, he, hrest⟩ := h.encode_long x hx (Nat.not_lt.1 hge)
  rw [he, List.length_cons] at hlen
  omega

end TwoSteps

end Octets

/-! ### The numbers of each width -/

/-- A limb has room for 8 octets. -/
theorem Limb.toNat_ofNat_toNat {a : Octets} (hlen : a.length ≤ 8) :
    (UInt64.ofNat (Octets.toNat a)).toNat = Octets.toNat a := by
  have hlt := a.toNat_lt
  rw [Nat.one_shiftLeft] at hlt
  rw [UInt64.toNat_ofNat']
  exact Nat.mod_eq_of_lt (Nat.lt_of_lt_of_le hlt (Nat.pow_le_pow_right (by decide) (by omega)))

/-- The extra bit stands right above 4 octets in the limb. -/
theorem UInt33.toNat_ofLow_or {extra : Bool} {rest : Octets} (hlen : rest.length = 4) :
    (ofLow (extra.toUInt64 <<< 32 ||| UInt64.ofNat (Octets.toNat rest))).toNat =
      extra.toNat <<< 32 + Octets.toNat rest := by
  have htop : (extra.toUInt64 <<< 32).toNat = 2 ^ 32 * extra.toNat := by cases extra <;> rfl
  have hle := extra.toNat_le
  have hlt := rest.toNat_lt
  rw [hlen, Nat.one_shiftLeft] at hlt
  rw [toNat_ofLow, UInt64.toNat_or, htop, Limb.toNat_ofNat_toNat (by omega),
    ← Nat.two_pow_add_eq_or_of_lt hlt, Nat.shiftLeft_eq, Nat.mul_comm]
  omega

theorem UInt33.twoSteps :
    Octets.TwoSteps 4 (fun _ => True) UInt33.toNat UInt33.octets UInt33.ofOctets where
  value_inj _ _ _ _ := UInt33.toNat_inj
  toNat_encode x _ := x.toNat_octets
  exists_encode_eq _ _ := ⟨_, _, rfl, Octets.length_ofNat _ _⟩
  exists_decode_eq a extra rest h :=
    ⟨_, by rw [ofOctets, h], trivial,
      UInt33.toNat_ofLow_or (Octets.splitExtraBit?_eq_some h).1⟩
  decode_eq_error a h := by rw [ofOctets, h]

/-- The two limbs stand for 8 octets each. -/
theorem UInt129.toNat_take_drop (extra : Bool) {rest : Octets} (hlen : rest.length = 16) :
    toNat ⟨extra, UInt64.ofNat (Octets.toNat (rest.take 8)),
      UInt64.ofNat (Octets.toNat (rest.drop 8))⟩ = extra.toNat <<< 128 + Octets.toNat rest := by
  have htake : (rest.take 8).length = 8 := by
    rw [List.length_take]
    omega
  have hdrop : (rest.drop 8).length = 8 := by
    rw [List.length_drop]
    omega
  have hrest := Octets.toNat_append (rest.take 8) (rest.drop 8)
  rw [List.take_append_drop, hdrop] at hrest
  rw [toNat_eq, Limb.toNat_ofNat_toNat (Nat.le_of_eq htake),
    Limb.toNat_ofNat_toNat (Nat.le_of_eq hdrop), hrest]

theorem UInt129.twoSteps :
    Octets.TwoSteps 16 (fun _ => True) UInt129.toNat UInt129.octets UInt129.ofOctets where
  value_inj _ _ _ _ := UInt129.toNat_inj
  toNat_encode x _ := x.toNat_octets
  exists_encode_eq _ _ := ⟨_, _, rfl, by simp⟩
  exists_decode_eq a extra rest h :=
    ⟨_, by rw [ofOctets, h], trivial,
      UInt129.toNat_take_drop extra (Octets.splitExtraBit?_eq_some h).1⟩
  decode_eq_error a h := by rw [ofOctets, h]

/-- The numbers of a family are written and read like those of its width. -/
theorem Wide.twoSteps (f : Family) :
    Octets.TwoSteps f.octetCount (fun x : Wide => x.family = f) Wide.toNat Wide.octets
      (Wide.ofOctets f) where
  value_inj _ _ hx hy := Wide.ext (hx.trans hy.symm)
  toNat_encode x _ := x.toNat_octets
  exists_encode_eq x hx := by
    subst hx
    cases x with
    | v4 x => exact UInt33.twoSteps.exists_encode_eq x trivial
    | v6 x => exact UInt129.twoSteps.exists_encode_eq x trivial
  exists_decode_eq a extra rest h := by
    cases f with
    | v4 =>
      obtain ⟨x, hx, -, hn⟩ := UInt33.twoSteps.exists_decode_eq a extra rest h
      exact ⟨.v4 x, congrArg (Except.map v4) hx, rfl, hn⟩
    | v6 =>
      obtain ⟨x, hx, -, hn⟩ := UInt129.twoSteps.exists_decode_eq a extra rest h
      exact ⟨.v6 x, congrArg (Except.map v6) hx, rfl, hn⟩
  decode_eq_error a h := by
    cases f with
    | v4 => exact congrArg (Except.map v4) (UInt33.twoSteps.decode_eq_error a h)
    | v6 => exact congrArg (Except.map v6) (UInt129.twoSteps.decode_eq_error a h)

/-! ### Addresses as numbers -/

namespace Address

variable {x : Wide} {a : Address}

theorem ofWide?_eq_some_iff_toWide : ofWide? x = some a ↔ a.toWide = x := by
  rw [ofWide?_eq_some_iff]
  constructor
  · rintro ⟨hf, hn⟩
    exact Wide.ext (a.family_toWide.trans hf) (a.toNat_toWide.trans hn)
  · rintro rfl
    exact ⟨a.family_toWide.symm, a.toNat_toWide.symm⟩

/-- **The numbers of the addresses are those that fit,** as is seen by the length of the encoding
alone. -/
theorem isSome_ofWide?_iff : (ofWide? x).isSome ↔ x.toNat < 2 ^ x.family.bitWidth := by
  rw [Family.bitWidth_eq, ← (Wide.twoSteps x.family).isCodec.length_encode_iff rfl, ofWide?]
  split
  case isTrue h => exact iff_of_true rfl h
  case isFalse h => exact iff_of_false Bool.false_ne_true h

end Address

/-- **Numbers are read from exactly the sequences that stand for one.**  These have the octets of an
address, or one more in front that is 0 or 1; they are read without a failure as the number they
stand for, and for any other one the length is reported.  A number is written in the octets of an
address if it fits, otherwise after a 1, and is read as the same number again.  The numbers that fit
are those of the addresses, each of one address. -/
theorem encoding_exact :
    Octets.IsCodec 4 (fun _ => True) UInt33.toNat UInt33.octets UInt33.ofOctets ∧
    Octets.IsCodec 16 (fun _ => True) UInt129.toNat UInt129.octets UInt129.ofOctets ∧
    (∀ f : Family,
      Octets.IsCodec f.octetCount (fun x : Wide => x.family = f) Wide.toNat Wide.octets
        (Wide.ofOctets f) ∧
      ∀ a, Wide.ofOctetsGuarded f a = Failure.ofExcept (Wide.ofOctets f a)) ∧
    (∀ x : Wide, ((Address.ofWide? x).isSome ↔ x.toNat < 2 ^ x.family.bitWidth) ∧
      Address.ofWideGuarded x = .ok (Address.ofWide? x)) ∧
    (∀ (x : Wide) (a : Address), Address.ofWide? x = some a ↔ a.toWide = x) ∧
    ∀ a : Address, Address.ofWide? a.toWide = some a := by
  refine ⟨UInt33.twoSteps.isCodec, UInt129.twoSteps.isCodec, ?_, ?_, ?_, ?_⟩
  · intro f
    exact ⟨(Wide.twoSteps f).isCodec, Wide.ofOctetsGuarded_eq f⟩
  · intro x
    exact ⟨Address.isSome_ofWide?_iff, Address.ofWideGuarded_eq x⟩
  · intro x a
    exact Address.ofWide?_eq_some_iff_toWide
  · intro a
    exact Address.ofWide?_eq_some_iff_toWide.2 rfl

/-- The greatest number of 33 bits takes an extra octet and is that of no address.  An extra octet of
0 is read, but not one of 2. -/
theorem encoding_exact_of_extra_octet :
    (∃ rest, UInt33.max.octets = 1 :: rest ∧ rest.length = 4) ∧
    UInt33.ofOctets UInt33.max.octets = .ok .max ∧
    UInt33.ofOctets [0, 0, 0, 0, 1] = .ok .one ∧ UInt33.one.octets.length = 4 ∧
    UInt33.ofOctets [2, 0, 0, 0, 1] = .error (.octetCount 5) ∧
    ¬ (Address.ofWide? (.max .v4)).isSome := by
  obtain ⟨h, -, -, haddress, -⟩ := encoding_exact
  exact ⟨h.encode_long _ trivial (by decide), h.decode_encode _ trivial,
    (h.decode_eq_ok_iff _ _).2 ⟨trivial, by decide, rfl⟩, h.length_encode _ trivial (by decide),
    h.decode_eq_error _ (by decide), fun hsome => absurd ((haddress _).1.1 hsome) (by decide)⟩

end Cidr
