import Cidr.Proofs.Address.Quad
import Mathlib.Data.List.Nodup

/-!
# The fields of IPv6 addresses

An IPv6 address is cut into fields, some of which may be empty.  It has eight
groups, or one empty field with further fields on both sides, where a lone empty
field stands for the end of the text.

## Main definitions

* `Address.IsFields` — the texts of fields.
* `Address.IsSide` — the fields on one side of a gap.

## Main results

* `Address.readFields?_eq_some_iff` — fields are read one by one.
* `Address.ofFields?_eq_some_iff` — **what fields stand for an address.**
-/

namespace Cidr.Address

/-! ### Fields -/

/-- **Groups are read from groups of digits,** and from nothing else. -/
theorem readGroup?_eq_some_iff {s : List Char} {h : UInt16} :
    readGroup? s = some h ↔ IsGroup s h := by
  constructor
  · intro hread
    rw [readGroup?] at hread
    split at hread
    · next hlen =>
      obtain ⟨n, hn, rfl⟩ := Option.map_eq_some_iff.1 hread
      rw [Hex.value?_eq_some_iff] at hn
      -- four digits have room for every hextet and for no more
      have hlt : n < 65536 :=
        Nat.lt_of_lt_of_le hn.lt_pow (Nat.pow_le_pow_right (n := 16) (by decide) hlen)
      refine ⟨hlen, ?_⟩
      rwa [UInt16.toNat_ofNat_of_lt' hlt]
    · cases hread
  · intro hgroup
    rw [readGroup?, if_pos hgroup.length_le, Hex.value?_eq_some_iff.2 hgroup.isNumeral,
      Option.map_some, UInt16.ofNat_toNat]

/-- The text of a field that may be empty. -/
def IsField (s : List Char) : Option UInt16 → Prop
  | none => s = []
  | some h => IsGroup s h

/-- The texts of fields, where a dotted quad may stand last for two of them. -/
inductive IsFields : (parts : List (List Char)) → (fields : List (Option UInt16)) → Prop
  /-- There is nothing more. -/
  | nil : IsFields [] []
  /-- A dotted quad ends the sequence. -/
  | quad {s : List Char} {a : Octets} (hs : IsQuad s a) : IsFields [s] (a.hextets.map some)
  /-- A field comes first. -/
  | cons {s : List Char} {field : Option UInt16} {parts : List (List Char)}
      {fields : List (Option UInt16)} (hfield : IsField s field) (hrest : IsFields parts fields) :
      IsFields (s :: parts) (field :: fields)

variable {s : List Char} {parts : List (List Char)} {fields : List (Option UInt16)}

theorem IsGroup.not_mem {h : UInt16} (hgroup : IsGroup s h) {c : Char}
    (hc : Hex.digitValue? c = none) : c ∉ s := hgroup.isNumeral.not_mem (by decide) hc

theorem IsField.not_mem {field : Option UInt16} (hfield : IsField s field) {c : Char}
    (hc : Hex.digitValue? c = none) : c ∉ s := by
  cases field with
  | none =>
    obtain rfl : s = [] := hfield
    exact List.not_mem_nil
  | some h => exact IsGroup.not_mem hfield hc

theorem readField?_eq_some_iff {field : Option UInt16} :
    readField? s = some field ↔ IsField s field := by
  rw [readField?]
  split
  · next hs =>
    cases field with
    | none => simp [IsField, hs]
    | some h =>
      have hgroup : ¬IsGroup s h := fun hgroup => hgroup.isNumeral.ne_nil hs
      simp [IsField, hgroup]
  · next hs =>
    cases field with
    | none => simp [IsField, hs]
    | some h => simp [IsField, ← readGroup?_eq_some_iff]

theorem readFields?_singleton_eq_some_iff :
    readFields? [s] = some fields ↔ IsFields [s] fields := by
  rw [readFields?]
  split
  · next hdot =>
    rw [Option.map_eq_some_iff]
    constructor
    · intro ⟨a, ha, heq⟩
      rw [← heq]
      exact .quad (readDotted?_eq_some_iff.1 ha).2
    · intro h
      cases h with
      | @quad _ a hs => exact ⟨⟨.v4, a, hs.1⟩, readDotted?_eq_some_iff.2 ⟨rfl, hs⟩, rfl⟩
      | cons hfield hrest => exact absurd hdot (hfield.not_mem rfl)
  · next hdot =>
    rw [Option.map_eq_some_iff]
    constructor
    · intro ⟨field, hfield, heq⟩
      rw [← heq]
      exact .cons (readField?_eq_some_iff.1 hfield) .nil
    · intro h
      cases h with
      | quad hs => exact absurd hs.dot_mem hdot
      | cons hfield hrest =>
        cases hrest
        exact ⟨_, readField?_eq_some_iff.2 hfield, rfl⟩

/-- **The fields are read one by one,** and a dotted quad only at the end. -/
theorem readFields?_eq_some_iff :
    readFields? parts = some fields ↔ IsFields parts fields := by
  induction parts generalizing fields with
  | nil =>
    constructor
    · intro h
      cases h
      exact .nil
    · intro h
      cases h
      rfl
  | cons s parts ih =>
    cases parts with
    | nil => exact readFields?_singleton_eq_some_iff
    | cons t rest =>
      rw [readFields?]
      constructor
      · intro h
        obtain ⟨field, hfield, h⟩ := Option.bind_eq_some_iff.1 h
        obtain ⟨fields, hfields, h⟩ := Option.bind_eq_some_iff.1 h
        cases h
        exact .cons (readField?_eq_some_iff.1 hfield) (ih.1 hfields)
      · intro h
        cases h with
        | cons hfield hrest =>
          rw [readField?_eq_some_iff.2 hfield, ih.2 hrest]
          rfl

theorem IsFields.not_mem (h : IsFields parts fields) : ∀ p ∈ parts, ':' ∉ p := by
  induction h with
  | nil => simp
  | quad hs => simpa using hs.not_mem (by decide) rfl
  | cons hfield _ ih => simpa using ⟨hfield.not_mem rfl, ih⟩

theorem IsFields.length_le (h : IsFields parts fields) : fields.length ≤ parts.length + 1 := by
  induction h with
  | nil => simp
  | quad hs => simp [hs.length_hextets]
  | cons _ _ ih => simpa using ih

/-! ### Gaps -/

/-- The fields on one side of the gap and the groups among them. -/
inductive IsSide : (fields : List (Option UInt16)) → (hs : List UInt16) → Prop
  /-- The text ends at the gap. -/
  | empty : IsSide [none] []
  /-- There are groups. -/
  | groups {hs : List UInt16} (hne : hs ≠ []) : IsSide (hs.map some) hs

variable {left right : List (Option UInt16)} {hs ks : List UInt16}

theorem mapM_id_eq_some_iff :
    fields.mapM id = some hs ↔ fields = hs.map some := by
  induction fields generalizing hs with
  | nil => cases hs <;> simp
  | cons field fields ih =>
    cases field with
    | none => cases hs <;> simp
    | some h => cases hs <;> simp [Option.bind_eq_some_iff, ih, and_comm]

theorem isSide_iff :
    IsSide fields hs ↔ fields ≠ [] ∧ side? fields = some hs := by
  constructor
  · intro h
    cases h with
    | empty => exact ⟨by simp, rfl⟩
    | groups hne =>
      have hmap : hs.map some ≠ [none] := by cases hs <;> simp
      refine ⟨by simpa using hne, ?_⟩
      rw [side?, if_neg hmap, mapM_id_eq_some_iff]
  · intro ⟨hne, h⟩
    rw [side?] at h
    split at h
    · next hnone =>
      cases h
      rw [hnone]
      exact .empty
    · next hnone =>
      obtain rfl := mapM_id_eq_some_iff.1 h
      exact .groups (by simpa using hne)

theorem mem_gaps {i : Nat} :
    i ∈ gaps fields ↔ 0 < i ∧ i + 1 < fields.length ∧ fields[i]? = some none := by
  rw [gaps, List.mem_filter, List.mem_range, decide_eq_true_eq]
  constructor
  · intro ⟨hlt, hpos, hnone⟩
    exact ⟨hpos, by omega, hnone⟩
  · intro ⟨hpos, hlt, hnone⟩
    exact ⟨by omega, hpos, hnone⟩

theorem nodup_gaps (fields : List (Option UInt16)) : (gaps fields).Nodup :=
  List.nodup_range.filter _

theorem gaps_map_some (hs : List UInt16) : gaps (hs.map some) = [] := by
  rw [List.eq_nil_iff_forall_not_mem]
  intro i hi
  rw [mem_gaps] at hi
  simp at hi

/-- A gap has fields on both sides. -/
theorem eq_append_of_mem_gaps {i : Nat} (h : i ∈ gaps fields) :
    fields.take i ≠ [] ∧ fields.drop (i + 1) ≠ [] ∧
      fields = fields.take i ++ none :: fields.drop (i + 1) := by
  obtain ⟨hpos, hlt, hnone⟩ := mem_gaps.1 h
  obtain ⟨hi, hget⟩ := List.getElem?_eq_some_iff.1 hnone
  refine ⟨?_, ?_, ?_⟩
  · rw [ne_eq, List.take_eq_nil_iff]
    rintro (h0 | h0)
    · omega
    · simp [h0] at hi
  · rw [ne_eq, List.drop_eq_nil_iff]
    omega
  · rw [← hget, ← List.drop_eq_getElem_cons hi, List.take_append_drop]

/-- An empty field in a side of the gap is at the end of the text. -/
theorem IsSide.length_eq_one (h : IsSide fields hs) {i : Nat} (hi : fields[i]? = some none) :
    i = 0 ∧ fields.length = 1 := by
  cases h with
  | empty =>
    rw [List.getElem?_singleton] at hi
    split at hi
    · next h0 => exact ⟨h0, rfl⟩
    · cases hi
  | groups hne => simp at hi

theorem IsSide.ne_nil (h : IsSide fields hs) : fields ≠ [] := (isSide_iff.1 h).1

theorem IsSide.length_cases (h : IsSide fields hs) :
    fields.length = hs.length ∨ fields.length = 1 ∧ hs.length = 0 := by
  cases h with
  | empty => exact .inr ⟨rfl, rfl⟩
  | groups hne => exact .inl (List.length_map _)

/-- Between two sides there is just one gap. -/
theorem gaps_append (hleft : IsSide left hs) (hright : IsSide right ks) :
    gaps (left ++ none :: right) = [left.length] := by
  have hl := List.length_pos_of_ne_nil hleft.ne_nil
  have hr := List.length_pos_of_ne_nil hright.ne_nil
  rw [← List.perm_singleton, List.perm_ext_iff_of_nodup (nodup_gaps _) (List.nodup_singleton _)]
  intro i
  rw [mem_gaps, List.mem_singleton, List.length_append, List.length_cons]
  constructor
  · intro ⟨hpos, hlt, hnone⟩
    rcases Nat.lt_trichotomy i left.length with h | h | h
    · rw [List.getElem?_append_left h] at hnone
      have := hleft.length_eq_one hnone
      omega
    · exact h
    · rw [List.getElem?_append_right (Nat.le_of_lt h),
        show i - left.length = (i - left.length - 1) + 1 by omega, List.getElem?_cons_succ] at hnone
      have := hright.length_eq_one hnone
      omega
  · intro h
    subst h
    exact ⟨hl, by omega, by simp⟩

/-- **What fields stand for an address:** eight groups, or a gap between two sides. -/
theorem ofFields?_eq_some_iff {a : Address} :
    ofFields? fields = some a ↔
      (∃ hs, fields = hs.map some ∧ whole? hs = some a) ∨
      ∃ left right hs ks, fields = left ++ none :: right ∧ IsSide left hs ∧ IsSide right ks ∧
        elided? hs ks = some a := by
  constructor
  · intro h
    rw [ofFields?] at h
    split at h
    · next hgaps =>
      obtain ⟨hs, hmap, h⟩ := Option.bind_eq_some_iff.1 h
      exact .inl ⟨hs, mapM_id_eq_some_iff.1 hmap, h⟩
    · next i hgaps =>
      obtain ⟨hs, hleft, h⟩ := Option.bind_eq_some_iff.1 h
      obtain ⟨ks, hright, h⟩ := Option.bind_eq_some_iff.1 h
      obtain ⟨hl, hr, heq⟩ := eq_append_of_mem_gaps (hgaps ▸ List.mem_singleton_self i)
      exact .inr ⟨_, _, hs, ks, heq, isSide_iff.2 ⟨hl, hleft⟩, isSide_iff.2 ⟨hr, hright⟩, h⟩
    · cases h
  · rintro (⟨hs, rfl, h⟩ | ⟨left, right, hs, ks, rfl, hleft, hright, h⟩)
    · rw [ofFields?, gaps_map_some]
      exact Option.bind_eq_some_iff.2 ⟨hs, mapM_id_eq_some_iff.2 rfl, h⟩
    · have htake : (left ++ none :: right).take left.length = left := List.take_left
      have hdrop : (left ++ none :: right).drop (left.length + 1) = right := by simp
      rw [ofFields?, gaps_append hleft hright]
      change ((side? _).bind fun _ => (side? _).bind _) = _
      rw [htake, hdrop, (isSide_iff.1 hleft).2, (isSide_iff.1 hright).2]
      exact h

/-! ### Hextets of addresses -/

theorem eq_ofHextets_iff {a : Address} (hlen : hs.length = 8) :
    ofHextets hs hlen = a ↔ a.family = .v6 ∧ a.hextets = hs := by
  constructor
  · intro h
    subst h
    exact ⟨rfl, Octets.hextets_ofHextets hs⟩
  · intro ⟨hf, hhs⟩
    have heven : a.octets.length % 2 = 0 := by
      rw [a.length_octets, hf]
      rfl
    refine octets_inj ?_
    rw [← Octets.ofHextets_hextets heven]
    exact congrArg Octets.ofHextets hhs.symm

theorem whole?_eq_some_iff {a : Address} :
    whole? hs = some a ↔ hs.length = 8 ∧ a.family = .v6 ∧ a.hextets = hs := by
  rw [whole?]
  split
  · next hlen => simp [hlen, eq_ofHextets_iff hlen]
  · next hlen => simp [hlen]

theorem elided?_eq_some_iff {a : Address} :
    elided? hs ks = some a ↔ hs.length + ks.length ≤ 7 ∧ a.family = .v6 ∧
      a.hextets = hs ++ List.replicate (8 - (hs.length + ks.length)) 0 ++ ks := by
  rw [elided?]
  split
  · next hlen =>
    rw [Option.some.injEq, eq_ofHextets_iff]
    simp [hlen]
  · next hlen => simp [hlen]

end Cidr.Address
