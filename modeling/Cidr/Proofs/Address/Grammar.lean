import Cidr.Proofs.Address.Fields

/-!
# The texts of IPv6 addresses

The reader decides by the empty fields of a text which form of address it has
before it.  Nevertheless it accepts exactly the texts of the grammar.

## Main results

* `Address.readColons?_eq_some_iff` — IPv6 addresses are read from the texts of
  the grammar.
* `Address.read?_eq_some_iff` — **addresses are read from their texts,** and from
  nothing else.
* `Address.parse_colons_exact` — **texts with a colon are read by the grammar,**
  and refused where it does not have them.
-/

namespace Cidr.Address

/-! ### Texts -/

/-- Where no field is empty the fields are those of the grammar. -/
theorem isFields_map_some_iff {parts : List (List Char)} {hs : List UInt16} :
    IsFields parts (hs.map some) ↔ IsTail parts hs := by
  constructor
  · intro h
    generalize hfields : hs.map some = fields at h
    induction h generalizing hs with
    | nil =>
      obtain rfl := List.map_eq_nil_iff.1 hfields
      exact .nil
    | quad hquad =>
      obtain rfl := List.map_injective_iff.2 (Option.some_injective _) hfields
      exact .quad hquad
    | cons hfield hrest ih =>
      obtain ⟨h, hs, rfl, rfl, hmap⟩ := List.map_eq_cons_iff.1 hfields
      exact .cons hfield (ih hmap)
  · intro h
    induction h with
    | nil => exact .nil
    | quad hquad => exact .quad hquad
    | cons hgroup htail ih => exact .cons hgroup ih

theorem IsTail.eq_nil {parts : List (List Char)} (h : IsTail parts []) : parts = [] := by
  generalize hhs : [] = hs at h
  cases h with
  | nil => rfl
  | quad hquad =>
    have := hquad.length_hextets
    rw [← hhs] at this
    cases this
  | cons hgroup htail => cases hhs

/-- A sequence with an empty field is more than a dotted quad. -/
theorem IsFields.exists_cons {parts : List (List Char)} {field : Option UInt16}
    {fields : List (Option UInt16)} (h : IsFields parts (field :: fields))
    (hnone : none ∈ field :: fields) :
    ∃ s rest, parts = s :: rest ∧ IsField s field ∧ IsFields rest fields := by
  generalize hfields : field :: fields = all at h hnone
  cases h with
  | nil => cases hnone
  | quad hquad => simp at hnone
  | cons hfield hrest =>
    cases hfields
    exact ⟨_, _, rfl, hfield, hrest⟩

/-- An empty field comes from an empty part between the parts of the other fields. -/
theorem isFields_append_iff {parts : List (List Char)} {left right : List (Option UInt16)} :
    IsFields parts (left ++ none :: right) ↔
      ∃ before after, parts = before ++ [] :: after ∧ List.Forall₂ IsField before left ∧
        IsFields after right := by
  constructor
  · intro h
    induction left generalizing parts with
    | nil =>
      obtain ⟨s, rest, rfl, hfield, hrest⟩ := IsFields.exists_cons h (by simp)
      obtain rfl : s = [] := hfield
      exact ⟨[], rest, rfl, .nil, hrest⟩
    | cons field left ih =>
      obtain ⟨s, rest, rfl, hfield, hrest⟩ := IsFields.exists_cons h (by simp)
      obtain ⟨before, after, rfl, hbefore, hafter⟩ := ih hrest
      exact ⟨s :: before, after, rfl, .cons hfield hbefore, hafter⟩
  · intro ⟨before, after, hparts, hbefore, hafter⟩
    subst hparts
    induction hbefore with
    | nil => exact .cons rfl hafter
    | cons hfield _ ih => exact .cons hfield ih

/-- Groups before an elision are the fields before a gap. -/
theorem isJoined_iff_isSide {s : List Char} {hs : List UInt16} :
    IsJoined ':' IsGroup s hs ↔ ∃ parts fields, IsSide fields hs ∧
      List.Forall₂ IsField parts fields ∧ s = [':'].intercalate parts := by
  constructor
  · intro ⟨parts, hparts, hs⟩
    cases hparts with
    | nil => exact ⟨[[]], [none], .empty, .cons rfl .nil, hs⟩
    | cons hgroup hrest =>
      refine ⟨_, _, .groups (List.cons_ne_nil _ _), ?_, hs⟩
      exact List.forall₂_map_right_iff.2 (.cons hgroup hrest)
  · intro ⟨parts, fields, hside, hparts, heq⟩
    cases hside with
    | empty =>
      cases hparts with
      | cons hfield hrest =>
        cases hrest
        obtain rfl := hfield
        exact ⟨[], .nil, heq⟩
    | groups hne =>
      have hgroups : List.Forall₂ (fun p h => IsField p (some h)) parts hs :=
        List.forall₂_map_right_iff.1 hparts
      exact ⟨parts, hgroups, heq⟩

/-- What follows an elision is the fields after a gap. -/
theorem isTail_iff_isSide {s : List Char} {ks : List UInt16} :
    (∃ parts, IsTail parts ks ∧ s = [':'].intercalate parts) ↔
      ∃ parts fields, IsSide fields ks ∧ IsFields parts fields ∧ s = [':'].intercalate parts := by
  constructor
  · intro ⟨parts, htail, hs⟩
    by_cases hks : ks = []
    · subst hks
      obtain rfl := htail.eq_nil
      exact ⟨[[]], [none], .empty, .cons rfl .nil, hs⟩
    · exact ⟨parts, _, .groups hks, isFields_map_some_iff.2 htail, hs⟩
  · intro ⟨parts, fields, hside, hparts, hs⟩
    cases hside with
    | empty =>
      obtain ⟨s, rest, rfl, hfield, hrest⟩ := IsFields.exists_cons hparts (by simp)
      obtain rfl : s = [] := hfield
      have htail : IsTail rest [] := isFields_map_some_iff.1 hrest
      obtain rfl := htail.eq_nil
      exact ⟨[], .nil, hs⟩
    | groups hne => exact ⟨parts, isFields_map_some_iff.1 hparts, hs⟩

theorem readColons?_of_isFields {parts : List (List Char)} {fields : List (Option UInt16)}
    {a : Address} (h : IsFields parts fields) (hparts : 3 ≤ parts.length)
    (hfields : fields.length ≤ 9) (ha : ofFields? fields = some a) :
    readColons? ([':'].intercalate parts) = some a := by
  have hne : parts ≠ [] := by
    intro h
    rw [h] at hparts
    cases hparts
  rw [readColons?, List.splitOn_intercalate ':' h.not_mem hne]
  change (if _ then _ else (readFields? parts).bind _) = _
  rw [if_neg (Nat.not_lt.2 hparts), readFields?_eq_some_iff.2 h, Option.bind_some, if_pos hfields,
    ha]

/-- The parts around an elision have the empty part of the gap between them. -/
theorem intercalate_gap {before after : List (List Char)} {left right : List (Option UInt16)}
    {hs ks : List UInt16} (hl : IsSide left hs) (hbefore : List.Forall₂ IsField before left)
    (hr : IsSide right ks) (hafter : IsFields after right) :
    before ≠ [] ∧ after ≠ [] ∧ [':'].intercalate (before ++ [] :: after) =
      [':'].intercalate before ++ ':' :: ':' :: [':'].intercalate after := by
  have hb : before ≠ [] := by
    intro h
    rw [h, List.forall₂_nil_left_iff] at hbefore
    exact hl.ne_nil hbefore
  have ha : after ≠ [] := by
    intro h
    rw [h] at hafter
    cases hafter
    exact hr.ne_nil rfl
  refine ⟨hb, ha, ?_⟩
  rw [intercalate_append ':' hb (by simp), List.intercalate_cons_of_ne_nil ha]
  rfl

theorem ipv6Text_of_readColons? {s : List Char} {a : Address} (h : readColons? s = some a) :
    a.family = .v6 ∧ IPv6Text s a.hextets := by
  have hcut : [':'].intercalate (s.splitOn ':') = s := List.intercalate_splitOn ':'
  rw [readColons?] at h
  split at h
  · cases h
  obtain ⟨fields, hread, h⟩ := Option.bind_eq_some_iff.1 h
  rw [readFields?_eq_some_iff] at hread
  split at h
  · rw [← hcut]
    rcases ofFields?_eq_some_iff.1 h with
      ⟨hs, rfl, hwhole⟩ | ⟨left, right, hs, ks, rfl, hl, hr, helided⟩
    · obtain ⟨hlen, hf, hhs⟩ := whole?_eq_some_iff.1 hwhole
      rw [hhs]
      exact ⟨hf, .full (isFields_map_some_iff.1 hread) hlen⟩
    · obtain ⟨hlen, hf, hhs⟩ := elided?_eq_some_iff.1 helided
      obtain ⟨before, after, hparts, hbefore, hafter⟩ := isFields_append_iff.1 hread
      obtain ⟨parts, htail, heq⟩ := isTail_iff_isSide.2 ⟨after, right, hr, hafter, rfl⟩
      obtain ⟨-, -, hgap⟩ := intercalate_gap hl hbefore hr hafter
      rw [hhs, hparts, hgap, heq]
      exact ⟨hf, .elided (isJoined_iff_isSide.2 ⟨before, left, hl, hbefore, rfl⟩) htail hlen⟩
  · cases h

theorem readColons?_of_ipv6Text {s : List Char} {a : Address} (hf : a.family = .v6)
    (htext : IPv6Text s a.hextets) : readColons? s = some a := by
  generalize hhs : a.hextets = hs at htext
  cases htext with
  | @full parts _ htail hlen =>
    have hfields := isFields_map_some_iff.2 htail
    have hle := hfields.length_le
    rw [List.length_map, hlen] at hle
    refine readColons?_of_isFields hfields (by omega) (by simp [hlen]) ?_
    exact ofFields?_eq_some_iff.2 (.inl ⟨_, rfl, whole?_eq_some_iff.2 ⟨hlen, hf, hhs⟩⟩)
  | @elided s parts hs ks hhead htail hlen =>
    obtain ⟨before, left, hl, hbefore, rfl⟩ := isJoined_iff_isSide.1 hhead
    obtain ⟨after, right, hr, hafter, heq⟩ := isTail_iff_isSide.1 ⟨parts, htail, rfl⟩
    obtain ⟨hb, ha, hgap⟩ := intercalate_gap hl hbefore hr hafter
    have hbpos := List.length_pos_of_ne_nil hb
    have hapos := List.length_pos_of_ne_nil ha
    have hlcases := hl.length_cases
    have hrcases := hr.length_cases
    rw [heq, ← hgap]
    -- seven groups and the empty fields beside them are at most nine fields
    refine readColons?_of_isFields (isFields_append_iff.2 ⟨before, after, rfl, hbefore, hafter⟩)
      (by simp only [List.length_append, List.length_cons]; omega)
      (by simp only [List.length_append, List.length_cons]; omega) ?_
    exact ofFields?_eq_some_iff.2 (.inr ⟨left, right, hs, ks, rfl, hl, hr,
      elided?_eq_some_iff.2 ⟨hlen, hf, hhs⟩⟩)

/-- **IPv6 addresses are read from the texts of the grammar,** and from nothing else. -/
theorem readColons?_eq_some_iff {s : List Char} {a : Address} :
    readColons? s = some a ↔ a.family = .v6 ∧ IPv6Text s a.hextets := by
  constructor
  · exact ipv6Text_of_readColons?
  · intro ⟨hf, htext⟩
    exact readColons?_of_ipv6Text hf htext

/-! ### Reading -/

theorem IPv6Text.length_eq {s : List Char} {hs : List UInt16} (h : IPv6Text s hs) :
    hs.length = 8 := by
  cases h with
  | full htail hlen => exact hlen
  | elided hhead htail hlen =>
    simp only [List.length_append, List.length_replicate]
    omega

theorem colon_mem_of_readColons? {s : List Char} {a : Address} (h : readColons? s = some a) :
    ':' ∈ s := by
  by_contra hcolon
  rw [readColons?, List.splitOn_eq_singleton hcolon] at h
  cases h

/-- **Addresses are read from the texts of their families,** and from nothing else. -/
theorem read?_eq_some_iff {s : List Char} {a : Address} :
    read? s = some a ↔ IsText s a := by
  rw [IsText, ← readDotted?_eq_some_iff, ← readColons?_eq_some_iff, read?]
  split
  · next hcolon =>
    have hdotted : readDotted? s ≠ some a := by
      intro h
      exact (readDotted?_eq_some_iff.1 h).2.not_mem (by decide) rfl hcolon
    simp [hdotted]
  · next hcolon =>
    have hcolons : readColons? s ≠ some a := fun h => hcolon (colon_mem_of_readColons? h)
    simp [hcolons]

theorem read?_eq_none_iff {s : List Char} : read? s = none ↔ ∀ a, ¬ IsText s a := by
  simp only [← read?_eq_some_iff, Option.eq_none_iff_forall_ne_some, ne_eq]

theorem parse_eq_ok_iff {s : String} {a : Address} : parse s = .ok a ↔ read? s.toList = some a := by
  rw [parse]
  split
  · next b h => simp [h]
  · next h => simp [h]

theorem parse_eq_error_iff {s : String} {e : Error} :
    parse s = .error e ↔ read? s.toList = none ∧ e = .notAddress s := by
  rw [parse]
  split
  · next b h => simp [h]
  · next h => simp [h, eq_comm]

/-! ### Characters -/

theorem IsTail.not_mem {parts : List (List Char)} {hs : List UInt16} (h : IsTail parts hs)
    {c : Char} (hdot : c ≠ '.') (hc : Hex.digitValue? c = none) : ∀ p ∈ parts, c ∉ p := by
  induction h with
  | nil => simp
  | quad hquad => simpa using hquad.not_mem hdot hc
  | cons hgroup htail ih => simpa using ⟨hgroup.not_mem hc, ih⟩

/-- A character that is neither a digit nor one of the separators is in no text of an address. -/
theorem IsText.not_mem {s : List Char} {a : Address} (h : IsText s a) {c : Char} (hdot : c ≠ '.')
    (hcolon : c ≠ ':') (hc : Hex.digitValue? c = none) : c ∉ s := by
  have hparts : ∀ {parts hs}, IsTail parts hs → c ∉ [':'].intercalate parts := by
    intro parts hs htail hmem
    obtain h | ⟨p, hp, h⟩ := mem_intercalate hmem
    · exact hcolon h
    · exact htail.not_mem hdot hc p hp h
  obtain ⟨-, hquad⟩ | ⟨-, htext⟩ := h
  · exact hquad.not_mem hdot hc
  · generalize a.hextets = hs at htext
    cases htext with
    | full htail hlen => exact hparts htail
    | elided hhead htail hlen =>
      simp [hhead.not_mem hcolon fun _ _ hgroup => hgroup.not_mem hc, hcolon, hparts htail]

/-- The texts of IPv6 addresses are those with a colon. -/
theorem IsText.colon_mem_iff {s : List Char} {a : Address} (h : IsText s a) :
    ':' ∈ s ↔ a.family = .v6 := by
  obtain ⟨hf, hquad⟩ | ⟨hf, htext⟩ := h
  · rw [hf]
    exact iff_of_false (hquad.not_mem (by decide) rfl) (by decide)
  · exact iff_of_true (colon_mem_of_readColons? (readColons?_eq_some_iff.2 ⟨hf, htext⟩)) hf

/-! ### Texts with a colon -/

/-- **A text with a colon is read as the grammar says.**  The address has the hextets of the text,
and a text that the grammar does not have is refused. -/
theorem parse_colons_exact {s : String} (hcolon : ':' ∈ s.toList) :
    (∀ a, parse s = .ok a ↔ a.family = .v6 ∧ IPv6Text s.toList a.hextets) ∧
      ((∃ a, parse s = .ok a) ↔ ∃ hs, IPv6Text s.toList hs) ∧
      ((¬∃ hs, IPv6Text s.toList hs) → parse s = .error (.notAddress s)) := by
  have hok : ∀ a, parse s = .ok a ↔ a.family = .v6 ∧ IPv6Text s.toList a.hextets := by
    intro a
    rw [parse_eq_ok_iff, read?, if_pos hcolon, readColons?_eq_some_iff]
  have hexists : (∃ a, parse s = .ok a) ↔ ∃ hs, IPv6Text s.toList hs := by
    constructor
    · intro ⟨a, ha⟩
      exact ⟨a.hextets, ((hok a).1 ha).2⟩
    · intro ⟨hs, htext⟩
      refine ⟨ofHextets hs htext.length_eq, (hok _).2 ⟨rfl, ?_⟩⟩
      rwa [((eq_ofHextets_iff htext.length_eq).1 rfl).2]
  refine ⟨hok, hexists, ?_⟩
  intro hnone
  cases h : parse s with
  | ok a => exact absurd (hexists.1 ⟨a, h⟩) hnone
  | error e => rw [(parse_eq_error_iff.1 h).2]

/-- A dotted quad after an elision: `FE80::0:192.0.2.33` stands for `fe80::c000:221`. -/
theorem parse_colons_elided_quad :
    ':' ∈ "FE80::0:192.0.2.33".toList ∧
      parse "FE80::0:192.0.2.33" = .ok (ofHextets [0xFE80, 0, 0, 0, 0, 0, 0xC000, 0x221] rfl) := by
  have hcolon : ':' ∈ "FE80::0:192.0.2.33".toList := by decide
  have hhead : IsJoined ':' IsGroup "FE80".toList [0xFE80] :=
    ⟨["FE80".toList], .cons (readGroup?_eq_some_iff.1 (by decide)) .nil, rfl⟩
  have hquad : IsQuad "192.0.2.33".toList [192, 0, 2, 33] :=
    (readDotted?_eq_some_iff.1 (show _ = some (v4 192 0 2 33) by decide)).2
  have htail : IsTail ["0".toList, "192.0.2.33".toList] [0, 0xC000, 0x221] :=
    .cons (readGroup?_eq_some_iff.1 (by decide)) (.quad hquad)
  exact ⟨hcolon, ((parse_colons_exact hcolon).1 _).2 ⟨rfl, .elided hhead htail (by decide)⟩⟩

example : parse "1::2::3" = .error (.notAddress "1::2::3") := by decide

end Cidr.Address
