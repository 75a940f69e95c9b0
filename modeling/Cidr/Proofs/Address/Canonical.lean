import Cidr.Proofs.Address.ZeroRun

/-!
# The style of canonical texts

The canonical text of an IPv6 address shows its hextets in lower case and without
superfluous zeros.  Two colons stand for a run of zeros, and they stand next to
each other nowhere else, since no group is empty: so what the text leaves out can
be told from the text alone.

## Main results

* `IsJoined.of_append` — cutting a text at one of its separators.
* `eq_of_append_double` — two separators in a row are found in one place only.
* `Address.compressed_of_zeros` — what is left of a run of zeros.
* `Address.canonical_style` — **the canonical text leaves out the leftmost one of the
  longest runs of zeros, if there are two zeros in a row, and nothing else.**
-/

namespace Cidr

/-! ### Separators -/

section

variable {α : Type} {sep : Char} {IsPart : List Char → α → Prop} {s x y : List Char} {as : List α}

/-- **Cutting a text at one of its separators** leaves the texts of the values before and after
it. -/
theorem IsJoined.of_append (hsep : ∀ p a, IsPart p a → sep ∉ p)
    (h : IsJoined sep IsPart (x ++ sep :: y) as) :
    ∃ bs cs, as = bs ++ cs ∧ bs ≠ [] ∧ cs ≠ [] ∧ IsJoined sep IsPart x bs ∧
      IsJoined sep IsPart y cs := by
  have has : as ≠ [] := by
    rintro rfl
    obtain ⟨parts, hparts, heq⟩ := h
    rw [List.forall₂_nil_right_iff.1 hparts] at heq
    exact absurd heq (by simp)
  have hne : ∀ {t : List Char} {bs : List α}, List.Forall₂ IsPart (t.splitOn sep) bs → bs ≠ [] := by
    rintro t _ hbs rfl
    exact List.splitOn_ne_nil sep t (List.forall₂_nil_right_iff.1 hbs)
  -- the parts of the text are those before the separator and those after it
  rw [isJoined_iff_splitOn hsep has, List.splitOn_append_cons_self] at h
  have hx := (List.forall₂_take_append as _ _ h.flip).flip
  have hy := (List.forall₂_drop_append as _ _ h.flip).flip
  exact ⟨_, _, (List.take_append_drop _ as).symm, hne hx, hne hy,
    (isJoined_iff_splitOn hsep (hne hx)).2 hx, (isJoined_iff_splitOn hsep (hne hy)).2 hy⟩

variable (hpart : ∀ p a, IsPart p a → p ≠ [] ∧ sep ∉ p)

include hpart

/-- A text of parts that are not empty does not begin with a separator. -/
theorem IsJoined.exists_cons (h : IsJoined sep IsPart s as) (has : as ≠ []) :
    ∃ c t, s = c :: t ∧ c ≠ sep := by
  obtain ⟨parts, hparts, rfl⟩ := h
  cases hparts with
  | nil => exact absurd rfl has
  | @cons p a parts as hp hparts =>
    obtain ⟨hne, hsep⟩ := hpart p a hp
    obtain ⟨c, p, rfl⟩ := List.exists_cons_of_ne_nil hne
    have hc : c ≠ sep := fun hc => hsep (hc ▸ List.mem_cons_self)
    by_cases hlast : parts = []
    · rw [hlast, List.intercalate_singleton]
      exact ⟨c, p, rfl, hc⟩
    · rw [List.intercalate_cons_of_ne_nil hlast]
      exact ⟨c, _, rfl, hc⟩

/-- Each separator stands between two other characters. -/
theorem IsJoined.around_separator (h : IsJoined sep IsPart (x ++ sep :: y) as) :
    x ≠ [] ∧ ∃ c t, y = c :: t ∧ c ≠ sep := by
  obtain ⟨bs, cs, -, hbs, hcs, hx, hy⟩ := h.of_append fun p a hp => (hpart p a hp).2
  obtain ⟨c, t, rfl, -⟩ := hx.exists_cons hpart hbs
  exact ⟨List.cons_ne_nil c t, hy.exists_cons hpart hcs⟩

theorem IsJoined.not_infix_double (h : IsJoined sep IsPart s as) : ¬ [sep, sep] <:+: s := by
  rintro ⟨x, y, rfl⟩
  rw [List.append_assoc] at h
  obtain ⟨-, c, t, heq, hc⟩ := h.around_separator hpart
  exact hc (List.cons.inj heq).1.symm

/-- **Two separators in a row are found in one place only** where two texts are put together with
them in between. -/
theorem eq_of_append_double {before after : List Char} {bs cs : List α}
    (hbefore : IsJoined sep IsPart before bs) (hafter : IsJoined sep IsPart after cs)
    (h : before ++ sep :: sep :: after = x ++ sep :: sep :: y) : x = before ∧ y = after := by
  rcases List.append_eq_append_iff.1 h with ⟨t, rfl, ht⟩ | ⟨t, rfl, ht⟩
  · -- a later pair makes `after` begin with a separator, or has one in the middle of it
    match t, ht with
    | [], ht => simp_all
    | [c], ht =>
      obtain ⟨-, ht⟩ := List.cons.inj ht
      obtain ⟨-, rfl⟩ := List.cons.inj ht
      exact absurd rfl (IsJoined.around_separator hpart (x := []) hafter).1
    | c :: d :: t, ht =>
      obtain ⟨-, ht⟩ := List.cons.inj ht
      obtain ⟨-, rfl⟩ := List.cons.inj ht
      obtain ⟨-, e, u, heq, he⟩ := hafter.around_separator hpart
      exact absurd (List.cons.inj heq).1.symm he
  · -- an earlier pair makes `before` end with a separator, or has one in the middle of it
    match t, ht with
    | [], ht => simp_all
    | [c], ht =>
      obtain ⟨rfl, -⟩ := List.cons.inj ht
      obtain ⟨-, e, u, heq, -⟩ := hbefore.around_separator hpart
      cases heq
    | c :: d :: t, ht =>
      obtain ⟨hc, ht⟩ := List.cons.inj ht
      obtain ⟨hd, -⟩ := List.cons.inj ht
      rw [← hc, ← hd] at hbefore
      obtain ⟨-, e, u, heq, he⟩ := hbefore.around_separator hpart
      exact absurd (List.cons.inj heq).1.symm he

end

namespace Address

variable {hs : List UInt16} {a : Address}

/-! ### Groups -/

theorem isLowerGroup_iff {s : List Char} {h : UInt16} :
    IsLowerGroup s h ↔ s = Hex.digits h.toNat :=
  isLowerNumeral_iff (by decide) (by decide)

theorem IsLowerGroup.ne_nil_and_colon_not_mem (s : List Char) (h : UInt16)
    (hs : IsLowerGroup s h) : s ≠ [] ∧ ':' ∉ s :=
  ⟨hs.isNumeral.ne_nil, hs.isNumeral.not_mem (by decide) rfl⟩

theorem isJoined_lower_groups (hs : List UInt16) : IsJoined ':' IsLowerGroup (groups hs) hs := by
  refine ⟨_, ?_, rfl⟩
  rw [List.forall₂_map_left_iff, List.forall₂_same]
  exact fun h _ => isLowerGroup_iff.2 rfl

/-! ### Runs of zeros -/

/-- The longest run tells whether two zeros stand in a row. -/
theorem zeros_infix_iff : [0, 0] <:+: hs ↔ 2 ≤ (ZeroRun.longest hs).length := by
  constructor
  · rintro ⟨before, after, rfl⟩
    refine (ZeroRun.isLongest_longest _).length_le ⟨before.length, 2⟩ ?_
    intro i hi
    rw [List.append_assoc, List.getElem?_append_right (Nat.le_add_right _ _),
      Nat.add_sub_cancel_left]
    match i, hi with
    | 0, _ => rfl
    | 1, _ => rfl
  · intro hlong
    have hrun := ZeroRun.take_append_longest hs
    generalize ZeroRun.longest hs = run at hlong hrun
    obtain ⟨n, hn⟩ := Nat.exists_eq_add_of_le hlong
    refine ⟨hs.take run.start, List.replicate n 0 ++ hs.drop (run.start + run.length), ?_⟩
    rw [hn, List.replicate_add] at hrun
    simpa [hn] using hrun

theorem compressed_of_no_zeros (h : ¬ [0, 0] <:+: hs) : compressed hs = groups hs := by
  rw [zeros_infix_iff] at h
  rw [compressed, if_pos (Nat.lt_of_not_le h)]

/-- Two colons are left of the longest run. -/
theorem compressed_of_zeros (h : [0, 0] <:+: hs) :
    compressed hs = groups (hs.take (ZeroRun.longest hs).start) ++ ':' :: ':' ::
      groups (hs.drop ((ZeroRun.longest hs).start + (ZeroRun.longest hs).length)) := by
  rw [zeros_infix_iff] at h
  rw [compressed, if_neg (Nat.not_lt_of_le h)]

/-! ### The canonical text -/

theorem toList_toString_of_mapped (h : a.IsIPv4Mapped) :
    (toString a).toList = "::ffff:".toList ++ dotted (a.octets.drop 12) := by
  change (String.ofList a.canonical).toList = _
  rw [String.toList_ofList, canonical, h.1]
  exact if_pos h

theorem toList_toString_of_not_mapped (hf : a.family = .v6) (h : ¬ a.IsIPv4Mapped) :
    (toString a).toList = compressed a.hextets := by
  change (String.ofList a.canonical).toList = _
  rw [String.toList_ofList, canonical, hf]
  exact if_neg h

theorem length_hextets (hf : a.family = .v6) : a.hextets.length = 8 := by
  rw [hextets, Octets.length_hextets, a.length_octets, hf]
  rfl

/-- **The canonical text of an IPv6 address leaves out a run of zeros, and nothing else.**  Unless
the address is the counterpart of an IPv4 address, its text has two colons in a row exactly if
there are two zero hextets in a row.  Then they stand, in one place only, for a whole run of zeros:
no other run is longer, and none before it is as long.  It is the run that a single pass finds.
All other hextets are written in small letters without zeros in front, a zero as a single digit,
and joined by colons. The text of the counterpart of an IPv4 address ends in the dotted quad of its
last four octets. -/
theorem canonical_style (hf : a.family = .v6) :
    (¬ a.IsIPv4Mapped →
      a.hextets.length = 8 ∧
      ([':', ':'] <:+: (toString a).toList ↔ [0, 0] <:+: a.hextets) ∧
      (¬ [0, 0] <:+: a.hextets → IsJoined ':' IsLowerGroup (toString a).toList a.hextets) ∧
      ([0, 0] <:+: a.hextets → ∃ (run : ZeroRun) (before after : List Char),
        2 ≤ run.length ∧ run.IsMaximal a.hextets ∧ run.IsLongest a.hextets ∧
        ZeroRun.scan a.hextets = run ∧
        (toString a).toList = before ++ ':' :: ':' :: after ∧
        (∀ x y, (toString a).toList = x ++ ':' :: ':' :: y → x = before ∧ y = after) ∧
        IsJoined ':' IsLowerGroup before (a.hextets.take run.start) ∧
        IsJoined ':' IsLowerGroup after (a.hextets.drop (run.start + run.length)))) ∧
    (a.IsIPv4Mapped → ∃ quad, (toString a).toList = "::ffff:".toList ++ quad ∧
      IsQuad quad (a.octets.drop 12)) ∧
    ∀ s, IsLowerGroup s 0 ↔ s = ['0'] := by
  refine ⟨?_, ?_, fun s => isLowerGroup_iff⟩
  · intro hmapped
    rw [toList_toString_of_not_mapped hf hmapped]
    have hpart := IsLowerGroup.ne_nil_and_colon_not_mem
    have hfull : ¬ [0, 0] <:+: a.hextets →
        IsJoined ':' IsLowerGroup (compressed a.hextets) a.hextets := by
      intro hzeros
      rw [compressed_of_no_zeros hzeros]
      exact isJoined_lower_groups _
    refine ⟨length_hextets hf, ?_, hfull, ?_⟩
    · constructor
      · intro hcolons
        by_contra hzeros
        exact (hfull hzeros).not_infix_double hpart hcolons
      · intro hzeros
        rw [compressed_of_zeros hzeros]
        exact ⟨_, _, List.append_assoc _ _ _⟩
    · intro hzeros
      have hlongest := ZeroRun.isLongest_longest a.hextets
      have hbefore := isJoined_lower_groups (a.hextets.take (ZeroRun.longest a.hextets).start)
      have hafter := isJoined_lower_groups (a.hextets.drop
        ((ZeroRun.longest a.hextets).start + (ZeroRun.longest a.hextets).length))
      rw [compressed_of_zeros hzeros]
      exact ⟨_, _, _, zeros_infix_iff.1 hzeros, hlongest.isMaximal, hlongest,
        ZeroRun.scan_eq_longest _, rfl, fun x y => eq_of_append_double hpart hbefore hafter,
        hbefore, hafter⟩
  · intro hmapped
    refine ⟨_, toList_toString_of_mapped hmapped, isQuad_iff.2 ⟨?_, rfl⟩⟩
    rw [List.length_drop, a.length_octets, hf]
    rfl

/-- Of two runs of one length the left one is left out; a zero by itself is written; and
`192.0.2.33` is seen in its counterpart. -/
theorem canonical_style_of_tie :
    (∃ before after : List Char,
      (toString (ofHextets [0x2001, 0xdb8, 0, 0, 1, 0, 0, 1] rfl)).toList =
        before ++ ':' :: ':' :: after ∧
      IsJoined ':' IsLowerGroup before [0x2001, 0xdb8] ∧
      IsJoined ':' IsLowerGroup after [1, 0, 0, 1]) ∧
    IsJoined ':' IsLowerGroup (toString (ofHextets [1, 0, 2, 3, 4, 5, 6, 7] rfl)).toList
      [1, 0, 2, 3, 4, 5, 6, 7] ∧
    ∃ quad, (toString (v4 192 0 2 33).toIPv6).toList = "::ffff:".toList ++ quad ∧
      IsQuad quad [192, 0, 2, 33] := by
  obtain ⟨htie, -⟩ := canonical_style (a := ofHextets [0x2001, 0xdb8, 0, 0, 1, 0, 0, 1] rfl) rfl
  obtain ⟨hsingle, -⟩ := canonical_style (a := ofHextets [1, 0, 2, 3, 4, 5, 6, 7] rfl) rfl
  obtain ⟨-, hmapped, -⟩ := canonical_style (a := (v4 192 0 2 33).toIPv6) rfl
  obtain ⟨-, -, -, htie⟩ := htie (by decide)
  obtain ⟨-, -, hsingle, -⟩ := hsingle (by decide)
  obtain ⟨run, before, after, -, -, -, hscan, htext, -, hbefore, hafter⟩ := htie (by decide)
  obtain rfl : (⟨2, 2⟩ : ZeroRun) = run := hscan
  exact ⟨⟨before, after, htext, hbefore, hafter⟩, hsingle (by decide), hmapped (by decide)⟩

end Address

end Cidr
