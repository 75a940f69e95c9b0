import Cidr.Address.Mapped
import Cidr.Proofs.Address.Grammar

/-!
# Reading what was written

The written forms of an address are texts of the grammar, so an address is read
back from each of them.  IPv4 addresses have no other text than the canonical one.

## Main results

* `Address.isQuad_iff` — there is one dotted quad for four octets.
* `Address.ipv6Text_canonical`, `Address.ipv6Text_expanded` — the written forms of
  IPv6 addresses are texts of the grammar.
* `Address.parse_written` — **addresses are read back from both written forms.**
-/

namespace Cidr

/-! ### Runs of zeros -/

namespace ZeroRun

theorem leading_le (hs : List UInt16) : leading hs ≤ hs.length :=
  (List.takeWhile_sublist _).length_le

/-- A sequence is the zeros it begins with and the rest of it. -/
theorem replicate_leading_append (hs : List UInt16) :
    List.replicate (leading hs) 0 ++ hs.drop (leading hs) = hs := by
  induction hs with
  | nil => rfl
  | cons h hs ih =>
    rw [leading, List.takeWhile_cons]
    split
    · next hzero =>
      obtain rfl : h = 0 := of_decide_eq_true hzero
      exact congrArg (0 :: ·) ih
    · rfl

/-- The longest run of zeros lies within the sequence. -/
theorem longest_le (hs : List UInt16) : (longest hs).start + (longest hs).length ≤ hs.length := by
  induction hs with
  | nil => simp [longest]
  | cons h hs ih =>
    rw [longest]
    split
    · rw [Nat.zero_add]
      exact leading_le (h :: hs)
    · simp only [List.length_cons]
      omega

/-- **The longest run consists of zeros,** so a sequence can be put together from the parts before
and after it. -/
theorem take_append_longest (hs : List UInt16) :
    hs.take (longest hs).start ++ List.replicate (longest hs).length 0 ++
      hs.drop ((longest hs).start + (longest hs).length) = hs := by
  induction hs with
  | nil => rfl
  | cons h hs ih =>
    rw [longest]
    split
    · rw [List.take_zero, List.nil_append, Nat.zero_add]
      exact replicate_leading_append (h :: hs)
    · rw [Nat.add_right_comm]
      exact congrArg (h :: ·) ih

end ZeroRun

namespace Address

/-! ### Dotted quads -/

/-- **There is one dotted quad for four octets.** -/
theorem isQuad_iff {s : List Char} {a : Octets} : IsQuad s a ↔ a.length = 4 ∧ s = dotted a := by
  refine and_congr_right ?_
  intro _
  have hparts : ∀ parts, List.Forall₂ IsOctet parts a ↔
      parts = a.map fun b => Decimal.digits b.toNat := by
    intro parts
    have hoctet : IsOctet = fun s b => s = Decimal.digits b.toNat := by
      funext s b
      exact propext isPlainNumeral_ten_iff
    have hmap := List.forall₂_map_right_iff (R := (· = ·)) (l := parts) (u := a)
      (f := fun b => Decimal.digits b.toNat)
    rw [List.forall₂_eq_eq_eq] at hmap
    rw [hoctet, hmap]
  constructor
  · intro ⟨parts, h, hs⟩
    rw [hs, (hparts parts).1 h]
    rfl
  · intro hs
    exact ⟨_, (hparts _).2 rfl, hs⟩

/-! ### Groups -/

theorem length_digits_le (h : UInt16) : (Hex.digits h.toNat).length ≤ 4 :=
  (Nat.length_toDigits_le_iff (by decide) (by decide)).2 h.toNat_lt

theorem isGroup_digits (h : UInt16) : IsGroup (Hex.digits h.toNat) h :=
  ⟨length_digits_le h, .toDigits (by decide) (by decide) _⟩

theorem isGroup_leftpad (h : UInt16) : IsGroup ((Hex.digits h.toNat).leftpad 4 '0') h := by
  refine ⟨?_, (isGroup_digits h).isNumeral.leftpad (by decide) 4⟩
  rw [List.length_leftpad]
  exact Nat.max_le.2 ⟨Nat.le_refl 4, length_digits_le h⟩

/-- Groups that are written one by one are a tail. -/
theorem isTail_map {write : UInt16 → List Char} (hwrite : ∀ h, IsGroup (write h) h)
    (hs : List UInt16) : IsTail (hs.map write) hs := by
  induction hs with
  | nil => exact .nil
  | cons h hs ih => exact .cons (hwrite h) ih

theorem isJoined_groups (hs : List UInt16) : IsJoined ':' IsGroup (groups hs) hs := by
  refine ⟨_, ?_, rfl⟩
  rw [List.forall₂_map_left_iff, List.forall₂_same]
  exact fun h _ => isGroup_digits h

/-! ### Texts of IPv6 addresses -/

theorem ipv6Text_compressed {hs : List UInt16} (hlen : hs.length = 8) :
    IPv6Text (compressed hs) hs := by
  have hle := ZeroRun.longest_le hs
  have hrun := ZeroRun.take_append_longest hs
  rw [compressed]
  generalize ZeroRun.longest hs = run at hle hrun
  split
  · exact .full (isTail_map isGroup_digits hs) hlen
  · next hlong =>
    have htake : (hs.take run.start).length = run.start := List.length_take_of_le (by omega)
    have hdrop : (hs.drop (run.start + run.length)).length = 8 - (run.start + run.length) := by
      rw [List.length_drop, hlen]
    have htext := IPv6Text.elided (isJoined_groups (hs.take run.start))
      (isTail_map isGroup_digits (hs.drop (run.start + run.length))) (by omega)
    rwa [htake, hdrop, show 8 - (run.start + (8 - (run.start + run.length))) = run.length by omega,
      hrun] at htext

theorem hextets_mapped (a : Octets) :
    Octets.hextets (mappedLead ++ a) = List.replicate 5 0 ++ 0xFFFF :: a.hextets := by
  have hzero : Octets.hextet 0 0 = 0 := by decide
  have hones : Octets.hextet 0xFF 0xFF = 0xFFFF := by decide
  simp [mappedLead, List.replicate, hzero, hones]

/-- The text of the counterpart of an IPv4 address ends in its dotted quad. -/
theorem ipv6Text_mapped {a : Octets} (hlen : a.length = 4) :
    IPv6Text ("::ffff:".toList ++ dotted a) (Octets.hextets (mappedLead ++ a)) := by
  have htail : IsTail ["ffff".toList, dotted a] (0xFFFF :: a.hextets) :=
    .cons (readGroup?_eq_some_iff.1 (by decide)) (.quad (isQuad_iff.2 ⟨hlen, rfl⟩))
  have hhextets : (0xFFFF :: a.hextets).length = 3 := by
    rw [List.length_cons, Octets.length_hextets, hlen]
  have htext := IPv6Text.elided (s := []) ⟨[], .nil, rfl⟩ htail (by rw [hhextets]; decide)
  have hlead : "::ffff:".toList = ':' :: ':' :: "ffff".toList ++ [':'] := by decide
  rw [hhextets, List.intercalate_cons_cons, List.intercalate_singleton] at htext
  rw [hextets_mapped, hlead]
  exact htext

/-- **The canonical text of an IPv6 address is a text of the grammar.** -/
theorem ipv6Text_canonical {a : Address} (hf : a.family = .v6) :
    IPv6Text a.canonical a.hextets := by
  have hlen : a.octets.length = 16 := by rw [a.length_octets, hf]; rfl
  rw [canonical, hf]
  change IPv6Text (if a.IsIPv4Mapped then _ else _) _
  split
  · next hmapped =>
    have hoctets : a.octets = mappedLead ++ a.octets.drop 12 := by
      rw [← hmapped.2, List.take_append_drop]
    have hquad : (a.octets.drop 12).length = 4 := by rw [List.length_drop, hlen]
    have htext := ipv6Text_mapped hquad
    rwa [← hoctets] at htext
  · exact ipv6Text_compressed (by rw [hextets, Octets.length_hextets, hlen])

/-- **The expanded text of an IPv6 address is a text of the grammar.** -/
theorem ipv6Text_expanded {a : Address} (hf : a.family = .v6) :
    IPv6Text a.expandedChars a.hextets := by
  have hlen : a.octets.length = 16 := by rw [a.length_octets, hf]; rfl
  rw [expandedChars, hf]
  refine .full (isTail_map isGroup_leftpad _) ?_
  rw [hextets, Octets.length_hextets, hlen]

/-! ### Reading -/

theorem isQuad_dotted {a : Address} (hf : a.family = .v4) : IsQuad (dotted a.octets) a.octets :=
  isQuad_iff.2 ⟨by rw [a.length_octets, hf]; rfl, rfl⟩

theorem canonical_of_v4 {a : Address} (hf : a.family = .v4) : a.canonical = dotted a.octets := by
  rw [canonical, hf]

/-- **The canonical text is one of the address.** -/
theorem isText_canonical (a : Address) : IsText a.canonical a := by
  cases hf : a.family with
  | v4 =>
    rw [canonical_of_v4 hf]
    exact .inl ⟨hf, isQuad_dotted hf⟩
  | v6 => exact .inr ⟨hf, ipv6Text_canonical hf⟩

/-- **The expanded text is one of the address.** -/
theorem isText_expandedChars (a : Address) : IsText a.expandedChars a := by
  cases hf : a.family with
  | v4 =>
    rw [expandedChars, hf]
    exact isText_canonical a
  | v6 => exact .inr ⟨hf, ipv6Text_expanded hf⟩

theorem read?_canonical (a : Address) : read? a.canonical = some a :=
  read?_eq_some_iff.2 a.isText_canonical

theorem read?_expandedChars (a : Address) : read? a.expandedChars = some a :=
  read?_eq_some_iff.2 a.isText_expandedChars

theorem display_true (a : Address) : a.display true = a.expanded := by
  rw [display]
  split
  · next hf =>
    rw [expanded, expandedChars, hf]
    rfl
  · rfl

theorem display_false (a : Address) : a.display false = toString a := by
  rw [display]
  split <;> rfl

/-- **An address is read back from the texts that show it,** and an IPv4 address has no other text
than the canonical one. -/
theorem parse_written (a : Address) :
    parse (toString a) = .ok a ∧ parse a.expanded = .ok a ∧ a.display true = a.expanded ∧
      (∀ alternate, parse (a.display alternate) = .ok a) ∧
      ∀ s : String, ':' ∉ s.toList → (parse s = .ok a ↔ a.family = .v4 ∧ s = toString a) := by
  have hcanonical : parse (toString a) = .ok a := by
    rw [parse_eq_ok_iff]
    change read? (String.ofList a.canonical).toList = some a
    rw [String.toList_ofList, read?_canonical]
  have hexpanded : parse a.expanded = .ok a := by
    rw [parse_eq_ok_iff, expanded, String.toList_ofList, read?_expandedChars]
  refine ⟨hcanonical, hexpanded, display_true a, ?_, ?_⟩
  · intro alternate
    cases alternate with
    | false => rw [display_false, hcanonical]
    | true => rw [display_true, hexpanded]
  · intro s hcolon
    constructor
    · intro h
      rw [parse_eq_ok_iff, read?, if_neg hcolon, readDotted?_eq_some_iff, isQuad_iff] at h
      obtain ⟨hf, -, hs⟩ := h
      refine ⟨hf, ?_⟩
      rw [← canonical_of_v4 hf] at hs
      exact String.ext (by rw [hs]; exact String.toList_ofList.symm)
    · rintro ⟨-, hs⟩
      rw [hs, hcanonical]

/-- The address `192.0.2.33` and its IPv6 counterpart are read back from their texts. -/
theorem parse_written_mapped :
    parse "::ffff:192.0.2.33" = .ok (v4 192 0 2 33).toIPv6 ∧
      ':' ∉ "192.0.2.33".toList ∧ parse "192.0.2.33" = .ok (v4 192 0 2 33) := by
  have hmapped : toString (v4 192 0 2 33).toIPv6 = "::ffff:192.0.2.33" := by decide
  have hcolon : ':' ∉ "192.0.2.33".toList := by decide
  have hshown : "192.0.2.33" = toString (v4 192 0 2 33) := by decide
  obtain ⟨hread, -⟩ := parse_written (v4 192 0 2 33).toIPv6
  obtain ⟨-, -, -, -, hdotted⟩ := parse_written (v4 192 0 2 33)
  rw [hmapped] at hread
  exact ⟨hread, hcolon, (hdotted _ hcolon).2 ⟨rfl, hshown⟩⟩

end Address

end Cidr
