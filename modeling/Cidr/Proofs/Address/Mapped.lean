import Cidr.Network.Relation
import Cidr.Proofs.Address
import Cidr.Proofs.Address.Guarded
import Cidr.Proofs.Address.RoundTrip

/-!
# IPv4 addresses among those of IPv6

The counterparts of IPv4 addresses are the IPv6 addresses with twelve given octets in
front.  So they are the addresses of one network, and what stands for an IPv4 address
in its counterpart is the octets after these twelve.  In the number of a counterpart the
twelve octets add the same to each, so the order is that of the IPv4 addresses.  In a
text they are the empty fields of the gap and a group, and leave the last field to be
read as it would be on its own.

## Main results

* `Address.mem_mapped_iff` — **the counterparts are the addresses of one network.**
* `Address.embeddedIPv4?_eq_some_iff` — **what is taken out of a counterpart is what was
  put into it.**
* `Address.compare_toIPv6` — counterparts are ordered like the IPv4 addresses.
* `Address.readColons?_mapped`, `Address.read?_mapped` — the counterpart of what is read from
  a text is read from that text with a lead.
* `Address.mapped_exact` — **all ways to tell a counterpart agree.**
-/

namespace Cidr

namespace Address

variable {a b x : Address} {s : List Char}

/-! ### Counterparts -/

theorem octets_toIPv6 (ha : a.family = .v4) : a.toIPv6.octets = mappedLead ++ a.octets := by
  rw [toIPv6, dif_pos ha]

/-- **What is taken out of a counterpart is what was put into it.** -/
theorem embeddedIPv4?_eq_some_iff :
    x.embeddedIPv4? = some a ↔ a.family = .v4 ∧ a.toIPv6 = x := by
  constructor
  · intro h
    rw [embeddedIPv4?] at h
    split at h
    · next hx =>
      obtain rfl := Option.some.inj h
      refine ⟨rfl, octets_inj ?_⟩
      rw [octets_toIPv6 rfl, ← hx.2]
      exact List.take_append_drop 12 x.octets
    · cases h
  · rintro ⟨ha, rfl⟩
    exact embeddedIPv4?_toIPv6 ha

theorem isIPv4Mapped_iff_exists_embedded : x.IsIPv4Mapped ↔ ∃ a, x.embeddedIPv4? = some a := by
  rw [embeddedIPv4?]
  split
  · next hx => simp [hx]
  · next hx => simp [hx]

theorem isIPv4Mapped_toIPv6 (ha : a.family = .v4) : a.toIPv6.IsIPv4Mapped :=
  isIPv4Mapped_iff_exists_embedded.2 ⟨a, embeddedIPv4?_toIPv6 ha⟩

/-- The octets in front add the same to the number of every counterpart. -/
theorem toNat_toIPv6 (ha : a.family = .v4) : a.toIPv6.toNat = 0xFFFF <<< 32 + a.toNat := by
  rw [toNat, octets_toIPv6 ha, Octets.toNat_append, length_octets_v4 ha]
  rfl

/-- **Counterparts are ordered like the IPv4 addresses.** -/
theorem compare_toIPv6 (ha : a.family = .v4) (hb : b.family = .v4) :
    compare a.toIPv6 b.toIPv6 = compare a b := by
  rw [compare_eq, compare_eq, family_toIPv6, family_toIPv6, ha, hb, toNat_toIPv6 ha,
    toNat_toIPv6 hb]
  simp only [Nat.compare_eq_ite_lt, Nat.add_lt_add_iff_left]
  rfl

/-! ### Membership -/

/-- **The counterparts are the addresses of one network.** -/
theorem mem_mapped_iff {n : Network} (haddress : n.address = (v4 0 0 0 0).toIPv6)
    (hlength : n.prefixLength = 96) : x ∈ n ↔ x.IsIPv4Mapped := by
  have hfirst : n.address.octets = mappedLead ++ List.replicate 4 0 := by
    rw [haddress, octets_toIPv6 rfl]
    rfl
  rw [Network.mem_iff, hlength]
  constructor
  · intro h
    have hf : x.family = .v6 := by rw [← x.family_truncate 96, h, haddress, family_toIPv6]
    have hlen := length_octets_v6 hf
    have htake : (x.octets.take 12).length = 12 := List.length_take_of_le (by omega)
    have hkept := Octets.truncate_append (x.octets.take 12) (x.octets.drop 12) 0
    rw [List.take_append_drop, htake] at hkept
    have hoctets := congrArg octets h
    rw [octets_truncate, hfirst, hkept] at hoctets
    exact ⟨hf, (List.append_inj hoctets htake).1⟩
  · intro hx
    obtain ⟨a, hembedded⟩ := isIPv4Mapped_iff_exists_embedded.1 hx
    obtain ⟨ha, rfl⟩ := embeddedIPv4?_eq_some_iff.1 hembedded
    refine octets_inj ?_
    rw [octets_truncate, octets_toIPv6 ha, hfirst]
    have hkept := Octets.truncate_append mappedLead a.octets 0
    rwa [Octets.truncate_zero, length_octets_v4 ha] at hkept

/-- The text of that network. -/
theorem exists_parse_mapped :
    ∃ n, Network.parse "::ffff:0:0/96" = .ok n ∧ ∀ x : Address, x ∈ n ↔ x.IsIPv4Mapped := by
  have hparse : Network.parse "::ffff:0:0/96" =
      .ok (.enclosing (v4 0 0 0 0).toIPv6 96 (by decide)) := by decide
  exact ⟨_, hparse, fun _ => mem_mapped_iff (by decide) rfl⟩

/-! ### Texts -/

theorem toString_toIPv6 (ha : a.family = .v4) : toString a.toIPv6 = "::ffff:" ++ toString a := by
  have hdrop : a.toIPv6.octets.drop 12 = a.octets := by
    rw [octets_toIPv6 ha]
    exact List.drop_left' rfl
  have htext : a.toIPv6.canonical = "::ffff:".toList ++ a.canonical := by
    rw [canonical, family_toIPv6, canonical, ha]
    dsimp only
    rw [if_pos (isIPv4Mapped_toIPv6 ha), hdrop]
  refine String.toList_inj.1 ?_
  rw [String.toList_append]
  exact String.toList_ofList.trans (htext.trans (congrArg _ String.toList_ofList.symm))

/-- A text without colons is the last one of four fields if it stands after the lead. -/
theorem splitOn_mapped (hcolon : ':' ∉ s) :
    ("::ffff:".toList ++ s).splitOn ':' = [[], [], "ffff".toList, s] := by
  have hparts : ∀ p ∈ [[], [], "ffff".toList, s], ':' ∉ p := by
    simp [hcolon]
  have htext : "::ffff:".toList ++ s = [':'].intercalate [[], [], "ffff".toList, s] := by
    simp [List.intercalate]
  rw [htext, List.splitOn_intercalate ':' hparts (List.cons_ne_nil _ _)]

/-- The fields before a dotted quad leave it as it is. -/
theorem readFields?_mapped (hdot : '.' ∈ s) :
    readFields? [[], [], "ffff".toList, s] =
      (readDotted? s).map fun a => none :: none :: some 0xFFFF :: a.hextets.map some := by
  have hffff : readField? "ffff".toList = some (some 0xFFFF) := by decide
  simp only [readFields?, if_pos hdot, hffff]
  cases readDotted? s <;> rfl

theorem ofFields?_mapped (ha : a.family = .v4) :
    ofFields? (none :: none :: some 0xFFFF :: a.hextets.map some) = some a.toIPv6 := by
  have hlen : a.hextets.length = 2 := by
    rw [hextets, Octets.length_hextets, length_octets_v4 ha]
  have hhextets : a.toIPv6.hextets = List.replicate 5 0 ++ 0xFFFF :: a.hextets := by
    rw [hextets, octets_toIPv6 ha]
    exact hextets_mapped a.octets
  refine ofFields?_eq_some_iff.2 (.inr ⟨[none], _, [], 0xFFFF :: a.hextets, rfl, .empty,
    .groups (List.cons_ne_nil _ _), elided?_eq_some_iff.2 ⟨?_, family_toIPv6 a, ?_⟩⟩)
  · simp [hlen]
  · simp [hhextets, hlen]

/-- **The counterpart of what is read from a text is read from that text with a lead,** and nothing
else is read from it. -/
theorem readColons?_mapped (hdot : '.' ∈ s) (hcolon : ':' ∉ s) :
    readColons? ("::ffff:".toList ++ s) = (readDotted? s).map toIPv6 := by
  rw [readColons?, splitOn_mapped hcolon]
  change (readFields? _).bind _ = _
  rw [readFields?_mapped hdot]
  cases hread : readDotted? s with
  | none => rfl
  | some a =>
    obtain ⟨ha, hquad⟩ := readDotted?_eq_some_iff.1 hread
    have hlen := hquad.length_hextets
    change (if _ then _ else _) = _
    rw [if_pos (by simp [hextets, hlen]), ofFields?_mapped ha]
    rfl

theorem read?_mapped (hdot : '.' ∈ s) (hcolon : ':' ∉ s) :
    read? ("::ffff:".toList ++ s) = (read? s).map toIPv6 := by
  rw [read?, if_pos (by simp), readColons?_mapped hdot hcolon, read?, if_neg hcolon]

/-- A text without colons is that of an IPv4 address. -/
theorem family_of_read? (h : read? s = some a) (hcolon : ':' ∉ s) : a.family = .v4 := by
  rw [read?, if_neg hcolon] at h
  exact (readDotted?_eq_some_iff.1 h).1

/-! ### Agreement -/

/-- **All ways to tell the counterpart of an IPv4 address agree:** what is taken out of it, its
text, its number, the network it belongs to, its place in the order and the texts it is read from.
To look at the octets one by one is to ask for the network. -/
theorem mapped_exact :
    (∀ a : Address, a.family = .v4 → a.toIPv6.embeddedIPv4? = some a ∧
      toString a.toIPv6 = "::ffff:" ++ toString a ∧ a.toIPv6.toNat = 0xFFFF <<< 32 + a.toNat) ∧
    (∃ n, Network.parse "::ffff:0:0/96" = .ok n ∧ ∀ x : Address,
      x.isIPv4MappedGuarded = .ok (decide (x ∈ n)) ∧
      ((∃ a, x.embeddedIPv4? = some a) ↔ x ∈ n) ∧
      ∀ a, x.embeddedIPv4? = some a ↔ a.family = .v4 ∧ a.toIPv6 = x) ∧
    (∀ a b : Address, a.family = .v4 → b.family = .v4 →
      compare a.toIPv6 b.toIPv6 = compare a b ∧ (a.toIPv6 ≤ b.toIPv6 ↔ a ≤ b)) ∧
    ∀ s : String, '.' ∈ s.toList → ':' ∉ s.toList →
      (∀ x, parse ("::ffff:" ++ s) = .ok x ↔ ∃ a, parse s = .ok a ∧ a.family = .v4 ∧ a.toIPv6 = x) ∧
      ∀ e, parse s = .error e → parse ("::ffff:" ++ s) = .error (.notAddress ("::ffff:" ++ s)) := by
  refine ⟨?_, ?_, ?_, ?_⟩
  · intro a ha
    exact ⟨embeddedIPv4?_toIPv6 ha, toString_toIPv6 ha, toNat_toIPv6 ha⟩
  · obtain ⟨n, hparse, hmem⟩ := exists_parse_mapped
    refine ⟨n, hparse, ?_⟩
    intro x
    refine ⟨?_, ?_, fun a => embeddedIPv4?_eq_some_iff⟩
    · rw [isIPv4MappedGuarded_eq, decide_eq_decide.2 (hmem x)]
    · rw [hmem, isIPv4Mapped_iff_exists_embedded]
  · intro a b ha hb
    have hcompare := compare_toIPv6 ha hb
    refine ⟨hcompare, ?_⟩
    change (compare _ _).isLE = true ↔ (compare _ _).isLE = true
    rw [hcompare]
  · intro s hdot hcolon
    have hlead : read? ("::ffff:" ++ s).toList = (read? s.toList).map toIPv6 := by
      rw [String.toList_append, read?_mapped hdot hcolon]
    constructor
    · intro x
      rw [parse_eq_ok_iff, hlead, Option.map_eq_some_iff]
      simp only [parse_eq_ok_iff]
      refine exists_congr fun a => and_congr_right fun hread => ?_
      exact (and_iff_right (family_of_read? hread hcolon)).symm
    · intro e he
      rw [parse_eq_error_iff, hlead, (parse_eq_error_iff.1 he).1]
      exact ⟨rfl, rfl⟩

/-- The counterparts of the first and the last address of a block for documentation keep their
order, and a dotted quad with a leading zero is refused after the lead as well. -/
theorem mapped_exact_of_documentation :
    toString (v4 192 0 2 0).toIPv6 = "::ffff:192.0.2.0" ∧
    compare (v4 192 0 2 0).toIPv6 (v4 192 0 2 255).toIPv6 = .lt ∧
    parse "::ffff:192.0.2.255" = .ok (v4 192 0 2 255).toIPv6 ∧
    parse "::ffff:192.0.02.255" = .error (.notAddress "::ffff:192.0.02.255") := by
  obtain ⟨htext, -, horder, hread⟩ := mapped_exact
  have hquad : parse "192.0.2.255" = .ok (v4 192 0 2 255) := by decide
  have hzero : parse "192.0.02.255" = .error (.notAddress "192.0.02.255") := by decide
  have hfirst : "::ffff:192.0.2.0" = "::ffff:" ++ toString (v4 192 0 2 0) := by decide
  rw [hfirst]
  refine ⟨(htext _ rfl).2.1, ?_, ?_, ?_⟩
  · rw [(horder (v4 192 0 2 0) (v4 192 0 2 255) rfl rfl).1]
    decide
  · exact ((hread "192.0.2.255" (by decide) (by decide)).1 _).2 ⟨_, hquad, rfl, rfl⟩
  · exact (hread "192.0.02.255" (by decide) (by decide)).2 _ hzero

end Address

end Cidr
