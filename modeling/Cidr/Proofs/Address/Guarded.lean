import Cidr.Address.Guarded
import Cidr.Proofs.Address.Mask
import Cidr.Proofs.Address.ZeroRun
import Cidr.Proofs.Octets.Guarded
import Cidr.Proofs.Wide.Guarded

/-!
# No guard on addresses fails

An address has exactly the octets that its family asks for, so each of them can be
taken out, and copied.  The run of zeros that a single pass finds is within the eight
hextets, and so are the two sides of it.

## Main results

* `Address.addGuarded_eq`, `Address.subGuarded_eq`, `Address.shiftLeftGuarded_eq`,
  `Address.shiftRightGuarded_eq` — **arithmetic does not fail.**
* `Address.embeddedIPv4Guarded_eq`, `Address.toIPv6Guarded_eq` — IPv4 inside IPv6.
* `Address.canonicalGuarded_eq`, `Address.expandedGuarded_eq` — **addresses are
  written within the bounds of their octets.**
-/

namespace Cidr.Address

open Failure

/-! ### Octets -/

theorem ofOctetsGuarded_eq (a : Octets) : ofOctetsGuarded a = ofExcept (ofOctets a) := by
  unfold ofOctetsGuarded ofOctets
  split
  · next f h =>
    have hlen : a.length = f.octetCount := (Family.ofOctetCount?_eq_some_iff.1 h).symm
    rw [dif_pos hlen]
    split
    · next g h' =>
      obtain rfl := Option.some.inj (h.symm.trans h')
      rfl
    · next h' => cases h.symm.trans h'
  · next h =>
    split
    · next g h' => cases h.symm.trans h'
    · rfl

theorem ofOctetsGuarded_octets (a : Address) : ofOctetsGuarded a.octets = .ok a := by
  rw [ofOctetsGuarded_eq, ofOctets_octets]
  rfl

/-- Octets are copied into an address that has as many of them. -/
theorem ofOctetsGuarded_of_length {f : Family} {a : Octets} (h : a.length = f.octetCount) :
    ofOctetsGuarded a = .ok ⟨f, a, h⟩ :=
  ofOctetsGuarded_octets ⟨f, a, h⟩

theorem netmaskGuarded_eq (f : Family) (k : Nat) :
    netmaskGuarded f k = ofExcept (netmask f k) := by
  rw [netmaskGuarded, Octets.netmaskGuarded_eq, netmask]
  by_cases hk : k ≤ f.bitWidth
  · rw [netmask_octetCount hk, if_pos hk, ofExcept_ok, ok_bind]
    exact ofOctetsGuarded_octets (ones f k)
  · have hcount : ¬ Octets.maxMaskCount < f.octetCount := by cases f <;> decide
    rw [Octets.netmask, if_neg hcount, ← f.bitWidth_eq, if_pos (Nat.not_le.1 hk), if_neg hk]
    rfl

/-- The bits of an address are far fewer than 32 bits can count. -/
theorem clearGuarded_eq (a mask : Address) : a.clearGuarded mask = ofExcept (a.clear mask) := by
  rw [clearGuarded, clear]
  split
  · next hf =>
    have hlen : a.octets.length = mask.octets.length := by
      rw [a.length_octets, mask.length_octets, hf]
    have hfew : 8 * a.octets.length < UInt32.size := by
      rw [a.length_octets]
      cases a.family <;> decide
    rw [Octets.clearGuarded_of_length_lt hfew, Octets.clear, Octets.and, Octets.combine,
      if_pos hlen]
    rfl
  · rfl

theorem compareGuarded_eq (a b : Address) : compareGuarded a b = .ok (compare a b) := by
  change _ = Except.ok ((compare a.family b.family).then (a.octets.compareUnsigned b.octets))
  rw [compareGuarded]
  cases compare a.family b.family with
  | lt => rfl
  | gt => rfl
  | eq => exact Octets.compareGuarded_eq a.octets b.octets

/-! ### Arithmetic -/

theorem ofWideGuarded_eq (x : Wide) : ofWideGuarded x = .ok (ofWide? x) := by
  rw [ofWideGuarded, ofWide?]
  split
  · next h =>
    rw [ofOctetsGuarded_octets ⟨x.family, x.octets, h⟩]
    rfl
  · rfl

/-- An operation that does not fail leads to an address without a failure. -/
theorem moveGuarded_eq {op : Wide → Wide → Except Failure (Option Wide)}
    {plain : Wide → Wide → Option Wide} (h : ∀ x y, op x y = .ok (plain x y)) (a : Address)
    (n : Nat) :
    moveGuarded op a n = .ok (do ofWide? (← plain a.toWide (← Wide.ofNat? a.family n))) := by
  rw [moveGuarded]
  cases Wide.ofNat? a.family n with
  | none => rfl
  | some count =>
    change (op a.toWide count >>= _) = .ok ((plain a.toWide count).bind ofWide?)
    rw [h, ok_bind]
    cases plain a.toWide count with
    | none => rfl
    | some x => exact ofWideGuarded_eq x

theorem addGuarded_eq (a : Address) (n : Nat) : a.addGuarded n = .ok (a.add? n) :=
  moveGuarded_eq Wide.addGuarded_eq a n

theorem subGuarded_eq (a : Address) (n : Nat) : a.subGuarded n = .ok (a.sub? n) :=
  moveGuarded_eq Wide.subGuarded_eq a n

theorem shiftLeftGuarded_eq (a : Address) (n : Nat) :
    a.shiftLeftGuarded n = ofExcept (a.shiftLeft n) := by
  rw [shiftLeftGuarded, Wide.shiftLeftGuarded_eq, shiftLeft]
  cases a.toWide.shiftLeft n <;> rfl

theorem shiftRightGuarded_eq (a : Address) (n : Nat) :
    a.shiftRightGuarded n = ofExcept (a.shiftRight n) := by
  rw [shiftRightGuarded, Wide.shiftRightGuarded_eq, shiftRight]
  cases a.toWide.shiftRight n <;> rfl

/-! ### IPv4 inside IPv6 -/

/-- The last four octets are taken out one by one. -/
theorem fourGuarded_eq {a : Octets} {start : Nat} (h : a.length = start + 4) :
    fourGuarded a start = .ok (a.drop start) := by
  rw [fourGuarded, item_eq_ok (by omega), ok_bind, item_eq_ok (by omega), ok_bind,
    item_eq_ok (by omega), ok_bind, item_eq_ok (by omega), ok_bind,
    List.drop_eq_getElem_cons (by omega), List.drop_eq_getElem_cons (by omega),
    List.drop_eq_getElem_cons (by omega), List.drop_eq_getElem_cons (by omega),
    List.drop_eq_nil_of_le (by omega)]
  rfl

theorem length_octets_v4 {a : Address} (hf : a.family = .v4) : a.octets.length = 4 := by
  rw [a.length_octets, hf]
  rfl

theorem length_octets_v6 {a : Address} (hf : a.family = .v6) : a.octets.length = 16 := by
  rw [a.length_octets, hf]
  rfl

theorem isIPv4MappedGuarded_eq (a : Address) :
    a.isIPv4MappedGuarded = .ok (decide a.IsIPv4Mapped) := by
  rw [isIPv4MappedGuarded]
  cases hf : a.family with
  | v4 =>
    have hno : ¬ a.IsIPv4Mapped := fun h => absurd (hf.symm.trans h.1) nofun
    rw [decide_eq_false hno]
    rfl
  | v6 =>
    have hlen := length_octets_v6 hf
    dsimp only
    rw [slice_zero (by omega), ok_bind, item_eq_ok (by omega), ok_bind, item_eq_ok (by omega)]
    have htake : a.octets.take 12 = a.octets.take 10 ++ [a.octets[10], a.octets[11]] := by
      rw [List.take_succ_eq_append_getElem (by omega), List.take_succ_eq_append_getElem (by omega),
        List.append_assoc]
      rfl
    have hlead : (a.octets.take 10).length = (List.replicate 10 (0 : UInt8)).length := by
      rw [List.length_take, List.length_replicate]
      omega
    have hiff : a.IsIPv4Mapped ↔ a.octets.take 10 = List.replicate 10 0 ∧
        [a.octets[10], a.octets[11]] = [0xFF, 0xFF] := by
      rw [IsIPv4Mapped, htake, mappedLead]
      exact ⟨fun h => List.append_inj h.2 hlead, fun h => ⟨hf, by rw [h.1, h.2]⟩⟩
    refine congrArg Except.ok (Bool.eq_iff_iff.2 ?_)
    rw [decide_eq_true_eq, hiff, List.eq_replicate_iff]
    simp [hlen]

theorem embeddedIPv4Guarded_eq (a : Address) :
    a.embeddedIPv4Guarded = .ok a.embeddedIPv4? := by
  rw [embeddedIPv4Guarded, isIPv4MappedGuarded_eq, ok_bind, embeddedIPv4?]
  by_cases h : a.IsIPv4Mapped
  · rw [decide_eq_true h, if_pos rfl, dif_pos h, fourGuarded_eq (length_octets_v6 h.1), ok_bind]
    have hlen : (a.octets.drop 12).length = Family.v4.octetCount := by
      rw [List.length_drop, length_octets_v6 h.1]
      rfl
    rw [ofOctetsGuarded_of_length hlen]
    rfl
  · rw [decide_eq_false h, dif_neg h]
    rfl

theorem toIPv6Guarded_eq (a : Address) : a.toIPv6Guarded = .ok a.toIPv6 := by
  unfold toIPv6Guarded toIPv6
  split
  · next hf =>
    have hlen := length_octets_v4 hf
    have hfirst : overwrite (List.replicate 16 (0 : UInt8)) 10 [0xFF] =
        .ok (List.replicate 10 0 ++ 0xFF :: List.replicate 5 0) := rfl
    have hsecond : overwrite (List.replicate 10 (0 : UInt8) ++ 0xFF :: List.replicate 5 0) 11
        [0xFF] = .ok (mappedLead ++ List.replicate 4 0) := rfl
    have hthird : overwrite (mappedLead ++ List.replicate 4 0) 12 a.octets =
        .ok (mappedLead ++ a.octets) := by
      rw [overwrite_eq_ok (by rw [hlen]; decide), hlen]
      exact congrArg Except.ok (List.append_nil _)
    rw [dif_pos hf, sized_eq_ok hlen, hfirst, ok_bind, hsecond, ok_bind, ok_bind, hthird, ok_bind,
      ofOctetsGuarded_of_length]
  · next hf =>
    rw [dif_neg (by rw [hf]; decide)]
    rfl

/-! ### Written forms -/

theorem compressedGuarded_eq (hs : List UInt16) : compressedGuarded hs = .ok (compressed hs) := by
  have hlongest := ZeroRun.isLongest_longest hs
  rw [compressedGuarded, compressed, ZeroRun.scan_eq_longest]
  split
  · rfl
  · next h =>
    have hend := hlongest.isIn.end_le (by omega)
    rw [slice_zero (by omega), ok_bind, slice_length hend]
    rfl

theorem hextetsGuarded_octets {a : Address} (hf : a.family = .v6) :
    a.octets.hextetsGuarded = .ok a.hextets :=
  Octets.hextetsGuarded_eq (by rw [length_octets_v6 hf])

theorem canonicalGuarded_eq (a : Address) : a.canonicalGuarded = .ok a.canonical := by
  rw [canonicalGuarded, canonical]
  cases hf : a.family with
  | v4 =>
    dsimp only
    rw [fourGuarded_eq (length_octets_v4 hf)]
    rfl
  | v6 =>
    dsimp only
    rw [isIPv4MappedGuarded_eq, ok_bind]
    by_cases h : a.IsIPv4Mapped
    · rw [decide_eq_true h, if_pos rfl, if_pos h, fourGuarded_eq (length_octets_v6 hf)]
      rfl
    · rw [decide_eq_false h, if_neg Bool.false_ne_true, if_neg h, hextetsGuarded_octets hf, ok_bind]
      exact compressedGuarded_eq a.hextets

theorem expandedGuarded_eq (a : Address) : a.expandedGuarded = .ok a.expandedChars := by
  rw [expandedGuarded, expandedChars]
  cases hf : a.family with
  | v4 => exact canonicalGuarded_eq a
  | v6 =>
    rw [hextetsGuarded_octets hf]
    rfl

end Cidr.Address
