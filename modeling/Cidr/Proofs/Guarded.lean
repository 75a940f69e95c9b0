import Cidr.Guarded
import Cidr.Proofs.Address.GuardedParser
import Cidr.Proofs.Network.History

/-!
# Only one guard can fail

The guards on plain values hold for all inputs, and those on records hold for the
records of networks.  All records that come about are such records.  So almost nothing
ever fails: an input is refused for its cause, or there is a result.  The exception is
the masking of octets, which counts the ones that it clears in 32 bits and takes
sequences of any length.

## Main results

* `Prefixed.parseGuarded_eq` — addresses with a prefix length are read without a failure.
* `NetworkSet.Record.blockAtGuarded_eq` — a block of an interval has at least one address.
* `only_masking_can_fail` — **masking fails where 2 ^ 32 ones or more are cleared; no
  other guard fails, and no history does.**
* `masking_fails_of_full` — half a gigabyte of ones that is cleared.
-/

namespace Cidr

open Failure

/-! ### Addresses with a prefix length -/

namespace Prefixed

theorem maskLengthGuarded_eq (mask : Octets) :
    maskLengthGuarded mask = ofExcept (maskLength mask) := by
  rw [maskLengthGuarded, maskLength, Octets.netmaskLengthGuarded_eq, accepted?_ofExcept, ok_bind]
  cases Octets.netmaskLength mask with
  | ok k => rfl
  | error e => exact Octets.netmaskLengthGuarded_eq mask.complement

theorem readLengthGuarded_eq (f : Family) (s : List Char) :
    readLengthGuarded f s = ofExcept (readLength f s) := by
  rw [readLengthGuarded, readLength]
  cases Decimal.value? s with
  | some k =>
    have hwidth : f.bitWidth < 256 := by cases f <;> decide
    dsimp only
    split
    · rfl
    split
    · rfl
    · next hk =>
      rw [octet_eq_ok (by omega)]
      rfl
  | none =>
    dsimp only
    split
    · have hread : (Address.parse (String.ofList s)).toOption = Address.read? s := by
        rw [Address.parse, String.toList_ofList]
        cases Address.read? s <;> rfl
      rw [Address.parseGuarded_eq, accepted?_ofExcept, ok_bind, hread]
      cases Address.read? s with
      | none => rfl
      | some mask => exact maskLengthGuarded_eq mask.octets
    · rfl

/-- **Addresses with a prefix length are read without a failure.** -/
theorem parseGuarded_eq (s : String) : parseGuarded s = ofExcept (parse s) := by
  rw [parseGuarded, parse, Address.parseGuarded_eq]
  cases Address.parse (String.ofList (addressPart s.toList)) with
  | error e => rfl
  | ok address =>
    rw [ofExcept_ok, ok_bind]
    cases lengthPart? s.toList with
    | none => rfl
    | some length =>
      dsimp only
      rw [readLengthGuarded_eq]
      change _ = ofExcept (readLength address.family length >>= _)
      cases readLength address.family length <;> rfl

end Prefixed

/-! ### Intervals -/

theorem Network.spanGuarded_eq (first last : Address) :
    spanGuarded first last = .ok (span? first last) := by
  rw [spanGuarded, Wide.subGuarded_eq, ok_bind]
  change _ = Except.ok ((last.toWide.sub? first.toWide).bind fun d => d.add? (.one first.family))
  cases last.toWide.sub? first.toWide with
  | none => rfl
  | some d => exact Wide.addGuarded_eq d (.one first.family)

/-- **A block of an interval has at least one address,** and it is not larger than the space of all
addresses. -/
theorem NetworkSet.Record.blockAtGuarded_eq (first last : Address) :
    blockAtGuarded first last = ofExcept ((Network.blockAt first last).map Network.record) := by
  rw [← blockAt_eq, blockAtGuarded, blockAt, Network.spanGuarded_eq, ok_bind]
  cases Network.span? first last with
  | none => rfl
  | some span =>
    have hwidth : first.family.bitWidth < 256 := by cases first.family <;> decide
    rw [accept_some, ok_bind, Wide.bitLengthGuarded_eq, ok_bind]
    refine bind_congr ?_
    intro bits
    rw [difference_eq_ok (by omega), ok_bind, octet_eq_ok (by omega)]
    rfl

/-! ### Networks -/

theorem Network.Record.ofCertificateOctetsGuarded_eq (a : Octets) :
    ofCertificateOctetsGuarded a = ofExcept ((Network.ofCertificateOctets a).map record) := by
  rw [← ofCertificateOctets_eq, ofCertificateOctetsGuarded, ofCertificateOctets,
    Address.ofOctetsGuarded_eq, slice_zero (by omega), slice_length (by omega)]
  split_ifs
  · rfl
  · rw [ok_bind, ok_bind, Octets.netmaskLengthGuarded_eq, Address.ofOctetsGuarded_eq]
    rfl
  · rfl

/-- The written forms of the networks that are set aside stand for them. -/
theorem Purpose.mapM_parse_texts (p : Purpose) (f : Family) :
    (p.texts f).mapM Network.Record.parse = .ok ((p.networks f).map Network.record) := by
  cases p <;> cases f <;> decide +kernel

theorem Address.unfailing : Address.Unfailing where
  ofOctets := ofOctetsGuarded_eq
  netmask := netmaskGuarded_eq
  clear := clearGuarded_eq
  compare := compareGuarded_eq
  add := addGuarded_eq
  sub := subGuarded_eq
  shiftLeft := shiftLeftGuarded_eq
  shiftRight := shiftRightGuarded_eq
  isIPv4Mapped := isIPv4MappedGuarded_eq
  embeddedIPv4 := embeddedIPv4Guarded_eq
  toIPv6 := toIPv6Guarded_eq
  canonical := canonicalGuarded_eq
  expanded := expandedGuarded_eq
  parse := parseGuarded_eq
  parsePrefixed := Prefixed.parseGuarded_eq

theorem Network.Record.unfailing : Network.Record.Unfailing where
  ofAddress := ofAddress_eq
  containing := containing_eq
  parse := parse_eq
  parseContaining := parseContaining_eq
  ofCertificateOctets := ofCertificateOctetsGuarded_eq
  texts := Purpose.mapM_parse_texts

namespace Network

theorem unfailing (n : Network) : n.Unfailing where
  hostBits := Record.hostBits_record n
  size := Record.size_record n
  lastAddress := Record.lastAddress_record n
  broadcast := Record.broadcast?_record n
  addresses := Record.addresses_record n
  firstHost := Record.firstHost_record n
  lastHost := Record.lastHost_record n
  hosts := Record.hosts_record n
  supernet := Record.supernet?_record n
  sibling := Record.sibling?_record n
  supernetTo := Record.supernetTo_record n
  subnets := Record.subnets_record n
  subnet k position := by
    rw [Record.subnets_record]
    cases n.subnets k with
    | error e => rfl
    | ok w => exact SubnetWalk.Record.item?_record position w

theorem unfailingWith (m n : Network) : m.UnfailingWith n where
  isAdjacentTo := Record.isAdjacentTo_record m n
  canMergeWith := Record.canMergeWith_record m n
  merge := Record.merge?_record m n
  exclude := Record.exclude_record m n

end Network

/-- **Only the masking of octets can fail.**  It does where 2 ^ 32 ones or more are cleared, and
nowhere else.  Whatever else is looked at, taken, put, counted or moved on the way, the result is
that of the plain operation, or the same input is refused for the same cause: on octets, numbers,
addresses and texts for all inputs, and on records for those of networks.  The records that come
about are just these.  So no history of records fails, and neither does one of a set of such
records. -/
theorem only_masking_can_fail (target mask : Octets) :
    (target.clearGuarded mask =
      if target.length = mask.length ∧ UInt32.size ≤ (Octets.lost target mask).weight then
        Except.error (.broken "count exceeds a word")
      else Failure.ofExcept (target.clear mask)) ∧
      Octets.Unfailing ∧ UInt33.Unfailing ∧ UInt129.Unfailing ∧ Wide.Unfailing ∧
      Address.Unfailing ∧ Network.Record.Unfailing ∧ Interface.Record.Unfailing ∧
      NetworkSet.Record.Unfailing ∧
      (∀ n : Network, n.Unfailing ∧ ∀ m, n.UnfailingWith m) ∧
      (∀ r : Network.Record, r.Reachable ↔ ∃ n : Network, n.record = r) ∧
      (∀ ops, ∃ rs, Network.Record.run [] ops = .ok rs) ∧
      ∀ ops : List NetworkSet.Record.Operation, (∀ op ∈ ops, ∀ r ∈ op.operands, r.Reachable) →
        ∃ s : NetworkSet, NetworkSet.Record.empty.run ops = .ok s.record := by
  refine ⟨Octets.clearGuarded_eq target mask, ?_, ?_, ?_, ?_, ?_, ?_, ?_, ?_, ?_, ?_, ?_, ?_⟩
  · exact ⟨Octets.netmaskGuarded_eq, Octets.netmaskLengthGuarded_eq,
      fun target mask h => Octets.clearGuarded_of_length_lt h mask, Octets.compareGuarded_eq⟩
  · exact ⟨UInt33.addGuarded_eq, UInt33.shiftLeftGuarded_eq, UInt33.shiftRightGuarded_eq,
      fun x => Limb.bitLengthGuarded_eq x.word, UInt33.ofOctetsGuarded_eq⟩
  · exact ⟨UInt129.addGuarded_eq, UInt129.subGuarded_eq, UInt129.shiftLeftGuarded_eq,
      UInt129.shiftRightGuarded_eq, UInt129.bitLengthGuarded_eq, UInt129.ofOctetsGuarded_eq,
      UInt129.digitsGuarded_eq⟩
  · exact ⟨Wide.addGuarded_eq, Wide.subGuarded_eq, Wide.shiftLeftGuarded_eq,
      Wide.shiftRightGuarded_eq, Wide.bitLengthGuarded_eq, Wide.ofOctetsGuarded_eq⟩
  · exact Address.unfailing
  · exact Network.Record.unfailing
  · exact ⟨Interface.Record.ofAddress_eq, Interface.Record.parse_eq,
      Interface.Record.inNetwork_record, Interface.Record.host?_record⟩
  · exact ⟨NetworkSet.Record.insert_record, NetworkSet.Record.insertMany_record,
      NetworkSet.Record.blockAtGuarded_eq, NetworkSet.Record.ofInterval_eq⟩
  · exact fun n => ⟨n.unfailing, n.unfailingWith⟩
  · exact fun r => Network.Record.reachable_iff
  · intro ops
    obtain ⟨ns, hrun⟩ := Network.Record.exists_run [] ops
    exact ⟨_, hrun⟩
  · intro ops hops
    exact NetworkSet.Record.exists_run .empty fun op hop r hr =>
      Network.Record.reachable_iff.1 (hops op hop r hr)

/-- Three ones are cleared.  The network of all addresses is added to the empty set, and then an
interval up to the last address. -/
theorem only_masking_can_fail_at_both_ends :
    Octets.clearGuarded [192, 168] [255, 0] = .ok ⟨[192, 0], 3⟩ ∧
      (⟨.v4 0 0 0 0, 0, .v4 0 0 0 0⟩ : Network.Record).Reachable ∧
      ∃ s : NetworkSet, NetworkSet.Record.empty.run
        [.insert ⟨.v4 0 0 0 0, 0, .v4 0 0 0 0⟩,
          .extendByInterval (.v4 255 255 255 254) (.v4 255 255 255 255)] = .ok s.record := by
  have hreachable : (⟨.v4 0 0 0 0, 0, .v4 0 0 0 0⟩ : Network.Record).Reachable :=
    ⟨[.containing (.v4 10 0 0 1) 0], [⟨.v4 0 0 0 0, 0, .v4 0 0 0 0⟩], by decide +kernel,
      List.mem_singleton_self _⟩
  obtain ⟨hclear, -, -, -, -, -, -, -, -, -, -, -, hrun⟩ :=
    only_masking_can_fail [192, 168] [255, 0]
  refine ⟨hclear.trans (by decide), hreachable, hrun _ ?_⟩
  intro op hop r hr
  rcases List.mem_pair.1 hop with rfl | rfl
  · obtain rfl := List.mem_singleton.1 hr
    exact hreachable
  · exact absurd hr List.not_mem_nil

/-- The ones of 2 ^ 29 full octets are one more than the greatest number of 32 bits.  So they cannot
be cleared, although there is an exact count. -/
theorem masking_fails_of_full :
    Octets.clearGuarded (List.replicate (1 <<< 29) 0xFF) (List.replicate (1 <<< 29) 0) =
        .error (.broken "count exceeds a word") ∧
      Octets.clear (List.replicate (1 <<< 29) 0xFF) (List.replicate (1 <<< 29) 0) =
        .ok ⟨List.replicate (1 <<< 29) 0, UInt32.size⟩ := by
  have hcount : 8 * 1 <<< 29 = UInt32.size := by decide
  refine ⟨Octets.clearGuarded_full (Nat.le_of_eq hcount.symm), ?_⟩
  rw [← hcount]
  exact Octets.clear_full (1 <<< 29)

end Cidr
