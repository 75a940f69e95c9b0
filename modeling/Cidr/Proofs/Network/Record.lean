import Cidr.Network.Record
import Cidr.Proofs.Network.Addresses
import Cidr.Proofs.Network.Halves
import Cidr.Proofs.Network.Inclusion
import Cidr.Proofs.Wide.Guarded

/-!
# Records of networks are networks

Each operation on records, applied to the records of networks, gives the record
of what the operation on networks gives.  In particular nothing that is asked
for is ever missing: masking with the mask of the record is truncation, a mask
that clears no bit leaves the address as it is, and two networks have their
records in their own order, since the masks only repeat the prefix lengths.

## Main results

* `Network.Record.wellFormed_iff` — **the records whose fields fit together are
  those of networks.**
* `Network.Record.containing_eq`, `Network.Record.ofAddress_eq` — records are
  made as networks are.
* `Network.Record.merge?_record`, `Network.Record.sibling?_record`, … — the
  operations agree.
-/

namespace Cidr

namespace Network.Record

open Failure

variable {m n : Network}

/-! ### The records of networks -/

theorem record_inj (h : m.record = n.record) : m = n :=
  ext (congrArg address h) (congrArg prefixLength h)

/-- **The records whose fields fit together are those of networks.** -/
theorem wellFormed_iff {r : Record} : r.WellFormed ↔ ∃ n : Network, n.record = r := by
  constructor
  · rintro ⟨hk, hmask, hand⟩
    have hones : r.netmask = .ones r.family r.prefixLength := by
      rw [Address.netmask_octetCount hk] at hmask
      exact (Address.octets_inj (Except.ok.inj hmask)).symm
    rw [hones, Address.and_ones (show r.address.family = r.family from rfl)] at hand
    refine ⟨⟨r.address, r.prefixLength, hk, Except.ok.inj hand⟩, ?_⟩
    cases r
    exact congrArg (Record.mk _ _) hones.symm
  · rintro ⟨n, rfl⟩
    refine ⟨n.prefixLength_le, Address.netmask_octetCount n.prefixLength_le, ?_⟩
    change n.address.and (.ones n.family n.prefixLength) = .ok n.address
    rw [Address.and_ones (show n.address.family = n.family from rfl), n.truncate_address]

/-! ### Construction -/

theorem maskFor_eq (a : Address) (k : Nat) :
    maskFor a k = if k ≤ a.family.bitWidth then .ok (.ones a.family k)
      else .error (.lengthOutOfRange k a.family.bitWidth) := by
  unfold maskFor
  split_ifs with h h' h'
  · omega
  · rfl
  · rw [Address.netmask_octetCount h']
    exact Address.ofOctets_octets (.ones a.family k)
  · omega

theorem assemble_eq (a : Address) {k : Nat} (hk : k ≤ a.family.bitWidth) :
    assemble (a.truncate k) k (.ones a.family k) = .ok (enclosing a k hk).record := by
  rw [assemble, Address.and_ones (a.family_truncate k), Address.truncate_truncate_self]
  exact if_pos rfl

/-- **Records are made around addresses as networks are.** -/
theorem containing_eq (a : Address) (k : Nat) :
    containing a k = ofExcept ((Network.containing a k).map record) := by
  rw [containing, maskFor_eq]
  by_cases hk : k ≤ a.family.bitWidth
  · obtain ⟨cleared, hclear⟩ := a.clear_ones k
    rw [if_pos hk, ofExcept_ok, ok_bind, hclear, ofExcept_ok, ok_bind, assemble_eq a hk,
      Network.containing_of_le hk]
    rfl
  · rw [if_neg hk, Network.containing_of_not_le hk]
    rfl

/-- **Records are made at addresses as networks are:** the mask clears no bit exactly where the
network begins at the address. -/
theorem ofAddress_eq (a : Address) (k : Nat) :
    ofAddress a k = ofExcept ((Network.ofAddress a k).map record) := by
  rw [ofAddress, maskFor_eq]
  by_cases hk : k ≤ a.family.bitWidth
  · obtain ⟨cleared, hclear⟩ := a.clear_ones k
    have hzero : cleared = 0 ↔ a.truncate k = a := Address.cleared_eq_zero_iff hclear
    rw [if_pos hk, ofExcept_ok, ok_bind, hclear, ofExcept_ok, ok_bind, assemble_eq a hk,
      Network.ofAddress_of_le hk]
    simp only [hzero]
    split_ifs <;> rfl
  · rw [if_neg hk, Network.ofAddress_of_not_le hk]
    rfl

theorem parse_eq (s : String) : parse s = ofExcept ((Network.parse s).map record) := by
  unfold parse Network.parse
  cases Prefixed.parse s with
  | error e => rfl
  | ok p => exact ofAddress_eq p.address p.prefixLength

theorem parseContaining_eq (s : String) :
    parseContaining s = ofExcept ((Network.parseContaining s).map record) := by
  unfold parseContaining Network.parseContaining
  cases Prefixed.parse s with
  | error e => rfl
  | ok p => exact containing_eq p.address p.prefixLength

theorem ofMaskedOctets_eq (address mask : Octets) :
    ofMaskedOctets address mask = ofExcept ((Network.ofMaskedOctets address mask).map record) := by
  unfold ofMaskedOctets Network.ofMaskedOctets
  cases Octets.netmaskLength mask with
  | error e => rfl
  | ok k =>
    cases Address.ofOctets address with
    | error e => rfl
    | ok a => exact containing_eq a k

theorem ofCertificateOctets_eq (a : Octets) :
    ofCertificateOctets a = ofExcept ((Network.ofCertificateOctets a).map record) := by
  unfold ofCertificateOctets Network.ofCertificateOctets
  split_ifs
  · cases Address.ofOctets a with
    | error e => rfl
    | ok address => exact ofAddress_eq address address.family.bitWidth
  · exact ofMaskedOctets_eq _ _
  · rfl

/-! ### Parts -/

@[simp] theorem hostBits_record (n : Network) : n.record.hostBits = .ok n.hostBits :=
  difference_eq_ok n.prefixLength_le

@[simp] theorem size_record (n : Network) : n.record.size = .ok n.size := by
  rw [size, hostBits_record, ok_bind]
  exact Wide.twoPowGuarded_eq (Nat.sub_le _ _)

@[simp] theorem lastAddress_record (n : Network) : n.record.lastAddress = .ok n.lastAddress := by
  have hor : n.record.address.or n.record.hostMask = .ok n.lastAddress := dif_pos rfl
  rw [lastAddress, hor]
  rfl

@[simp] theorem broadcast?_record (n : Network) : n.record.broadcast? = .ok n.broadcast? := by
  rw [broadcast?, lastAddress_record, Network.broadcast?]
  by_cases h : n.family = .v4 ∧ n.prefixLength < 31
  · rw [if_pos h]
    exact if_pos h
  · rw [if_neg h]
    exact if_neg h

@[simp] theorem addresses_record (n : Network) : n.record.addresses = .ok n.addresses := by
  rw [addresses, lastAddress_record]
  rfl

@[simp] theorem firstHost_record (n : Network) : n.record.firstHost = .ok n.firstHost := by
  rw [firstHost, hostBits_record, ok_bind, Network.firstHost]
  by_cases h : n.family = .v4 ∧ 1 < n.hostBits
  · have hsucc : n.record.address.succ? = some n.secondAddress := succ?_address h.2
    rw [if_pos h, hsucc]
    exact if_pos h
  · rw [if_neg h]
    exact if_neg h

@[simp] theorem lastHost_record (n : Network) : n.record.lastHost = .ok n.lastHost := by
  rw [lastHost, lastAddress_record, ok_bind, hostBits_record, ok_bind, Network.lastHost]
  by_cases h : n.family = .v4 ∧ 1 < n.hostBits
  · rw [if_pos h, pred?_lastAddress h.2]
    exact if_pos h
  · rw [if_neg h]
    exact if_neg h

@[simp] theorem hosts_record (n : Network) : n.record.hosts = .ok n.hosts := by
  rw [hosts, hostBits_record, ok_bind, Network.hosts]
  by_cases h : n.hostBits ≤ 1
  · rw [if_pos h, if_pos h, lastHost_record]
    rfl
  · have hsucc : n.record.address.succ? = some n.secondAddress := succ?_address (by omega)
    rw [if_neg h, if_neg h, hsucc, lastHost_record]
    rfl

/-! ### Relations -/

theorem holds_record_iff {a : Address} : n.record.Holds a ↔ a ∈ n := mem_iff_and_netmask.symm

theorem contains_record_iff : m.record.Contains n.record ↔ m.Contains n :=
  and_congr_right fun _ => holds_record_iff

theorem overlaps_record_iff : m.record.Overlaps n.record ↔ m.Overlaps n :=
  or_congr contains_record_iff contains_record_iff

theorem intersection?_record (m n : Network) :
    m.record.intersection? n.record = (m.intersection? n).map record := by
  rw [intersection?, Network.intersection?]
  simp only [contains_record_iff]
  split_ifs <;> rfl

/-- **The masks do not matter for the order:** they are the same where they are looked at. -/
theorem compare_record (m n : Network) : compare m.record n.record = compare m n := by
  change (compare m.address n.address).then ((compare m.prefixLength n.prefixLength).then
    (compare m.netmask n.netmask)) =
    (compare m.address n.address).then (compare m.prefixLength n.prefixLength)
  cases ha : compare m.address n.address with
  | lt => rfl
  | gt => rfl
  | eq =>
    cases hk : compare m.prefixLength n.prefixLength with
    | lt => rfl
    | gt => rfl
    | eq =>
      rw [Address.compare_eq_compare_position, Nat.compare_eq_eq] at ha
      obtain rfl : m = n := ext (Address.position_inj ha) (Nat.compare_eq_eq.1 hk)
      rw [Address.compare_eq_compare_position, Nat.compare_eq_eq.2 rfl]
      rfl

theorem lt_record_iff : m.record < n.record ↔ m < n := by
  change compare m.record n.record = .lt ↔ compare m n = .lt
  rw [compare_record]

@[simp] theorem lower_record (m n : Network) :
    lower m.record n.record = (Network.lower m n).record := by
  rw [lower, Network.lower, apply_ite record]
  simp only [lt_record_iff]

@[simp] theorem upper_record (m n : Network) :
    upper m.record n.record = (Network.upper m n).record := by
  rw [upper, Network.upper, apply_ite record]
  simp only [lt_record_iff]

@[simp] theorem isAdjacentTo_record (m n : Network) :
    m.record.isAdjacentTo n.record = .ok (decide (m.IsAdjacentTo n)) := by
  rw [isAdjacentTo, lower_record, upper_record, lastAddress_record, ok_bind]
  simp only [overlaps_record_iff]
  by_cases h : m.family ≠ n.family ∨ m.Overlaps n
  · have hnot : ¬ m.IsAdjacentTo n := fun h' => h.elim (· h'.1) h'.2.1
    rw [decide_eq_false hnot]
    exact if_pos h
  · obtain ⟨hf, ho⟩ := not_or.1 h
    refine (if_neg h).trans (congrArg Except.ok (decide_eq_decide.2 ?_))
    exact ⟨fun h' => ⟨not_not.1 hf, ho, h'⟩, fun h' => h'.2.2⟩

/-- Keeping one bit less is done with a mask that the address has. -/
theorem clearAfter_pred_iff (n : Network) :
    (n.address.clearAfter (n.prefixLength - 1)).toOption.map Masked.result = some n.address ↔
      n.address.truncate (n.prefixLength - 1) = n.address := by
  obtain ⟨cleared, h⟩ := Address.clearAfter_eq_ok (a := n.address) (k := n.prefixLength - 1)
    (Nat.le_trans (Nat.sub_le _ _) n.prefixLength_le)
  rw [h]
  exact Option.some_inj

theorem prefixLength_lower (h : m.prefixLength = n.prefixLength) :
    (Network.lower m n).prefixLength = m.prefixLength := by
  rw [Network.lower]
  split_ifs
  · rfl
  · exact h.symm

@[simp] theorem canMergeWith_record (m n : Network) :
    m.record.canMergeWith n.record = .ok (decide (m.CanMergeWith n)) := by
  rw [canMergeWith, lower_record, isAdjacentTo_record, ok_bind]
  by_cases h : m.prefixLength ≠ n.prefixLength ∨ m.prefixLength = 0
  · have hnot : ¬ m.CanMergeWith n := fun h' => h.elim (· h'.1) h'.2.1
    rw [decide_eq_false hnot]
    exact if_pos h
  obtain ⟨hk, h0⟩ := not_or.1 h
  have hk' : m.prefixLength = n.prefixLength := not_not.1 hk
  refine (if_neg h).trans ?_
  by_cases hadj : m.IsAdjacentTo n
  · have hsub : difference m.record.prefixLength 1 = .ok (m.prefixLength - 1) :=
      difference_eq_ok (Nat.one_le_iff_ne_zero.2 h0)
    rw [decide_eq_true hadj, if_pos rfl, hsub, ok_bind]
    refine congrArg Except.ok (decide_eq_decide.2 ?_)
    have hclear := clearAfter_pred_iff (Network.lower m n)
    rw [prefixLength_lower hk'] at hclear
    exact hclear.trans ⟨fun h' => ⟨hk', h0, hadj, h'⟩, fun h' => h'.2.2.2⟩
  · have hnot : ¬ m.CanMergeWith n := fun h' => hadj h'.2.2.1
    rw [decide_eq_false hadj, decide_eq_false hnot]
    rfl

/-! ### Networks around networks, and inside them -/

@[simp] theorem accepted?_ofAddress (a : Address) (k : Nat) :
    accepted? (ofAddress a k) = .ok ((Network.ofAddress a k).toOption.map record) := by
  rw [ofAddress_eq, accepted?_ofExcept]
  cases Network.ofAddress a k <;> rfl

@[simp] theorem accepted?_containing (a : Address) (k : Nat) :
    accepted? (containing a k) = .ok ((Network.containing a k).toOption.map record) := by
  rw [containing_eq, accepted?_ofExcept]
  cases Network.containing a k <;> rfl

@[simp] theorem merge?_record (m n : Network) :
    m.record.merge? n.record = .ok ((m.merge? n).map record) := by
  rw [merge?, canMergeWith_record, ok_bind, lower_record]
  by_cases h : m.CanMergeWith n
  · have hsub : difference m.record.prefixLength 1 = .ok (m.prefixLength - 1) :=
      difference_eq_ok (Nat.one_le_iff_ne_zero.2 h.2.1)
    obtain ⟨p, hp⟩ : ∃ p, m.merge? n = some p := ⟨_, dif_pos h⟩
    obtain ⟨-, ha, hk⟩ := merge?_eq_some_iff.1 hp
    have hof : Network.ofAddress (Network.lower m n).address (m.prefixLength - 1) = .ok p :=
      ofAddress_eq_ok_iff.2 ⟨ha, by omega⟩
    rw [decide_eq_true h, if_pos rfl, hsub, ok_bind, accepted?_ofAddress, hp]
    change Except.ok ((Network.ofAddress (Network.lower m n).address _).toOption.map record) = _
    rw [hof]
    rfl
  · have hnone : m.merge? n = none := dif_neg h
    rw [decide_eq_false h, hnone]
    rfl

@[simp] theorem supernet?_record (n : Network) :
    n.record.supernet? = .ok (n.supernet?.map record) := by
  rw [supernet?, Network.supernet?]
  by_cases h : n.prefixLength = 0
  · rw [if_pos h]
    exact if_pos h
  · refine (if_neg h).trans ?_
    rw [if_neg h, difference_eq_ok (show 1 ≤ n.record.prefixLength from
      Nat.one_le_iff_ne_zero.2 h), ok_bind, accepted?_containing]
    change Except.ok ((Network.containing n.address (n.prefixLength - 1)).toOption.map record) = _
    rw [containing_address (Nat.sub_le ..)]
    rfl

theorem beginning?_eq (start? : Option Address) (k : Nat) :
    beginning? start? k =
      .ok ((start?.bind fun a => (Network.ofAddress a k).toOption).map record) := by
  cases start? with
  | none => rfl
  | some a => exact accepted?_ofAddress a k

@[simp] theorem sibling?_record (n : Network) :
    n.record.sibling? = .ok (n.sibling?.map record) := by
  rw [sibling?, supernet?_record, ok_bind, Network.sibling?]
  cases n.supernet? with
  | none => rfl
  | some parent =>
    simp only [Option.map_some, lastAddress_record, ok_bind, beginning?_eq, Option.bind_eq_bind,
      Option.bind_some]
    change (if parent.address = n.address then _ else _) = _
    split_ifs <;> rfl

theorem supernetTo_record (n : Network) (k : Nat) :
    n.record.supernetTo k = ofExcept ((n.supernetTo k).map record) := by
  rw [supernetTo, Network.supernetTo]
  by_cases h : k ≤ n.prefixLength
  · refine (if_neg (Nat.not_lt.2 h)).trans ?_
    rw [dif_pos h, containing_eq]
    change ofExcept ((Network.containing n.address k).map record) = _
    rw [containing_address h]
  · rw [dif_neg h]
    exact if_pos (Nat.not_le.1 h)

end Network.Record

/-! ### Subnets -/

namespace SubnetWalk

open Failure

namespace Record

@[simp] theorem next?_record (w : SubnetWalk) :
    w.record.next? = .ok (w.next?.map fun e => (e.1.record, e.2.record)) := by
  obtain ⟨upcoming, last⟩ := w
  cases upcoming with
  | none => rfl
  | some n =>
    rw [next?]
    simp only [SubnetWalk.record, Option.map_some, Network.Record.lastAddress_record, ok_bind,
      SubnetWalk.next?, Network.Record.beginning?_eq]
    split_ifs <;> rfl

theorem item?_record (k : Nat) (w : SubnetWalk) :
    w.record.item? k = .ok ((Walk.item? k w).map Network.record) := by
  induction k generalizing w with
  | zero =>
    rw [item?, next?_record, ok_bind, Walk.item?]
    change Except.ok _ = _
    simp only [Option.map_map]
    rfl
  | succ k ih =>
    rw [item?, next?_record, ok_bind, Walk.item?]
    change _ = Except.ok ((w.next?.bind _).map _)
    cases w.next? with
    | none => rfl
    | some e => exact ih e.2

end Record

end SubnetWalk

theorem Network.Record.subnets_record (n : Network) (k : Nat) :
    n.record.subnets k = Failure.ofExcept ((n.subnets k).map SubnetWalk.record) := by
  rw [subnets, Network.subnets]
  by_cases h : k < n.prefixLength
  · rw [if_pos h]
    exact if_pos h
  · refine (if_neg h).trans ?_
    rw [if_neg h, ofAddress_eq, lastAddress_record]
    change (Failure.ofExcept ((Network.ofAddress n.address k).map record) >>= _) = _
    cases Network.ofAddress n.address k <;> rfl

end Cidr
