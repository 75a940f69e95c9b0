import Cidr.Network.History
import Cidr.Proofs.Interface.Record
import Cidr.Proofs.NetworkSet.Record
import Mathlib.Data.Set.List

/-!
# What every history of records keeps

Asked for with the records of networks, each operation gives records of networks
or refuses its input: there is an operation on networks that it follows.  This
goes for the changes of a set, too, and so for all records of a set with a
history of its own.  By induction a history never fails, and all records that
come about are those of networks.

## Main definitions

* `Network.Record.Follows` — the records are those of networks, or the input is refused.

## Main results

* `NetworkSet.Record.exists_run` — the history of a set of records is that of a
  network set.
* `Network.Record.follows_results`, `Network.Record.exists_run` — what one
  operation keeps, and what a history keeps.
* `Network.Record.reachable_iff` — the records that come about are those of networks.
* `Network.Record.wellFormed_run` — **in all records that come about the fields
  fit together.**
-/

namespace Cidr

open Failure

/-- Records that are each that of a network are the records of a list of networks. -/
theorem Network.Record.exists_map_record {rs : List Network.Record}
    (h : ∀ r ∈ rs, ∃ n : Network, n.record = r) : ∃ ns : List Network, ns.map record = rs := by
  change rs ∈ Set.range (List.map record)
  rw [Set.range_list_map]
  exact h

/-! ### Sets of records -/

namespace NetworkSet.Record

/-- **A change of a set of records is one of a network set.** -/
theorem exists_apply (s : NetworkSet) {op : Operation}
    (h : ∀ r ∈ op.operands, ∃ n : Network, n.record = r) :
    ∃ t? : Except Error NetworkSet, op.apply s.record = ofExcept (t?.map NetworkSet.record) := by
  cases op with
  | insert r =>
    obtain ⟨n, rfl⟩ := h r (List.mem_singleton_self r)
    exact ⟨.ok (s.insert n), insert_record s n⟩
  | extend rs =>
    obtain ⟨ns, rfl⟩ := Network.Record.exists_map_record h
    exact ⟨.ok (s.insertMany ns), insertMany_record s ns⟩
  | collect rs =>
    obtain ⟨ns, rfl⟩ := Network.Record.exists_map_record h
    exact ⟨.ok (.ofList ns), insertMany_record .empty ns⟩
  | replaceByInterval first last => exact ⟨_, ofInterval_eq first last⟩
  | extendByInterval first last =>
    refine ⟨(NetworkSet.ofInterval first last).map fun t => s.insertMany t.networks, ?_⟩
    rw [Operation.apply, ofInterval_eq]
    cases NetworkSet.ofInterval first last with
    | error e => rfl
    | ok t =>
      change s.record.insertMany t.record.networks = _
      rw [networks_record, insertMany_record]
      rfl

/-- **The history of a set of records is one of a network set.** -/
theorem exists_run (s : NetworkSet) {ops : List Operation}
    (h : ∀ op ∈ ops, ∀ r ∈ op.operands, ∃ n : Network, n.record = r) :
    ∃ t : NetworkSet, s.record.run ops = .ok t.record := by
  induction ops generalizing s with
  | nil => exact ⟨s, rfl⟩
  | cons op ops ih =>
    obtain ⟨t?, ht⟩ := exists_apply s (h op List.mem_cons_self)
    have hstep : s.record.step op = .ok (t?.toOption.getD s).record := by
      rw [step, ht, accepted?_ofExcept, ok_bind]
      cases t? <;> rfl
    obtain ⟨t, hrun⟩ := ih (t?.toOption.getD s) fun o ho => h o (List.mem_cons_of_mem op ho)
    refine ⟨t, ?_⟩
    rw [run, List.foldlM_cons, hstep, ok_bind]
    exact hrun

end NetworkSet.Record

/-! ### Records -/

namespace Network.Record

/-- The records are those of networks, or the input is refused: there is an operation on networks
that says which. -/
def Follows (rs? : Except Failure (List Record)) : Prop :=
  ∃ ns? : Except Error (List Network), rs? = ofExcept (ns?.map (List.map record))

theorem Follows.single {r? : Except Failure Record} {n? : Except Error Network}
    (h : r? = ofExcept (n?.map record)) : Follows do return [← r?] := by
  refine ⟨n?.map fun n => [n], ?_⟩
  rw [h]
  cases n? <;> rfl

theorem Follows.optional {r? : Except Failure (Option Record)} {n? : Option Network}
    (h : r? = .ok (n?.map record)) : Follows do return (← r?).toList := by
  refine ⟨.ok n?.toList, ?_⟩
  rw [h]
  cases n? <;> rfl

theorem Follows.ofInterface {r? : Except Failure Interface.Record} {i? : Except Error Interface}
    (h : r? = ofExcept (i?.map Interface.record)) : Follows do return [(← r?).network] := by
  refine ⟨i?.map fun i => [i.network], ?_⟩
  rw [h]
  cases i? <;> rfl

/-- **An operation on records of networks is one on networks:** it gives the records of networks, or
refuses its input. -/
theorem follows_results {op : Operation} (h : ∀ r ∈ op.operands, ∃ n : Network, n.record = r) :
    Follows op.results := by
  cases op with
  | ofAddress a k => exact .single (ofAddress_eq a k)
  | containing a k => exact .single (containing_eq a k)
  | parse s => exact .single (parse_eq s)
  | parseContaining s => exact .single (parseContaining_eq s)
  | ofCertificateOctets a => exact .single (ofCertificateOctets_eq a)
  | supernet r =>
    obtain ⟨n, rfl⟩ := h r (by simp [Operation.operands])
    exact .optional (supernet?_record n)
  | sibling r =>
    obtain ⟨n, rfl⟩ := h r (by simp [Operation.operands])
    exact .optional (sibling?_record n)
  | supernetTo r k =>
    obtain ⟨n, rfl⟩ := h r (by simp [Operation.operands])
    exact .single (supernetTo_record n k)
  | subnet r k position =>
    obtain ⟨n, rfl⟩ := h r (by simp [Operation.operands])
    refine ⟨(n.subnets k).map fun w => (Walk.item? position w).toList, ?_⟩
    rw [Operation.results, subnets_record]
    cases n.subnets k with
    | error e => rfl
    | ok w =>
      change (do return (← w.record.item? position).toList) = _
      rw [SubnetWalk.Record.item?_record, ok_bind]
      change _ = Except.ok ((Walk.item? position w).toList.map record)
      cases Walk.item? position w <;> rfl
  | merge m n =>
    obtain ⟨m, rfl⟩ := h m (by simp [Operation.operands])
    obtain ⟨n, rfl⟩ := h n (by simp [Operation.operands])
    exact .optional (merge?_record m n)
  | intersection m n =>
    obtain ⟨m, rfl⟩ := h m (by simp [Operation.operands])
    obtain ⟨n, rfl⟩ := h n (by simp [Operation.operands])
    exact .optional (congrArg Except.ok (intersection?_record m n))
  | exclude m n =>
    obtain ⟨m, rfl⟩ := h m (by simp [Operation.operands])
    obtain ⟨n, rfl⟩ := h n (by simp [Operation.operands])
    exact ⟨.ok (m.exclude n), exclude_record m n⟩
  | ofInterface a k => exact .ofInterface (Interface.Record.ofAddress_eq a k)
  | ofParsedInterface s => exact .ofInterface (Interface.Record.parse_eq s)
  | ofInterfaceIn a r =>
    obtain ⟨n, rfl⟩ := h r (by simp [Operation.operands])
    exact .ofInterface (Interface.Record.inNetwork_record a n)
  | ofHost r position =>
    obtain ⟨n, rfl⟩ := h r (by simp [Operation.operands])
    refine ⟨.ok ((Walk.item? position (Interface.hosts n)).map Interface.network).toList, ?_⟩
    rw [Operation.results, Interface.Record.host?_record, ok_bind]
    cases Walk.item? position (Interface.hosts n) <;> rfl
  | ofSet ops =>
    have hops : ∀ op ∈ ops, ∀ r ∈ op.operands, ∃ n : Network, n.record = r :=
      fun op hop r hr => h r (List.mem_flatMap.2 ⟨op, hop, hr⟩)
    obtain ⟨t, ht⟩ := NetworkSet.Record.exists_run .empty hops
    refine ⟨.ok t.networks, ?_⟩
    change (NetworkSet.empty.record.run ops >>= _) = _
    rw [ht, ok_bind, NetworkSet.Record.networks_record]
    rfl

/-- One operation more, after records of networks. -/
theorem exists_step (ns : List Network) (op : Operation) :
    ∃ ms : List Network, step (ns.map record) op = .ok (ms.map record) := by
  rw [step]
  split_ifs with hknown
  · obtain ⟨ms?, hms⟩ := follows_results fun r hr =>
      (List.mem_map.1 (hknown r hr)).imp fun _ => And.right
    have hadded : (ms?.map (List.map record)).toOption.getD [] =
        (ms?.toOption.getD []).map record := by
      cases ms? <;> rfl
    refine ⟨ns ++ ms?.toOption.getD [], ?_⟩
    rw [hms, accepted?_ofExcept, ok_bind, hadded, List.map_append]
    rfl
  · exact ⟨ns, rfl⟩

/-- **A history of records never fails, and all its records are those of networks.** -/
theorem exists_run (ns : List Network) (ops : List Operation) :
    ∃ ms : List Network, run (ns.map record) ops = .ok (ms.map record) := by
  induction ops generalizing ns with
  | nil => exact ⟨ns, rfl⟩
  | cons op ops ih =>
    obtain ⟨ms, hstep⟩ := exists_step ns op
    rw [run, List.foldlM_cons, hstep, ok_bind]
    exact ih ms

/-- **The records that come about are those of networks,** each of which begins at its own
address. -/
theorem reachable_iff {r : Record} : r.Reachable ↔ ∃ n : Network, n.record = r := by
  constructor
  · rintro ⟨ops, rs, hrun, hr⟩
    obtain ⟨ns, hns⟩ := exists_run [] ops
    obtain rfl := Except.ok.inj (hrun.symm.trans hns)
    obtain ⟨n, -, rfl⟩ := List.mem_map.1 hr
    exact ⟨n, rfl⟩
  · rintro ⟨n, rfl⟩
    refine ⟨[.ofAddress n.address n.prefixLength], [n.record], ?_, List.mem_singleton_self _⟩
    have hof : ofAddress n.address n.prefixLength = .ok n.record := by
      rw [ofAddress_eq, ofAddress_eq_ok_iff.2 ⟨rfl, rfl⟩]
      rfl
    have hstep : step [] (.ofAddress n.address n.prefixLength) = .ok [n.record] := by
      rw [step, if_pos (by simp [Operation.operands]), Operation.results, hof]
      rfl
    rw [run, List.foldlM_cons, hstep]
    rfl

/-- The mask is determined by the other two fields. -/
theorem WellFormed.eq_iff {r s : Record} (hr : r.WellFormed) (hs : s.WellFormed) :
    r = s ↔ r.address = s.address ∧ r.prefixLength = s.prefixLength := by
  obtain ⟨m, rfl⟩ := wellFormed_iff.1 hr
  obtain ⟨n, rfl⟩ := wellFormed_iff.1 hs
  refine ⟨fun h => ⟨congrArg address h, congrArg prefixLength h⟩, ?_⟩
  rintro ⟨ha, hk⟩
  exact congrArg Network.record (ext ha hk)

theorem exists_wellFormed_run (ops : List Operation) :
    ∃ rs, run [] ops = .ok rs ∧ ∀ r ∈ rs, r.WellFormed := by
  obtain ⟨ns, hns⟩ := exists_run [] ops
  refine ⟨_, hns, ?_⟩
  intro r hr
  obtain ⟨n, -, rfl⟩ := List.mem_map.1 hr
  exact wellFormed_iff.2 ⟨n, rfl⟩

/-- **In all records that come about the fields fit together.**  No history fails: whenever a record
is assembled its mask leaves its address as it is, and nothing else that is asked for is missing.  In
each record the prefix is not longer than an address, the mask is the one for its length, and it
leaves the address as it is.  So two records, of one history or of two, are the same if their
addresses and prefix lengths are. -/
theorem wellFormed_run (ops : List Operation) :
    ∃ rs, run [] ops = .ok rs ∧ (∀ r ∈ rs, r.WellFormed) ∧
      ∀ (others : List Operation) (ss : List Record), run [] others = .ok ss →
        ∀ r ∈ rs, ∀ s ∈ ss, r = s ↔ r.address = s.address ∧ r.prefixLength = s.prefixLength := by
  obtain ⟨rs, hrs, hwf⟩ := exists_wellFormed_run ops
  refine ⟨rs, hrs, hwf, ?_⟩
  intro others ss hss r hr s hs
  obtain ⟨ss', hss', hwf'⟩ := exists_wellFormed_run others
  obtain rfl := Except.ok.inj (hss.symm.trans hss')
  exact (hwf r hr).eq_iff (hwf' s hs)

/-- The record around an address, its supernet, and what is left of that without the record. -/
example :
    run [] [.containing (.v4 192 0 2 7) 31, .supernet ⟨.v4 192 0 2 6, 31, .v4 255 255 255 254⟩,
      .exclude ⟨.v4 192 0 2 4, 30, .v4 255 255 255 252⟩
        ⟨.v4 192 0 2 6, 31, .v4 255 255 255 254⟩] =
      .ok [⟨.v4 192 0 2 6, 31, .v4 255 255 255 254⟩, ⟨.v4 192 0 2 4, 30, .v4 255 255 255 252⟩,
        ⟨.v4 192 0 2 4, 31, .v4 255 255 255 254⟩] := by
  decide +kernel

end Network.Record

end Cidr
