import Cidr.NetworkSet.History
import Cidr.Proofs.NetworkSet.Insertion

/-!
# What every history of a network set keeps

A network set is made by operations on the set without networks.  Each operation
keeps the set reduced, so each history does, and an insertion at the end of it
adds the addresses of one network.

## Main results

* `NetworkSet.Reduced.step`, `NetworkSet.reduced_run` — what one operation keeps,
  and what a history keeps.
* `NetworkSet.run_invariant` — **after every history the networks are filed in
  order, share no address, and cannot be merged.**
* `NetworkSet.mem_insert_run_and_reduce` — **nothing is lost and nothing invented.**
-/

namespace Cidr.NetworkSet

/-! ### One operation -/

theorem reduced_of_ofInterval {first last : Address} {s : NetworkSet}
    (h : ofInterval first last = .ok s) : s.Reduced := by
  unfold ofInterval at h
  split at h
  · exact absurd h nofun
  split at h
  · exact absurd h nofun
  cases hb : Network.blocks first last with
  | error e =>
    rw [hb] at h
    exact absurd h nofun
  | ok ns =>
    rw [hb] at h
    obtain rfl := Except.ok.inj h
    exact reduced_ofList ns

theorem Reduced.apply {s t : NetworkSet} (hs : s.Reduced) {op : Operation}
    (h : op.apply s = .ok t) : t.Reduced := by
  cases op with
  | insert n =>
    obtain rfl := Except.ok.inj h
    exact hs.insert n
  | extend ns =>
    obtain rfl := Except.ok.inj h
    exact hs.insertMany ns
  | collect ns =>
    obtain rfl := Except.ok.inj h
    exact reduced_ofList ns
  | replaceByInterval first last => exact reduced_of_ofInterval h
  | extendByInterval first last =>
    cases hi : ofInterval first last with
    | error e =>
      rw [Operation.apply, hi] at h
      exact absurd h nofun
    | ok r =>
      rw [Operation.apply, hi] at h
      obtain rfl := Except.ok.inj h
      exact hs.insertMany r.networks

/-- **An operation keeps the invariant,** whether it fails or not. -/
theorem Reduced.step {s : NetworkSet} (hs : s.Reduced) (op : Operation) : (s.step op).Reduced := by
  rw [NetworkSet.step]
  split
  · next h => exact hs.apply h
  · exact hs

/-! ### All operations -/

theorem Reduced.run {s : NetworkSet} (hs : s.Reduced) (ops : List Operation) :
    (s.run ops).Reduced := by
  induction ops generalizing s with
  | nil => exact hs
  | cons op ops ih => exact ih (hs.step op)

theorem reduced_run (ops : List Operation) : (run empty ops).Reduced := reduced_empty.run ops

/-- The addresses of the networks ascend, and those of IPv4 come first. -/
theorem Filed.pairwise_networks {s : NetworkSet} (hs : s.Filed) :
    s.networks.Pairwise fun m n => m.address < n.address ∧ (n.family = .v4 → m.family = .v4) := by
  rw [networks, List.pairwise_map]
  refine hs.ascending.imp_of_mem ?_
  intro d e hd he hlt
  rw [hs.keyed d hd, hs.keyed e he] at hlt
  refine ⟨hlt, ?_⟩
  intro hf
  -- the part of IPv4 comes first, so what stands before one of its addresses is in it
  have hpos := Address.lt_iff_position_lt.1 hlt
  have hlast := e.2.address.position_lt
  change e.2.address.family = .v4 at hf
  rw [hf] at hlast
  exact Address.family_eq_of_position (Nat.zero_le _) (by omega)

/-- **The invariant of network sets.**  After every history each network is filed at its own
address, the addresses ascend, no two networks share an address, and no two can be merged. -/
theorem run_invariant (ops : List Operation) :
    (∀ e ∈ (run empty ops).entries, e.1 = e.2.address) ∧
    ((run empty ops).networks.Pairwise fun m n =>
      m.address < n.address ∧ (n.family = .v4 → m.family = .v4)) ∧
    (∀ m ∈ (run empty ops).networks, ∀ n ∈ (run empty ops).networks, m ≠ n →
      ¬ m.Overlaps n ∧ ¬ n.Overlaps m ∧ ∀ a ∈ m, a ∉ n) ∧
    ∀ m ∈ (run empty ops).networks, ∀ n ∈ (run empty ops).networks, ¬ m.CanMergeWith n := by
  have hs := reduced_run ops
  refine ⟨hs.keyed, hs.pairwise_networks, ?_, hs.unmergeable⟩
  intro m hm n hn hne
  refine ⟨hs.disjoint m hm n hn hne, hs.disjoint n hn m hm hne.symm, ?_⟩
  intro a ha ha'
  exact hne (hs.eq_of_mem hm hn ha ha')

/-! ### Addresses -/

/-- **Insertion is exact.**  After every history an insertion adds the addresses of the network,
and the networks that a list is reduced to have the addresses of the list. -/
theorem mem_insert_run_and_reduce (a : Address) :
    (∀ (ops : List Operation) (n : Network),
      (∃ m ∈ ((run empty ops).insert n).networks, a ∈ m) ↔
        (∃ m ∈ (run empty ops).networks, a ∈ m) ∨ a ∈ n) ∧
    ∀ ns : List Network, (∃ m ∈ Network.reduce ns, a ∈ m) ↔ ∃ n ∈ ns, a ∈ n := by
  constructor
  · intro ops n
    exact (reduced_run ops).mem_insert
  · intro ns
    exact mem_ofList

end Cidr.NetworkSet
