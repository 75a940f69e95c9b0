import Cidr.Proofs.Network.Halves
import Cidr.Proofs.Network.Record

/-!
# Adjacent networks

Whether two networks are adjacent is found out by putting them in order, making
sure that they do not overlap, and asking for the address after the last one of
the lower network.  The intervals of the two then touch, and this alone decides:
networks that touch cannot overlap, the lower one has an address after its last
one because the upper one begins there, and the order is that of the beginnings.
The last address of a family has no address after it, so that nothing is adjacent
around the end of a family.

## Main definitions

* `Network.LeavesNoGap` — what lies between the addresses of two networks is in
  one of them.

## Main results

* `Network.isAdjacentTo_comm` — it does not matter which network is asked.
* `Network.isAdjacentTo_iff_leavesNoGap` — networks are adjacent if there is
  nothing between them and nothing in both.
* `Network.isAdjacentTo_exact` — **networks are adjacent when the number after the
  last address of one is that of the first address of the other.**
-/

namespace Cidr.Network

/-- An address that lies between one of `m` and one of `n` is in `m` or in `n`. -/
def LeavesNoGap (m n : Network) : Prop :=
  ∀ a ∈ m, ∀ b ∈ n, ∀ c, (a ≤ c ∧ c ≤ b ∨ b ≤ c ∧ c ≤ a) → c ∈ m ∨ c ∈ n

variable {m n : Network}

/-! ### Numbers -/

/-- Within a family, intervals touch when the numbers of their ends follow each other. -/
theorem stop_eq_start_iff (hf : m.family = n.family) :
    m.stop = n.start ↔ m.lastAddress.toNat + 1 = n.address.toNat := by
  have hlast := m.position_lastAddress
  rw [Address.position, family_lastAddress, hf] at hlast
  change _ = n.family.base + n.address.toNat ↔ _
  omega

theorem isAdjacentTo_comm : m.IsAdjacentTo n ↔ n.IsAdjacentTo m := by
  rw [isAdjacentTo_iff_interval, isAdjacentTo_iff_interval]
  exact and_congr eq_comm or_comm

/-! ### No gap and no overlap -/

theorem LeavesNoGap.symm (h : m.LeavesNoGap n) : n.LeavesNoGap m := by
  intro b hb a ha c hc
  exact (h a ha b hb c hc.symm).symm

/-- Intervals one after the other leave no gap only if they touch. -/
theorem LeavesNoGap.stop_eq_start (h : m.LeavesNoGap n) (hle : m.stop ≤ n.start)
    (hf : m.family = n.family) : m.stop = n.start := by
  have hm := m.start_lt_stop
  have hn := n.start_lt_stop
  by_contra hne
  -- the address right after those of `m` exists, as it comes before those of `n`
  obtain ⟨c, -, hc⟩ := Address.exists_position_eq (f := n.family) (p := m.stop)
    (by rw [← hf]; exact Nat.le_trans m.base_le_start (Nat.le_of_lt hm))
    (Nat.lt_of_le_of_lt hle (Nat.lt_of_lt_of_le hn n.stop_le))
  have hmem := h m.address m.address_mem n.address n.address_mem c <| Or.inl <| by
    rw [Address.le_iff_position_le, Address.le_iff_position_le, hc]
    exact ⟨Nat.le_of_lt hm, hle⟩
  rw [mem_iff_position, mem_iff_position, hc] at hmem
  omega

theorem leavesNoGap_of_stop_eq_start (h : m.stop = n.start) : m.LeavesNoGap n := by
  intro a ha b hb c hc
  rw [mem_iff_position] at ha hb
  rw [Address.le_iff_position_le, Address.le_iff_position_le, Address.le_iff_position_le,
    Address.le_iff_position_le] at hc
  rw [mem_iff_position, mem_iff_position]
  omega

/-- **Networks of one family are adjacent when they leave no gap and do not overlap.** -/
theorem isAdjacentTo_iff_leavesNoGap :
    m.IsAdjacentTo n ↔ m.family = n.family ∧ ¬ m.Overlaps n ∧ m.LeavesNoGap n := by
  have hm := m.start_lt_stop
  have hn := n.start_lt_stop
  rw [isAdjacentTo_iff_interval, not_overlaps_iff_interval]
  refine and_congr_right ?_
  intro hf
  constructor
  · rintro (h | h)
    · exact ⟨Or.inl h.le, leavesNoGap_of_stop_eq_start h⟩
    · exact ⟨Or.inr h.le, (leavesNoGap_of_stop_eq_start h).symm⟩
  · rintro ⟨hle | hle, hgap⟩
    · exact Or.inl (hgap.stop_eq_start hle hf)
    · exact Or.inr (hgap.symm.stop_eq_start hle hf.symm)

/-- **Adjacent networks are those of one family that touch.**  The number after that of the last
address of one is the number of the first address of the other; these are natural numbers, so that
none comes after the last one of a family.  Networks touch in this way when nothing lies between
them and they share nothing, whichever of the two comes first, and the records of two networks
agree on it without a failure. -/
theorem isAdjacentTo_exact (m n : Network) :
    (m.IsAdjacentTo n ↔ m.family = n.family ∧
      (m.lastAddress.toWide.toNat + 1 = n.address.toWide.toNat ∨
        n.lastAddress.toWide.toNat + 1 = m.address.toWide.toNat)) ∧
    (m.IsAdjacentTo n ↔ n.IsAdjacentTo m) ∧
    ¬ (m.IsAdjacentTo n ∧ m.Overlaps n) ∧
    (m.IsAdjacentTo n ↔ m.family = n.family ∧ ¬ m.Overlaps n ∧ m.LeavesNoGap n) ∧
    m.record.isAdjacentTo n.record = .ok (decide (m.IsAdjacentTo n)) := by
  refine ⟨?_, isAdjacentTo_comm, fun h => h.1.2.1 h.2, isAdjacentTo_iff_leavesNoGap,
    Record.isAdjacentTo_record m n⟩
  rw [isAdjacentTo_iff_interval]
  refine and_congr_right ?_
  intro hf
  rw [stop_eq_start_iff hf, stop_eq_start_iff hf.symm]
  simp only [Address.toNat_toWide]

/-- The last address and the first one of a family are not adjacent. -/
example : ¬ (enclosing (.ones .v4 32) 32 (by decide)).IsAdjacentTo
    (enclosing (.ones .v4 0) 32 (by decide)) := by
  decide +kernel

end Cidr.Network
