import Cidr.Proofs.Address.Mask
import Cidr.Proofs.Network.Region
import Mathlib.Order.Defs.Unbundled

/-!
# Inclusion and intersection of networks

Whether one network contains another one is decided by two addresses and two
lengths.  That is enough, since a network is an interval that never crosses
another one: the addresses that two networks share are all addresses of one of
them.  So inclusion is inclusion of addresses, networks are ordered by it, and
the smaller one of two networks that overlap is their intersection.

## Main results

* `Network.mem_iff_and_netmask` — masking tells the addresses of a network.
* `Network.contains_exact` — **inclusion of networks is a partial order: that of
  their addresses.**
* `Network.intersection?_exact` — **two networks are nested or disjoint, and what
  they share is the smaller one.**
-/

namespace Cidr.Network

variable {m n : Network} {a : Address}

/-- Masking an address with the mask of a network gives the first address of the network exactly if
the address is in it.  There is no masking with a mask of the other family. -/
theorem mem_iff_and_netmask : a ∈ n ↔ (a.and n.netmask).toOption = some n.address := by
  change _ ↔ (a.and (.ones n.family n.prefixLength)).toOption = _
  by_cases hf : a.family = n.family
  · rw [Address.and_ones hf]
    exact Option.some_inj.symm
  · have hand : a.and (.ones n.family n.prefixLength) = .error .familiesDiffer := dif_neg hf
    rw [hand]
    exact iff_of_false (fun h => hf (family_eq_of_mem h)) nofun

/-! ### Inclusion -/

theorem Contains.family_eq (h : m.Contains n) : n.family = m.family := family_eq_of_mem h.2

/-- The test of the families says nothing new, since no address is in a network of another one. -/
theorem isSubnetOf_iff_contains : n.IsSubnetOf m ↔ m.Contains n :=
  ⟨And.right, fun h => ⟨h.family_eq, h⟩⟩

/-- **A network is determined by its addresses.** -/
theorem ext_mem (h : ∀ a, a ∈ m ↔ a ∈ n) : m = n :=
  Contains.antisymm (contains_iff_forall_mem.2 fun a => (h a).2)
    (contains_iff_forall_mem.2 fun a => (h a).1)

/-- Networks are ordered by inclusion. -/
instance : IsPartialOrder Network Contains where
  refl := Contains.refl
  trans _ _ _ := Contains.trans
  antisymm _ _ := Contains.antisymm

/-- **Inclusion of networks is that of their addresses.**  Whether a network is around another one
can be asked in three ways, with the same answer.  Networks with the same addresses are the same,
networks are partially ordered by inclusion, and none contains one of the other family. -/
theorem contains_exact :
    (∀ m n : Network, m.Contains n ↔ ∀ a ∈ n, a ∈ m) ∧
    (∀ m n : Network, (n.IsSubnetOf m ↔ m.Contains n) ∧ (m.IsSupernetOf n ↔ m.Contains n)) ∧
    (∀ m n : Network, (∀ a, a ∈ m ↔ a ∈ n) → m = n) ∧
    IsPartialOrder Network Contains ∧
    ∀ m n : Network, m.family ≠ n.family → ¬ m.Contains n := by
  refine ⟨fun m n => contains_iff_forall_mem, ?_, fun m n => ext_mem, inferInstance, ?_⟩
  · intro m n
    exact ⟨isSubnetOf_iff_contains, isSubnetOf_iff_contains⟩
  · intro m n hf h
    exact hf h.family_eq.symm

/-! ### Intersections -/

theorem mem_intersection?_iff :
    (∃ l ∈ (m.intersection? n).toList, a ∈ l) ↔ a ∈ m ∧ a ∈ n := by
  rw [intersection?]
  split_ifs with h h'
  · simp only [Option.toList_some, List.mem_singleton, exists_eq_left]
    exact (and_iff_right_of_imp h.mem).symm
  · simp only [Option.toList_some, List.mem_singleton, exists_eq_left]
    exact (and_iff_left_of_imp h'.mem).symm
  · refine iff_of_false (by simp) ?_
    intro ⟨hm, hn⟩
    exact (contains_or_contains hm hn).elim h h'

theorem isSome_intersection?_iff : (m.intersection? n).isSome ↔ m.Overlaps n := by
  rw [intersection?, Overlaps]
  split_ifs with h h'
  · exact iff_of_true rfl (Or.inl h)
  · exact iff_of_true rfl (Or.inr h')
  · exact iff_of_false nofun (not_or.2 ⟨h, h'⟩)

/-- The order of the tests does not matter: networks that contain each other are the same. -/
theorem intersection?_comm (m n : Network) : m.intersection? n = n.intersection? m := by
  rw [intersection?, intersection?]
  split_ifs with h h'
  · rw [h.antisymm h']
  · rfl
  · rfl
  · rfl

/-- **Intersections are exact.**  Networks overlap if they share an address, and then one of them is
inside the other one.  Only then they have an intersection, with the addresses that are in both, and
it is the same in either order. -/
theorem intersection?_exact (m n : Network) :
    (m.Overlaps n ↔ ∃ a, a ∈ m ∧ a ∈ n) ∧
    (∀ a, a ∈ m → a ∈ n → m.Contains n ∨ n.Contains m) ∧
    ((m.intersection? n).isSome ↔ m.Overlaps n) ∧
    (∀ l, m.intersection? n = some l → ∀ a, a ∈ l ↔ a ∈ m ∧ a ∈ n) ∧
    m.intersection? n = n.intersection? m := by
  refine ⟨overlaps_iff_exists_mem, fun a => contains_or_contains, isSome_intersection?_iff, ?_,
    intersection?_comm m n⟩
  intro l hl a
  rw [← mem_intersection?_iff, hl, Option.toList_some]
  simp only [List.mem_singleton, exists_eq_left]

end Cidr.Network
