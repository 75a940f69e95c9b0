import Cidr.Proofs.Network.Inclusion
import Cidr.Proofs.Network.Subnets

/-!
# Unions of networks

Two networks without a common address seldom make up a network.  If they do, the
union has two halves, and each of the networks is at most as large as a half
since the other one takes up some of the union.  Only together are they as large
as the union, so they are the halves, and halves can be merged.

## Main results

* `Network.halves_of_union` — **networks that make up another one are its halves.**
* `Network.merge?_eq_some_iff_union` — **merging finds every union.**
* `Network.take_subnets_of_halves` — a network is cut into its halves.
* `Network.merge?_exact` — all of this together.
-/

namespace Cidr

namespace SubnetWalk

theorem take_of_upcoming_eq_none (k : Nat) (last : Address) :
    (Walk.take k (SubnetWalk.mk none last)).1 = [] := by
  cases k <;> rfl

theorem take_succ (k : Nat) (n : Network) (last : Address) :
    (Walk.take (k + 1) (SubnetWalk.mk (some n) last)).1 =
      n :: (Walk.take k (SubnetWalk.mk (if n.lastAddress = last then none else n.follower?) last)).1 :=
  rfl

end SubnetWalk

namespace Network

variable {l u m n p : Network}

/-! ### Networks that make up another one -/

/-- The intervals of two networks without a common address, the first of which begins before the
other one, touch if they make up an interval. -/
theorem interval_of_union (hapart : ∀ a ∈ m, a ∉ n) (hmem : ∀ a, a ∈ p ↔ a ∈ m ∨ a ∈ n)
    (hlt : m.start < n.start) : p.start = m.start ∧ m.stop = n.start ∧ n.stop = p.stop := by
  have hm := contains_iff_interval.1 (contains_iff_forall_mem.2 fun a ha => (hmem a).2 (Or.inl ha))
  have hn := contains_iff_interval.1 (contains_iff_forall_mem.2 fun a ha => (hmem a).2 (Or.inr ha))
  have hmlt := m.start_lt_stop
  have hnlt := n.start_lt_stop
  have hdis : m.stop ≤ n.start := by
    have hover : ¬ m.Overlaps n := by
      rw [overlaps_iff_exists_mem]
      rintro ⟨a, ha, ha'⟩
      exact hapart a ha ha'
    rw [not_overlaps_iff_interval] at hover
    omega
  -- every position of the union is one of the two networks
  have hcover : ∀ q, p.start ≤ q → q < p.stop →
      m.start ≤ q ∧ q < m.stop ∨ n.start ≤ q ∧ q < n.stop := by
    intro q hq hq'
    obtain ⟨a, ha, rfl⟩ := exists_mem_position_eq hq hq'
    rw [← mem_iff_position, ← mem_iff_position]
    exact (hmem a).1 ha
  have hfirst := hcover p.start (Nat.le_refl _) p.start_lt_stop
  have hmiddle := hcover m.stop
  have hlast := hcover (p.stop - 1)
  omega

/-- **Networks that make up another one are its halves.**  Both are at most as large as the halves
are, and together they are as large. -/
theorem halves_of_union (hapart : ∀ a ∈ m, a ∉ n) (hmem : ∀ a, a ∈ p ↔ a ∈ m ∨ a ∈ n)
    (hlt : m.start < n.start) : Halves m n := by
  obtain ⟨hstart, hmiddle, hstop⟩ := interval_of_union hapart hmem hlt
  have hmpos := Nat.two_pow_pos m.hostBits
  have hnpos := Nat.two_pow_pos n.hostBits
  have hsum : 2 ^ m.hostBits + 2 ^ n.hostBits = 2 ^ p.hostBits := by
    rw [stop] at hmiddle hstop
    rw [stop] at hstop
    omega
  have hmp : m.hostBits < p.hostBits :=
    (Nat.pow_lt_pow_iff_right (a := 2) (by decide)).1 (by omega)
  have hnp : n.hostBits < p.hostBits :=
    (Nat.pow_lt_pow_iff_right (a := 2) (by decide)).1 (by omega)
  obtain ⟨l, u, hlu, hlb, hls, hus⟩ := p.exists_halves (by omega)
  have hml : 2 ^ m.hostBits ≤ 2 ^ l.hostBits := Nat.pow_le_pow_right (by decide) (by omega)
  have hnl : 2 ^ n.hostBits ≤ 2 ^ l.hostBits := Nat.pow_le_pow_right (by decide) (by omega)
  have hdouble : 2 ^ p.hostBits = 2 ^ l.hostBits + 2 ^ l.hostBits := by
    rw [← hlb, pow_succ]
    omega
  have hmstop : m.stop = l.stop := by
    rw [stop, stop]
    omega
  have hm : m = l := ext_interval (by omega) hmstop
  have hn : n = u := ext_interval (by rw [← hmiddle, hmstop, hlu.stop_eq]) (by omega)
  rw [hm, hn]
  exact hlu

/-! ### Merging -/

theorem canMergeWith_comm : m.CanMergeWith n ↔ n.CanMergeWith m := by
  rw [canMergeWith_iff_halves, canMergeWith_iff_halves, or_comm]

theorem isSome_merge?_iff : (m.merge? n).isSome ↔ m.CanMergeWith n := by
  rw [merge?]
  split_ifs with h
  · exact iff_of_true rfl h
  · exact iff_of_false (by simp) h

theorem exists_merge?_of_halves_or (h : Halves m n ∨ Halves n m) :
    ∃ q, m.merge? n = some q ∧ ∀ a, a ∈ q ↔ a ∈ m ∨ a ∈ n := by
  rcases h with h | h
  · obtain ⟨q, hq, -, hmem⟩ := exists_merge?_of_halves h
    exact ⟨q, hq, hmem⟩
  · obtain ⟨q, -, hq, hmem⟩ := exists_merge?_of_halves h
    exact ⟨q, hq, fun a => (hmem a).trans or_comm⟩

/-- What can be merged is two halves, and then they are merged to the network that they make up. -/
theorem merge?_eq_some_iff_halves :
    m.merge? n = some p ↔ (Halves m n ∨ Halves n m) ∧ ∀ a, a ∈ p ↔ a ∈ m ∨ a ∈ n := by
  refine ⟨?_, ?_⟩
  · intro h
    have hhalves := canMergeWith_iff_halves.1 (merge?_eq_some_iff.1 h).1
    obtain ⟨q, hq, hmem⟩ := exists_merge?_of_halves_or hhalves
    obtain rfl := Option.some.inj (h.symm.trans hq)
    exact ⟨hhalves, hmem⟩
  · rintro ⟨hhalves, hmem⟩
    obtain ⟨q, hq, hmem'⟩ := exists_merge?_of_halves_or hhalves
    rw [hq, ext_mem fun a => (hmem' a).trans (hmem a).symm]

theorem merge?_comm (m n : Network) : m.merge? n = n.merge? m := by
  refine Option.ext fun p => ?_
  rw [merge?_eq_some_iff_halves, merge?_eq_some_iff_halves, or_comm]
  simp only [or_comm]

/-- **Merging finds every union** of two networks without a common address. -/
theorem merge?_eq_some_iff_union :
    m.merge? n = some p ↔ (∀ a ∈ m, a ∉ n) ∧ ∀ a, a ∈ p ↔ a ∈ m ∨ a ∈ n := by
  rw [merge?_eq_some_iff_halves]
  refine and_congr_left fun hmem => ⟨?_, ?_⟩
  · rintro (h | h) a ha
    · exact h.not_mem_of_mem ha
    · exact fun ha' => h.not_mem_of_mem ha' ha
  · intro hapart
    rcases Nat.lt_trichotomy m.start n.start with hlt | heq | hlt
    · exact Or.inl (halves_of_union hapart hmem hlt)
    · have haddr : m.address = n.address := Address.position_inj heq
      exact absurd (haddr ▸ n.address_mem) (hapart _ m.address_mem)
    · exact Or.inr (halves_of_union (fun a ha ha' => hapart a ha' ha)
        (fun a => (hmem a).trans or_comm) hlt)

/-! ### Cutting the union -/

theorem Halves.follower?_eq (h : Halves l u) : l.follower? = some u :=
  follower?_eq_some_iff.2 ⟨h.family_eq.symm, h.prefixLength_eq.symm, h.stop_eq.symm⟩

/-- **A network is cut into its halves,** and nothing comes after them. -/
theorem take_subnets_of_halves (h : Halves l u) (hmem : ∀ a, a ∈ p ↔ a ∈ l ∨ a ∈ u) :
    ∃ w, p.subnets l.prefixLength = .ok w ∧ ∀ k, (Walk.take (k + 2) w).1 = [l, u] := by
  have hl := l.start_lt_stop
  have hu := u.start_lt_stop
  have hmiddle := h.stop_eq
  have hll := l.position_lastAddress
  have hul := u.position_lastAddress
  have hpl := p.position_lastAddress
  obtain ⟨hstart, -, hstop⟩ := interval_of_union (fun a => h.not_mem_of_mem) hmem (by omega)
  have hcon : p.Contains l := contains_iff_forall_mem.2 fun a ha => (hmem a).2 (Or.inl ha)
  have hfirst : ofAddress p.address l.prefixLength = .ok l :=
    ofAddress_eq_ok_iff.2 ⟨Address.position_inj hstart.symm, rfl⟩
  have hlast : p.lastAddress = u.lastAddress := Address.position_inj (by omega)
  have hne : l.lastAddress ≠ u.lastAddress := by
    intro heq
    rw [heq] at hll
    omega
  refine ⟨⟨some l, u.lastAddress⟩, ?_, ?_⟩
  · rw [subnets, if_neg (Nat.not_lt.2 hcon.1), hfirst, hlast]
    rfl
  · intro k
    rw [SubnetWalk.take_succ, if_neg hne, h.follower?_eq, SubnetWalk.take_succ, if_pos rfl,
      SubnetWalk.take_of_upcoming_eq_none]

/-! ### All together -/

theorem address_lt_of_halves (h : Halves l u) : l.address < u.address := by
  rw [Address.lt_iff_position_lt]
  change l.start < u.start
  rw [← h.stop_eq]
  exact l.start_lt_stop

/-- **Merging is exact.**  Two networks merge to a network if they share no address and the network
has exactly the addresses that are in one of them; their sum is the same.  Its prefix is one bit
shorter, and the subnets with the prefix of the two are these two, in the order of addresses.  The
networks are said to merge exactly if they do, and their order does not matter. -/
theorem merge?_exact (m n : Network) :
    (∀ p, m.merge? n = some p ↔ (∀ a ∈ m, a ∉ n) ∧ ∀ a, a ∈ p ↔ a ∈ m ∨ a ∈ n) ∧
    m + n = m.merge? n ∧
    (∀ p, m.merge? n = some p → m.CanMergeWith n ∧
      p.prefixLength + 1 = m.prefixLength ∧ p.prefixLength + 1 = n.prefixLength ∧
      ∃ w l u, p.subnets m.prefixLength = .ok w ∧ (l = m ∧ u = n ∨ l = n ∧ u = m) ∧
        l.address < u.address ∧ ∀ k, (Walk.take (k + 2) w).1 = [l, u]) ∧
    (m.CanMergeWith n ↔ (m.merge? n).isSome) ∧
    (m.CanMergeWith n ↔ n.CanMergeWith m) ∧
    m.merge? n = n.merge? m := by
  refine ⟨fun p => merge?_eq_some_iff_union, rfl, ?_, isSome_merge?_iff.symm, canMergeWith_comm,
    merge?_comm m n⟩
  intro p hp
  obtain ⟨hcan, -, hk⟩ := merge?_eq_some_iff.1 hp
  obtain ⟨hhalves, hmem⟩ := merge?_eq_some_iff_halves.1 hp
  refine ⟨hcan, hk, hcan.1 ▸ hk, ?_⟩
  rcases hhalves with h | h
  · obtain ⟨w, hw, htake⟩ := take_subnets_of_halves h hmem
    exact ⟨w, m, n, hw, Or.inl ⟨rfl, rfl⟩, address_lt_of_halves h, htake⟩
  · obtain ⟨w, hw, htake⟩ := take_subnets_of_halves h fun a => (hmem a).trans or_comm
    rw [h.prefixLength_eq] at hw
    exact ⟨w, n, m, hw, Or.inr ⟨rfl, rfl⟩, address_lt_of_halves h, htake⟩

/-- All addresses of IPv6 are the union of two networks, the last of which has no address after it. -/
example : enclosing (.ones .v6 1) 1 (by decide) + enclosing (.ones .v6 0) 1 (by decide) =
    some (enclosing (.ones .v6 0) 0 (by decide)) := by
  decide +kernel

end Network

end Cidr
