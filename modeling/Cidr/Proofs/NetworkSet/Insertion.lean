import Cidr.Proofs.Network.Halves
import Cidr.Proofs.NetworkSet.Filing

/-!
# Insertion into a network set

A network set is reduced when its networks are filed in order, share no address,
and no two of them can be merged.  A round of an insertion keeps the set reduced
and neither loses nor invents an address: what it takes out is either covered by
the network to be inserted or goes on as its other half.

## Main definitions

* `NetworkSet.Reduced` — the invariant of network sets.
* `NetworkSet.Round.Exact` — a round leaves a reduced set, and all addresses.

## Main results

* `NetworkSet.Reduced.covers_iff` — looking at the closest network is enough.
* `NetworkSet.Reduced.exact_insertRound` — **a round is exact.**
* `NetworkSet.Reduced.insert`, `NetworkSet.Reduced.mem_insert` — **insertion
  keeps the invariant, and adds the addresses of the network.**
-/

namespace Cidr.NetworkSet

/-- The networks are filed in order, share no address, and no two can be merged. -/
structure Reduced (s : NetworkSet) : Prop extends Filed s where
  disjoint : ∀ m ∈ s.networks, ∀ n ∈ s.networks, m ≠ n → ¬ m.Overlaps n
  unmergeable : ∀ m ∈ s.networks, ∀ n ∈ s.networks, ¬ m.CanMergeWith n

theorem reduced_empty : Reduced empty where
  keyed := nofun
  ascending := List.Pairwise.nil
  disjoint := nofun
  unmergeable := nofun

/-- What a round leads to is a reduced set, with the same addresses in all. -/
def Round.Exact (s : NetworkSet) (n : Network) : Round → Prop
  | .settled t => t.Reduced ∧ ∀ a, a ∈ t ↔ a ∈ s ∨ a ∈ n
  | .again t p => t.Reduced ∧ ∀ a, a ∈ t ∨ a ∈ p ↔ a ∈ s ∨ a ∈ n

namespace Reduced

variable {s t : NetworkSet} {a : Address} {m n : Network}

/-- A set with fewer networks is reduced, too. -/
theorem of_sublist (hs : Reduced s) (h : t.entries.Sublist s.entries) : Reduced t := by
  have hsub : ∀ n ∈ t.networks, n ∈ s.networks := (h.map Prod.snd).subset
  refine ⟨hs.toFiled.of_sublist h, ?_, ?_⟩
  · intro m hm n hn
    exact hs.disjoint m (hsub m hm) n (hsub n hn)
  · intro m hm n hn
    exact hs.unmergeable m (hsub m hm) n (hsub n hn)

theorem eq_of_mem (hs : Reduced s) (hm : m ∈ s.networks) (hn : n ∈ s.networks) (ha : a ∈ m)
    (ha' : a ∈ n) : m = n := by
  by_contra hne
  exact hs.disjoint m hm n hn hne (Network.overlaps_iff_exists_mem.2 ⟨a, ha, ha'⟩)

/-! ### Covered networks -/

/-- **If any network covers the new one, the closest one before it does.** -/
theorem covers_iff (hs : Reduced s) : s.Covers n ↔ ∃ m ∈ s.networks, m.Contains n := by
  constructor
  · rintro ⟨m, hm, hmn⟩
    exact ⟨m, Filed.mem_of_floor? hm, hmn⟩
  · rintro ⟨m, hm, hmn⟩
    have hint := Network.contains_iff_interval.1 hmn
    have hlt := n.start_lt_stop
    obtain ⟨f, hf, hmf, hfn⟩ := hs.exists_floor? hm (Address.le_iff_position_le.2 hint.1)
    -- the closest network begins inside the one that covers, so they are the same
    have hfm : f.address ∈ m := by
      rw [Address.le_iff_position_le] at hmf hfn
      rw [Network.mem_iff_position]
      exact ⟨hmf, Nat.lt_of_le_of_lt hfn (Nat.lt_of_lt_of_le hlt hint.2)⟩
    obtain rfl := hs.eq_of_mem hm (Filed.mem_of_floor? hf) hfm f.address_mem
    exact ⟨m, hf, hmn⟩

/-- What is filed between the ends of a network that is not covered is what it covers. -/
theorem mem_eraseBetween_iff (hs : Reduced s) (hn : ¬ s.Covers n) :
    m ∈ (s.eraseBetween n.address n.lastAddress).networks ↔ m ∈ s.networks ∧ ¬ n.Contains m := by
  rw [hs.toFiled.mem_eraseBetween]
  refine and_congr_right fun hm => not_congr ?_
  have hlast := n.position_lastAddress
  rw [Address.le_iff_position_le, Address.le_iff_position_le]
  constructor
  · rintro ⟨hle, hle'⟩
    have hmem : m.address ∈ n := by
      rw [Network.mem_iff_position]
      exact ⟨hle, by omega⟩
    rcases Network.contains_or_contains m.address_mem hmem with h | h
    · exact absurd (hs.covers_iff.2 ⟨m, hm, h⟩) hn
    · exact h
  · intro h
    have hint := Network.contains_iff_interval.1 h
    have hlt := m.start_lt_stop
    exact ⟨hint.1, by change m.start ≤ _; omega⟩

/-! ### One round -/

theorem siblingIn?_eq_some_iff (hs : Reduced s) :
    s.siblingIn? n = some m ↔ n.sibling? = some m ∧ m ∈ s.networks := by
  rw [siblingIn?, Option.bind_eq_bind, Option.bind_eq_some_iff]
  constructor
  · rintro ⟨half, hhalf, h⟩
    split at h
    · next hfind =>
      obtain rfl := Option.some.inj h
      exact ⟨hhalf, (hs.find?_eq_some_iff.1 hfind).1⟩
    · exact absurd h nofun
  · rintro ⟨hm, hmem⟩
    exact ⟨m, hm, if_pos (hs.find?_eq_some_iff.2 ⟨hmem, rfl⟩)⟩

/-- A network with none of its addresses in the set, and not its other half, can be placed. -/
theorem place (hs : Reduced s) (hn : ∀ m ∈ s.networks, ¬ m.Overlaps n)
    (hsib : s.siblingIn? n = none) : Reduced (s.place n) := by
  have hmem : ∀ m ∈ (s.place n).networks, m = n ∨ m ∈ s.networks := by
    intro m hm
    exact (hs.toFiled.mem_place.1 hm).imp_right And.left
  -- a network it could be merged with would have been found as the sibling
  have hmerge : ∀ m ∈ s.networks, ¬ n.Halves m ∧ ¬ m.Halves n := by
    intro m hm
    rw [← not_or, ← Network.sibling?_eq_some_iff_halves]
    intro h
    rw [hs.siblingIn?_eq_some_iff.2 ⟨h, hm⟩] at hsib
    exact absurd hsib nofun
  have hself : ¬ n.Halves n := by
    intro h
    exact absurd h.stop_eq (Nat.ne_of_gt n.start_lt_stop)
  refine ⟨hs.toFiled.place n, ?_, ?_⟩
  · intro l hl m hm hne
    rcases hmem l hl with rfl | hl' <;> rcases hmem m hm with rfl | hm'
    · exact absurd rfl hne
    · intro h
      exact hn m hm' h.symm
    · exact hn l hl'
    · exact hs.disjoint l hl' m hm' hne
  · intro l hl m hm h
    rw [Network.canMergeWith_iff_halves] at h
    rcases hmem l hl with rfl | hl' <;> rcases hmem m hm with rfl | hm'
    · exact h.elim hself hself
    · exact h.elim (hmerge m hm').1 (hmerge m hm').2
    · exact h.elim (hmerge l hl').2 (hmerge l hl').1
    · exact hs.unmergeable l hl' m hm' (Network.canMergeWith_iff_halves.2 h)

theorem mem_place_iff (hs : Reduced s) (hn : ∀ m ∈ s.networks, ¬ m.Overlaps n) :
    a ∈ s.place n ↔ a ∈ s ∨ a ∈ n := by
  simp only [mem_iff, hs.toFiled.mem_place]
  constructor
  · rintro ⟨m, rfl | ⟨hm, -⟩, ha⟩
    · exact Or.inr ha
    · exact Or.inl ⟨m, hm, ha⟩
  · rintro (⟨m, hm, ha⟩ | ha)
    · refine ⟨m, Or.inr ⟨hm, ?_⟩, ha⟩
      intro heq
      refine hn m hm (Network.overlaps_iff_exists_mem.2 ⟨m.address, m.address_mem, ?_⟩)
      rw [heq]
      exact n.address_mem
    · exact ⟨n, Or.inl rfl, ha⟩

/-- A network with none of its addresses in the set is joined to it without loss. -/
theorem exact_join (hs : Reduced s) (hn : ∀ m ∈ s.networks, ¬ m.Overlaps n) :
    (s.join n).Exact s n := by
  cases hsib : s.siblingIn? n with
  | none =>
    rw [join, hsib]
    exact ⟨hs.place hn hsib, fun a => hs.mem_place_iff hn⟩
  | some half =>
    obtain ⟨hhalf, hmem⟩ := hs.siblingIn?_eq_some_iff.1 hsib
    rw [Network.sibling?_eq_some_iff_halves] at hhalf
    obtain ⟨whole, hmerge, hwhole⟩ :
        ∃ p, n.merge? half = some p ∧ ∀ a, a ∈ p ↔ a ∈ half ∨ a ∈ n := by
      rcases hhalf with h | h
      · obtain ⟨p, hp, -, hmem⟩ := Network.exists_merge?_of_halves h
        exact ⟨p, hp, fun a => (hmem a).trans or_comm⟩
      · obtain ⟨p, -, hp, hmem⟩ := Network.exists_merge?_of_halves h
        exact ⟨p, hp, hmem⟩
    have hjoin : s.join n = .again (s.erase half.address) whole := by
      simp only [join, hsib, hmerge]
    rw [hjoin]
    refine ⟨hs.of_sublist List.filter_sublist, ?_⟩
    intro a
    rw [hwhole a, ← or_assoc]
    refine or_congr_left ?_
    -- the other half is all that was taken out
    simp only [mem_iff, hs.toFiled.mem_erase]
    constructor
    · rintro (⟨m, ⟨hm, -⟩, ha⟩ | ha)
      · exact ⟨m, hm, ha⟩
      · exact ⟨half, hmem, ha⟩
    · rintro ⟨m, hm, ha⟩
      by_cases h : m.address = half.address
      · obtain rfl := hs.toFiled.eq_of_address_eq hm hmem h
        exact Or.inr ha
      · exact Or.inl ⟨m, ⟨hm, h⟩, ha⟩

/-- **A round of an insertion is exact.** -/
theorem exact_insertRound (hs : Reduced s) (n : Network) : (s.insertRound n).Exact s n := by
  rw [insertRound]
  split
  · next hcov =>
    obtain ⟨m, hm, hmn⟩ := hs.covers_iff.1 hcov
    refine ⟨hs, ?_⟩
    intro a
    refine ⟨Or.inl, ?_⟩
    rintro (ha | ha)
    · exact ha
    · exact ⟨m, hm, hmn.mem ha⟩
  · next hcov =>
    have hclear := hs.of_sublist (t := s.eraseBetween n.address n.lastAddress) List.filter_sublist
    have hapart : ∀ m ∈ (s.eraseBetween n.address n.lastAddress).networks, ¬ m.Overlaps n := by
      intro m hm h
      obtain ⟨hm, hnm⟩ := (hs.mem_eraseBetween_iff hcov).1 hm
      rcases h with h | h
      · exact hcov (hs.covers_iff.2 ⟨m, hm, h⟩)
      · exact hnm h
    -- what was taken out is covered by the network itself
    have hmem : ∀ a, a ∈ s.eraseBetween n.address n.lastAddress ∨ a ∈ n ↔ a ∈ s ∨ a ∈ n := by
      intro a
      simp only [mem_iff, hs.mem_eraseBetween_iff hcov]
      constructor
      · rintro (⟨m, ⟨hm, -⟩, ha⟩ | ha)
        · exact Or.inl ⟨m, hm, ha⟩
        · exact Or.inr ha
      · rintro (⟨m, hm, ha⟩ | ha)
        · by_cases h : n.Contains m
          · exact Or.inr (h.mem ha)
          · exact Or.inl ⟨m, ⟨hm, h⟩, ha⟩
        · exact Or.inr ha
    have hjoin := hclear.exact_join hapart
    cases hround : (s.eraseBetween n.address n.lastAddress).join n with
    | settled t =>
      rw [hround] at hjoin
      exact ⟨hjoin.1, fun a => (hjoin.2 a).trans (hmem a)⟩
    | again t p =>
      rw [hround] at hjoin
      exact ⟨hjoin.1, fun a => (hjoin.2 a).trans (hmem a)⟩

/-! ### All rounds -/

/-- The rounds of an insertion, each with a larger network, end in a reduced set with all
addresses. -/
theorem exact_insert (hs : Reduced s) (n : Network) :
    (s.insert n).Reduced ∧ ∀ a, a ∈ s.insert n ↔ a ∈ s ∨ a ∈ n := by
  fun_induction NetworkSet.insert s n with
  | case1 s n t h =>
    have hround := hs.exact_insertRound n
    rw [h] at hround
    exact hround
  | case2 s n t p h ih =>
    have hround := hs.exact_insertRound n
    rw [h] at hround
    obtain ⟨hred, hmem⟩ := ih hround.1
    -- the addresses are those before this round, by those after it
    exact ⟨hred, fun a => (hmem a).trans (hround.2 a)⟩

/-- **Insertion keeps the invariant.** -/
theorem insert (hs : Reduced s) (n : Network) : (s.insert n).Reduced := (hs.exact_insert n).1

/-- **Insertion adds the addresses of the network,** and no others. -/
theorem mem_insert (hs : Reduced s) : a ∈ s.insert n ↔ a ∈ s ∨ a ∈ n := (hs.exact_insert n).2 a

theorem exact_insertMany (hs : Reduced s) (ns : List Network) :
    (s.insertMany ns).Reduced ∧ ∀ a, a ∈ s.insertMany ns ↔ a ∈ s ∨ ∃ n ∈ ns, a ∈ n := by
  induction ns generalizing s with
  | nil =>
    refine ⟨hs, ?_⟩
    intro a
    simp [insertMany]
  | cons n ns ih =>
    obtain ⟨hred, hmem⟩ := ih (hs.insert n)
    refine ⟨hred, ?_⟩
    intro a
    refine (hmem a).trans ?_
    rw [hs.mem_insert, List.exists_mem_cons_iff, or_assoc]

theorem insertMany (hs : Reduced s) (ns : List Network) : (s.insertMany ns).Reduced :=
  (hs.exact_insertMany ns).1

end Reduced

theorem reduced_ofList (ns : List Network) : (ofList ns).Reduced := reduced_empty.insertMany ns

theorem mem_ofList {ns : List Network} {a : Address} : a ∈ ofList ns ↔ ∃ n ∈ ns, a ∈ n := by
  rw [ofList, (reduced_empty.exact_insertMany ns).2 a]
  simp [mem_iff, networks, empty]

end Cidr.NetworkSet
