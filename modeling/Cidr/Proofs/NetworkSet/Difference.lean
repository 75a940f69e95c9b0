import Cidr.Proofs.Network.Hierarchy
import Cidr.Proofs.NetworkSet.Interval

/-!
# Differences of networks

What is left of a network without another one inside it is two intervals, one
before the inner network and one after it, and both are filled with networks.
In the tree of networks these are the siblings on the way from the inner network
up to the outer one: each of them is as large as it can be, and every address
that is left leaves that way at some step.

## Main results

* `Network.tiles_before`, `Network.tiles_after` — the two intervals are filled.
* `Network.reduced_exclude`, `Network.mem_exclude_iff` — **a difference is a
  reduced set of exactly the addresses that are left.**
* `Network.mem_exclude_iff_sibling`, `Network.length_exclude` — **a difference is the
  siblings on the way up,** one for each bit of the prefix.
* `Network.exclude_exact` — all of this together.
-/

namespace Cidr

namespace Network

open NetworkSet (filed networks_filed reduced_filed)

variable {m n : Network}

theorem not_halves_self (n : Network) : ¬ Halves n n := fun h =>
  absurd h.stop_eq (Nat.ne_of_gt n.start_lt_stop)

theorem not_halves_of_mem_singleton : ∀ k ∈ [m], ∀ l ∈ [m], ¬ Halves k l := by
  intro k hk l hl
  rw [List.mem_singleton.1 hk, List.mem_singleton.1 hl]
  exact m.not_halves_self

/-! ### The two intervals -/

theorem Contains.not_address_lt (h : m.Contains n) : ¬ n.address < m.address := by
  have hint := contains_iff_interval.1 h
  rw [Address.lt_iff_position_lt]
  exact Nat.not_lt.2 hint.1

theorem Contains.not_lastAddress_lt (h : m.Contains n) : ¬ m.lastAddress < n.lastAddress := by
  have hint := contains_iff_interval.1 h
  have hm := m.position_lastAddress
  have hn := n.position_lastAddress
  rw [Address.lt_iff_position_lt]
  omega

theorem tiles_cover {first last : Address} (hf : first.family = last.family) (hle : first ≤ last) :
    Tiles first.position (last.position + 1) (cover first last) := by
  obtain ⟨ns, -, hset, htiles⟩ := NetworkSet.exists_ofInterval hf hle
  rw [cover, hset]
  change Tiles _ _ (filed ns).networks
  rw [networks_filed]
  exact htiles

/-- Where the inner network does not begin the outer one, there is an address before it. -/
theorem exists_pred?_address (h : m.Contains n) (hlt : m.address < n.address) :
    ∃ a, n.address.pred? = some a ∧ a.family = m.family ∧ a.position + 1 = n.start ∧
      m.address ≤ a := by
  have hf : n.family = m.family := family_eq_of_mem h.2
  have hlt' : m.start < n.start := Address.lt_iff_position_lt.1 hlt
  have hbase := m.base_le_start
  have htop : n.start < n.family.base + 2 ^ n.family.bitWidth := n.address.position_lt
  obtain ⟨a, haf, hap⟩ := Address.exists_position_eq (f := n.family) (p := n.start - 1)
    (by rw [hf]; omega) (by omega)
  have hpos : a.position + 1 = n.start := by omega
  refine ⟨a, Address.pred?_eq_some_iff_position.2 ⟨haf, hpos⟩, haf.trans hf, hpos, ?_⟩
  rw [Address.le_iff_position_le]
  change m.start ≤ a.position
  omega

/-- Where the inner network does not end the outer one, there is an address after it. -/
theorem exists_succ?_lastAddress (h : m.Contains n) (hlt : n.lastAddress < m.lastAddress) :
    ∃ a, n.lastAddress.succ? = some a ∧ a.family = m.family ∧ a.position = n.stop ∧
      a ≤ m.lastAddress := by
  have hf : n.family = m.family := family_eq_of_mem h.2
  have hm := m.position_lastAddress
  have hn := n.position_lastAddress
  have hlt' := Address.lt_iff_position_lt.1 hlt
  have hstop := m.stop_le
  have hbase := n.base_le_start
  have hn' := n.start_lt_stop
  obtain ⟨a, haf, hap⟩ := Address.exists_position_eq (f := n.family) (p := n.stop)
    (by omega) (by rw [hf]; omega)
  refine ⟨a, lastAddress_succ?_eq_some_iff.2 ⟨haf, hap⟩, haf.trans hf, hap, ?_⟩
  rw [Address.le_iff_position_le]
  omega

/-- The part before an inner network is filled. -/
theorem tiles_before (h : m.Contains n) : Tiles m.start n.start (m.before n) := by
  have hint := contains_iff_interval.1 h
  rw [before]
  split_ifs with hlt
  · obtain ⟨a, hpred, haf, hap, hle⟩ := exists_pred?_address h hlt
    have htiles := tiles_cover haf.symm hle
    rw [hap] at htiles
    rw [hpred]
    exact htiles
  · rw [Address.lt_iff_position_lt] at hlt
    change ¬ m.start < n.start at hlt
    rw [Nat.le_antisymm hint.1 (Nat.not_lt.1 hlt)]
    exact Tiles.nil

/-- The part after an inner network is filled. -/
theorem tiles_after (h : m.Contains n) : Tiles n.stop m.stop (m.after n) := by
  have hint := contains_iff_interval.1 h
  have hm := m.position_lastAddress
  have hn := n.position_lastAddress
  rw [after]
  split_ifs with hlt
  · obtain ⟨a, hsucc, haf, hap, hle⟩ := exists_succ?_lastAddress h hlt
    have htiles : Tiles a.position (m.lastAddress.position + 1) (cover a m.lastAddress) :=
      tiles_cover haf hle
    rw [hap, hm] at htiles
    rw [hsucc]
    exact htiles
  · rw [Address.lt_iff_position_lt] at hlt
    rw [show n.stop = m.stop by omega]
    exact Tiles.nil

/-! ### What is left -/

theorem exclude_of_not_overlaps (h : ¬ m.Overlaps n) : m.exclude n = [m] := if_neg h

/-- Nothing is left of a network inside the other one. -/
theorem exclude_of_contains (h : n.Contains m) : m.exclude n = [] := by
  rw [exclude, if_pos (show m.Overlaps n from Or.inr h), before, if_neg h.not_address_lt, after,
    if_neg h.not_lastAddress_lt]
  rfl

/-- **A difference is a reduced set.** -/
theorem reduced_exclude (m n : Network) : (filed (m.exclude n)).Reduced := by
  by_cases ho : m.Overlaps n
  · rcases ho with h | h
    · have hb := tiles_before h
      have ha := tiles_after h
      have hlt := n.start_lt_stop
      have hgap : ∀ k ∈ m.before n, ∀ l ∈ m.after n, k.stop < l.start := by
        intro k hk l hl
        have hk' := (hb.largest k hk).stop_le
        have hl' := ((ha.mem_iff l.address).1 ⟨l, hl, l.address_mem⟩).1
        change n.stop ≤ l.start at hl'
        omega
      rw [exclude, if_pos (show m.Overlaps n from Or.inl h)]
      refine reduced_filed ?_ ?_
      · exact List.pairwise_append.2 ⟨hb.ascending, ha.ascending,
          fun k hk l hl => Nat.le_of_lt (hgap k hk l hl)⟩
      · intro k hk l hl hkl
        have hk' := k.start_lt_stop
        have hl' := l.start_lt_stop
        have heq := hkl.stop_eq
        -- between the two intervals there is the inner network
        rcases List.mem_append.1 hk with hk | hk <;> rcases List.mem_append.1 hl with hl | hl
        · exact hb.not_halves hk hl hkl
        · have := hgap k hk l hl
          omega
        · have := hgap l hl k hk
          omega
        · exact ha.not_halves hk hl hkl
    · rw [exclude_of_contains h]
      exact NetworkSet.reduced_empty
  · rw [exclude_of_not_overlaps ho]
    exact reduced_filed (List.pairwise_singleton _ m) not_halves_of_mem_singleton

/-- **A difference has exactly the addresses that are left.** -/
theorem mem_exclude_iff {a : Address} : (∃ l ∈ m.exclude n, a ∈ l) ↔ a ∈ m ∧ a ∉ n := by
  by_cases ho : m.Overlaps n
  · rcases ho with h | h
    · have hint := contains_iff_interval.1 h
      have hlt := n.start_lt_stop
      rw [exclude, if_pos (show m.Overlaps n from Or.inl h)]
      simp only [List.mem_append, or_and_right, exists_or]
      rw [(tiles_before h).mem_iff, (tiles_after h).mem_iff, mem_iff_position, mem_iff_position]
      omega
    · rw [exclude_of_contains h]
      exact iff_of_false (by simp) fun ha => ha.2 (h.mem ha.1)
  · rw [exclude_of_not_overlaps ho]
    simp only [List.mem_singleton, exists_eq_left]
    refine (and_iff_left_of_imp ?_).symm
    intro hm hn
    exact ho (overlaps_iff_exists_mem.2 ⟨a, hm, hn⟩)

/-! ### Siblings on the way up -/

/-- The sibling of a network between the inner and the outer one is in the difference: what is
larger contains the inner network. -/
theorem mem_exclude_of_sibling? (h : m.Contains n) {k : Nat} (hk : m.prefixLength < k)
    (hk' : k ≤ n.prefixLength) :
    ∃ s ∈ m.exclude n, (n.widen k hk').sibling? = some s ∧ s.prefixLength = k ∧
      ∀ a ∈ n.widen (k - 1) (by omega), a ∉ n.widen k hk' → a ∈ s := by
  have hpn := contains_widen hk'
  have hqn := contains_widen (n := n) (k := k - 1) (by omega)
  have hqp : (n.widen (k - 1) (by omega)).Contains (n.widen k hk') :=
    hqn.of_prefixLength_le hpn (Nat.sub_le k 1)
  have hmq : m.Contains (n.widen (k - 1) (by omega)) :=
    h.of_prefixLength_le hqn (Nat.le_sub_one_of_lt hk)
  obtain ⟨s, hs, hsk, hmem, hapart⟩ := exists_sibling? hqp (Nat.sub_add_cancel (by omega))
  have hred := reduced_exclude m n
  have hfits : ∀ a, a ∈ filed (m.exclude n) ↔ a ∈ m ∧ a ∉ n := by
    intro a
    rw [NetworkSet.mem_iff, networks_filed, mem_exclude_iff]
  have hqs : (n.widen (k - 1) (by omega)).Contains s :=
    contains_iff_forall_mem.2 fun a ha => (hmem a).2 (Or.inr ha)
  have hbits : s.hostBits + 1 = (n.widen (k - 1) (by omega)).hostBits := by
    have hw := s.hostBits_add
    have hw' := (n.widen (k - 1) (by omega)).hostBits_add
    have hf : s.family = (n.widen (k - 1) (by omega)).family := family_eq_of_mem hqs.2
    rw [hf, hsk] at hw
    rw [prefixLength_widen] at hw hw'
    omega
  have hin : s ∈ (filed (m.exclude n)).networks := by
    refine hred.mem_networks_iff_maximal.2 ⟨?_, ?_⟩
    · intro a ha
      refine (hfits a).2 ⟨hmq.mem (hqs.mem ha), ?_⟩
      intro ha'
      exact hapart a (hpn.mem ha') ha
    · intro l hl hls
      by_contra hne
      have hlq := hls.of_ne hne hqs hbits
      exact ((hfits _).1 (hl _ (hlq.mem (hqn.mem n.address_mem)))).2 n.address_mem
  rw [networks_filed] at hin
  exact ⟨s, hin, hs, hsk, fun a ha ha' => ((hmem a).1 ha).resolve_left ha'⟩

/-- **A difference is the siblings on the way up.**  Of the networks on the way down to the inner
one, take the first one that an address is not in: its sibling holds the address. -/
theorem mem_exclude_iff_sibling (h : m.Contains n) {l : Network} :
    l ∈ m.exclude n ↔ ∃ k, m.prefixLength < k ∧ ∃ hk : k ≤ n.prefixLength,
      (n.widen k hk).sibling? = some l := by
  constructor
  · intro hl
    obtain ⟨hm, hn⟩ := mem_exclude_iff.1 ⟨l, hl, l.address_mem⟩
    have hlast : ∃ k, l.address.truncate k ≠ n.address.truncate k := by
      refine ⟨n.prefixLength, ?_⟩
      rw [n.truncate_address]
      exact hn
    have hle : Nat.find hlast ≤ n.prefixLength := by
      refine Nat.find_min' hlast ?_
      rw [n.truncate_address]
      exact hn
    have hlt : m.prefixLength < Nat.find hlast := by
      by_contra hge
      -- a network at least as large as the outer one has all its addresses
      have hcon : (n.widen (Nat.find hlast) hle).Contains m :=
        (contains_widen hle).of_prefixLength_le h (Nat.not_lt.1 hge)
      exact Nat.find_spec hlast (hcon.mem hm)
    obtain ⟨s, hs, hsib, -, hmem⟩ := mem_exclude_of_sibling? h hlt hle
    have hfirst : l.address ∈ n.widen (Nat.find hlast - 1) (by omega) := by
      by_contra hnot
      exact Nat.find_min hlast (Nat.sub_lt (by omega) Nat.one_pos) hnot
    have hls : l = s := by
      have hred := reduced_exclude m n
      rw [← networks_filed (m.exclude n)] at hl hs
      exact hred.eq_of_mem hl hs l.address_mem (hmem _ hfirst (Nat.find_spec hlast))
    exact ⟨_, hlt, hle, hls ▸ hsib⟩
  · intro ⟨k, hk, hk', hsib⟩
    obtain ⟨s, hs, hsib', -, -⟩ := mem_exclude_of_sibling? h hk hk'
    obtain rfl := Option.some.inj (hsib.symm.trans hsib')
    exact hs

/-- **There is one sibling for each bit** by which the prefixes differ. -/
theorem length_exclude (h : m.Contains n) :
    (m.exclude n).length = n.prefixLength - m.prefixLength := by
  have hnodup := (reduced_exclude m n).toFiled.nodup_networks
  rw [networks_filed] at hnodup
  have hlen : ∀ l, l ∈ m.exclude n → ∃ hk : l.prefixLength ≤ n.prefixLength,
      m.prefixLength < l.prefixLength ∧ (n.widen l.prefixLength hk).sibling? = some l := by
    intro l hl
    obtain ⟨k, hk, hk', hsib⟩ := (mem_exclude_iff_sibling h).1 hl
    obtain ⟨s, -, hsib', rfl, -⟩ := mem_exclude_of_sibling? h hk hk'
    obtain rfl := Option.some.inj (hsib.symm.trans hsib')
    exact ⟨hk', hk, hsib⟩
  -- the lengths of the prefixes tell the siblings apart, and each one between occurs
  have hperm : ((m.exclude n).map prefixLength).Perm
      (List.range' (m.prefixLength + 1) (n.prefixLength - m.prefixLength)) := by
    refine (List.perm_ext_iff_of_nodup (hnodup.map_on ?_) List.nodup_range').2 ?_
    · intro k hk l hl heq
      obtain ⟨hk', -, hsib⟩ := hlen k hk
      obtain ⟨hl', -, hsib'⟩ := hlen l hl
      simp only [heq] at hsib
      exact Option.some.inj (hsib.symm.trans hsib')
    · intro k
      rw [List.mem_map, List.mem_range'_1]
      constructor
      · rintro ⟨l, hl, hk⟩
        obtain ⟨hk', hlt, -⟩ := hlen l hl
        omega
      · intro hk
        obtain ⟨s, hs, -, hsk, -⟩ := mem_exclude_of_sibling? h (k := k) (by omega) (by omega)
        exact ⟨s, hs, hsk⟩
  rw [← List.length_map, hperm.length_eq, List.length_range']

/-! ### Differences in all -/

/-- The networks of a difference come in order and share no address. -/
theorem pairwise_exclude (m n : Network) :
    (m.exclude n).Pairwise fun k l => k < l ∧ ∀ a ∈ k, a ∉ l := by
  have hred := reduced_exclude m n
  have hasc := hred.toFiled.pairwise_networks
  have hmem : ∀ l ∈ m.exclude n, l ∈ (filed (m.exclude n)).networks := by
    intro l hl
    rw [networks_filed]
    exact hl
  rw [networks_filed] at hasc
  refine hasc.imp_of_mem ?_
  intro k l hk hl ⟨hlt, _⟩
  have hstart : k.start < l.start := Address.lt_iff_position_lt.1 hlt
  refine ⟨lt_of_start_lt hstart, ?_⟩
  intro a ha ha'
  rw [hred.eq_of_mem (hmem k hk) (hmem l hl) ha ha'] at hstart
  exact absurd hstart (Nat.lt_irrefl _)

theorem reduce_singleton (m : Network) : reduce [m] = [m] := by
  have hfiled : NetworkSet.ofList [m] = filed [m] :=
    NetworkSet.ofList_eq_filed (List.pairwise_singleton _ m) not_halves_of_mem_singleton
  rw [reduce, hfiled, networks_filed]

/-- **Differences are exact and minimal.**  The networks come in order, share no address, and have
exactly the addresses that are left.  Where the networks share no address all of the first one is
left, and nothing of it inside the second one.  Of a larger network the siblings of the networks on
the way up are left, one for each bit.  No list with the same addresses is shorter, and together
with what both networks share the difference is reduced to the whole. -/
theorem exclude_exact (m n : Network) :
    (m.exclude n).Pairwise (fun k l => k < l ∧ ∀ a ∈ k, a ∉ l) ∧
    (∀ a, (∃ l ∈ m.exclude n, a ∈ l) ↔ a ∈ m ∧ a ∉ n) ∧
    (¬ m.Overlaps n → m.exclude n = [m]) ∧
    (n.Contains m → m.exclude n = []) ∧
    (m.Contains n → m ≠ n →
      (m.exclude n).length = n.prefixLength - m.prefixLength ∧
      (∀ k, m.prefixLength < k → k ≤ n.prefixLength →
        ∃ p s, n.supernetTo k = .ok p ∧ p.sibling? = some s ∧ s ∈ m.exclude n) ∧
      ∀ s ∈ m.exclude n, ∃ k p, m.prefixLength < k ∧ k ≤ n.prefixLength ∧
        n.supernetTo k = .ok p ∧ p.sibling? = some s) ∧
    (∀ ls : List Network, (∀ a, (∃ l ∈ ls, a ∈ l) ↔ a ∈ m ∧ a ∉ n) →
      (m.exclude n).length ≤ ls.length) ∧
    reduce (m.exclude n ++ (m.intersection? n).toList) = [m] := by
  refine ⟨pairwise_exclude m n, fun a => mem_exclude_iff, exclude_of_not_overlaps,
    exclude_of_contains, ?_, ?_, ?_⟩
  · intro h _
    refine ⟨length_exclude h, ?_, ?_⟩
    · intro k hk hk'
      obtain ⟨s, hs, hsib, -, -⟩ := mem_exclude_of_sibling? h hk hk'
      exact ⟨n.widen k hk', s, dif_pos hk', hsib, hs⟩
    · intro s hs
      obtain ⟨k, hk, hk', hsib⟩ := (mem_exclude_iff_sibling h).1 hs
      exact ⟨k, n.widen k hk', hk, hk', dif_pos hk', hsib⟩
  · intro ls hls
    have hcover : ∀ a, a ∈ filed (m.exclude n) ↔ ∃ l ∈ ls, a ∈ l := by
      intro a
      rw [NetworkSet.mem_iff, networks_filed, mem_exclude_iff, hls]
    have hle := (reduced_exclude m n).length_le hcover
    rw [networks_filed] at hle
    exact hle
  · have hset : NetworkSet.ofList (m.exclude n ++ (m.intersection? n).toList) =
        NetworkSet.ofList [m] := by
      refine NetworkSet.ofList_congr ?_
      intro a
      simp only [List.mem_append, or_and_right, exists_or, List.mem_singleton, exists_eq_left]
      rw [mem_exclude_iff, mem_intersection?_iff, ← and_or_left]
      exact and_iff_left (Classical.em (a ∈ n)).symm
    rw [reduce, hset]
    exact reduce_singleton m

theorem exclude_exact_slash16 :
    (Network.enclosing (.v4 10 0 0 0) 8 (by decide)).Contains
      (.enclosing (.v4 10 1 0 0) 16 (by decide)) ∧
    ((Network.enclosing (.v4 10 0 0 0) 8 (by decide)).exclude
      (.enclosing (.v4 10 1 0 0) 16 (by decide))).length = 8 ∧
    Network.enclosing (.v4 10 2 0 0) 15 (by decide) ∈
      (Network.enclosing (.v4 10 0 0 0) 8 (by decide)).exclude
        (.enclosing (.v4 10 1 0 0) 16 (by decide)) := by
  have hcon : (Network.enclosing (.v4 10 0 0 0) 8 (by decide)).Contains
      (.enclosing (.v4 10 1 0 0) 16 (by decide)) := by decide
  obtain ⟨-, -, -, -, hinner, -, -⟩ := exclude_exact
    (.enclosing (.v4 10 0 0 0) 8 (by decide)) (.enclosing (.v4 10 1 0 0) 16 (by decide))
  obtain ⟨hlen, hsib, -⟩ := hinner hcon (by decide)
  obtain ⟨p, s, hp, hs, hmem⟩ := hsib 15 (by decide) (by decide)
  obtain rfl := Except.ok.inj hp
  have hs' : s = .enclosing (.v4 10 2 0 0) 15 (by decide) :=
    Option.some.inj (hs.symm.trans (by decide +kernel))
  exact ⟨hcon, hlen, hs' ▸ hmem⟩

end Network

end Cidr
