import Cidr.Proofs.NetworkSet.History
import Mathlib.Data.List.Perm.Subperm

/-!
# The canonical form of a set of addresses

A reduced network set holds the largest networks that fit into its set of
addresses: a network all of whose addresses are in the set lies inside one of
its networks, since otherwise its halves, which do, would have been merged.  So
the set of addresses determines the networks, and no other list of networks with
the same addresses is shorter.

## Main results

* `NetworkSet.Reduced.exists_contains` — a network that fits lies in one of the set.
* `NetworkSet.Reduced.mem_networks_iff_maximal` — **the networks are the largest ones.**
* `NetworkSet.Reduced.eq_of_mem_iff` — **sets with the same addresses are equal.**
* `NetworkSet.Reduced.length_le`, `NetworkSet.Reduced.perm_of_length_le` — **no list
  with the same addresses is shorter, and none as short is different.**
-/

namespace Cidr.NetworkSet

namespace Reduced

variable {s t : NetworkSet}

/-! ### Networks that fit -/

/-- **A network that fits into the set lies inside one of its networks.**  The induction is on
the host bits: each half lies inside a network of the set, and if both of these were no larger
than the halves they could be merged. -/
theorem exists_contains (hs : Reduced s) {m : Network} (hm : ∀ a ∈ m, a ∈ s) :
    ∃ n ∈ s.networks, n.Contains m := by
  induction hbits : m.hostBits generalizing m with
  | zero =>
    obtain ⟨n, hn, ha⟩ := hm m.address m.address_mem
    refine ⟨n, hn, Network.contains_iff_forall_mem.2 ?_⟩
    intro a ha'
    -- a network without host bits has a single address
    rw [Network.mem_iff_position, Network.stop, hbits] at ha'
    have hle : a.position ≤ m.start := by omega
    have heq : a = m.address := Address.position_inj (Nat.le_antisymm hle ha'.1)
    rw [heq]
    exact ha
  | succ h ih =>
    obtain ⟨l, u, hlu, hlb, hls, hus⟩ := m.exists_halves (by omega)
    have hub := hlu.hostBits_eq
    have hl := l.start_lt_stop
    have hu := u.start_lt_stop
    have heq := hlu.stop_eq
    have hml : m.Contains l := Network.contains_iff_interval.2 (by omega)
    have hmu : m.Contains u := Network.contains_iff_interval.2 (by omega)
    obtain ⟨f, hf, hfl⟩ := ih (fun a ha => hm a (hml.mem ha)) (by omega)
    obtain ⟨g, hg, hgu⟩ := ih (fun a ha => hm a (hmu.mem ha)) (by omega)
    by_cases hne : f = l
    · by_cases hne' : g = u
      · -- both halves are in the set, where they could be merged
        subst hne hne'
        exact absurd (Network.canMergeWith_iff_halves.2 (Or.inl hlu)) (hs.unmergeable f hf g hg)
      · exact ⟨g, hg, hgu.of_ne hne' hmu (by omega)⟩
    · exact ⟨f, hf, hfl.of_ne hne hml hlb⟩

/-- **The networks of a reduced set are the largest ones that fit into it.** -/
theorem mem_networks_iff_maximal (hs : Reduced s) {n : Network} :
    n ∈ s.networks ↔ (∀ a ∈ n, a ∈ s) ∧ ∀ m, (∀ a ∈ m, a ∈ s) → m.Contains n → m = n := by
  constructor
  · intro hn
    refine ⟨fun a ha => ⟨n, hn, ha⟩, ?_⟩
    intro m hm hmn
    obtain ⟨f, hf, hfm⟩ := hs.exists_contains hm
    have hfn : f.Contains n := hfm.trans hmn
    obtain rfl := hs.eq_of_mem hf hn (hfn.mem n.address_mem) n.address_mem
    exact hmn.antisymm hfm
  · rintro ⟨hn, hmax⟩
    obtain ⟨f, hf, hfn⟩ := hs.exists_contains hn
    rw [← hmax f (fun a ha => ⟨f, hf, ha⟩) hfn]
    exact hf

/-! ### Uniqueness -/

/-- **The addresses determine a reduced set.** -/
theorem eq_of_mem_iff (hs : Reduced s) (ht : Reduced t) (h : ∀ a, a ∈ s ↔ a ∈ t) : s = t := by
  have hnet : ∀ n, n ∈ s.networks ↔ n ∈ t.networks := by
    intro n
    rw [hs.mem_networks_iff_maximal, ht.mem_networks_iff_maximal]
    simp only [h]
  have hmem : ∀ e, e ∈ s.entries ↔ e ∈ t.entries := by
    rintro ⟨a, n⟩
    constructor
    · intro he
      obtain rfl : a = n.address := hs.keyed _ he
      exact ht.mem_networks_iff.1 ((hnet n).1 (hs.mem_networks_iff.2 he))
    · intro he
      obtain rfl : a = n.address := ht.keyed _ he
      exact hs.mem_networks_iff.1 ((hnet n).2 (ht.mem_networks_iff.2 he))
  have hperm : s.entries.Perm t.entries :=
    (List.perm_ext_iff_of_nodup hs.nodup_entries ht.nodup_entries).2 hmem
  have hentries : s.entries = t.entries := by
    refine hperm.eq_of_pairwise ?_ hs.ascending ht.ascending
    intro d e _ _ hde hed
    rw [Address.lt_iff_position_lt] at hde hed
    omega
  cases s
  cases t
  exact congrArg NetworkSet.mk hentries

/-! ### Minimality -/

/-- A network of a list with the same addresses lies inside the network it shares one with. -/
theorem contains_of_cover (hs : Reduced s) {ns : List Network}
    (h : ∀ a, a ∈ s ↔ ∃ n ∈ ns, a ∈ n) {m n : Network} (hm : m ∈ s.networks) (hn : n ∈ ns)
    {a : Address} (ha : a ∈ m) (ha' : a ∈ n) : m.Contains n := by
  obtain ⟨f, hf, hfn⟩ := hs.exists_contains (m := n) fun b hb => (h b).2 ⟨n, hn, hb⟩
  obtain rfl := hs.eq_of_mem hf hm (hfn.mem ha') ha
  exact hfn

/-- Every list with the same addresses has a network for each one of a reduced set, and no others
if it is not longer. -/
theorem exists_choice (hs : Reduced s) {ns : List Network} (h : ∀ a, a ∈ s ↔ ∃ n ∈ ns, a ∈ n) :
    ∃ f : Network → Network, (∀ m ∈ s.networks, m.Contains (f m)) ∧
      (s.networks.map f).Subperm ns := by
  have hex : ∀ m ∈ s.networks, ∃ n ∈ ns, m.address ∈ n := by
    intro m hm
    exact (h m.address).1 ⟨m, hm, m.address_mem⟩
  choose! f hf hmem using hex
  have hin : ∀ m ∈ s.networks, m.Contains (f m) := by
    intro m hm
    exact hs.contains_of_cover h hm (hf m hm) m.address_mem (hmem m hm)
  refine ⟨f, hin, List.subperm_of_subset ?_ ?_⟩
  · refine hs.nodup_networks.map_on ?_
    intro m hm n hn heq
    -- what lies in two networks of the set gives them an address in common
    have hmn : n.Contains (f m) := by
      rw [heq]
      exact hin n hn
    exact hs.eq_of_mem hm hn m.address_mem (hmn.mem (hmem m hm))
  · intro n hn
    obtain ⟨m, hm, rfl⟩ := List.mem_map.1 hn
    exact hf m hm

/-- **No list with the same addresses is shorter.** -/
theorem length_le (hs : Reduced s) {ns : List Network} (h : ∀ a, a ∈ s ↔ ∃ n ∈ ns, a ∈ n) :
    s.networks.length ≤ ns.length := by
  obtain ⟨f, -, hsub⟩ := hs.exists_choice h
  have hle := hsub.length_le
  rw [List.length_map] at hle
  exact hle

/-- **A list with the same addresses that is no longer has the same networks.** -/
theorem perm_of_length_le (hs : Reduced s) {ns : List Network}
    (h : ∀ a, a ∈ s ↔ ∃ n ∈ ns, a ∈ n) (hlen : ns.length ≤ s.networks.length) :
    ns.Perm s.networks := by
  obtain ⟨f, hin, hsub⟩ := hs.exists_choice h
  have hperm : (s.networks.map f).Perm ns := by
    refine hsub.perm_of_length_le ?_
    rw [List.length_map]
    exact hlen
  have hid : ∀ m ∈ s.networks, f m = m := by
    intro m hm
    -- no other network of the list has addresses of this one
    refine (Network.contains_iff_forall_mem.2 ?_).antisymm (hin m hm)
    intro a ha
    obtain ⟨n, hn, ha'⟩ := (h a).1 ⟨m, hm, ha⟩
    obtain ⟨l, hl, rfl⟩ := List.mem_map.1 (hperm.symm.subset hn)
    obtain rfl := hs.eq_of_mem hl hm ((hin l hl).mem ha') ha
    exact ha'
  rw [List.map_congr_left hid, List.map_id'] at hperm
  exact hperm.symm

end Reduced

/-! ### Histories and lists -/

/-- **Network sets are canonical.**  Two histories lead to the same set exactly when they lead to
the same addresses, and two lists are reduced to the same networks exactly when they have the
same addresses, whatever their order, their repetitions and their pieces. -/
theorem run_eq_run_iff :
    (∀ ops ops' : List Operation,
      run empty ops = run empty ops' ↔ ∀ a, a ∈ run empty ops ↔ a ∈ run empty ops') ∧
    ∀ ns ns' : List Network,
      Network.reduce ns = Network.reduce ns' ↔ ∀ a, (∃ n ∈ ns, a ∈ n) ↔ ∃ n ∈ ns', a ∈ n := by
  constructor
  · intro ops ops'
    constructor
    · intro h a
      rw [h]
    · exact (reduced_run ops).eq_of_mem_iff (reduced_run ops')
  · intro ns ns'
    simp only [← mem_ofList]
    constructor
    · intro h a
      rw [mem_iff, mem_iff]
      change (∃ n ∈ Network.reduce ns, a ∈ n) ↔ ∃ n ∈ Network.reduce ns', a ∈ n
      rw [h]
    · intro h
      rw [Network.reduce, (reduced_ofList ns).eq_of_mem_iff (reduced_ofList ns') h]
      rfl

/-- **Reduction is minimal.**  No list with the same addresses is shorter than the reduced one,
and one of the same length has the same networks.  The reduced list holds exactly the largest
networks all of whose addresses are those of the list. -/
theorem reduce_minimal (ns : List Network) :
    (∀ ns' : List Network, (∀ a, (∃ n ∈ ns, a ∈ n) ↔ ∃ n ∈ ns', a ∈ n) →
      (Network.reduce ns).length ≤ ns'.length ∧
        ((Network.reduce ns).length = ns'.length → ns'.Perm (Network.reduce ns))) ∧
    ∀ n, n ∈ Network.reduce ns ↔ (∀ a ∈ n, ∃ x ∈ ns, a ∈ x) ∧
      ∀ m : Network, (∀ a ∈ m, ∃ x ∈ ns, a ∈ x) → m.Contains n → m = n := by
  have hs := reduced_ofList ns
  constructor
  · intro ns' h
    simp only [← @mem_ofList ns] at h
    exact ⟨hs.length_le h, fun hlen => hs.perm_of_length_le h (Nat.le_of_eq hlen.symm)⟩
  · intro n
    simp only [← mem_ofList]
    exact hs.mem_networks_iff_maximal

/-- The network `10.0.0.0/24` in pieces: its upper half, and the halves of its lower half, one of
them twice. -/
def pieces : List Network :=
  [.enclosing (.v4 10 0 0 128) 25 (by decide), .enclosing (.v4 10 0 0 64) 26 (by decide),
    .enclosing (.v4 10 0 0 0) 26 (by decide), .enclosing (.v4 10 0 0 64) 26 (by decide)]

theorem reduce_minimal_pieces :
    (∀ a, (∃ n ∈ pieces, a ∈ n) ↔ ∃ n ∈ [Network.enclosing (.v4 10 0 0 0) 24 (by decide)], a ∈ n) ∧
    (Network.reduce pieces).length = 1 ∧
    [Network.enclosing (.v4 10 0 0 0) 24 (by decide)].Perm (Network.reduce pieces) := by
  have hsame : ofList pieces = ofList [.enclosing (.v4 10 0 0 0) 24 (by decide)] := by
    decide +kernel
  have hlen : (Network.reduce pieces).length = 1 := by decide +kernel
  have hcover : ∀ a, (∃ n ∈ pieces, a ∈ n) ↔
      ∃ n ∈ [Network.enclosing (.v4 10 0 0 0) 24 (by decide)], a ∈ n := by
    intro a
    rw [← mem_ofList, ← mem_ofList, hsame]
  exact ⟨hcover, hlen, ((reduce_minimal pieces).1 _ hcover).2 hlen⟩

end Cidr.NetworkSet
