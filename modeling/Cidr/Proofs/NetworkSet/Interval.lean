import Cidr.NetworkSet.Interval
import Cidr.Proofs.NetworkSet.Canonical
import Cidr.Proofs.Wide
import Mathlib.Data.List.Pairwise

/-!
# Intervals made of networks

An interval of addresses is filled from left to right, each time by the largest
network that begins where the one before ended and stays within the interval.
Two halves of a network never come one after the other, since the whole network
would have been taken in place of the lower half.  So the networks make up a
reduced set just as they are, and nothing happens to them when they are inserted.

## Main definitions

* `Network.Largest` — no network that begins with this one and ends before a
  position is larger.
* `Network.Tiles` — networks that fill an interval of positions, each as large
  as it can be.
* `NetworkSet.filed` — the set of networks that are filed as they are.

## Main results

* `Network.exists_blockAt` — the network at the beginning of an interval exists
  and is the largest one.
* `Network.exists_blocks` — **every interval is filled.**
* `Network.Tiles.not_halves` — no two of the networks are halves of another one.
* `NetworkSet.ofInterval_exact` — **an interval is covered exactly, by the fewest
  networks.**
-/

namespace Cidr

theorem Address.two_pow_dvd_position_iff {a : Address} {k : Nat} (hk : k ≤ a.family.bitWidth) :
    2 ^ k ∣ a.position ↔ 2 ^ k ∣ a.toNat :=
  Nat.dvd_add_right (Nat.dvd_trans (Nat.pow_dvd_pow 2 hk) a.family.pow_bitWidth_dvd_base)

namespace Network

/-! ### The largest network at an address -/

/-- The network ends at the position `e` at the latest, and contains all others that begin with it
and do so. -/
structure Largest (e : Nat) (n : Network) : Prop where
  stop_le : n.stop ≤ e
  contains : ∀ m : Network, m.start = n.start → m.stop ≤ e → n.Contains m

/-- There is no interval without addresses. -/
theorem toNat_span_pos {first last : Address} {s : Wide} (h : span? first last = some s) :
    0 < s.toNat := by
  obtain ⟨d, -, h⟩ := Option.bind_eq_some_iff.1 h
  rw [(Wide.add?_eq_some_iff.1 h).2.2, Wide.toNat_one]
  exact Nat.succ_pos _

theorem exists_span {first last : Address} (hf : first.family = last.family)
    (hle : first.position ≤ last.position) :
    ∃ s, span? first last = some s ∧ s.toNat + first.position = last.position + 1 := by
  have hlast := last.toNat_lt
  rw [Address.position, Address.position, hf] at hle ⊢
  obtain ⟨d, hdf, hdn⟩ := Wide.exists_toNat_eq (f := last.family)
    (n := last.toNat - first.toNat) (by omega)
  -- one more than the difference still fits, by the extra bit
  obtain ⟨s, hs⟩ : ∃ s, Wide.ofNat? last.family (last.toNat - first.toNat + 1) = some s :=
    Wide.exists_ofNat?_eq_some (by omega)
  obtain ⟨hsf, hsn⟩ := Wide.ofNat?_eq_some_iff.1 hs
  refine ⟨s, Option.bind_eq_some_iff.2 ⟨d, Wide.sub?_eq_some_iff.2 ?_, ?_⟩, by omega⟩
  · simp only [Address.family_toWide, Address.toNat_toWide]
    exact ⟨hf.symm, hdf, by omega⟩
  · simp only [Wide.add?_eq_some_iff, Wide.family_one, Wide.toNat_one]
    exact ⟨hdf.trans hf.symm, hsf.trans hdf.symm, by omega⟩

/-- The bound on the host bits says that a network of that size begins at the first address and
stays within the interval. -/
theorem le_hostBits_iff {first last : Address} {s : Wide} (hle : first.position ≤ last.position)
    (hspan : s.toNat + first.position = last.position + 1) {k : Nat} :
    k ≤ min (min first.toWide.trailingZeros first.family.bitWidth) (s.bitLength - 1) ↔
      k ≤ first.family.bitWidth ∧ 2 ^ k ∣ first.position ∧
        first.position + 2 ^ k ≤ last.position + 1 := by
  have hzeros := Wide.le_trailingZeros_iff (x := first.toWide) (k := k)
  have hbits := Wide.bitLength_le_iff (x := s) (k := k)
  have hpos := Wide.bitLength_le_iff (x := s) (k := 0)
  rw [Address.family_toWide, Address.toNat_toWide] at hzeros
  constructor
  · intro hk
    have hw : k ≤ first.family.bitWidth := by omega
    rw [Address.two_pow_dvd_position_iff hw]
    exact ⟨hw, (hzeros.1 (by omega)).2, by omega⟩
  · intro ⟨hw, hdvd, hlen⟩
    rw [Address.two_pow_dvd_position_iff hw] at hdvd
    have htz := hzeros.2 ⟨by omega, hdvd⟩
    omega

/-- **The network at the beginning of an interval is the largest one there.** -/
theorem exists_blockAt {first last : Address} (hf : first.family = last.family)
    (hle : first.position ≤ last.position) :
    ∃ n, blockAt first last = .ok n ∧ n.start = first.position ∧ n.Largest (last.position + 1) := by
  obtain ⟨s, hs, hspan⟩ := exists_span hf hle
  have hiff := fun k => le_hostBits_iff hle hspan (k := k)
  obtain ⟨h, hh⟩ : ∃ h, h = min (min first.toWide.trailingZeros first.family.bitWidth)
      (s.bitLength - 1) := ⟨_, rfl⟩
  rw [← hh] at hiff
  obtain ⟨hw, hdvd, hlen⟩ := (hiff h).1 (Nat.le_refl h)
  obtain ⟨n, hnf, hns, hnb⟩ :=
    exists_start_eq hw hdvd first.base_le_position first.position_lt
  have ha : n.address = first := Address.position_inj hns
  have hbits := n.hostBits_add
  refine ⟨n, ?_, hns, ?_, ?_⟩
  · rw [blockAt, hs]
    change ofAddress first (first.family.bitWidth - min _ _) = _
    rw [← hh, ofAddress_eq_ok_iff]
    refine ⟨ha, ?_⟩
    rw [hnf, hnb] at hbits
    omega
  · rw [stop, hns, hnb]
    exact hlen
  · intro m hm hstop
    have hma : m.address = first := Address.position_inj (hm.trans hns)
    have hmw := m.hostBits_add
    have hle' : m.hostBits ≤ h := by
      refine (hiff _).2 ⟨?_, ?_, ?_⟩
      · rw [family, hma] at hmw
        omega
      · rw [← hns, ← hm]
        exact m.two_pow_dvd_start
      · rw [← hns, ← hm]
        exact hstop
    have hpow := Nat.pow_le_pow_right (n := 2) (by decide) hle'
    rw [contains_iff_interval, stop, stop, hnb]
    omega

theorem largest_of_blockAt {first last : Address} {n : Network} (h : blockAt first last = .ok n)
    (hf : first.family = last.family) (hle : first.position ≤ last.position) :
    n.start = first.position ∧ n.family = last.family ∧ n.Largest (last.position + 1) := by
  obtain ⟨m, hm, hstart, hmax⟩ := exists_blockAt hf hle
  obtain rfl := Except.ok.inj (h.symm.trans hm)
  refine ⟨hstart, ?_, hmax⟩
  rw [← hf, ← (of_blockAt_eq_ok h).1, family]

/-! ### All networks of an interval -/

/-- The networks fill the positions from `p` up to `e`, and each is as large as it can be. -/
structure Tiles (p e : Nat) (ns : List Network) : Prop where
  mem_iff : ∀ a : Address, (∃ n ∈ ns, a ∈ n) ↔ p ≤ a.position ∧ a.position < e
  ascending : ns.Pairwise fun m n => m.stop ≤ n.start
  largest : ∀ n ∈ ns, n.Largest e

theorem Tiles.nil {e : Nat} : Tiles e e [] where
  mem_iff a := iff_of_false (by simp) (by omega)
  ascending := List.Pairwise.nil
  largest := nofun

/-- One network more is put before those that begin where it ends. -/
theorem Tiles.cons {e : Nat} {n : Network} {ns : List Network} (hn : n.Largest e)
    (hns : Tiles n.stop e ns) : Tiles n.start e (n :: ns) where
  mem_iff a := by
    have hle := hn.stop_le
    have hlt := n.start_lt_stop
    rw [List.exists_mem_cons_iff, hns.mem_iff, mem_iff_position]
    omega
  ascending := by
    refine List.pairwise_cons.2 ⟨?_, hns.ascending⟩
    intro m hm
    exact ((hns.mem_iff m.address).1 ⟨m, hm, m.address_mem⟩).1
  largest := List.forall_mem_cons.2 ⟨hn, hns.largest⟩

/-- A network that ends before the last address of an interval has a next address there. -/
theorem exists_lastAddress_succ? {last : Address} {n : Network} (hf : n.family = last.family)
    (hstop : n.stop ≤ last.position + 1) (hne : n.lastAddress ≠ last) :
    ∃ a, n.lastAddress.succ? = some a ∧ a.family = last.family ∧ a.position = n.stop ∧
      n.stop ≤ last.position := by
  have hpos := n.position_lastAddress
  have hne' : n.lastAddress.position ≠ last.position := fun heq => hne (Address.position_inj heq)
  have htop := last.position_lt
  have hbase := n.base_le_start
  have hlt := n.start_lt_stop
  obtain ⟨a, haf, hap⟩ := Address.exists_position_eq (f := n.family) (p := n.stop)
    (by omega) (by rw [hf]; omega)
  exact ⟨a, lastAddress_succ?_eq_some_iff.2 ⟨haf, hap⟩, haf.trans hf, hap, by omega⟩

/-- **Every interval is filled,** by networks that are found one after the other. -/
theorem exists_blocks {first last : Address} (hf : first.family = last.family)
    (hle : first.position ≤ last.position) :
    ∃ ns, blocks first last = .ok ns ∧ Tiles first.position (last.position + 1) ns := by
  fun_induction blocks first last with
  | case1 first e h =>
    obtain ⟨n, hn, -, -⟩ := exists_blockAt hf hle
    rw [h] at hn
    exact absurd hn nofun
  | case2 first n h hlast =>
    obtain ⟨hstart, -, hmax⟩ := largest_of_blockAt h hf hle
    refine ⟨[n], rfl, ?_⟩
    rw [← hstart]
    refine Tiles.cons hmax ?_
    rw [← n.position_lastAddress, hlast]
    exact Tiles.nil
  | case3 first n h hlast hnone =>
    obtain ⟨-, hnf, hmax⟩ := largest_of_blockAt h hf hle
    obtain ⟨a, ha, -⟩ := exists_lastAddress_succ? hnf hmax.stop_le hlast
    rw [hnone] at ha
    exact absurd ha nofun
  | case4 first n h hlast next hnext ih =>
    obtain ⟨hstart, hnf, hmax⟩ := largest_of_blockAt h hf hle
    obtain ⟨a, ha, haf, hap, hstop⟩ := exists_lastAddress_succ? hnf hmax.stop_le hlast
    obtain rfl := Option.some.inj (ha.symm.trans hnext)
    obtain ⟨ns, hns, htiles⟩ := ih haf (by omega)
    rw [hap] at htiles
    refine ⟨n :: ns, ?_, ?_⟩
    · rw [hns]
      rfl
    · rw [← hstart]
      exact htiles.cons hmax

/-- The network that two halves make up. -/
theorem Halves.exists_whole {l u : Network} (h : Halves l u) :
    ∃ n : Network, n.start = l.start ∧ n.stop = u.stop := by
  have hbits := l.hostBits_add
  have hne := h.prefixLength_ne_zero
  have hle := l.stop_le
  have hlt := l.start_lt_stop
  obtain ⟨n, -, hns, hnb⟩ := exists_start_eq (f := l.family) (h := l.hostBits + 1) (by omega)
    h.two_pow_dvd_start l.base_le_start (by omega)
  refine ⟨n, hns, ?_⟩
  rw [stop, stop, hns, hnb, ← h.stop_eq, stop, ← h.hostBits_eq, pow_succ]
  omega

/-- **No two networks of an interval are halves of another one,** which would have been taken. -/
theorem Tiles.not_halves {p e : Nat} {ns : List Network} (h : Tiles p e ns) {l u : Network}
    (hl : l ∈ ns) (hu : u ∈ ns) : ¬ Halves l u := by
  intro hlu
  obtain ⟨n, hns, hne⟩ := hlu.exists_whole
  have hstop := (h.largest u hu).stop_le
  have hcon := contains_iff_interval.1 ((h.largest l hl).contains n hns (by omega))
  have hlt := u.start_lt_stop
  have heq := hlu.stop_eq
  omega

end Network

namespace NetworkSet

/-! ### Networks filed as they are -/

/-- The networks, each filed at its own address. -/
def filed (ns : List Network) : NetworkSet := ⟨ns.map fun n => (n.address, n)⟩

@[simp] theorem networks_filed (ns : List Network) : (filed ns).networks = ns := by
  rw [networks, filed, List.map_map]
  exact List.map_id ns

variable {ns : List Network}

/-- Networks one after the other, no two of them halves of another one, are a reduced set. -/
theorem reduced_filed (hasc : ns.Pairwise fun m n => m.stop ≤ n.start)
    (hhalves : ∀ m ∈ ns, ∀ n ∈ ns, ¬ m.Halves n) : (filed ns).Reduced := by
  refine ⟨⟨?_, ?_⟩, ?_, ?_⟩
  · intro e he
    obtain ⟨n, -, rfl⟩ := List.mem_map.1 he
    rfl
  · refine List.pairwise_map.2 (hasc.imp ?_)
    intro m n hmn
    exact Address.lt_iff_position_lt.2 (Nat.lt_of_lt_of_le m.start_lt_stop hmn)
  · rw [networks_filed]
    have hapart : ns.Pairwise fun m n => ¬ m.Overlaps n := by
      refine hasc.imp ?_
      intro m n hmn
      exact Network.not_overlaps_iff_interval.2 (Or.inl hmn)
    have hsymm : Std.Symm fun m n : Network => ¬ m.Overlaps n := ⟨fun _ _ h h' => h h'.symm⟩
    intro m hm n hn hne
    exact hapart.forall hm hn hne
  · rw [networks_filed]
    intro m hm n hn h
    rcases Network.canMergeWith_iff_halves.1 h with h | h
    · exact hhalves m hm n hn h
    · exact hhalves n hn m hm h

/-- Lists with the same addresses lead to the same set. -/
theorem ofList_congr {ms : List Network} (h : ∀ a, (∃ n ∈ ns, a ∈ n) ↔ ∃ m ∈ ms, a ∈ m) :
    ofList ns = ofList ms := by
  refine (reduced_ofList ns).eq_of_mem_iff (reduced_ofList ms) ?_
  intro a
  rw [mem_ofList, mem_ofList, h]

/-- **Such networks are inserted as they are.** -/
theorem ofList_eq_filed (hasc : ns.Pairwise fun m n => m.stop ≤ n.start)
    (hhalves : ∀ m ∈ ns, ∀ n ∈ ns, ¬ m.Halves n) : ofList ns = filed ns := by
  refine (reduced_ofList ns).eq_of_mem_iff (reduced_filed hasc hhalves) ?_
  intro a
  rw [mem_ofList, mem_iff, networks_filed]

/-- A network that shares no address with the set and is no half beside one of its networks is
placed in a single round, which removes nothing. -/
theorem Reduced.insertRound_eq_place {s : NetworkSet} {n : Network} (hs : s.Reduced)
    (hapart : ∀ m ∈ s.networks, ¬ m.Overlaps n)
    (hhalves : ∀ m ∈ s.networks, ¬ m.Halves n ∧ ¬ n.Halves m) :
    s.insertRound n = .settled (s.place n) := by
  have hcov : ¬ s.Covers n := by
    intro h
    obtain ⟨m, hm, hmn⟩ := hs.covers_iff.1 h
    exact hapart m hm (Or.inl hmn)
  have hkeep : s.eraseBetween n.address n.lastAddress = s := by
    refine congrArg NetworkSet.mk (List.filter_eq_self.2 ?_)
    intro e he
    have hmem : e.2 ∈ s.networks := List.mem_map_of_mem he
    have hin := (hs.mem_eraseBetween_iff hcov (m := e.2)).2
      ⟨hmem, fun h => hapart e.2 hmem (Or.inr h)⟩
    rw [decide_eq_true_iff, hs.keyed e he]
    exact (hs.toFiled.mem_eraseBetween.1 hin).2
  have hsib : s.siblingIn? n = none := by
    rw [Option.eq_none_iff_forall_ne_some]
    intro m hm
    obtain ⟨hsib, hmem⟩ := hs.siblingIn?_eq_some_iff.1 hm
    rcases Network.sibling?_eq_some_iff_halves.1 hsib with h | h
    · exact (hhalves m hmem).2 h
    · exact (hhalves m hmem).1 h
  rw [insertRound, if_neg hcov, hkeep, join, hsib]

/-! ### Sets of intervals -/

theorem mem_interval_iff {first last a : Address} (hf : first.family = last.family) :
    a.family = first.family ∧ first ≤ a ∧ a ≤ last ↔
      first.position ≤ a.position ∧ a.position < last.position + 1 := by
  rw [Address.le_iff_position_le, Address.le_iff_position_le, Nat.lt_succ_iff]
  refine and_iff_right_of_imp ?_
  intro ⟨hfirst, hlast⟩
  -- what lies between two addresses of a family belongs to it
  refine Address.family_eq_of_position (Nat.le_trans first.base_le_position hfirst) ?_
  rw [hf]
  exact Nat.lt_of_le_of_lt hlast last.position_lt

theorem ofInterval_of_blocks {first last : Address} {ns : List Network}
    (hf : first.family = last.family) (hle : first ≤ last)
    (hns : Network.blocks first last = .ok ns) : ofInterval first last = .ok (ofList ns) := by
  have hlt : ¬ last < first := by
    rw [Address.lt_iff_position_lt, Nat.not_lt]
    exact Address.le_iff_position_le.1 hle
  rw [ofInterval, if_neg (not_not.2 hf), if_neg hlt, hns]
  rfl

/-- **The networks of an interval are filed as they come.** -/
theorem exists_ofInterval {first last : Address} (hf : first.family = last.family)
    (hle : first ≤ last) :
    ∃ ns, Network.blocks first last = .ok ns ∧ ofInterval first last = .ok (filed ns) ∧
      Network.Tiles first.position (last.position + 1) ns := by
  obtain ⟨ns, hns, htiles⟩ := Network.exists_blocks hf (Address.le_iff_position_le.1 hle)
  refine ⟨ns, hns, ?_, htiles⟩
  rw [ofInterval_of_blocks hf hle hns,
    ofList_eq_filed htiles.ascending fun m hm n hn => htiles.not_halves hm hn]

/-- Each network of an interval is placed beside those before it in a single round. -/
theorem insertRound_of_tiles {p e : Nat} (htiles : Network.Tiles p e ns) {done : List Network}
    {n : Network} (hpre : done ++ [n] <+: ns) :
    (ofList done).networks = done ∧
      (ofList done).insertRound n = .settled ((ofList done).place n) := by
  have hsub := hpre.sublist
  have hasc := List.pairwise_append.1 (htiles.ascending.sublist hsub)
  have hleft : ∀ m ∈ done, m ∈ ns := fun m hm => hsub.subset (List.mem_append_left _ hm)
  have hn : n ∈ ns := hsub.subset (List.mem_append_right _ (List.mem_singleton_self n))
  have hdone : ofList done = filed done :=
    ofList_eq_filed hasc.1 fun m hm m' hm' => htiles.not_halves (hleft m hm) (hleft m' hm')
  rw [hdone, networks_filed]
  refine ⟨rfl, (hdone ▸ reduced_ofList done).insertRound_eq_place ?_ ?_⟩
  · rw [networks_filed]
    intro m hm
    exact Network.not_overlaps_iff_interval.2
      (Or.inl (hasc.2.2 m hm n (List.mem_singleton_self n)))
  · rw [networks_filed]
    intro m hm
    exact ⟨htiles.not_halves (hleft m hm) hn, htiles.not_halves hn (hleft m hm)⟩

/-- Every list with the addresses of an interval is reduced to the networks of the interval. -/
theorem reduce_of_tiles {p e : Nat} (htiles : Network.Tiles p e ns) {ms : List Network}
    (hms : ∀ a : Address, (∃ m ∈ ms, a ∈ m) ↔ p ≤ a.position ∧ a.position < e) :
    Network.reduce ms = ns := by
  have hset : ofList ms = filed ns := by
    rw [← ofList_eq_filed htiles.ascending fun m hm n hn => htiles.not_halves hm hn]
    refine ofList_congr ?_
    intro a
    rw [hms, htiles.mem_iff]
  rw [Network.reduce, hset, networks_filed]

/-- **Intervals are covered exactly.**  Addresses of two families, and addresses in the wrong
order, are refused.  All others give a set with the addresses of the interval.  Its networks are
those that fill the interval from left to right: each is placed beside those before it in a single
round that removes nothing.  Every list with the addresses of the interval is reduced to them. -/
theorem ofInterval_exact (first last : Address) :
    (first.family ≠ last.family → ofInterval first last = .error .familiesDiffer) ∧
    (first.family = last.family → last < first →
      ofInterval first last = .error (.notNetwork s!"{first} - {last}")) ∧
    (first.family = last.family → first ≤ last →
      ∃ s ns, ofInterval first last = .ok s ∧ Network.blocks first last = .ok ns ∧
        s.networks = ns ∧
        (∀ a, (∃ n ∈ s.networks, a ∈ n) ↔ a.family = first.family ∧ first ≤ a ∧ a ≤ last) ∧
        (∀ done n, done ++ [n] <+: ns → (ofList done).networks = done ∧
          (ofList done).insertRound n = .settled ((ofList done).place n)) ∧
        ∀ ms : List Network,
          (∀ a, (∃ m ∈ ms, a ∈ m) ↔ a.family = first.family ∧ first ≤ a ∧ a ≤ last) →
          Network.reduce ms = s.networks) := by
  refine ⟨fun hf => if_pos hf, ?_, ?_⟩
  · intro hf hlt
    rw [ofInterval, if_neg (not_not.2 hf), if_pos hlt]
  intro hf hle
  obtain ⟨ns, hns, hset, htiles⟩ := exists_ofInterval hf hle
  refine ⟨filed ns, ns, hset, hns, networks_filed ns, ?_, ?_, ?_⟩
  · intro a
    rw [networks_filed, htiles.mem_iff, mem_interval_iff hf]
  · intro done n hpre
    exact insertRound_of_tiles htiles hpre
  · intro ms hms
    rw [networks_filed]
    refine reduce_of_tiles htiles ?_
    intro a
    rw [hms, mem_interval_iff hf]

/-- The addresses from `192.0.2.0` to `192.0.2.130` in four networks, not in order. -/
def fragments : List Network :=
  [.enclosing (.v4 192 0 2 130) 32 (by decide), .enclosing (.v4 192 0 2 64) 26 (by decide),
    .enclosing (.v4 192 0 2 128) 31 (by decide), .enclosing (.v4 192 0 2 0) 26 (by decide)]

theorem ofInterval_exact_fragments :
    ofInterval (.v4 192 0 2 0) (.ones .v6 0) = .error .familiesDiffer ∧
    ofInterval (.v4 192 0 2 130) (.v4 192 0 2 0) =
      .error (.notNetwork "192.0.2.130 - 192.0.2.0") ∧
    ∃ s, ofInterval (.v4 192 0 2 0) (.v4 192 0 2 130) = .ok s ∧ s.networks.length = 3 ∧
      Network.reduce fragments = s.networks := by
  refine ⟨(ofInterval_exact _ _).1 (by decide),
    (ofInterval_exact (.v4 192 0 2 130) (.v4 192 0 2 0)).2.1 rfl (by decide), ?_⟩
  obtain ⟨s, ns, hs, hns, heq, hmem, -, hreduce⟩ :=
    (ofInterval_exact (.v4 192 0 2 0) (.v4 192 0 2 130)).2.2 rfl (by decide)
  have hset : ofInterval (.v4 192 0 2 0) (.v4 192 0 2 130) = .ok (ofList fragments) := by
    decide +kernel
  have hfrag : ofList fragments = s := Except.ok.inj (hset.symm.trans hs)
  refine ⟨s, hs, ?_, hreduce fragments ?_⟩
  · rw [← hfrag]
    decide +kernel
  · intro a
    rw [← mem_ofList, hfrag]
    exact hmem a

end NetworkSet

end Cidr
