import Cidr.NetworkSet.History
import Cidr.Proofs.Network.Bounds
import Cidr.Proofs.NetworkSet.Interval

/-!
# How much work sets of networks take

An insertion goes through rounds.  Each round but the last one shortens the prefix of
the network by one bit and takes a network out of the set, and only the last one puts
a network in.

The networks that fill an interval are of two kinds.  A network of the first kind does
not begin at a multiple of twice its length; it then ends at one, so the next network
is larger if there is room for it.  A network of the second kind does begin at such a
multiple and is held back by the end of the interval only, so what is left after it is
shorter than itself.  Hence the networks of the first kind come first and get larger,
and those of the second kind follow and get smaller.  Where there are both kinds, none
of them reaches half of all addresses, since a network of this length begins or ends
with its family.

## Main definitions

* `NetworkSet.InsertionTakes` — the rounds of an insertion, counted.
* `RiseAndFall` — numbers that rise up to some point, and fall from there on.

## Main results

* `NetworkSet.insertionTakes_insert`, `NetworkSet.size_insert_le` — the rounds of an
  insertion, and what it adds.
* `Network.Largest.stop_lt` — **a network that could be larger where it begins is
  followed by less than itself.**
* `Network.Tiles.exists_rise_fall`, `Network.Tiles.length_le` — the sizes and the
  number of the networks of an interval.
* `NetworkSet.work_bounded` — **insertions and intervals take little work.**
-/

namespace Cidr

/-! ### Insertion -/

namespace NetworkSet

/-- The insertion of a network into a set takes a number of rounds and ends in a set. -/
inductive InsertionTakes : Nat → NetworkSet → Network → NetworkSet → Prop where
  /-- The only round completes the insertion. -/
  | settled {s t : NetworkSet} {n : Network} (h : s.insertRound n = .settled t) :
    InsertionTakes 1 s n t
  /-- After a first round a larger network is still to be inserted. -/
  | again {rounds : Nat} {s t u : NetworkSet} {m n : Network} (h : s.insertRound n = .again t m)
    (rest : InsertionTakes rounds t m u) : InsertionTakes (rounds + 1) s n u

variable {s t : NetworkSet} {m n : Network}

/-- **Each round but the last one uses up a bit of the prefix.** -/
theorem insertionTakes_insert (s : NetworkSet) (n : Network) :
    ∃ rounds, InsertionTakes rounds s n (s.insert n) ∧ rounds ≤ n.prefixLength + 1 := by
  fun_induction insert s n with
  | case1 s n t h => exact ⟨1, .settled h, by omega⟩
  | case2 s n t m h ih =>
    obtain ⟨rounds, hrest, hle⟩ := ih
    have hk := prefixLength_lt_of_insertRound h
    exact ⟨rounds + 1, .again h hrest, by omega⟩

/-- Only the round that completes an insertion adds a network, and not more than one. -/
def Round.Grows (s : NetworkSet) : Round → Prop
  | .settled t => t.size ≤ s.size + 1
  | .again t _ => t.size ≤ s.size

theorem length_placeIn_le (a : Address) (n : Network) (es : List (Address × Network)) :
    (placeIn a n es).length ≤ es.length + 1 := by
  induction es with
  | nil => exact Nat.le_refl _
  | cons e es ih =>
    rw [placeIn]
    cases compare a e.1 with
    | lt => exact Nat.le_refl _
    | eq => exact Nat.le_succ _
    | gt => exact Nat.succ_le_succ ih

theorem size_place_le (s : NetworkSet) (n : Network) : (s.place n).size ≤ s.size + 1 :=
  length_placeIn_le _ _ _

theorem size_erase_le (s : NetworkSet) (a : Address) : (s.erase a).size ≤ s.size :=
  List.length_filter_le _ _

theorem size_eraseBetween_le (s : NetworkSet) (first last : Address) :
    (s.eraseBetween first last).size ≤ s.size :=
  List.length_filter_le _ _

theorem grows_join (s : NetworkSet) (n : Network) : (s.join n).Grows s := by
  unfold join
  split
  · exact s.size_place_le n
  · next half _ =>
    have herase := s.size_erase_le half.address
    split
    · exact Nat.le_trans (size_place_le _ n) (Nat.succ_le_succ herase)
    · exact herase

theorem grows_insertRound (s : NetworkSet) (n : Network) : (s.insertRound n).Grows s := by
  unfold insertRound
  split
  · exact Nat.le_succ _
  · have herase := s.size_eraseBetween_le n.address n.lastAddress
    have hjoin := (s.eraseBetween n.address n.lastAddress).grows_join n
    cases hround : (s.eraseBetween n.address n.lastAddress).join n with
    | settled t =>
      rw [hround] at hjoin
      exact Nat.le_trans hjoin (Nat.succ_le_succ herase)
    | again t m =>
      rw [hround] at hjoin
      exact Nat.le_trans hjoin herase

/-- **An insertion adds one network at most.** -/
theorem size_insert_le (s : NetworkSet) (n : Network) : (s.insert n).size ≤ s.size + 1 := by
  fun_induction insert s n with
  | case1 s n t h =>
    have hgrows := s.grows_insertRound n
    rw [h] at hgrows
    exact hgrows
  | case2 s n t m h ih =>
    have hgrows := s.grows_insertRound n
    rw [h] at hgrows
    exact Nat.le_trans ih (Nat.succ_le_succ hgrows)

end NetworkSet

/-! ### Rising and falling -/

/-- The numbers rise up to some point, and fall from there on; at this point there may be two that
are the same. -/
def RiseAndFall (xs : List Nat) : Prop :=
  ∃ rising falling, xs = rising ++ falling ∧ rising.Pairwise (· < ·) ∧ falling.Pairwise (· > ·)

namespace RiseAndFall

variable {xs : List Nat}

/-- Each number occurs once on the way up and once on the way down. -/
theorem count_le_two (h : RiseAndFall xs) (x : Nat) : xs.count x ≤ 2 := by
  obtain ⟨rising, falling, rfl, hr, hf⟩ := h
  have hup := List.nodup_iff_count_le_one.1 (hr.imp Nat.ne_of_lt) x
  have hdown := List.nodup_iff_count_le_one.1 (hf.imp Nat.ne_of_gt) x
  rw [List.count_append]
  omega

/-- A function that keeps the order keeps the shape. -/
theorem map (h : RiseAndFall xs) {f : Nat → Nat} (hf : ∀ {x y}, x < y → f x < f y) :
    RiseAndFall (xs.map f) := by
  obtain ⟨rising, falling, rfl, hr, hd⟩ := h
  exact ⟨_, _, List.map_append, hr.map f fun _ _ => hf, hd.map f fun _ _ => hf⟩

end RiseAndFall

/-! ### The networks of an interval -/

namespace Network

variable {f : Family} {n : Network} {ns : List Network} {e k p : Nat}

/-- The positions from `p` up to `e` are those of addresses of a family. -/
structure Within (f : Family) (p e : Nat) : Prop where
  base_le : f.base ≤ p
  le_top : e ≤ f.base + 2 ^ f.bitWidth

theorem Within.family_eq (hw : Within f p e) (hp : p ≤ n.start) (he : n.stop ≤ e) :
    n.family = f :=
  Address.family_eq_of_position (Nat.le_trans hw.base_le hp)
    (Nat.lt_of_lt_of_le n.start_lt_stop (Nat.le_trans he hw.le_top))

/-- The networks of an interval are the one at its beginning, and those of the rest. -/
theorem Tiles.of_cons (h : Tiles p e (n :: ns)) (hw : Within f p e) :
    n.start = p ∧ n.Largest e ∧ Tiles n.stop e ns := by
  obtain ⟨hafter, hasc⟩ := List.pairwise_cons.1 h.ascending
  have hn := h.largest n List.mem_cons_self
  have hlt := n.start_lt_stop
  have hle := hn.stop_le
  have hp : p ≤ n.start := ((h.mem_iff n.address).1 ⟨n, List.mem_cons_self, n.address_mem⟩).1
  have htop := hw.le_top
  -- the network with the first address can only be the first one
  have hinside : p < f.base + 2 ^ f.bitWidth := by omega
  obtain ⟨a, -, ha⟩ := Address.exists_position_eq hw.base_le hinside
  obtain ⟨m, hm, hmem⟩ := (h.mem_iff a).2 (by omega)
  rw [mem_iff_position] at hmem
  have hstart : n.start = p := by
    rcases List.mem_cons.1 hm with rfl | hm'
    · omega
    · have := hafter m hm'
      omega
  refine ⟨hstart, hn, ?_, hasc, fun m hm => h.largest m (List.mem_cons_of_mem n hm)⟩
  intro a
  have hmem := h.mem_iff a
  rw [List.exists_mem_cons_iff, mem_iff_position] at hmem
  constructor
  · rintro ⟨m, hm, ha⟩
    have hpos := hmem.1 (Or.inr ⟨m, hm, ha⟩)
    have := hafter m hm
    rw [mem_iff_position] at ha
    omega
  · intro ha
    exact (hmem.2 (by omega)).resolve_left (by omega)

/-- A network that begins at an odd multiple of its length ends at an even one. -/
theorem two_pow_dvd_stop (h : ¬ 2 ^ (n.hostBits + 1) ∣ n.start) :
    2 ^ (n.hostBits + 1) ∣ n.stop := by
  have hstart := n.start_eq_round_or.resolve_left fun heq => h ⟨_, heq.trans (Nat.mul_comm _ _)⟩
  have hdouble : 2 ^ (n.hostBits + 1) = 2 ^ n.hostBits + 2 ^ n.hostBits := by
    rw [pow_succ]
    omega
  rw [stop, hstart, Nat.add_assoc, ← hdouble]
  exact Nat.dvd_add (Nat.dvd_mul_left _ _) (Nat.dvd_refl _)

/-- **A network that could be larger where it begins is followed by less than itself,** since it is
as large as it can be. -/
theorem Largest.stop_lt (h : n.Largest e) (htop : e ≤ n.family.base + 2 ^ n.family.bitWidth)
    (hdvd : 2 ^ (n.hostBits + 1) ∣ n.start) : e < n.stop + 2 ^ n.hostBits := by
  by_contra hlt
  have hbase := n.base_le_start
  have hlen : n.start + 2 ^ (n.hostBits + 1) ≤ e := by
    rw [stop] at hlt
    rw [pow_succ]
    omega
  have hpos := Nat.two_pow_pos (n.hostBits + 1)
  have hbits : n.hostBits + 1 ≤ n.family.bitWidth := by
    have hle : 2 ^ (n.hostBits + 1) ≤ 2 ^ n.family.bitWidth := by omega
    exact (Nat.pow_le_pow_iff_right (by decide)).1 hle
  obtain ⟨m, -, hstart, hm⟩ := exists_start_eq hbits hdvd hbase (by omega)
  have hstop : m.stop = n.start + 2 ^ (n.hostBits + 1) := by rw [stop, hstart, hm]
  have hcon := contains_iff_interval.1 (h.contains m hstart (by omega))
  have hpow := Nat.two_pow_pos n.hostBits
  rw [hstop, stop, pow_succ] at hcon
  omega

/-- **Networks get smaller** from where one of them could begin that reaches past the end. -/
theorem Tiles.fall (h : Tiles p e ns) (hw : Within f p e) (hdvd : 2 ^ k ∣ p) (he : e < p + 2 ^ k) :
    (ns.map hostBits).Pairwise (· > ·) ∧
      ∀ n ∈ ns, n.hostBits < k ∧ 2 ^ (n.hostBits + 1) ∣ n.start := by
  induction ns generalizing p k with
  | nil => exact ⟨List.Pairwise.nil, by simp⟩
  | cons n ns ih =>
    obtain ⟨rfl, hn, hns⟩ := h.of_cons hw
    have hf : n.family = f := hw.family_eq (Nat.le_refl _) hn.stop_le
    have hlt := n.start_lt_stop
    have hk : n.hostBits < k := by
      have hle := hn.stop_le
      rw [stop] at hle
      have hpow : 2 ^ n.hostBits < 2 ^ k := by omega
      exact (Nat.pow_lt_pow_iff_right (by decide)).1 hpow
    have hdouble : 2 ^ (n.hostBits + 1) ∣ n.start := Nat.dvd_trans (Nat.pow_dvd_pow 2 hk) hdvd
    have hstop : 2 ^ n.hostBits ∣ n.stop := Nat.dvd_add n.two_pow_dvd_start (Nat.dvd_refl _)
    obtain ⟨hfall, hbits⟩ := ih hns ⟨Nat.le_trans hw.base_le hlt.le, hw.le_top⟩ hstop
      (hn.stop_lt (hf ▸ hw.le_top) hdouble)
    refine ⟨?_, List.forall_mem_cons.2 ⟨⟨hk, hdouble⟩, ?_⟩⟩
    · rw [List.map_cons, List.pairwise_cons, List.forall_mem_map]
      exact ⟨fun m hm => (hbits m hm).1, hfall⟩
    · intro m hm
      exact ⟨Nat.lt_trans (hbits m hm).1 hk, (hbits m hm).2⟩

/-- **Networks get larger up to some point, and smaller from there on.**  They get larger as long as
none begins at a multiple of twice its length. -/
theorem Tiles.exists_rise_fall (h : Tiles p e ns) (hw : Within f p e) (hdvd : 2 ^ k ∣ p) :
    ∃ rising falling, ns = rising ++ falling ∧ (rising.map hostBits).Pairwise (· < ·) ∧
      (falling.map hostBits).Pairwise (· > ·) ∧
      (∀ n ∈ rising, k ≤ n.hostBits ∧ ¬ 2 ^ (n.hostBits + 1) ∣ n.start) ∧
      ∀ n ∈ falling, 2 ^ (n.hostBits + 1) ∣ n.start := by
  induction ns generalizing p k with
  | nil => exact ⟨[], [], rfl, List.Pairwise.nil, List.Pairwise.nil, by simp, by simp⟩
  | cons n ns ih =>
    obtain ⟨rfl, hn, hns⟩ := h.of_cons hw
    have hf : n.family = f := hw.family_eq (Nat.le_refl _) hn.stop_le
    have hlt := n.start_lt_stop
    by_cases hdouble : 2 ^ (n.hostBits + 1) ∣ n.start
    · have hend := hn.stop_lt (hf ▸ hw.le_top) hdouble
      obtain ⟨hfall, hbits⟩ := h.fall hw hdouble (by rw [pow_succ]; rw [stop] at hend; omega)
      exact ⟨[], n :: ns, rfl, List.Pairwise.nil, hfall, by simp, fun m hm => (hbits m hm).2⟩
    · have hk : k ≤ n.hostBits := by
        by_contra hk
        exact hdouble (Nat.dvd_trans (Nat.pow_dvd_pow 2 (by omega)) hdvd)
      obtain ⟨rising, falling, rfl, hrise, hfall, hup, hdown⟩ :=
        ih hns ⟨Nat.le_trans hw.base_le hlt.le, hw.le_top⟩ (two_pow_dvd_stop hdouble)
      refine ⟨n :: rising, falling, rfl, ?_, hfall,
        List.forall_mem_cons.2 ⟨⟨hk, hdouble⟩, ?_⟩, hdown⟩
      · rw [List.map_cons, List.pairwise_cons, List.forall_mem_map]
        exact ⟨fun m hm => (hup m hm).1, hrise⟩
      · intro m hm
        exact ⟨Nat.le_trans hk (Nat.le_of_succ_le (hup m hm).1), (hup m hm).2⟩

/-- Inside the part of a family, no position is a multiple of the length of the part. -/
theorem lt_bitWidth_of_dvd {h q : Nat} (hh : h ≤ f.bitWidth) (hdvd : 2 ^ h ∣ q) (hbase : f.base < q)
    (htop : q < f.base + 2 ^ f.bitWidth) : h < f.bitWidth := by
  refine Nat.lt_of_le_of_ne hh ?_
  rintro rfl
  have hle := Nat.le_of_dvd (Nat.sub_pos_of_lt hbase) (Nat.dvd_sub hdvd f.pow_bitWidth_dvd_base)
  omega

/-- A multiple of twice the length of a network, inside the part of a family, leaves room for two of
that length on either side. -/
theorem succ_lt_bitWidth_of_dvd {h q : Nat} (hh : h ≤ f.bitWidth) (hdvd : 2 ^ (h + 1) ∣ q)
    (hbase : f.base < q) (htop : q < f.base + 2 ^ f.bitWidth) : h + 1 < f.bitWidth :=
  lt_bitWidth_of_dvd
    (lt_bitWidth_of_dvd hh (Nat.dvd_trans (Nat.pow_dvd_pow 2 (Nat.le_succ h)) hdvd) hbase htop)
    hdvd hbase htop

/-- Networks of different sizes are no more than there are sizes. -/
theorem length_le_of_hostBits_lt {ms : List Network} (h : (ms.map hostBits).Nodup)
    (hlt : ∀ n ∈ ms, n.hostBits < k) : ms.length ≤ k := by
  have hsub : ms.map hostBits ⊆ List.range k := by
    intro x hx
    obtain ⟨n, hn, rfl⟩ := List.mem_map.1 hx
    exact List.mem_range.2 (hlt n hn)
  have hle := (List.subperm_of_subset h hsub).length_le
  rwa [List.length_map, List.length_range] at hle

/-- The networks of an interval are in the part of its family. -/
theorem Tiles.within (h : Tiles p e ns) (hw : Within f p e) (hn : n ∈ ns) :
    Within f n.start n.stop ∧ n.hostBits ≤ f.bitWidth := by
  have hp := ((h.mem_iff n.address).1 ⟨n, hn, n.address_mem⟩).1
  have he := (h.largest n hn).stop_le
  have hadd := n.hostBits_add
  rw [hw.family_eq hp he] at hadd
  exact ⟨⟨Nat.le_trans hw.base_le hp, Nat.le_trans he hw.le_top⟩, by omega⟩

/-- Where networks of the first kind are followed by networks of the second kind, none of them
reaches half of all addresses: the former end, and the latter begin, inside the part of the
family. -/
theorem Tiles.succ_hostBits_lt {ms : List Network} (h : Tiles p e (ms ++ ns)) (hw : Within f p e)
    (hup : ∀ m ∈ ms, ¬ 2 ^ (m.hostBits + 1) ∣ m.start)
    (hdown : ∀ n ∈ ns, 2 ^ (n.hostBits + 1) ∣ n.start) {m n : Network} (hm : m ∈ ms)
    (hn : n ∈ ns) : m.hostBits + 1 < f.bitWidth ∧ n.hostBits + 1 < f.bitWidth := by
  have hapart : m.stop ≤ n.start := (List.pairwise_append.1 h.ascending).2.2 m hm n hn
  obtain ⟨hmw, hmbits⟩ := h.within hw (List.mem_append_left ns hm)
  obtain ⟨hnw, hnbits⟩ := h.within hw (List.mem_append_right ms hn)
  have hbase := hmw.base_le
  have htop := hnw.le_top
  have hmlt := m.start_lt_stop
  have hnlt := n.start_lt_stop
  exact ⟨succ_lt_bitWidth_of_dvd hmbits (two_pow_dvd_stop (hup m hm)) (by omega) (by omega),
    succ_lt_bitWidth_of_dvd hnbits (hdown n hn) (by omega) (by omega)⟩

/-- **The networks of an interval are fewer than two for each bit of an address.**  If all of them
are of one kind, there is one of each size at most.  If there are both kinds, then there is at
most one of each kind for every size but the two largest. -/
theorem Tiles.length_le (h : Tiles p e ns) (hw : Within f p e) :
    ns.length ≤ 2 * f.bitWidth - 2 := by
  have hwidth : 32 ≤ f.bitWidth := by cases f <;> decide
  have hsizes : ∀ n ∈ ns, n.hostBits < f.bitWidth + 1 :=
    fun n hn => Nat.lt_succ_of_le (h.within hw hn).2
  obtain ⟨rising, falling, rfl, hrise, hfall, hup, hdown⟩ :=
    h.exists_rise_fall hw (k := 0) (Nat.one_dvd p)
  have hrisen : (rising.map hostBits).Nodup := hrise.imp Nat.ne_of_lt
  have hfallen : (falling.map hostBits).Nodup := hfall.imp Nat.ne_of_gt
  cases hr : rising with
  | nil =>
    rw [hr, List.nil_append] at hsizes
    have hle := length_le_of_hostBits_lt hfallen hsizes
    rw [List.nil_append]
    omega
  | cons r _ =>
    cases hd : falling with
    | nil =>
      rw [hd, List.append_nil] at hsizes
      have hle := length_le_of_hostBits_lt hrisen hsizes
      rw [← hr, List.append_nil]
      omega
    | cons d _ =>
      have hbits {m n : Network} (hm : m ∈ rising) (hn : n ∈ falling) :=
        h.succ_hostBits_lt hw (fun m hm => (hup m hm).2) hdown hm hn
      have hrle := length_le_of_hostBits_lt (k := f.bitWidth - 1) hrisen fun m hm =>
        Nat.lt_sub_of_add_lt (hbits hm (hd ▸ List.mem_cons_self)).1
      have hdle := length_le_of_hostBits_lt (k := f.bitWidth - 1) hfallen fun n hn =>
        Nat.lt_sub_of_add_lt (hbits (hr ▸ List.mem_cons_self) hn).2
      rw [← hr, ← hd, List.length_append]
      omega

/-- **The sizes of the networks of an interval rise and then fall.** -/
theorem Tiles.riseAndFall (h : Tiles p e ns) (hw : Within f p e) :
    RiseAndFall (ns.map fun n => n.size.toNat) := by
  obtain ⟨rising, falling, rfl, hrise, hfall, -⟩ :=
    h.exists_rise_fall hw (k := 0) (Nat.one_dvd p)
  have hbits : RiseAndFall ((rising ++ falling).map hostBits) :=
    ⟨_, _, List.map_append, hrise, hfall⟩
  have hsizes := hbits.map (f := (2 ^ ·)) fun hlt => Nat.pow_lt_pow_right (by decide) hlt
  rw [List.map_map] at hsizes
  simp only [toNat_size]
  exact hsizes

end Network

namespace NetworkSet

/-- **Insertions and intervals take little work.**  An insertion goes through one round for each bit
of the prefix at most, and one more, and adds one network at most.  An interval is filled with fewer
than two networks for each bit of an address.  Their sizes rise and then fall, and there are no more
than two of the largest size. -/
theorem work_bounded :
    (∀ (s : NetworkSet) (n : Network),
      (∃ rounds, InsertionTakes rounds s n (s.insert n) ∧ rounds ≤ n.prefixLength + 1) ∧
      (s.insert n).size ≤ s.size + 1) ∧
    ∀ first last : Address, first.family = last.family → first ≤ last →
      ∃ s ns, ofInterval first last = .ok s ∧ Network.blocks first last = .ok ns ∧
        s.networks = ns ∧ ns.length ≤ 2 * first.family.bitWidth - 2 ∧
        RiseAndFall (ns.map fun n => n.size.toNat) ∧
        ∀ n ∈ ns, (∀ m ∈ ns, m.size.toNat ≤ n.size.toNat) →
          (ns.map fun n => n.size.toNat).count n.size.toNat ≤ 2 := by
  refine ⟨fun s n => ⟨insertionTakes_insert s n, size_insert_le s n⟩, ?_⟩
  intro first last hf hle
  obtain ⟨ns, hns, hset, htiles⟩ := exists_ofInterval hf hle
  have hw : Network.Within first.family first.position (last.position + 1) :=
    ⟨first.base_le_position, hf ▸ last.position_lt⟩
  have hshape := htiles.riseAndFall hw
  exact ⟨filed ns, ns, hset, hns, networks_filed ns, htiles.length_le hw, hshape,
    fun n _ _ => hshape.count_le_two _⟩

/-- From the second address of IPv4 to the last but one there are as many networks as there can
be. -/
theorem work_bounded_of_most : ∃ s ns,
    ofInterval (.v4 0 0 0 1) (.v4 255 255 255 254) = .ok s ∧ s.networks = ns ∧ ns.length = 62 ∧
      RiseAndFall (ns.map fun n => n.size.toNat) := by
  obtain ⟨s, ns, hs, hns, heq, -, hshape, -⟩ :=
    work_bounded.2 (.v4 0 0 0 1) (.v4 255 255 255 254) rfl (by decide)
  have hblocks : (Network.blocks (.v4 0 0 0 1) (.v4 255 255 255 254)).toOption.map List.length =
      some 62 := by
    decide +kernel
  rw [hns] at hblocks
  exact ⟨s, ns, hs, heq, Option.some.inj hblocks, hshape⟩

end NetworkSet

end Cidr
