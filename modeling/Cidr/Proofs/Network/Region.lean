import Cidr.Network.Relation
import Cidr.Proofs.Address

/-!
# Networks as intervals

The addresses of a network are those between its first and its last position in
the line of all addresses.  The interval begins at a multiple of its own length,
a power of two, and two such intervals are nested or share no position.

## Main definitions

* `Network.start`, `Network.stop` — the first position of a network, and the
  first one after it.

## Main results

* `Network.mem_iff_position` — **a network is an interval of positions.**
* `Network.position_lastAddress` — the last address has the last position.
* `Network.contains_iff_forall_mem` — **inclusion is inclusion of addresses.**
* `Network.contains_or_contains` — **networks that share an address are nested.**
-/

namespace Cidr.Network

/-! ### Intervals -/

/-- The position of the first address. -/
def start (n : Network) : Nat := n.address.position

/-- The position after that of the last address. -/
def stop (n : Network) : Nat := n.start + 2 ^ n.hostBits

theorem hostBits_add (n : Network) : n.hostBits + n.prefixLength = n.family.bitWidth :=
  Nat.sub_add_cancel n.prefixLength_le

theorem start_lt_stop (n : Network) : n.start < n.stop :=
  Nat.lt_add_of_pos_right (Nat.two_pow_pos _)

theorem start_eq_round (n : Network) : n.start = n.start / 2 ^ n.hostBits * 2 ^ n.hostBits := by
  have h := n.address.position_truncate n.prefixLength_le
  rw [n.truncate_address] at h
  exact h

/-- A network begins at a multiple of its own length. -/
theorem two_pow_dvd_start (n : Network) : 2 ^ n.hostBits ∣ n.start :=
  ⟨_, n.start_eq_round.trans (Nat.mul_comm _ _)⟩

theorem two_pow_dvd_base (n : Network) : 2 ^ n.hostBits ∣ n.family.base :=
  Nat.dvd_trans (Nat.pow_dvd_pow 2 (Nat.sub_le _ _)) n.family.pow_bitWidth_dvd_base

theorem base_le_start (n : Network) : n.family.base ≤ n.start := n.address.base_le_position

/-- A network stays within the part of its family. -/
theorem stop_le (n : Network) : n.stop ≤ n.family.base + 2 ^ n.family.bitWidth := by
  have hlt : n.start < n.family.base + 2 ^ n.family.bitWidth := n.address.position_lt
  have hend : 2 ^ n.hostBits ∣ n.family.base + 2 ^ n.family.bitWidth :=
    Nat.dvd_add n.two_pow_dvd_base (Nat.pow_dvd_pow 2 (Nat.sub_le _ _))
  refine Nat.le_of_lt_add_of_dvd (n := 2 ^ n.hostBits) ?_ ?_ hend
  · exact Nat.add_lt_add_right hlt _
  · exact Nat.dvd_add n.two_pow_dvd_start (Nat.dvd_refl _)

/-- **A network is an interval of positions.** -/
theorem mem_iff_position {a : Address} {n : Network} :
    a ∈ n ↔ n.start ≤ a.position ∧ a.position < n.stop := by
  constructor
  · intro h
    have hk : n.prefixLength ≤ a.family.bitWidth := by
      rw [family_eq_of_mem h]
      exact n.prefixLength_le
    have hround := a.position_truncate hk
    rw [mem_iff.1 h, family_eq_of_mem h] at hround
    change n.start = a.position / 2 ^ n.hostBits * 2 ^ n.hostBits at hround
    -- what rounding takes away is less than the length of the network
    have hmod := Nat.div_add_mod' a.position (2 ^ n.hostBits)
    rw [stop]
    omega
  · rintro ⟨hstart, hstop⟩
    have hf : a.family = n.family :=
      Address.family_eq_of_position (Nat.le_trans n.base_le_start hstart)
        (Nat.lt_of_lt_of_le hstop n.stop_le)
    have hk : n.prefixLength ≤ a.family.bitWidth := by
      rw [hf]
      exact n.prefixLength_le
    obtain ⟨q, hq⟩ := n.two_pow_dvd_start
    -- all positions of the interval have the same quotient
    have hdiv : a.position / 2 ^ n.hostBits = q := by
      rw [stop, hq] at hstop
      rw [hq] at hstart
      exact Nat.div_eq_of_lt_le (by rw [Nat.mul_comm]; exact hstart)
        (by rw [Nat.add_mul, Nat.one_mul, Nat.mul_comm q]; exact hstop)
    refine mem_iff.2 (Address.position_inj ?_)
    rw [a.position_truncate hk, hf]
    change a.position / 2 ^ n.hostBits * 2 ^ n.hostBits = n.start
    rw [hdiv, hq, Nat.mul_comm]

/-- Every position in the interval is that of an address of the network. -/
theorem exists_mem_position_eq {n : Network} {p : Nat} (h : n.start ≤ p) (h' : p < n.stop) :
    ∃ a ∈ n, a.position = p := by
  obtain ⟨a, -, ha⟩ := Address.exists_position_eq (Nat.le_trans n.base_le_start h)
    (Nat.lt_of_lt_of_le h' n.stop_le)
  exact ⟨a, mem_iff_position.2 (by rw [ha]; exact ⟨h, h'⟩), ha⟩

/-- The interval determines the network. -/
theorem ext_interval {m n : Network} (h : m.start = n.start) (h' : m.stop = n.stop) : m = n := by
  have ha : m.address = n.address := Address.position_inj h
  have hbits : m.hostBits = n.hostBits := by
    rw [stop, stop, h] at h'
    exact Nat.pow_right_injective (Nat.le_refl 2) (Nat.add_left_cancel h')
  refine ext ha ?_
  have hm := m.hostBits_add
  have hn := n.hostBits_add
  rw [family, ha] at hm
  rw [family] at hn
  omega

/-- Every aligned interval in the part of a family is that of a network. -/
theorem exists_start_eq {f : Family} {p h : Nat} (hh : h ≤ f.bitWidth) (hdvd : 2 ^ h ∣ p)
    (hbase : f.base ≤ p) (htop : p < f.base + 2 ^ f.bitWidth) :
    ∃ n : Network, n.family = f ∧ n.start = p ∧ n.hostBits = h := by
  obtain ⟨a, rfl, rfl⟩ := Address.exists_position_eq hbase htop
  have hk : a.family.bitWidth - h ≤ a.family.bitWidth := Nat.sub_le _ _
  have hbits : a.family.bitWidth - (a.family.bitWidth - h) = h := by omega
  refine ⟨enclosing a _ hk, rfl, ?_, hbits⟩
  change (a.truncate _).position = a.position
  rw [a.position_truncate hk, hbits, Nat.div_mul_cancel hdvd]

/-! ### The last address -/

theorem toNat_hostMask (n : Network) : n.hostMask.toNat + 1 = 2 ^ n.hostBits := by
  have hw : 8 * n.family.octetCount = n.family.bitWidth := n.family.bitWidth_eq.symm
  have hmask := Octets.toNat_complement_add n.netmask.octets
  have hk : n.prefixLength ≤ 8 * n.family.octetCount := by
    rw [hw]
    exact n.prefixLength_le
  have hones := Octets.toNat_ones hk
  rw [n.netmask.length_octets] at hmask
  change Octets.toNat (Octets.complement _) + Octets.toNat (Octets.ones _ _) + 1 =
    2 ^ (8 * n.family.octetCount) at hmask
  change Octets.toNat (Octets.complement _) + 1 = _
  rw [hw] at hones hmask
  change _ + 2 ^ n.hostBits = _ at hones
  omega

/-- **The last address has the last position of the interval.** -/
theorem position_lastAddress (n : Network) : n.lastAddress.position + 1 = n.stop := by
  have hmask := n.toNat_hostMask
  have hdvd : 2 ^ n.hostBits ∣ n.address.toNat :=
    (Nat.dvd_add_right n.two_pow_dvd_base).1 n.two_pow_dvd_start
  obtain ⟨q, hq⟩ := hdvd
  -- the host bits of the first address are zero, so setting them adds
  have hlast : n.lastAddress.toNat = n.address.toNat + n.hostMask.toNat := by
    have hor : n.lastAddress.toNat = n.address.toNat ||| n.hostMask.toNat :=
      Octets.toNat_zipWith_or (by
        rw [n.address.length_octets, n.hostMask.length_octets]
        rfl)
    rw [hor, hq, Nat.two_pow_add_eq_or_of_lt (by omega)]
  change n.family.base + n.lastAddress.toNat + 1 = n.family.base + n.address.toNat + 2 ^ n.hostBits
  omega

theorem lastAddress_mem (n : Network) : n.lastAddress ∈ n := by
  have hlast := n.position_lastAddress
  have hlt := n.start_lt_stop
  rw [mem_iff_position]
  omega

/-! ### Inclusion -/

/-- A network with more host bits takes up every network it shares a position with. -/
theorem nested_of_hostBits_le {m n : Network} (hbits : n.hostBits ≤ m.hostBits)
    (h : m.start < n.stop) (h' : n.start < m.stop) : m.start ≤ n.start ∧ n.stop ≤ m.stop := by
  have hdvd : 2 ^ n.hostBits ∣ 2 ^ m.hostBits := Nat.pow_dvd_pow 2 hbits
  have hm : 2 ^ n.hostBits ∣ m.start := Nat.dvd_trans hdvd m.two_pow_dvd_start
  constructor
  · exact Nat.le_of_lt_add_of_dvd h hm n.two_pow_dvd_start
  · refine Nat.le_of_lt_add_of_dvd (n := 2 ^ n.hostBits) (Nat.add_lt_add_right h' _) ?_ ?_
    · exact Nat.dvd_add n.two_pow_dvd_start (Nat.dvd_refl _)
    · exact Nat.dvd_add hm hdvd

theorem contains_iff_interval {m n : Network} :
    m.Contains n ↔ m.start ≤ n.start ∧ n.stop ≤ m.stop := by
  have hlt := n.start_lt_stop
  have hm := m.hostBits_add
  have hn := n.hostBits_add
  constructor
  · rintro ⟨hk, hmem⟩
    have hf : n.family = m.family := family_eq_of_mem hmem
    rw [mem_iff_position] at hmem
    change m.start ≤ n.start ∧ n.start < m.stop at hmem
    exact nested_of_hostBits_le (by rw [hf] at hn; omega) (by omega) hmem.2
  · rintro ⟨hstart, hstop⟩
    have hmem : n.address ∈ m := mem_iff_position.2 ⟨hstart, Nat.lt_of_lt_of_le hlt hstop⟩
    have hf : n.family = m.family := family_eq_of_mem hmem
    have hbits : n.hostBits ≤ m.hostBits := by
      rw [stop, stop] at hstop
      have hle : 2 ^ n.hostBits ≤ 2 ^ m.hostBits := by omega
      exact (Nat.pow_le_pow_iff_right (by decide)).1 hle
    refine ⟨?_, hmem⟩
    rw [hf] at hn
    omega

/-- **Inclusion of networks is inclusion of their addresses.** -/
theorem contains_iff_forall_mem {m n : Network} : m.Contains n ↔ ∀ a ∈ n, a ∈ m := by
  rw [contains_iff_interval]
  constructor
  · intro h a ha
    rw [mem_iff_position] at ha ⊢
    omega
  · intro h
    have hfirst := mem_iff_position.1 (h _ n.address_mem)
    have hlast := mem_iff_position.1 (h _ n.lastAddress_mem)
    have hn := n.position_lastAddress
    exact ⟨hfirst.1, by omega⟩

theorem Contains.mem {m n : Network} (h : m.Contains n) {a : Address} (ha : a ∈ n) : a ∈ m :=
  contains_iff_forall_mem.1 h a ha

theorem Contains.refl (n : Network) : n.Contains n := contains_iff_forall_mem.2 fun _ => id

theorem Contains.trans {l m n : Network} (h : l.Contains m) (h' : m.Contains n) : l.Contains n :=
  contains_iff_forall_mem.2 fun _ ha => h.mem (h'.mem ha)

theorem Contains.antisymm {m n : Network} (h : m.Contains n) (h' : n.Contains m) : m = n := by
  rw [contains_iff_interval] at h h'
  exact ext_interval (by omega) (by omega)

/-- A network around another one, and not the same, is around every network that is one host bit
larger. -/
theorem Contains.of_ne {f m n : Network} (h : f.Contains n) (hne : f ≠ n) (hmn : m.Contains n)
    (hbits : n.hostBits + 1 = m.hostBits) : f.Contains m := by
  have hlt := n.start_lt_stop
  have hint := contains_iff_interval.1 h
  have hint' := contains_iff_interval.1 hmn
  rcases Nat.lt_or_ge n.hostBits f.hostBits with hf | hf
  · exact contains_iff_interval.2 (nested_of_hostBits_le (by omega) (by omega) (by omega))
  · have hback := nested_of_hostBits_le hf (by omega) (by omega)
    exact absurd (h.antisymm (contains_iff_interval.2 hback)) hne

/-- **Two networks that share an address are nested.** -/
theorem contains_or_contains {a : Address} {m n : Network} (hm : a ∈ m) (hn : a ∈ n) :
    m.Contains n ∨ n.Contains m := by
  rw [mem_iff_position] at hm hn
  rw [contains_iff_interval, contains_iff_interval]
  rcases Nat.le_total n.hostBits m.hostBits with h | h
  · exact Or.inl (nested_of_hostBits_le h (by omega) (by omega))
  · exact Or.inr (nested_of_hostBits_le h (by omega) (by omega))

theorem overlaps_iff_exists_mem {m n : Network} : m.Overlaps n ↔ ∃ a, a ∈ m ∧ a ∈ n := by
  constructor
  · rintro (h | h)
    · exact ⟨n.address, h.mem n.address_mem, n.address_mem⟩
    · exact ⟨m.address, m.address_mem, h.mem m.address_mem⟩
  · rintro ⟨a, hm, hn⟩
    exact contains_or_contains hm hn

theorem not_overlaps_iff_interval {m n : Network} :
    ¬ m.Overlaps n ↔ m.stop ≤ n.start ∨ n.stop ≤ m.start := by
  have hm := m.start_lt_stop
  have hn := n.start_lt_stop
  rw [overlaps_iff_exists_mem]
  constructor
  · intro h
    by_contra hcross
    -- intervals that cross share the later one of their beginnings
    obtain ⟨a, ha, hpos⟩ := exists_mem_position_eq (n := m) (p := max m.start n.start)
      (by omega) (by omega)
    exact h ⟨a, ha, mem_iff_position.2 (by omega)⟩
  · rintro h ⟨a, ha, ha'⟩
    rw [mem_iff_position] at ha ha'
    omega

end Cidr.Network
