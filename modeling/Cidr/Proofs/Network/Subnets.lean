import Cidr.Network.Subnets
import Cidr.Proofs.Network.Halves

/-!
# Cutting a network into subnets

The subnets with one prefix length cut the interval of a network into blocks of one
size, and each position is in the block that its distance from the first one gives.
A walk over the subnets goes from a block to the one that begins where it ends, and
there is one before the last address of the network.

## Main definitions

* `Network.IsBlock` — the network is the block with a number.

## Main results

* `Network.IsBlock.mem_iff` — **which addresses a block has.**
* `SubnetWalk.item?_eq_some_iff` — a walk gives out the blocks by their numbers.
* `Network.subnets_exact` — **the subnets of a network, call by call.**
-/

namespace Cidr

namespace Network

variable {l m n : Network} {i j k : Nat} {a : Address}

/-- The network that begins where another one ends. -/
theorem follower?_eq_some_iff :
    m.follower? = some l ↔
      l.family = m.family ∧ l.prefixLength = m.prefixLength ∧ l.start = m.stop := by
  rw [follower?, Option.bind_eq_bind, Option.bind_eq_some_iff]
  simp only [lastAddress_succ?_eq_some_iff, toOption_ofAddress_eq_some_iff]
  constructor
  · rintro ⟨a, ⟨hf, hpos⟩, rfl, hk⟩
    exact ⟨hf, hk, hpos⟩
  · rintro ⟨hf, hk, hpos⟩
    exact ⟨l.address, ⟨hf, hpos⟩, rfl, hk⟩

/-! ### Blocks -/

/-- The network `m` is block `j`, counted from zero, of those with a prefix of `k` bits in `n`. -/
structure IsBlock (n : Network) (k j : Nat) (m : Network) : Prop where
  family_eq : m.family = n.family
  prefixLength_eq : m.prefixLength = k
  start_eq : m.start = n.start + j * 2 ^ (n.family.bitWidth - k)

namespace IsBlock

/-- There is one block with a number. -/
theorem unique (hl : IsBlock n k j l) (hm : IsBlock n k j m) : l = m :=
  ext (Address.position_inj (hl.start_eq.trans hm.start_eq.symm))
    (hl.prefixLength_eq.trans hm.prefixLength_eq.symm)

theorem stop_eq (h : IsBlock n k j m) :
    m.stop = n.start + (j + 1) * 2 ^ (n.family.bitWidth - k) := by
  have hbits : m.hostBits = n.family.bitWidth - k := by
    rw [hostBits, h.family_eq, h.prefixLength_eq]
  rw [stop, hbits, h.start_eq, Nat.add_assoc, ← Nat.succ_mul]

/-- **The addresses of a block** are those whose distance from the beginning has its number as
quotient. -/
theorem mem_iff (h : IsBlock n k j m) :
    a ∈ m ↔ n.start ≤ a.position ∧
      (a.position - n.start) / 2 ^ (n.family.bitWidth - k) = j := by
  have hpos : 0 < 2 ^ (n.family.bitWidth - k) := Nat.two_pow_pos _
  rw [mem_iff_position, h.start_eq, h.stop_eq, Nat.div_eq_iff hpos, Nat.succ_mul]
  omega

theorem follower?_eq (hl : IsBlock n k j l) (hm : IsBlock n k (j + 1) m) :
    l.follower? = some m :=
  follower?_eq_some_iff.2 ⟨hm.family_eq.trans hl.family_eq.symm,
    hm.prefixLength_eq.trans hl.prefixLength_eq.symm, hm.start_eq.trans hl.stop_eq.symm⟩

theorem toNat_address (h : IsBlock n k j m) :
    m.address.toNat = n.address.toNat + j * 2 ^ (n.family.bitWidth - k) := by
  have hstart := h.start_eq
  have hbase : m.address.family.base = n.address.family.base := congrArg Family.base h.family_eq
  rw [start, start, Address.position, Address.position, hbase] at hstart
  omega

end IsBlock

/-! ### The number of blocks -/

section

variable (hk : n.prefixLength ≤ k) (hw : k ≤ n.family.bitWidth)

include hk hw

/-- The blocks are as long as the network. -/
theorem two_pow_hostBits :
    2 ^ n.hostBits = 2 ^ (k - n.prefixLength) * 2 ^ (n.family.bitWidth - k) := by
  have hsum : n.hostBits = k - n.prefixLength + (n.family.bitWidth - k) := by
    rw [hostBits]
    omega
  rw [hsum, Nat.pow_add]

/-- There is a block for each number. -/
theorem exists_isBlock (hj : j < 2 ^ (k - n.prefixLength)) : ∃ m, IsBlock n k j m := by
  have hpow := two_pow_hostBits hk hw
  have hpos : 0 < 2 ^ (n.family.bitWidth - k) := Nat.two_pow_pos _
  have hdvd : 2 ^ (n.family.bitWidth - k) ∣ n.start :=
    Nat.dvd_trans (hpow ▸ Nat.dvd_mul_left _ _) n.two_pow_dvd_start
  have hlt : j * 2 ^ (n.family.bitWidth - k) < 2 ^ n.hostBits :=
    hpow ▸ Nat.mul_lt_mul_of_pos_right hj hpos
  -- the block begins within the network, and so within the part of the family
  have htop := n.stop_le
  rw [stop] at htop
  obtain ⟨m, hf, hstart, hbits⟩ := exists_start_eq (Nat.sub_le n.family.bitWidth k)
    (Nat.dvd_add hdvd (Nat.dvd_mul_left _ j))
    (Nat.le_trans n.base_le_start (Nat.le_add_right _ _)) (by omega)
  have hm := m.hostBits_add
  rw [hf, hbits] at hm
  exact ⟨m, hf, by omega, hstart⟩

/-- The last block ends where the network does, and no other one. -/
theorem IsBlock.lastAddress_eq_iff (h : IsBlock n k j m) :
    m.lastAddress = n.lastAddress ↔ j + 1 = 2 ^ (k - n.prefixLength) := by
  have hpos : 2 ^ (n.family.bitWidth - k) ≠ 0 := Nat.ne_of_gt (Nat.two_pow_pos _)
  have hm := m.position_lastAddress
  have hn := n.position_lastAddress
  have hstop : m.stop = n.stop ↔ j + 1 = 2 ^ (k - n.prefixLength) := by
    rw [h.stop_eq, stop, two_pow_hostBits hk hw, Nat.add_left_cancel_iff, Nat.mul_left_inj hpos]
  rw [← hstop]
  constructor
  · intro heq
    rw [← hm, ← hn, heq]
  · intro heq
    exact Address.position_inj (by omega)

end

end Network

/-! ### The walk -/

namespace SubnetWalk

open Network

variable {l m n : Network} {i k : Nat}

theorem item?_of_upcoming_eq_none (j : Nat) (last : Address) :
    Walk.item? j (SubnetWalk.mk none last) = none :=
  Walk.item?_of_next?_eq_none rfl j

/-- **A walk that is at a block** gives out the blocks from there on, up to the last one. -/
theorem item?_eq_some_iff (hk : n.prefixLength ≤ k) (hw : k ≤ n.family.bitWidth)
    (h : IsBlock n k i m) (hi : i < 2 ^ (k - n.prefixLength)) (j : Nat) :
    Walk.item? j (SubnetWalk.mk (some m) n.lastAddress) = some l ↔
      i + j < 2 ^ (k - n.prefixLength) ∧ IsBlock n k (i + j) l := by
  induction j generalizing i m with
  | zero =>
    change some m = some l ↔ _
    rw [Option.some_inj, Nat.add_zero]
    refine ⟨?_, fun hl => h.unique hl.2⟩
    rintro rfl
    exact ⟨hi, h⟩
  | succ j ih =>
    change Walk.item? j (SubnetWalk.mk (if m.lastAddress = n.lastAddress then none
      else m.follower?) n.lastAddress) = _ ↔ _
    -- the walk ends with the block that ends where the network does
    by_cases hend : i + 1 = 2 ^ (k - n.prefixLength)
    · rw [if_pos ((h.lastAddress_eq_iff hk hw).2 hend), item?_of_upcoming_eq_none]
      exact iff_of_false nofun (by omega)
    · have hnext : i + 1 < 2 ^ (k - n.prefixLength) := by omega
      obtain ⟨m', h'⟩ := exists_isBlock hk hw hnext
      rw [if_neg (mt (h.lastAddress_eq_iff hk hw).1 hend), h.follower?_eq h', ih h' hnext,
        Nat.add_right_comm, Nat.add_assoc]

end SubnetWalk

/-! ### All together -/

namespace Network

/-- The walk over the subnets begins at the first block. -/
theorem exists_subnets_eq_ok {n : Network} {k : Nat} (hk : n.prefixLength ≤ k)
    (hw : k ≤ n.family.bitWidth) :
    ∃ w, n.subnets k = .ok w ∧ ∀ j m,
      Walk.answer? j w = some m ↔ j < 2 ^ (k - n.prefixLength) ∧ IsBlock n k j m := by
  have hpos : 0 < 2 ^ (k - n.prefixLength) := Nat.two_pow_pos _
  obtain ⟨first, h⟩ := exists_isBlock hk hw hpos
  have haddr : first.address = n.address := by
    refine Address.position_inj (h.start_eq.trans ?_)
    rw [Nat.zero_mul, Nat.add_zero]
    rfl
  have hfirst : ofAddress n.address k = .ok first :=
    ofAddress_eq_ok_iff.2 ⟨haddr, h.prefixLength_eq⟩
  refine ⟨⟨some first, n.lastAddress⟩, ?_, ?_⟩
  · rw [subnets, if_neg (Nat.not_lt.2 hk), hfirst]
    rfl
  · intro j m
    rw [Walk.answer?_eq_item?, SubnetWalk.item?_eq_some_iff hk hw h hpos, Nat.zero_add]

/-- A shorter prefix would make a larger network. -/
theorem subnets_of_lt {n : Network} {k : Nat} (hk : k < n.prefixLength) :
    n.subnets k = .error (.wrongDirection n.prefixLength k) := if_pos hk

theorem subnets_of_bitWidth_lt {n : Network} {k : Nat} (hw : n.family.bitWidth < k) :
    n.subnets k = .error (.lengthOutOfRange k n.family.bitWidth) := by
  have hk : ¬ k < n.prefixLength := Nat.not_lt.2 (Nat.le_trans n.prefixLength_le (Nat.le_of_lt hw))
  rw [subnets, if_neg hk, ofAddress_of_not_le (Nat.not_le.2 hw)]
  rfl

/-- **The subnets of a network, call by call.**  A prefix shorter than that of the network is refused,
and so is one longer than an address.  Otherwise there is a walk: as long as there are subnets, each
call answers the one that is a block further, and after the last one each call answers nothing.  No
address is in two of the subnets, and the addresses in one of them are those of the network. -/
theorem subnets_exact (n : Network) (k : Nat) :
    (k < n.prefixLength → n.subnets k = .error (.wrongDirection n.prefixLength k)) ∧
    (n.family.bitWidth < k → n.subnets k = .error (.lengthOutOfRange k n.family.bitWidth)) ∧
    (n.prefixLength ≤ k → k ≤ n.family.bitWidth →
      ∃ w, n.subnets k = .ok w ∧
        (∀ j < 2 ^ (k - n.prefixLength), ∃ m, Walk.answer? j w = some m ∧
          m.family = n.family ∧ m.prefixLength = k ∧
          m.address.toNat = n.address.toNat + j * 2 ^ (n.family.bitWidth - k)) ∧
        (∀ j ≥ 2 ^ (k - n.prefixLength), Walk.answer? j w = none) ∧
        (∀ i j l m, i ≠ j → Walk.answer? i w = some l → Walk.answer? j w = some m →
          ∀ a ∈ l, a ∉ m) ∧
        ∀ a, a ∈ n ↔ ∃ j m, Walk.answer? j w = some m ∧ a ∈ m) := by
  refine ⟨subnets_of_lt, subnets_of_bitWidth_lt, ?_⟩
  intro hk hw
  obtain ⟨w, hok, hanswer⟩ := exists_subnets_eq_ok hk hw
  refine ⟨w, hok, ?_, ?_, ?_, ?_⟩
  · intro j hj
    obtain ⟨m, hm⟩ := exists_isBlock hk hw hj
    exact ⟨m, (hanswer j m).2 ⟨hj, hm⟩, hm.family_eq, hm.prefixLength_eq, hm.toNat_address⟩
  · intro j hj
    refine Option.eq_none_iff_forall_ne_some.2 ?_
    intro m hm
    exact Nat.not_lt.2 hj ((hanswer j m).1 hm).1
  · intro i j l m hne hl hm a ha ha'
    have hi := (((hanswer i l).1 hl).2.mem_iff.1 ha).2
    have hj := (((hanswer j m).1 hm).2.mem_iff.1 ha').2
    exact hne (hi.symm.trans hj)
  · intro a
    have hpow := two_pow_hostBits hk hw
    constructor
    · -- the address is in the block whose number is the quotient
      intro ha
      rw [mem_iff_position, stop] at ha
      have hj : (a.position - n.start) / 2 ^ (n.family.bitWidth - k) < 2 ^ (k - n.prefixLength) :=
        Nat.div_lt_of_lt_mul (by rw [Nat.mul_comm, ← hpow]; omega)
      obtain ⟨m, hm⟩ := exists_isBlock hk hw hj
      exact ⟨_, m, (hanswer _ m).2 ⟨hj, hm⟩, hm.mem_iff.2 ⟨ha.1, rfl⟩⟩
    · rintro ⟨j, m, hm, ha⟩
      obtain ⟨hj, hm⟩ := (hanswer j m).1 hm
      obtain ⟨hstart, hdiv⟩ := hm.mem_iff.1 ha
      rw [← hdiv, Nat.div_lt_iff_lt_mul (Nat.two_pow_pos _), ← hpow] at hj
      rw [mem_iff_position, stop]
      omega

/-- All IPv6 addresses, one by one up to the last one, and nothing after it; a prefix that is too
short for a network, and one that is too long. -/
theorem subnets_exact_of_all :
    (0 ≤ 128 ∧ 128 ≤ 128 ∧ 2 ^ 128 - 1 < 2 ^ 128 ∧
      ∃ w, (enclosing (.ones .v6 0) 0 (Nat.zero_le _)).subnets 128 = .ok w ∧
        (∃ m, Walk.answer? (2 ^ 128 - 1) w = some m ∧ m.prefixLength = 128 ∧
          m.address.toNat = 2 ^ 128 - 1) ∧
        Walk.answer? (2 ^ 128) w = none) ∧
    (7 < 8 ∧ (enclosing (.ones .v4 8) 8 (by decide)).subnets 7 = .error (.wrongDirection 8 7)) ∧
    (32 < 33 ∧
      (enclosing (.ones .v4 8) 8 (by decide)).subnets 33 = .error (.lengthOutOfRange 33 32)) := by
  obtain ⟨w, hw, hitem, hend, -⟩ :=
    (subnets_exact (enclosing (.ones .v6 0) 0 (Nat.zero_le _)) 128).2.2 (by decide) (by decide)
  obtain ⟨m, hm, -, hk, haddr⟩ := hitem (2 ^ 128 - 1) (by decide)
  exact ⟨⟨by decide, by decide, by decide, w, hw, ⟨m, hm, hk, haddr⟩, hend (2 ^ 128) (by decide)⟩,
    ⟨by decide, (subnets_exact _ 7).1 (by decide)⟩,
    ⟨by decide, (subnets_exact _ 33).2.1 (by decide)⟩⟩

end Network

end Cidr
