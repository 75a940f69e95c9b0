import Cidr.Network.Hierarchy
import Cidr.Proofs.Network.Region

/-!
# The two halves of a network

A network with host bits is cut into a lower and an upper half, each with one
host bit less.  Two networks are such halves exactly when they can be merged,
and each half finds the other one as its sibling.

## Main definitions

* `Network.Halves` — the networks are the lower and the upper half of another one.

## Main results

* `Network.isAdjacentTo_iff_interval` — adjacent intervals touch.
* `Network.canMergeWith_iff_halves` — **what can be merged is the halves of a network.**
* `Network.sibling?_eq_some_iff_halves` — **a sibling is the other half.**
* `Network.exists_merge?_of_halves` — merging two halves gives the whole.
* `Network.exists_halves` — a network with host bits has halves.
-/

namespace Cidr.Network

/-! ### The order of networks -/

theorem compare_eq_compare_start (m n : Network) :
    compare m n = (compare m.start n.start).then (compare m.prefixLength n.prefixLength) := by
  change (compare m.address n.address).then _ = _
  rw [Address.compare_eq_compare_position]
  rfl

theorem lt_of_start_lt {m n : Network} (h : m.start < n.start) : m < n := by
  change compare m n = .lt
  rw [compare_eq_compare_start, Nat.compare_eq_lt.2 h]
  rfl

theorem not_lt_of_start_lt {m n : Network} (h : n.start < m.start) : ¬ m < n := by
  change ¬ compare m n = .lt
  rw [compare_eq_compare_start, Nat.compare_eq_gt.2 h]
  exact nofun

theorem lower_of_start_lt {m n : Network} (h : m.start < n.start) :
    lower m n = m ∧ upper m n = n :=
  ⟨if_pos (lt_of_start_lt h), if_pos (lt_of_start_lt h)⟩

theorem lower_of_lt_start {m n : Network} (h : n.start < m.start) :
    lower m n = n ∧ upper m n = m :=
  ⟨if_neg (not_lt_of_start_lt h), if_neg (not_lt_of_start_lt h)⟩

/-! ### Neighbours -/

theorem lastAddress_succ?_eq_some_iff {m : Network} {a : Address} :
    m.lastAddress.succ? = some a ↔ a.family = m.family ∧ a.position = m.stop := by
  rw [Address.succ?_eq_some_iff_position, m.position_lastAddress, family_lastAddress]

/-- **Adjacent networks are those whose intervals touch.** -/
theorem isAdjacentTo_iff_interval {m n : Network} :
    m.IsAdjacentTo n ↔ m.family = n.family ∧ (m.stop = n.start ∨ n.stop = m.start) := by
  have hm := m.start_lt_stop
  have hn := n.start_lt_stop
  refine and_congr_right ?_
  intro hf
  rw [not_overlaps_iff_interval]
  constructor
  · rintro ⟨-, hnext⟩
    -- whichever comes first is asked for the address after it
    by_cases hlt : m < n
    · rw [lower, upper, if_pos hlt, if_pos hlt, lastAddress_succ?_eq_some_iff] at hnext
      exact Or.inl hnext.2.symm
    · rw [lower, upper, if_neg hlt, if_neg hlt, lastAddress_succ?_eq_some_iff] at hnext
      exact Or.inr hnext.2.symm
  · rintro (h | h)
    · obtain ⟨hl, hu⟩ := lower_of_start_lt (show m.start < n.start by omega)
      rw [hl, hu, lastAddress_succ?_eq_some_iff]
      exact ⟨Or.inl (by omega), hf.symm, h.symm⟩
    · obtain ⟨hl, hu⟩ := lower_of_lt_start (show n.start < m.start by omega)
      rw [hl, hu, lastAddress_succ?_eq_some_iff]
      exact ⟨Or.inr (by omega), hf, h.symm⟩

/-! ### Halves -/

/-- The networks are the lower and the upper half of a network with one host bit more. -/
structure Halves (l u : Network) : Prop where
  family_eq : l.family = u.family
  prefixLength_eq : l.prefixLength = u.prefixLength
  prefixLength_ne_zero : l.prefixLength ≠ 0
  two_pow_dvd_start : 2 ^ (l.hostBits + 1) ∣ l.start
  stop_eq : l.stop = u.start

theorem hostBits_congr {m n : Network} (hf : m.family = n.family)
    (hk : m.prefixLength = n.prefixLength) : m.hostBits = n.hostBits := by
  rw [hostBits, hostBits, hf, hk]

theorem Halves.hostBits_eq {l u : Network} (h : Halves l u) : l.hostBits = u.hostBits :=
  hostBits_congr h.family_eq h.prefixLength_eq

/-- Where the network with one host bit more begins. -/
theorem position_truncate_pred {n : Network} (h : n.prefixLength ≠ 0) :
    (n.address.truncate (n.prefixLength - 1)).position =
      n.start / 2 ^ (n.hostBits + 1) * 2 ^ (n.hostBits + 1) := by
  have hle := n.prefixLength_le
  have hbits : n.address.family.bitWidth - (n.prefixLength - 1) = n.hostBits + 1 := by
    rw [hostBits, family]
    omega
  rw [Address.position_truncate _ (by omega), hbits]
  rfl

theorem truncate_pred_eq_iff {n : Network} (h : n.prefixLength ≠ 0) :
    n.address.truncate (n.prefixLength - 1) = n.address ↔ 2 ^ (n.hostBits + 1) ∣ n.start := by
  constructor
  · intro heq
    have hround := position_truncate_pred h
    rw [heq] at hround
    exact ⟨_, hround.trans (Nat.mul_comm _ _)⟩
  · intro hdvd
    refine Address.position_inj ?_
    rw [position_truncate_pred h, Nat.div_mul_cancel hdvd]
    rfl

/-- **What can be merged is the two halves of a network.** -/
theorem canMergeWith_iff_halves {m n : Network} :
    m.CanMergeWith n ↔ Halves m n ∨ Halves n m := by
  have hm := m.start_lt_stop
  have hn := n.start_lt_stop
  rw [CanMergeWith, isAdjacentTo_iff_interval]
  constructor
  · rintro ⟨hk, h0, ⟨hf, h | h⟩, hround⟩
    · rw [(lower_of_start_lt (show m.start < n.start by omega)).1,
        truncate_pred_eq_iff h0] at hround
      exact Or.inl ⟨hf, hk, h0, hround, h⟩
    · rw [(lower_of_lt_start (show n.start < m.start by omega)).1, hk,
        truncate_pred_eq_iff (hk ▸ h0)] at hround
      exact Or.inr ⟨hf.symm, hk.symm, hk ▸ h0, hround, h⟩
  · rintro (⟨hf, hk, h0, hdvd, h⟩ | ⟨hf, hk, h0, hdvd, h⟩)
    · rw [(lower_of_start_lt (show m.start < n.start by omega)).1, truncate_pred_eq_iff h0]
      exact ⟨hk, h0, ⟨hf, Or.inl h⟩, hdvd⟩
    · rw [(lower_of_lt_start (show n.start < m.start by omega)).1, ← hk, truncate_pred_eq_iff h0]
      exact ⟨rfl, h0, ⟨hf.symm, Or.inr h⟩, hdvd⟩

theorem merge?_eq_some_iff {m n p : Network} :
    m.merge? n = some p ↔ m.CanMergeWith n ∧ p.address = (lower m n).address ∧
      p.prefixLength + 1 = m.prefixLength := by
  constructor
  · intro h
    have hk := prefixLength_of_merge? h
    unfold merge? at h
    split at h
    · next hm =>
      obtain rfl := Option.some.inj h
      exact ⟨hm, rfl, hk⟩
    · simp at h
  · rintro ⟨hm, ha, hk⟩
    rw [merge?, dif_pos hm]
    refine congrArg some (ext ha.symm ?_)
    change m.prefixLength - 1 = p.prefixLength
    omega

theorem Halves.mem_or_mem_iff {l u : Network} (h : Halves l u) {a : Address} :
    a ∈ l ∨ a ∈ u ↔ l.start ≤ a.position ∧ a.position < u.stop := by
  have hl := l.start_lt_stop
  have hu := u.start_lt_stop
  have heq := h.stop_eq
  rw [mem_iff_position, mem_iff_position]
  omega

theorem Halves.not_mem_of_mem {l u : Network} (h : Halves l u) {a : Address} (ha : a ∈ l) :
    a ∉ u := by
  have hstop := h.stop_eq
  rw [mem_iff_position] at ha ⊢
  omega

/-- **Two halves merge, in either order, to the network they make up.** -/
theorem exists_merge?_of_halves {l u : Network} (h : Halves l u) :
    ∃ p, l.merge? u = some p ∧ u.merge? l = some p ∧ ∀ a, a ∈ p ↔ a ∈ l ∨ a ∈ u := by
  have hlt : l.start < u.start := by
    rw [← h.stop_eq]
    exact l.start_lt_stop
  obtain ⟨p, hp⟩ : ∃ p, l.merge? u = some p :=
    ⟨_, dif_pos (canMergeWith_iff_halves.2 (Or.inl h))⟩
  obtain ⟨-, ha, hk⟩ := merge?_eq_some_iff.1 hp
  rw [(lower_of_start_lt hlt).1] at ha
  have hbits : p.hostBits = l.hostBits + 1 := by
    have hl := l.hostBits_add
    have hp := p.hostBits_add
    rw [family, ha] at hp
    rw [family] at hl
    omega
  refine ⟨p, hp, merge?_eq_some_iff.2 ⟨canMergeWith_iff_halves.2 (Or.inr h), ?_, ?_⟩, ?_⟩
  · rw [(lower_of_lt_start hlt).1, ha]
  · rw [hk, h.prefixLength_eq]
  · intro a
    have hstart : p.start = l.start := by rw [start, ha, start]
    have hstop : p.stop = u.stop := by
      have heq := h.stop_eq
      rw [stop] at heq
      rw [stop, stop, ← heq, ← h.hostBits_eq, hstart, hbits, pow_succ]
      omega
    rw [h.mem_or_mem_iff, mem_iff_position, hstart, hstop]

/-! ### Siblings -/

theorem toOption_ofAddress_eq_some_iff {a : Address} {k : Nat} {n : Network} :
    (ofAddress a k).toOption = some n ↔ n.address = a ∧ n.prefixLength = k := by
  rw [← ofAddress_eq_ok_iff]
  cases ofAddress a k <;> simp [Except.toOption]

/-- A network is the lower or the upper half of the one with one host bit more. -/
theorem start_eq_round_or (n : Network) :
    n.start = n.start / 2 ^ (n.hostBits + 1) * 2 ^ (n.hostBits + 1) ∨
      n.start = n.start / 2 ^ (n.hostBits + 1) * 2 ^ (n.hostBits + 1) + 2 ^ n.hostBits := by
  have hdvd : 2 ^ n.hostBits ∣ n.start / 2 ^ (n.hostBits + 1) * 2 ^ (n.hostBits + 1) :=
    Nat.dvd_mul_left_of_dvd (Nat.pow_dvd_pow 2 (Nat.le_succ _)) _
  have hmod := Nat.div_add_mod' n.start (2 ^ (n.hostBits + 1))
  have hrest := Nat.mod_lt n.start (Nat.two_pow_pos (n.hostBits + 1))
  generalize n.start / 2 ^ (n.hostBits + 1) * 2 ^ (n.hostBits + 1) = r at hdvd hmod ⊢
  rcases Nat.lt_or_ge r n.start with hlt | hge
  · -- beyond the beginning there is room for one more multiple
    have hle : r + 2 ^ n.hostBits ≤ n.start :=
      Nat.le_of_lt_add_of_dvd (Nat.add_lt_add_right hlt _)
        (Nat.dvd_add hdvd (Nat.dvd_refl _)) n.two_pow_dvd_start
    have hge : n.start ≤ r + 2 ^ n.hostBits :=
      Nat.le_of_lt_add_of_dvd (n := 2 ^ n.hostBits) (by omega) n.two_pow_dvd_start
        (Nat.dvd_add hdvd (Nat.dvd_refl _))
    exact Or.inr (by omega)
  · exact Or.inl (by omega)

theorem Halves.not_dvd_upper {l u : Network} (h : Halves l u) :
    ¬ 2 ^ (u.hostBits + 1) ∣ u.start := by
  intro hdvd
  rw [← h.hostBits_eq, ← h.stop_eq, stop, Nat.dvd_add_right h.two_pow_dvd_start] at hdvd
  have := Nat.le_of_dvd (Nat.two_pow_pos _) hdvd
  have := Nat.pow_lt_pow_right (a := 2) (by decide) (Nat.lt_succ_self l.hostBits)
  omega

theorem sibling?_eq {n : Network} (h0 : n.prefixLength ≠ 0) :
    n.sibling? = if 2 ^ (n.hostBits + 1) ∣ n.start then
      n.lastAddress.succ?.bind fun a => (ofAddress a n.prefixLength).toOption
    else (ofAddress (n.address.truncate (n.prefixLength - 1)) n.prefixLength).toOption := by
  have hsome : n.supernet? = some (n.widen (n.prefixLength - 1) (Nat.sub_le ..)) := if_neg h0
  have hparent : (n.widen (n.prefixLength - 1) (Nat.sub_le ..)).address =
      n.address.truncate (n.prefixLength - 1) := rfl
  simp only [sibling?, hsome, Option.bind_eq_bind, Option.bind_some, hparent,
    truncate_pred_eq_iff h0]

/-- The other half of a lower half follows it. -/
theorem sibling?_eq_some_iff_of_dvd {m n : Network} (h0 : n.prefixLength ≠ 0)
    (hdvd : 2 ^ (n.hostBits + 1) ∣ n.start) : n.sibling? = some m ↔ Halves n m := by
  rw [sibling?_eq h0, if_pos hdvd, Option.bind_eq_some_iff]
  simp only [lastAddress_succ?_eq_some_iff, toOption_ofAddress_eq_some_iff]
  constructor
  · rintro ⟨a, ⟨hf, hpos⟩, rfl, hk⟩
    exact ⟨hf.symm, hk.symm, h0, hdvd, hpos.symm⟩
  · intro h
    exact ⟨m.address, ⟨h.family_eq.symm, h.stop_eq.symm⟩, rfl, h.prefixLength_eq.symm⟩

/-- The other half of an upper half begins where the whole does. -/
theorem sibling?_eq_some_iff_of_not_dvd {m n : Network} (h0 : n.prefixLength ≠ 0)
    (hdvd : ¬ 2 ^ (n.hostBits + 1) ∣ n.start) : n.sibling? = some m ↔ Halves m n := by
  have hround := position_truncate_pred h0
  have hstart : n.start = n.start / 2 ^ (n.hostBits + 1) * 2 ^ (n.hostBits + 1) +
      2 ^ n.hostBits := by
    rcases n.start_eq_round_or with h | h
    · exact absurd ⟨_, h.trans (Nat.mul_comm _ _)⟩ hdvd
    · exact h
  rw [sibling?_eq h0, if_neg hdvd, toOption_ofAddress_eq_some_iff]
  constructor
  · rintro ⟨ha, hk⟩
    have hf : m.family = n.family := by
      rw [family, ha]
      rfl
    have hpos : m.start = n.start / 2 ^ (n.hostBits + 1) * 2 ^ (n.hostBits + 1) := by
      rw [start, ha, hround]
    refine ⟨hf, hk, hk ▸ h0, ?_, ?_⟩
    · rw [hostBits_congr hf hk, hpos]
      exact Nat.dvd_mul_left _ _
    · rw [stop, hostBits_congr hf hk, hpos]
      exact hstart.symm
  · intro h
    refine ⟨Address.position_inj ?_, h.prefixLength_eq⟩
    have hstop := h.stop_eq
    rw [stop, h.hostBits_eq] at hstop
    rw [hround]
    change m.start = _
    omega

/-- **A sibling is the other half.** -/
theorem sibling?_eq_some_iff_halves {m n : Network} :
    n.sibling? = some m ↔ Halves n m ∨ Halves m n := by
  by_cases h0 : n.prefixLength = 0
  · -- the network of a whole family is no half of another one
    have hnone : n.sibling? = none := by
      rw [sibling?, supernet?, if_pos h0]
      rfl
    rw [hnone]
    constructor
    · exact nofun
    · rintro (h | h)
      · exact absurd h0 h.prefixLength_ne_zero
      · exact absurd (h.prefixLength_eq.trans h0) h.prefixLength_ne_zero
  by_cases hdvd : 2 ^ (n.hostBits + 1) ∣ n.start
  · rw [sibling?_eq_some_iff_of_dvd h0 hdvd]
    exact ⟨Or.inl, fun h => h.resolve_right fun h' => h'.not_dvd_upper hdvd⟩
  · rw [sibling?_eq_some_iff_of_not_dvd h0 hdvd]
    exact ⟨Or.inr, fun h => h.resolve_left fun h' => hdvd h'.two_pow_dvd_start⟩

/-! ### Cutting a network -/

/-- The two halves of a network. -/
theorem exists_halves {n : Network} (h : n.hostBits ≠ 0) :
    ∃ l u, Halves l u ∧ l.hostBits + 1 = n.hostBits ∧ l.start = n.start ∧ u.stop = n.stop := by
  obtain ⟨h, hh⟩ := Nat.exists_eq_succ_of_ne_zero h
  have hw := n.hostBits_add
  have hle := n.stop_le
  have hbase := n.base_le_start
  have hdvd := n.two_pow_dvd_start
  have hpos : 0 < 2 ^ h := Nat.two_pow_pos _
  have hdouble : n.stop = n.start + 2 ^ h + 2 ^ h := by
    rw [stop, hh, pow_succ]
    omega
  -- the beginning and the middle are multiples of the length of a half
  have hdvd' : 2 ^ h ∣ n.start := Nat.dvd_trans (Nat.pow_dvd_pow 2 (by omega)) hdvd
  obtain ⟨l, hlf, hls, hlb⟩ := exists_start_eq (f := n.family) (h := h) (by omega) hdvd' hbase
    (by omega)
  obtain ⟨u, huf, hus, hub⟩ := exists_start_eq (f := n.family) (h := h) (by omega)
    (Nat.dvd_add hdvd' (Nat.dvd_refl _)) (by omega) (by omega)
  have hlw := l.hostBits_add
  have huw := u.hostBits_add
  rw [hlf, hlb] at hlw
  rw [huf, hub] at huw
  refine ⟨l, u, ⟨hlf.trans huf.symm, by omega, by omega, ?_, ?_⟩, by omega, hls, ?_⟩
  · rw [hlb, hls, ← Nat.succ_eq_add_one, ← hh]
    exact hdvd
  · rw [stop, hls, hlb, hus]
  · rw [stop, hus, hub, hdouble]

end Cidr.Network
