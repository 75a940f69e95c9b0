import Cidr.Proofs.Network.Union

/-!
# The tree of networks

Of the networks around another one there is one for each shorter prefix, since two
networks that share an address are nested.  So a network around another one is known
by its prefix length, however it is reached: at once, or one step up after the other,
or by way of any network between.  One step up, a network is the union of two halves,
each of which finds the other one as its sibling, and two networks merge to what is
around both of them exactly if they are siblings.

## Main results

* `Network.Contains.unique` — **there is one network around another one** with a
  prefix length.
* `Network.supernet?_eq_some_iff`, `Network.ancestor?_eq_some_iff`,
  `Network.supernetTo_eq_ok_iff` — one step up, a number of steps, and all at once.
* `Network.supernetTo_exact` — **a network around another one,** reached in all ways.
* `Network.exists_sibling?` — the other half of a network inside a larger one.
* `Network.sibling?_exact` — **siblings, supernets and unions.**
-/

namespace Cidr.Network

variable {l m n : Network} {j k : Nat}

/-! ### On the way up -/

theorem contains_widen (hk : k ≤ n.prefixLength) : (n.widen k hk).Contains n :=
  ⟨hk, rfl⟩

/-- Of two networks around a third one, that with the shorter prefix contains the other. -/
theorem Contains.of_prefixLength_le (hl : l.Contains n) (hm : m.Contains n)
    (hk : l.prefixLength ≤ m.prefixLength) : l.Contains m := by
  have hlt := n.start_lt_stop
  have hfl : n.family = l.family := family_eq_of_mem hl.2
  have hfm : n.family = m.family := family_eq_of_mem hm.2
  have hlw := l.hostBits_add
  have hmw := m.hostBits_add
  rw [← hfl] at hlw
  rw [← hfm] at hmw
  have hli := contains_iff_interval.1 hl
  have hmi := contains_iff_interval.1 hm
  exact contains_iff_interval.2 (nested_of_hostBits_le (by omega) (by omega) (by omega))

/-- **There is one network around another one** with a prefix length. -/
theorem Contains.unique (hl : l.Contains n) (hm : m.Contains n)
    (hk : l.prefixLength = m.prefixLength) : l = m :=
  (hl.of_prefixLength_le hm (Nat.le_of_eq hk)).antisymm
    (hm.of_prefixLength_le hl (Nat.le_of_eq hk.symm))

/-- Networks of one size that share an address are the same. -/
theorem eq_of_hostBits_eq (hbits : m.hostBits = n.hostBits) (hmem : n.address ∈ m) : n = m := by
  have hf : n.family = m.family := family_eq_of_mem hmem
  have hmw := m.hostBits_add
  have hnw := n.hostBits_add
  rw [hf] at hnw
  have hk : n.prefixLength = m.prefixLength := by omega
  exact (Contains.refl n).unique ⟨Nat.le_of_eq hk.symm, hmem⟩ hk

/-- One step up there is the network around it with a prefix one bit shorter. -/
theorem supernet?_eq_some_iff :
    n.supernet? = some m ↔ m.prefixLength + 1 = n.prefixLength ∧ m.Contains n := by
  rw [supernet?]
  by_cases h0 : n.prefixLength = 0
  · rw [if_pos h0]
    exact iff_of_false (Option.some_ne_none m).symm (by omega)
  · have hwiden := contains_widen (n := n) (Nat.sub_le n.prefixLength 1)
    rw [if_neg h0, Option.some_inj]
    constructor
    · rintro rfl
      exact ⟨Nat.sub_add_cancel (by omega), hwiden⟩
    · rintro ⟨hk, hm⟩
      exact hwiden.unique hm (by rw [prefixLength_widen]; omega)

theorem supernet?_eq_none_iff : n.supernet? = none ↔ n.prefixLength = 0 := by
  rw [supernet?]
  split_ifs with h0
  · exact iff_of_true rfl h0
  · exact iff_of_false not_false h0

/-- A number of steps up there is the network around it with a prefix that is as many bits shorter. -/
theorem ancestor?_eq_some_iff {steps : Nat} :
    n.ancestor? steps = some m ↔ m.prefixLength + steps = n.prefixLength ∧ m.Contains n := by
  induction steps generalizing n with
  | zero =>
    rw [ancestor?, Option.some_inj, Nat.add_zero]
    constructor
    · rintro rfl
      exact ⟨rfl, Contains.refl n⟩
    · rintro ⟨hk, hm⟩
      exact (Contains.refl n).unique hm hk.symm
  | succ steps ih =>
    rw [ancestor?, Option.bind_eq_some_iff]
    simp only [supernet?_eq_some_iff, ih]
    constructor
    · rintro ⟨p, ⟨hpk, hp⟩, hk, hm⟩
      exact ⟨by omega, hm.trans hp⟩
    · -- the first step leads to the network that is one bit larger, and it is inside
      rintro ⟨hk, hm⟩
      have hp := contains_widen (n := n) (Nat.sub_le n.prefixLength 1)
      have hpk : n.prefixLength - 1 + 1 = n.prefixLength := by omega
      exact ⟨_, ⟨hpk, hp⟩, by rw [prefixLength_widen]; omega,
        hm.of_prefixLength_le hp (by rw [prefixLength_widen]; omega)⟩

/-- At once there is the network around it with the prefix length that is asked for. -/
theorem supernetTo_eq_ok_iff : n.supernetTo k = .ok m ↔ m.prefixLength = k ∧ m.Contains n := by
  rw [supernetTo]
  by_cases h : k ≤ n.prefixLength
  · rw [dif_pos h, Except.ok.injEq]
    constructor
    · rintro rfl
      exact ⟨rfl, contains_widen h⟩
    · rintro ⟨rfl, hm⟩
      exact (contains_widen h).unique hm rfl
  · rw [dif_neg h]
    refine iff_of_false nofun ?_
    rintro ⟨rfl, hm⟩
    exact h hm.1

theorem exists_supernetTo (hk : k ≤ n.prefixLength) : ∃ m, n.supernetTo k = .ok m :=
  ⟨_, supernetTo_eq_ok_iff.2 ⟨rfl, contains_widen hk⟩⟩

/-- A network between does not matter. -/
theorem supernetTo_of_supernetTo (h : n.supernetTo k = .ok m) (hj : j ≤ k) :
    m.supernetTo j = n.supernetTo j := by
  obtain ⟨rfl, hm⟩ := supernetTo_eq_ok_iff.1 h
  obtain ⟨l, hl⟩ := exists_supernetTo (Nat.le_trans hj hm.1)
  obtain ⟨rfl, hln⟩ := supernetTo_eq_ok_iff.1 hl
  rw [hl, supernetTo_eq_ok_iff]
  exact ⟨rfl, hln.of_prefixLength_le hm hj⟩

/-- **A network around another one.**  A prefix longer than that of the network is refused.  For any
other length the answer is the only network of that length around it.  As many single steps as there
are bits between lead to the same network, and so does any way that stops between. -/
theorem supernetTo_exact (n : Network) (k : Nat) :
    (n.prefixLength < k → n.supernetTo k = .error (.wrongDirection n.prefixLength k)) ∧
    (k ≤ n.prefixLength → ∃ m, n.supernetTo k = .ok m ∧
      (∀ l : Network, l.prefixLength = k ∧ l.Contains n ↔ l = m) ∧
      n.ancestor? (n.prefixLength - k) = some m ∧
      ∀ j ≤ k, (do (← n.supernetTo k).supernetTo j) = n.supernetTo j) := by
  constructor
  · intro hk
    exact dif_neg (Nat.not_le.2 hk)
  · intro hk
    obtain ⟨m, hm⟩ := exists_supernetTo hk
    refine ⟨m, hm, ?_, ?_, ?_⟩
    · intro l
      rw [← supernetTo_eq_ok_iff, hm, Except.ok.injEq, eq_comm]
    · obtain ⟨hmk, hcon⟩ := supernetTo_eq_ok_iff.1 hm
      exact ancestor?_eq_some_iff.2 ⟨by omega, hcon⟩
    · intro j hj
      rw [hm]
      exact supernetTo_of_supernetTo hm hj

/-- From a single address to a prefix that ends within an octet, and on to a shorter one; a prefix
that is longer than an address. -/
theorem supernetTo_exact_of_single :
    (32 < 33 ∧ (enclosing (.v4 10 7 255 1) 32 (by decide)).supernetTo 33 =
      .error (.wrongDirection 32 33)) ∧
    13 ≤ 32 ∧ 5 ≤ 13 ∧
      (∃ m, (enclosing (.v4 10 7 255 1) 32 (by decide)).supernetTo 13 = .ok m ∧
        enclosing (.v4 10 0 0 0) 13 (by decide) = m ∧
        (enclosing (.v4 10 7 255 1) 32 (by decide)).ancestor? 19 = some m) ∧
      (do (← (enclosing (.v4 10 7 255 1) 32 (by decide)).supernetTo 13).supernetTo 5) =
        (enclosing (.v4 10 7 255 1) 32 (by decide)).supernetTo 5 := by
  obtain ⟨m, hm, hunique, hsteps, hbetween⟩ :=
    (supernetTo_exact (enclosing (.v4 10 7 255 1) 32 (by decide)) 13).2 (by decide)
  exact ⟨⟨by decide, (supernetTo_exact _ 33).1 (by decide)⟩, by decide, by decide,
    ⟨m, hm, (hunique _).1 (by decide), hsteps⟩, hbetween 5 (by decide)⟩

/-! ### Siblings -/

/-- **The other half.**  A network inside one with a single host bit more has a sibling, with which
it makes up that network. -/
theorem exists_sibling? (h : m.Contains n) (hk : m.prefixLength + 1 = n.prefixLength) :
    ∃ s, n.sibling? = some s ∧ s.prefixLength = n.prefixLength ∧
      (∀ a, a ∈ m ↔ a ∈ n ∨ a ∈ s) ∧ ∀ a ∈ n, a ∉ s := by
  have hf : n.family = m.family := family_eq_of_mem h.2
  have hmw := m.hostBits_add
  have hnw := n.hostBits_add
  rw [hf] at hnw
  obtain ⟨l, u, hlu, hlb, hls, hus⟩ := m.exists_halves (by omega)
  have hub := hlu.hostBits_eq
  have hmem : ∀ a, a ∈ m ↔ a ∈ l ∨ a ∈ u := by
    intro a
    rw [hlu.mem_or_mem_iff, mem_iff_position, hls, hus]
  have hapart : ∀ a ∈ l, a ∉ u := fun a => hlu.not_mem_of_mem
  -- the network is the half that its first address is in
  rcases (hmem n.address).1 h.2 with hn' | hn'
  · obtain rfl := eq_of_hostBits_eq (m := l) (by omega) hn'
    exact ⟨u, sibling?_eq_some_iff_halves.2 (Or.inl hlu), hlu.prefixLength_eq.symm, hmem, hapart⟩
  · obtain rfl := eq_of_hostBits_eq (m := u) (by omega) hn'
    refine ⟨l, sibling?_eq_some_iff_halves.2 (Or.inr hlu), hlu.prefixLength_eq, ?_, ?_⟩
    · intro a
      rw [hmem, or_comm]
    · intro a ha ha'
      exact hapart a ha' ha

theorem sibling?_comm : n.sibling? = some m ↔ m.sibling? = some n := by
  rw [sibling?_eq_some_iff_halves, sibling?_eq_some_iff_halves, or_comm]

/-- Only the network of a whole family has no sibling. -/
theorem sibling?_eq_none_iff : n.sibling? = none ↔ n.prefixLength = 0 := by
  constructor
  · intro hnone
    by_contra h0
    -- otherwise the last bit of the prefix can be dropped
    obtain ⟨s, hs, -⟩ := exists_sibling? (contains_widen (n := n) (Nat.sub_le n.prefixLength 1))
      (Nat.sub_add_cancel (Nat.one_le_iff_ne_zero.2 h0))
    exact Option.some_ne_none s (hs.symm.trans hnone)
  · intro h0
    rw [sibling?, supernet?_eq_none_iff.2 h0]
    rfl

theorem isSome_merge?_iff_sibling? : (m.merge? n).isSome ↔ m.sibling? = some n := by
  rw [isSome_merge?_iff, canMergeWith_iff_halves, sibling?_eq_some_iff_halves]

/-- A network merges with its sibling to its supernet. -/
theorem merge?_eq_supernet? (h : m.sibling? = some n) : m.merge? n = m.supernet? := by
  obtain ⟨p, hp, hmem⟩ := exists_merge?_of_halves_or (sibling?_eq_some_iff_halves.1 h)
  have hcon : p.Contains m := contains_iff_forall_mem.2 fun a ha => (hmem a).2 (Or.inl ha)
  rw [hp, supernet?_eq_some_iff.2 ⟨prefixLength_of_merge? hp, hcon⟩]

/-- **Siblings, supernets and unions.**  Only the network of a whole family has neither a sibling nor
a supernet.  Any other one has a sibling of the same size with the same supernet, which is the union
of the two, and it is the sibling of its sibling.  A network merges with its sibling to the supernet,
and with no other network. -/
theorem sibling?_exact (n : Network) :
    (n.supernet? = none ↔ n.prefixLength = 0) ∧ (n.sibling? = none ↔ n.prefixLength = 0) ∧
    (n.prefixLength ≠ 0 → ∃ s p, n.sibling? = some s ∧ s ≠ n ∧ s.prefixLength = n.prefixLength ∧
      s.sibling? = some n ∧ n.supernet? = some p ∧ s.supernet? = some p ∧
      ∀ a, a ∈ p ↔ a ∈ n ∨ a ∈ s) ∧
    (∀ m, (n.merge? m).isSome ↔ n.sibling? = some m) ∧
    ∀ m, n.sibling? = some m → n.merge? m = n.supernet? := by
  refine ⟨supernet?_eq_none_iff, sibling?_eq_none_iff, ?_, fun m => isSome_merge?_iff_sibling?,
    fun m => merge?_eq_supernet?⟩
  intro h0
  obtain ⟨p, hp⟩ := Option.ne_none_iff_exists'.1 (mt supernet?_eq_none_iff.1 h0)
  obtain ⟨hk, hpn⟩ := supernet?_eq_some_iff.1 hp
  obtain ⟨s, hs, hsk, hmem, hapart⟩ := exists_sibling? hpn hk
  have hps : p.Contains s := contains_iff_forall_mem.2 fun a ha => (hmem a).2 (Or.inr ha)
  refine ⟨s, p, hs, ?_, hsk, sibling?_comm.1 hs, hp, ?_, hmem⟩
  · rintro rfl
    exact hapart _ s.address_mem s.address_mem
  · exact supernet?_eq_some_iff.2 ⟨hsk ▸ hk, hps⟩

/-- The last IPv4 address, which no address follows, and the one before. -/
theorem sibling?_exact_of_last :
    (enclosing (.v4 255 255 255 255) 32 (by decide)).prefixLength ≠ 0 ∧
    (∃ s p, (enclosing (.v4 255 255 255 255) 32 (by decide)).sibling? = some s ∧
      s.sibling? = some (enclosing (.v4 255 255 255 255) 32 (by decide)) ∧
      s.supernet? = some p ∧ (.v4 255 255 255 255) ∈ p) ∧
    (enclosing (.v4 255 255 255 254) 32 (by decide)).sibling? =
      some (enclosing (.v4 255 255 255 255) 32 (by decide)) ∧
    (enclosing (.v4 255 255 255 254) 32 (by decide)).merge?
        (enclosing (.v4 255 255 255 255) 32 (by decide)) =
      some (enclosing (.v4 255 255 255 254) 31 (by decide)) := by
  obtain ⟨-, -, hother, -⟩ := sibling?_exact (enclosing (.v4 255 255 255 255) 32 (by decide))
  obtain ⟨-, -, -, -, hmerge⟩ := sibling?_exact (enclosing (.v4 255 255 255 254) 32 (by decide))
  obtain ⟨s, p, hs, -, -, hback, -, hp, hmem⟩ := hother (by decide)
  have hsibling : (enclosing (.v4 255 255 255 254) 32 (by decide)).sibling? =
      some (enclosing (.v4 255 255 255 255) 32 (by decide)) := by decide +kernel
  exact ⟨by decide, ⟨s, p, hs, hback, hp, (hmem _).2 (Or.inl (by decide))⟩, hsibling,
    (hmerge _ hsibling).trans (by decide)⟩

end Cidr.Network
