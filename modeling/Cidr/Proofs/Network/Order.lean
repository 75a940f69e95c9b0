import Cidr.Proofs.Network.Hierarchy
import Cidr.Proofs.Network.Record

/-!
# The order of networks and inclusion

Networks are in the order of their first addresses, and of those that begin at the
same address the larger one comes first.  So a network comes before all networks
inside it.  What comes between the two begins inside the larger one, and a network
that begins there and does not come before it cannot reach past its end, since
networks do not cross.  In a sorted list the networks inside another one therefore
stand side by side, and it is the first of them if it is in the list.

## Main results

* `Network.lt_iff`, `Network.compare_record` — what decides the order.
* `Network.Contains.lt` — a network comes before those inside it.
* `Network.Contains.of_le_of_le` — **what comes between a network and one inside it
  is inside it, too.**
* `Network.eq_append_subnets` — a sorted list, cut around the networks inside
  another one.
* `Network.order_inclusion_exact` — **the order goes with inclusion.**
-/

namespace Cidr.Network

variable {l m n : Network} {ns : List Network}

/-! ### The order by numbers -/

theorem lt_iff_start :
    m < n ↔ m.start < n.start ∨ m.start = n.start ∧ m.prefixLength < n.prefixLength := by
  change compare m n = .lt ↔ _
  rw [compare_eq_compare_start, Ordering.then_eq_lt, Nat.compare_eq_lt, Nat.compare_eq_eq,
    Nat.compare_eq_lt]

theorem le_iff_start :
    m ≤ n ↔ m.start < n.start ∨ m.start = n.start ∧ m.prefixLength ≤ n.prefixLength := by
  change (compare m n).isLE = true ↔ _
  rw [compare_eq_compare_start, Ordering.isLE_then_iff_or, Nat.compare_eq_lt, Nat.compare_eq_eq,
    Nat.isLE_compare]

/-- The addresses decide the order, and where they are the same the prefix lengths do. -/
theorem lt_iff :
    m < n ↔ m.address < n.address ∨ m.address = n.address ∧ m.prefixLength < n.prefixLength := by
  rw [lt_iff_start, Address.lt_iff_position_lt]
  exact or_congr_right (and_congr_left' ⟨Address.position_inj, congrArg Address.position⟩)

theorem not_lt_of_le (h : m ≤ n) : ¬ n < m := by
  rw [le_iff_start] at h
  rw [lt_iff_start]
  omega

theorem le_of_le_of_le (h : l ≤ m) (h' : m ≤ n) : l ≤ n := by
  rw [le_iff_start] at h h' ⊢
  omega

theorem le_of_not_lt (h : ¬ m < n) : n ≤ m := by
  rw [lt_iff_start] at h
  rw [le_iff_start]
  omega

theorem eq_of_le_of_le (h : m ≤ n) (h' : n ≤ m) : m = n := by
  rw [le_iff_start] at h h'
  exact ext (Address.position_inj (a := m.address) (b := n.address)
    (show m.start = n.start by omega)) (by omega)

/-! ### Inclusion and the order -/

theorem Contains.le (h : m.Contains n) : m ≤ n := by
  have hint := contains_iff_interval.1 h
  have hk := h.1
  rw [le_iff_start]
  omega

/-- **A network comes before all others inside it.** -/
theorem Contains.lt (h : m.Contains n) (hne : m ≠ n) : m < n := by
  by_contra hlt
  exact hne (eq_of_le_of_le h.le (le_of_not_lt hlt))

/-- **What comes between a network and one inside it is inside it, too.**  It begins inside, so that
the two are nested, and it is not the larger one, since this would come first. -/
theorem Contains.of_le_of_le (h : l.Contains n) (hlm : l ≤ m) (hmn : m ≤ n) : l.Contains m := by
  have hint := contains_iff_interval.1 h
  have hlt := n.start_lt_stop
  rw [le_iff_start] at hmn
  have hlm' := le_iff_start.1 hlm
  have hmem : m.address ∈ l := by
    rw [mem_iff_position]
    change l.start ≤ m.start ∧ m.start < l.stop
    omega
  rcases contains_or_contains hmem m.address_mem with hc | hc
  · exact hc
  · rw [eq_of_le_of_le hlm hc.le]
    exact .refl m

/-! ### Sorted lists -/

/-- What comes after a network, and is not inside it, is not followed by any that are. -/
theorem not_contains_of_le (hlm : l ≤ m) (hm : ¬ l.Contains m) (hmn : m ≤ n) : ¬ l.Contains n :=
  fun h => hm (h.of_le_of_le hlm hmn)

/-- **A sorted list is cut in three by a network:** the networks before it, those inside it, and
those after all of these. -/
theorem eq_append_subnets (hs : ns.Pairwise (· ≤ ·)) (m : Network) :
    ns = ns.filter (· < m) ++ ns.filter (m.Contains ·) ++
      ns.filter (fun n => ¬ n < m ∧ ¬ m.Contains n) := by
  induction ns with
  | nil => rfl
  | cons n ns ih =>
    obtain ⟨hn, hs⟩ := List.pairwise_cons.1 hs
    have ih := ih hs
    by_cases hlt : n < m
    · have hout : ¬ m.Contains n := fun h => not_lt_of_le h.le hlt
      simpa [hlt, hout] using ih
    -- from here on nothing comes before the network any more
    have hle : m ≤ n := le_of_not_lt hlt
    have hbefore : ns.filter (· < m) = [] := by
      rw [List.filter_eq_nil_iff]
      intro k hk
      simpa using not_lt_of_le (le_of_le_of_le hle (hn k hk))
    by_cases hin : m.Contains n
    · rw [hbefore] at ih
      simpa [hlt, hin, hbefore] using ih
    · have hinside : ns.filter (m.Contains ·) = [] := by
        rw [List.filter_eq_nil_iff]
        intro k hk
        simpa using not_contains_of_le hle hin (hn k hk)
      rw [hbefore, hinside] at ih
      simpa [hlt, hin, hbefore, hinside] using ih

/-- The first network inside one that is in the list is this one itself. -/
theorem head?_filter_contains (hs : ns.Pairwise (· ≤ ·)) (hm : m ∈ ns) :
    (ns.filter (m.Contains ·)).head? = some m := by
  have hmem : m ∈ ns.filter (m.Contains ·) := List.mem_filter.2 ⟨hm, by simpa using .refl m⟩
  have hsorted := hs.filter (m.Contains ·)
  cases hrun : ns.filter (m.Contains ·) with
  | nil =>
    rw [hrun] at hmem
    exact absurd hmem List.not_mem_nil
  | cons n rest =>
    have hn : n ∈ ns.filter (m.Contains ·) := hrun ▸ List.mem_cons_self
    have hmn : m ≤ n := Contains.le (by simpa using (List.mem_filter.1 hn).2)
    rw [hrun] at hmem hsorted
    rcases List.mem_cons.1 hmem with rfl | hrest
    · rfl
    · rw [eq_of_le_of_le hmn (List.rel_of_pairwise_cons hsorted hrest)]
      rfl

/-- **The order of networks goes with inclusion.**  The addresses decide, then the prefix lengths,
and the masks of the records never do.  A network comes before all others inside it, and what comes
between the two is inside it as well.  So a sorted list consists of the networks before a given one,
of all that are inside it, and of those behind; and if it is in the list itself, then those inside
it follow right after it. -/
theorem order_inclusion_exact :
    (∀ l m n : Network, l ≤ m → m ≤ n → l.Contains n → l.Contains m) ∧
    (∀ m n : Network, m.Contains n → m ≠ n → m < n) ∧
    (∀ m n : Network, m < n ↔
      m.address < n.address ∨ m.address = n.address ∧ m.prefixLength < n.prefixLength) ∧
    (∀ m n : Network, compare m.record n.record = compare m n) ∧
    ∀ ns : List Network, ns.Pairwise (· ≤ ·) → ∀ m : Network,
      ns = ns.filter (· < m) ++ ns.filter (m.Contains ·) ++
        ns.filter (fun n => ¬ n < m ∧ ¬ m.Contains n) ∧
      (m ∈ ns → (ns.filter (m.Contains ·)).head? = some m) := by
  refine ⟨?_, fun m n => Contains.lt, fun m n => lt_iff, Record.compare_record, ?_⟩
  · intro l m n hlm hmn h
    exact h.of_le_of_le hlm hmn
  · intro ns hs m
    exact ⟨eq_append_subnets hs m, head?_filter_contains hs⟩

/-- The networks `9.0.0.0/8`, `10.0.0.0/8`, `10.0.0.0/24`, `10.1.0.0/16` and `::/0`. -/
def inOrder : List Network :=
  [.enclosing (.v4 9 0 0 0) 8 (by decide), .enclosing (.v4 10 0 0 0) 8 (by decide),
    .enclosing (.v4 10 0 0 0) 24 (by decide), .enclosing (.v4 10 1 0 0) 16 (by decide),
    .enclosing (.ones .v6 0) 0 (by decide)]

/-- What is inside `10.0.0.0/8` stands right after it, and `10.0.0.0/24` is found to be inside
because it comes before `10.1.0.0/16`. -/
theorem order_inclusion_exact_of_sorted :
    inOrder.Pairwise (· ≤ ·) ∧
    (enclosing (.v4 10 0 0 0) 8 (by decide)).Contains (.enclosing (.v4 10 0 0 0) 24 (by decide)) ∧
    enclosing (.v4 10 0 0 0) 8 (by decide) < .enclosing (.v4 10 0 0 0) 24 (by decide) ∧
    (inOrder.filter ((enclosing (.v4 10 0 0 0) 8 (by decide)).Contains ·)).head? =
      some (.enclosing (.v4 10 0 0 0) 8 (by decide)) := by
  obtain ⟨hbetween, hlt, -, -, hsorted⟩ := order_inclusion_exact
  have hin := hbetween (.enclosing (.v4 10 0 0 0) 8 (by decide))
    (.enclosing (.v4 10 0 0 0) 24 (by decide)) (.enclosing (.v4 10 1 0 0) 16 (by decide))
    (by decide) (by decide) (by decide)
  exact ⟨by decide, hin, hlt _ _ hin (by decide), (hsorted inOrder (by decide) _).2 (by decide)⟩

end Cidr.Network
