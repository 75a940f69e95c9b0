import Cidr.NetworkSet.Basic
import Cidr.Proofs.Network.Region
import Mathlib.Data.List.Nodup

/-!
# Networks filed by address

A network set is used as a map ordered by addresses.  What is said here of the
access to it holds as long as every network is filed at its own address and the
addresses ascend.

## Main definitions

* `NetworkSet.Filed` — every network is filed at its own address, in order.

## Main results

* `NetworkSet.Filed.find?_eq_some_iff`, `NetworkSet.Filed.exists_floor?` — what
  is found at an address, and before it.
* `NetworkSet.Filed.mem_place`, `NetworkSet.Filed.place` — what placing adds,
  and that it keeps the order.
-/

namespace Cidr.NetworkSet

theorem mem_iff {s : NetworkSet} {a : Address} : a ∈ s ↔ ∃ n ∈ s.networks, a ∈ n := Iff.rfl

/-- Every network is filed at its own address, and the addresses ascend. -/
structure Filed (s : NetworkSet) : Prop where
  keyed : ∀ e ∈ s.entries, e.1 = e.2.address
  ascending : s.entries.Pairwise fun d e => d.1 < e.1

namespace Filed

variable {s t : NetworkSet} {a : Address} {m n : Network}

theorem mem_networks_iff (hs : Filed s) : n ∈ s.networks ↔ (n.address, n) ∈ s.entries := by
  rw [networks, List.mem_map]
  constructor
  · rintro ⟨⟨k, n⟩, he, rfl⟩
    obtain rfl : k = n.address := hs.keyed _ he
    exact he
  · intro h
    exact ⟨_, h, rfl⟩

theorem of_sublist (hs : Filed s) (h : t.entries.Sublist s.entries) : Filed t where
  keyed e he := hs.keyed e (h.subset he)
  ascending := hs.ascending.sublist h

theorem map_address (hs : Filed s) : s.networks.map Network.address = s.entries.map Prod.fst := by
  rw [networks, List.map_map]
  refine List.map_congr_left ?_
  intro e he
  exact (hs.keyed e he).symm

/-- No two networks are filed at one address. -/
theorem nodup_keys (hs : Filed s) : (s.entries.map Prod.fst).Nodup := by
  rw [List.Nodup, List.pairwise_map]
  refine hs.ascending.imp ?_
  intro d e hlt heq
  rw [Address.lt_iff_position_lt, heq] at hlt
  exact Nat.lt_irrefl _ hlt

theorem nodup_entries (hs : Filed s) : s.entries.Nodup := hs.nodup_keys.of_map

theorem nodup_networks (hs : Filed s) : s.networks.Nodup :=
  List.Nodup.of_map Network.address (hs.map_address ▸ hs.nodup_keys)

theorem eq_of_address_eq (hs : Filed s) (hm : m ∈ s.networks) (hn : n ∈ s.networks)
    (h : m.address = n.address) : m = n := by
  have hkeys : (s.networks.map Network.address).Nodup := hs.map_address ▸ hs.nodup_keys
  exact List.inj_on_of_nodup_map hkeys hm hn h

/-! ### Looking up -/

theorem find?_eq_some_iff (hs : Filed s) :
    s.find? a = some n ↔ n ∈ s.networks ∧ n.address = a := by
  rw [find?, Option.map_eq_some_iff]
  constructor
  · rintro ⟨e, he, rfl⟩
    have hmem := List.mem_of_find?_eq_some he
    have ha : e.1 = a := by simpa using List.find?_some he
    exact ⟨List.mem_map_of_mem hmem, by rw [← hs.keyed e hmem, ha]⟩
  · rintro ⟨hn, rfl⟩
    cases hfind : s.entries.find? fun e => e.1 = n.address with
    | none =>
      have := List.find?_eq_none.1 hfind _ (hs.mem_networks_iff.1 hn)
      simp at this
    | some e =>
      have hmem := List.mem_of_find?_eq_some hfind
      have ha : e.1 = n.address := by simpa using List.find?_some hfind
      refine ⟨e, rfl, hs.eq_of_address_eq (List.mem_map_of_mem hmem) hn ?_⟩
      rw [← hs.keyed e hmem, ha]

/-- What is found at an address or before it is in the set. -/
theorem mem_of_floor? (h : s.floor? a = some n) : n ∈ s.networks := by
  obtain ⟨e, he, rfl⟩ := Option.map_eq_some_iff.1 h
  have hmem := List.mem_of_getLast? he
  exact List.mem_map_of_mem (List.mem_filter.1 hmem).1

/-- **What is found before an address is the closest network.** -/
theorem exists_floor? (hs : Filed s) (hm : m ∈ s.networks) (ha : m.address ≤ a) :
    ∃ n, s.floor? a = some n ∧ m.address ≤ n.address ∧ n.address ≤ a := by
  have hmem : (m.address, m) ∈ s.entries.filter fun e => e.1 ≤ a :=
    List.mem_filter.2 ⟨hs.mem_networks_iff.1 hm, by simpa using ha⟩
  obtain ⟨e, he⟩ : ∃ e, (s.entries.filter fun e => e.1 ≤ a).getLast? = some e := by
    cases hl : (s.entries.filter fun e => e.1 ≤ a).getLast? with
    | none =>
      rw [List.getLast?_eq_none_iff] at hl
      simp [hl] at hmem
    | some e => exact ⟨e, rfl⟩
  obtain ⟨he', hle⟩ := List.mem_filter.1 (List.mem_of_getLast? he)
  refine ⟨e.2, by rw [floor?, he]; rfl, ?_, ?_⟩
  · -- all others stand before the last one
    obtain ⟨es, hes⟩ := List.getLast?_eq_some_iff.1 he
    have hasc := hs.ascending.filter fun e => e.1 ≤ a
    rw [hes, List.pairwise_append] at hasc
    rw [hes, List.mem_append, List.mem_singleton] at hmem
    rw [← hs.keyed e he']
    rcases hmem with h | h
    · have hlt := hasc.2.2 _ h e (List.mem_singleton_self e)
      rw [Address.lt_iff_position_lt] at hlt
      rw [Address.le_iff_position_le]
      exact Nat.le_of_lt hlt
    · rw [← h, Address.le_iff_position_le]
  · rw [← hs.keyed e he']
    simpa using hle

/-! ### Removing -/

theorem eraseBetween (hs : Filed s) (first last : Address) : Filed (s.eraseBetween first last) :=
  hs.of_sublist List.filter_sublist

theorem erase (hs : Filed s) (a : Address) : Filed (s.erase a) :=
  hs.of_sublist List.filter_sublist

theorem mem_eraseBetween (hs : Filed s) {first last : Address} :
    n ∈ (s.eraseBetween first last).networks ↔
      n ∈ s.networks ∧ ¬ (first ≤ n.address ∧ n.address ≤ last) := by
  rw [(hs.eraseBetween first last).mem_networks_iff, hs.mem_networks_iff, NetworkSet.eraseBetween,
    List.mem_filter, decide_eq_true_iff]

theorem mem_erase (hs : Filed s) :
    n ∈ (s.erase a).networks ↔ n ∈ s.networks ∧ n.address ≠ a := by
  rw [(hs.erase a).mem_networks_iff, hs.mem_networks_iff, NetworkSet.erase, List.mem_filter,
    decide_eq_true_iff]

/-! ### Placing -/

theorem mem_placeIn {es : List (Address × Network)} (hes : es.Pairwise fun d e => d.1 < e.1)
    (e : Address × Network) : e ∈ placeIn a n es ↔ e = (a, n) ∨ e ∈ es ∧ e.1 ≠ a := by
  induction es with
  | nil => simp [placeIn]
  | cons d es ih =>
    obtain ⟨hd, hes⟩ := List.pairwise_cons.1 hes
    have hlater : ∀ c ∈ es, d.1.position < c.1.position := by
      intro c hc
      exact Address.lt_iff_position_lt.1 (hd c hc)
    have hne : ∀ {c : Address × Network}, a.position ≠ c.1.position → c.1 ≠ a := by
      rintro c h rfl
      exact h rfl
    rw [placeIn]
    split
    · next h =>
      -- all keys come after the new one
      rw [Address.compare_eq_compare_position, Nat.compare_eq_lt] at h
      have hall : ∀ c ∈ d :: es, c.1 ≠ a := by
        intro c hc
        rcases List.mem_cons.1 hc with rfl | hc
        · exact hne (by omega)
        · have hlt := hlater c hc
          exact hne (by omega)
      rw [List.mem_cons]
      exact or_congr_right ⟨fun h => ⟨h, hall e h⟩, And.left⟩
    · next h =>
      rw [Address.compare_eq_compare_position, Nat.compare_eq_eq] at h
      obtain rfl := Address.position_inj h
      -- what was filed here goes, and nothing else is filed here
      have hall : ∀ c ∈ es, c.1 ≠ d.1 := by
        intro c hc
        have hlt := hlater c hc
        exact hne (by omega)
      rw [List.mem_cons, List.mem_cons]
      constructor
      · rintro (h | h)
        · exact Or.inl h
        · exact Or.inr ⟨Or.inr h, hall e h⟩
      · rintro (h | ⟨rfl | h, hkey⟩)
        · exact Or.inl h
        · exact absurd rfl hkey
        · exact Or.inr h
    · next h =>
      rw [Address.compare_eq_compare_position, Nat.compare_eq_gt] at h
      have hd : d.1 ≠ a := hne (by omega)
      rw [List.mem_cons, List.mem_cons, ih hes]
      constructor
      · rintro (rfl | h | ⟨h, hkey⟩)
        · exact Or.inr ⟨Or.inl rfl, hd⟩
        · exact Or.inl h
        · exact Or.inr ⟨Or.inr h, hkey⟩
      · rintro (h | ⟨rfl | h, hkey⟩)
        · exact Or.inr (Or.inl h)
        · exact Or.inl rfl
        · exact Or.inr (Or.inr ⟨h, hkey⟩)

theorem pairwise_placeIn {es : List (Address × Network)}
    (hes : es.Pairwise fun d e => d.1 < e.1) :
    (placeIn a n es).Pairwise fun d e => d.1 < e.1 := by
  induction es with
  | nil => exact List.pairwise_singleton _ _
  | cons d es ih =>
    obtain ⟨hd, hes'⟩ := List.pairwise_cons.1 hes
    rw [placeIn]
    split
    · next h =>
      refine List.pairwise_cons.2 ⟨?_, hes⟩
      intro c hc
      have hac : a < d.1 := h
      rw [Address.lt_iff_position_lt] at hac ⊢
      rcases List.mem_cons.1 hc with rfl | hc
      · exact hac
      · exact Nat.lt_trans hac (Address.lt_iff_position_lt.1 (hd c hc))
    · exact List.pairwise_cons.2 ⟨hd, hes'⟩
    · next h =>
      rw [Address.compare_eq_compare_position, Nat.compare_eq_gt] at h
      refine List.pairwise_cons.2 ⟨?_, ih hes'⟩
      intro c hc
      rcases (mem_placeIn hes' c).1 hc with rfl | ⟨hc, -⟩
      · exact Address.lt_iff_position_lt.2 h
      · exact hd c hc

theorem place (hs : Filed s) (n : Network) : Filed (s.place n) where
  keyed e he := by
    rcases (mem_placeIn hs.ascending e).1 he with rfl | ⟨he, -⟩
    · rfl
    · exact hs.keyed e he
  ascending := pairwise_placeIn hs.ascending

/-- **Placing a network adds it,** instead of one that begins at the same address. -/
theorem mem_place (hs : Filed s) :
    m ∈ (s.place n).networks ↔ m = n ∨ m ∈ s.networks ∧ m.address ≠ n.address := by
  rw [(hs.place n).mem_networks_iff, hs.mem_networks_iff, NetworkSet.place,
    mem_placeIn hs.ascending, Prod.mk.injEq]
  exact or_congr_left ⟨And.right, fun h => ⟨congrArg Network.address h, h⟩⟩

end Filed

end Cidr.NetworkSet
