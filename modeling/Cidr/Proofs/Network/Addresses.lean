import Cidr.Network.Addresses
import Cidr.Proofs.Network.Region
import Mathlib.Data.List.Basic

/-!
# Walks over addresses

A walk from a first to a last address gives out the positions between them one
after the other.  It looks for a next address only before the last one, where
there is one.  So what a walk between two addresses of a network gives out is in
the network, and the hosts of a network are.

## Main results

* `AddressWalk.item?_between` — **the addresses of a walk and their places in it.**
* `AddressWalk.yields_between_iff` — **all addresses of a walk,** told by their
  positions; `AddressWalk.yields_tail` and `AddressWalk.yields_dropLast` for the
  walks that begin one address later, or end one earlier.
* `Network.succ?_address`, `Network.pred?_lastAddress` — a network of more than
  two addresses has a second one and a last but one.
* `Network.mem_of_item?_hosts` — the hosts of a network are in it.
-/

namespace Cidr

namespace AddressWalk

variable {first last a : Address}

theorem item?_of_upcoming_eq_none (k : Nat) (last : Address) :
    Walk.item? k (AddressWalk.mk none last) = none :=
  Walk.item?_of_next?_eq_none rfl k

/-- A walk that has not ended gives out the positions up to the last one. -/
theorem item?_eq_some_iff (hf : first.family = last.family) (hle : first.position ≤ last.position)
    (k : Nat) : Walk.item? k (AddressWalk.mk (some first) last) = some a ↔
      a.position = first.position + k ∧ a.position ≤ last.position := by
  induction k generalizing first with
  | zero =>
    change some first = some a ↔ _
    rw [Option.some_inj, Nat.add_zero]
    refine ⟨?_, fun h => (Address.position_inj h.1).symm⟩
    rintro rfl
    exact ⟨rfl, hle⟩
  | succ k ih =>
    change Walk.item? k (AddressWalk.mk (if first = last then none else first.succ?) last) = _ ↔ _
    by_cases heq : first = last
    · rw [if_pos heq, item?_of_upcoming_eq_none, heq]
      exact iff_of_false nofun (by omega)
    · have hlt : first.position < last.position :=
        Nat.lt_of_le_of_ne hle fun h => heq (Address.position_inj h)
      have htop := last.position_lt
      obtain ⟨b, hbf, hb⟩ := Address.exists_position_eq (f := first.family)
        (p := first.position + 1) (Nat.le_succ_of_le first.base_le_position) (by rw [hf]; omega)
      rw [if_neg heq, Address.succ?_eq_some_iff_position.2 ⟨hbf, hb⟩,
        ih (hbf.trans hf) (by omega), hb]
      omega

/-- **The addresses of a walk and their places in it.**  There are none if the last address comes
before the first one. -/
theorem item?_between (hf : first.family = last.family) (k : Nat) :
    Walk.item? k (between first last) = some a ↔
      a.position = first.position + k ∧ a.position ≤ last.position := by
  rw [between]
  by_cases hlt : last < first
  · rw [if_pos hlt, item?_of_upcoming_eq_none]
    rw [Address.lt_iff_position_lt] at hlt
    exact iff_of_false nofun (by omega)
  · rw [if_neg hlt]
    rw [Address.lt_iff_position_lt, Nat.not_lt] at hlt
    exact item?_eq_some_iff hf hlt k

theorem exists_item?_between (hf : first.family = last.family) {k : Nat}
    (hk : first.position + k ≤ last.position) : ∃ a, Walk.item? k (between first last) = some a := by
  have hbase := first.base_le_position
  have htop := last.position_lt
  obtain ⟨a, -, ha⟩ := Address.exists_position_eq (f := first.family) (p := first.position + k)
    (by omega) (by rw [hf]; omega)
  exact ⟨a, (item?_between hf k).2 (by omega)⟩

theorem item?_between_eq_none (hf : first.family = last.family) {k : Nat}
    (hk : last.position < first.position + k) : Walk.item? k (between first last) = none := by
  rw [Option.eq_none_iff_forall_ne_some]
  intro a ha
  have := (item?_between hf k).1 ha
  omega

/-! ### Sequences -/

variable {as : List Address}

theorem exists_yields_between (hf : first.family = last.family) :
    ∃ as, Walk.Yields (between first last) as :=
  ⟨_, Walk.yields_take (item?_between_eq_none (k := last.position + 1) hf (by omega))⟩

/-- **All addresses of a walk, told by their positions:** they are those from the first to the last
one, in order and without a gap. -/
theorem yields_between_iff (hf : first.family = last.family) :
    Walk.Yields (between first last) as ↔ as.map Address.position =
      List.range' first.position (last.position + 1 - first.position) := by
  rw [Walk.yields_iff_item?, List.ext_getElem?_iff]
  refine forall_congr' ?_
  intro k
  rw [List.getElem?_map]
  rcases Nat.lt_or_ge last.position (first.position + k) with hk | hk
  · have hrange : (List.range' first.position (last.position + 1 - first.position))[k]? = none :=
      List.getElem?_eq_none (by rw [List.length_range']; omega)
    rw [item?_between_eq_none hf hk, hrange, Option.map_eq_none_iff, eq_comm]
  · obtain ⟨a, ha⟩ := exists_item?_between hf hk
    obtain ⟨hpos, -⟩ := (item?_between hf k).1 ha
    rw [ha, List.getElem?_range' (by omega), Nat.one_mul, ← hpos, Option.map_eq_some_iff, eq_comm]
    constructor
    · intro h
      exact ⟨a, h, rfl⟩
    · rintro ⟨b, hb, heq⟩
      rw [hb, Address.position_inj heq]

theorem mem_of_yields_between (hf : first.family = last.family)
    (h : Walk.Yields (between first last) as) :
    a ∈ as ↔ first.position ≤ a.position ∧ a.position ≤ last.position := by
  rw [← List.mem_map_of_injective (f := Address.position) fun _ _ => Address.position_inj,
    (yields_between_iff hf).1 h, List.mem_range'_1]
  omega

/-- A walk that gives out addresses begins and ends where it should. -/
theorem ends_of_yields_between (hf : first.family = last.family)
    (hle : first.position ≤ last.position) (h : Walk.Yields (between first last) as) :
    as.head? = some first ∧ as.getLast? = some last := by
  have hmap := (yields_between_iff hf).1 h
  have hinj : Function.Injective (Option.map Address.position) :=
    Option.map_injective fun _ _ => Address.position_inj
  constructor
  · refine hinj ?_
    rw [← List.head?_map, hmap, List.head?_range', if_neg (by omega)]
    rfl
  · refine hinj ?_
    rw [← List.getLast?_map, hmap, List.getLast?_range', if_neg (by omega)]
    exact congrArg some (by omega)

/-- The walk that begins one address later leaves out the first address. -/
theorem yields_tail (hf : first.family = last.family) (ha : first.succ? = some a)
    (h : Walk.Yields (between first last) as) : Walk.Yields (between a last) as.tail := by
  obtain ⟨haf, hpos⟩ := Address.succ?_eq_some_iff_position.1 ha
  rw [yields_between_iff (haf.trans hf), List.map_tail, (yields_between_iff hf).1 h,
    List.tail_range', hpos, Nat.sub_sub]

/-- The walk that ends one address earlier leaves out the last address. -/
theorem yields_dropLast (hf : first.family = last.family) (ha : last.pred? = some a)
    (h : Walk.Yields (between first last) as) : Walk.Yields (between first a) as.dropLast := by
  obtain ⟨haf, hpos⟩ := Address.pred?_eq_some_iff_position.1 ha
  rw [yields_between_iff (hf.trans haf.symm), List.map_dropLast, (yields_between_iff hf).1 h, hpos]
  rcases Nat.lt_or_ge last.position first.position with hlt | hle
  · rw [Nat.sub_eq_zero_of_le hlt, Nat.sub_eq_zero_of_le (Nat.le_of_lt hlt)]
    rfl
  · rw [Nat.sub_add_comm hle, List.range'_concat, List.dropLast_concat]

end AddressWalk

namespace Network

variable {n : Network}

/-! ### The second address and the last but one -/

theorem exists_succ?_address (h : 1 < n.hostBits) : ∃ a ∈ n, n.address.succ? = some a := by
  have hpow : 2 ^ 2 ≤ 2 ^ n.hostBits := Nat.pow_le_pow_right (by decide) h
  obtain ⟨a, ha, hpos⟩ := exists_mem_position_eq (n := n) (p := n.start + 1) (by omega)
    (by rw [stop]; omega)
  exact ⟨a, ha, Address.succ?_eq_some_iff_position.2 ⟨family_eq_of_mem ha, hpos⟩⟩

theorem exists_pred?_lastAddress (h : 1 < n.hostBits) :
    ∃ a ∈ n, n.lastAddress.pred? = some a := by
  have hpow : 2 ^ 2 ≤ 2 ^ n.hostBits := Nat.pow_le_pow_right (by decide) h
  have hlast := n.position_lastAddress
  obtain ⟨a, ha, hpos⟩ := exists_mem_position_eq (n := n) (p := n.stop - 2)
    (by rw [stop]; omega) (by rw [stop]; omega)
  exact ⟨a, ha, Address.pred?_eq_some_iff_position.2
    ⟨family_eq_of_mem ha, by rw [stop] at *; omega⟩⟩

theorem succ?_address (h : 1 < n.hostBits) : n.address.succ? = some n.secondAddress := by
  obtain ⟨a, -, ha⟩ := exists_succ?_address h
  rw [secondAddress, ha, Option.getD_some]

theorem secondAddress_mem (h : 1 < n.hostBits) : n.secondAddress ∈ n := by
  obtain ⟨a, hmem, ha⟩ := exists_succ?_address h
  rw [secondAddress, ha]
  exact hmem

theorem pred?_lastAddress (h : 1 < n.hostBits) :
    n.lastAddress.pred? = some n.secondLastAddress := by
  obtain ⟨a, -, ha⟩ := exists_pred?_lastAddress h
  rw [secondLastAddress, ha, Option.getD_some]

theorem secondLastAddress_mem (h : 1 < n.hostBits) : n.secondLastAddress ∈ n := by
  obtain ⟨a, hmem, ha⟩ := exists_pred?_lastAddress h
  rw [secondLastAddress, ha]
  exact hmem

/-! ### Hosts -/

theorem lastHost_mem (n : Network) : n.lastHost ∈ n := by
  rw [lastHost]
  split_ifs with h
  · exact secondLastAddress_mem h.2
  · exact n.lastAddress_mem

theorem mem_of_item?_between {first last a : Address} {k : Nat} (hfirst : first ∈ n)
    (hlast : last ∈ n) (h : Walk.item? k (AddressWalk.between first last) = some a) : a ∈ n := by
  have hf : first.family = last.family :=
    (family_eq_of_mem hfirst).trans (family_eq_of_mem hlast).symm
  obtain ⟨hpos, hle⟩ := (AddressWalk.item?_between hf k).1 h
  rw [mem_iff_position] at *
  omega

/-- The hosts of a network are in it. -/
theorem mem_of_item?_hosts {a : Address} {k : Nat} (h : Walk.item? k n.hosts = some a) :
    a ∈ n := by
  refine mem_of_item?_between ?_ n.lastHost_mem h
  split_ifs with hbits
  · exact n.address_mem
  · exact secondAddress_mem (Nat.not_le.1 hbits)

end Network

end Cidr
