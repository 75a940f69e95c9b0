import Cidr.Interface.History
import Cidr.Proofs.Network.History

/-!
# Interfaces are the same whichever way they come about

An interface that is put in a network keeps this network and looks at no mask of its
own, while an interface of an address with a prefix length makes a network around the
address.  Nevertheless both are the same: a network holds an address exactly if it is
the one that is made around it.  So the network of an interface can be made again
from its address and its prefix length, and these two determine the interface.

## Main results

* `Interface.Record.obtained_iff` — the records that come about are those of interfaces.
* `Network.mem_iff_clearAfter` — what it takes for a network to hold an address.
* `Interface.ofAddress_of_mem` — the network that holds an address is the one around it.
* `Interface.Record.obtained_consistent` — **interfaces are consistent, whichever way
  they come about.**
-/

namespace Cidr

namespace Network

variable {a : Address} {n : Network}

theorem prefixLength_le_of_family_eq (hf : n.family = a.family) :
    n.prefixLength ≤ a.family.bitWidth := by
  rw [← hf]
  exact n.prefixLength_le

/-- A network holds the addresses of its family that masking with its prefix length sends to its
own address. -/
theorem mem_iff_clearAfter :
    a ∈ n ↔ n.family = a.family ∧
      (a.clearAfter n.prefixLength).map Masked.result = .ok n.address := by
  have hmasked : n.family = a.family →
      (a.clearAfter n.prefixLength).map Masked.result = .ok (a.truncate n.prefixLength) := by
    intro hf
    obtain ⟨cleared, hclear⟩ := Address.clearAfter_eq_ok (prefixLength_le_of_family_eq hf)
    rw [hclear]
    rfl
  constructor
  · intro h
    have hf : n.family = a.family := (family_eq_of_mem h).symm
    exact ⟨hf, (hmasked hf).trans (congrArg Except.ok h)⟩
  · intro ⟨hf, h⟩
    exact Except.ok.inj ((hmasked hf).symm.trans h)

end Network

namespace Interface

variable {a : Address} {n : Network}

/-- **The network that holds an address is the one around it** with the same prefix length. -/
theorem ofAddress_of_mem (h : a ∈ n) : ofAddress a n.prefixLength = .ok ⟨a, n, h⟩ := by
  rw [ofAddress, dif_pos (Network.prefixLength_le_of_family_eq (Network.family_eq_of_mem h).symm)]
  exact congrArg Except.ok ((mk.injEq ..).mpr ⟨rfl, Network.ext h rfl⟩)

namespace Record

open Failure

/-! ### The records of interfaces -/

/-- **The records that come about are those of interfaces.** -/
theorem obtained_iff {i : Record} : Obtained i ↔ ∃ j : Interface, j.record = i := by
  have hof : ∀ {j? : Except Error Interface}, ofExcept (j?.map record) = .ok i →
      ∃ j : Interface, j.record = i := by
    intro j? h
    cases j? with
    | error e => cases h
    | ok j => exact ⟨j, Except.ok.inj h⟩
  constructor
  · intro h
    cases h with
    | ofAddress h => exact hof ((ofAddress_eq _ _).symm.trans h)
    | inNetwork hr h =>
      obtain ⟨n, rfl⟩ := Network.Record.reachable_iff.1 hr
      exact hof ((inNetwork_record _ n).symm.trans h)
    | host hr h =>
      obtain ⟨n, rfl⟩ := Network.Record.reachable_iff.1 hr
      rw [host?_record] at h
      obtain ⟨j, -, hj⟩ := Option.map_eq_some_iff.1 (Except.ok.inj h)
      exact ⟨j, hj⟩
    | parse h => exact hof ((parse_eq _).symm.trans h)
  · rintro ⟨⟨a, n, hmem⟩, rfl⟩
    refine .inNetwork (Network.Record.reachable_iff.2 ⟨n, rfl⟩) (a := a) ?_
    rw [inNetwork_record, Interface.inNetwork, dif_pos hmem]
    rfl

/-- The network of an interface is the one around its address. -/
theorem containing_address {i : Record} (h : Obtained i) :
    Network.Record.containing i.address i.prefixLength = .ok i.network := by
  obtain ⟨j, rfl⟩ := obtained_iff.1 h
  rw [Network.Record.containing_eq]
  change ofExcept ((Network.containing j.address j.network.prefixLength).map _) = _
  rw [Network.containing_eq_ok_iff.2 ⟨j.address_mem.symm, rfl⟩]
  rfl

/-- Address and prefix length determine an interface. -/
theorem Obtained.eq_iff {i j : Record} (hi : Obtained i) (hj : Obtained j) :
    i = j ↔ i.address = j.address ∧ i.prefixLength = j.prefixLength := by
  constructor
  · rintro rfl
    exact ⟨rfl, rfl⟩
  · rintro ⟨ha, hk⟩
    have hi' := containing_address hi
    rw [ha, hk, containing_address hj] at hi'
    cases i
    cases j
    simp_all

/-! ### Networks that hold an address -/

/-- An address is put in the networks that hold it, with the same result as around the address. -/
theorem inNetwork_of_mem (h : a ∈ n) :
    inNetwork a n.record = .ok (Interface.mk a n h).record ∧
      ofAddress a n.record.prefixLength = .ok (Interface.mk a n h).record := by
  constructor
  · rw [inNetwork_record, Interface.inNetwork, dif_pos h]
    rfl
  · change ofAddress a n.prefixLength = _
    rw [ofAddress_eq, ofAddress_of_mem h]
    rfl

theorem inNetwork_of_not_mem (h : a ∉ n) :
    inNetwork a n.record = .error (.refused (.outsideNetwork (toString a) (toString n))) := by
  rw [inNetwork_record, Interface.inNetwork, dif_neg h]
  rfl

theorem exists_inNetwork_iff : (∃ i, inNetwork a n.record = .ok i) ↔ a ∈ n := by
  constructor
  · rintro ⟨i, hi⟩
    by_contra h
    rw [inNetwork_of_not_mem h] at hi
    cases hi
  · intro h
    exact ⟨_, (inNetwork_of_mem h).1⟩

/-- **Interfaces are consistent, whichever way they come about.**  An address is put in a network
exactly if both are of one family and masking the address with the prefix length of the network
gives the address of the network.  The interface is then the same as the one of the address with
that prefix length; otherwise the refusal names the address and the network.  The prefix length of
each interface is that of its network, which holds its address and is the one that is made around
it.  So two interfaces are the same exactly if their addresses and prefix lengths are.  The records
are those of the interfaces that come about in the same ways. -/
theorem obtained_consistent :
    (∀ (a : Address) (r : Network.Record), r.Reachable →
      ((∃ i, inNetwork a r = .ok i) ↔
        r.family = a.family ∧ (a.clearAfter r.prefixLength).map Masked.result = .ok r.address) ∧
      (∀ i, inNetwork a r = .ok i → ofAddress a r.prefixLength = .ok i) ∧
      ((¬ ∃ i, inNetwork a r = .ok i) →
        inNetwork a r = .error (.refused (.outsideNetwork (toString a) (toString r))))) ∧
    (∀ i, Obtained i →
      i.prefixLength = i.network.prefixLength ∧ i.network.Holds i.address ∧
      Network.Record.containing i.address i.prefixLength = .ok i.network) ∧
    (∀ i j, Obtained i → Obtained j →
      (i = j ↔ i.address = j.address ∧ i.prefixLength = j.prefixLength)) ∧
    (∀ a k, ofAddress a k = ofExcept ((Interface.ofAddress a k).map record)) ∧
    (∀ a n, inNetwork a n.record = ofExcept ((Interface.inNetwork a n).map record)) ∧
    (∀ n k, host? n.record k = .ok ((Walk.item? k (hosts n)).map record)) ∧
    ∀ s, parse s = ofExcept ((Interface.parse s).map record) := by
  refine ⟨?_, ?_, fun i j => Obtained.eq_iff, ofAddress_eq, inNetwork_record, host?_record,
    parse_eq⟩
  · intro a r hr
    obtain ⟨n, rfl⟩ := Network.Record.reachable_iff.1 hr
    refine ⟨exists_inNetwork_iff.trans Network.mem_iff_clearAfter, ?_, ?_⟩
    · intro i hi
      have hmem : a ∈ n := exists_inNetwork_iff.1 ⟨i, hi⟩
      obtain ⟨hin, hof⟩ := inNetwork_of_mem hmem
      exact hof.trans (hin.symm.trans hi)
    · intro hnone
      exact inNetwork_of_not_mem fun hmem => hnone (exists_inNetwork_iff.2 hmem)
  · intro i hi
    refine ⟨?_, ?_, containing_address hi⟩
    · obtain ⟨j, rfl⟩ := obtained_iff.1 hi
      rfl
    · obtain ⟨j, rfl⟩ := obtained_iff.1 hi
      exact Network.Record.holds_record_iff.2 j.address_mem

/-- The interface of 192.0.2.77 in 192.0.2.64/26 is the one that the text names, and 192.0.2.7 has
no interface in this network. -/
theorem obtained_consistent_of_quarter :
    ∃ i j : Record, ∃ r : Network.Record, r.Reachable ∧
      inNetwork (.v4 192 0 2 77) r = .ok i ∧ parse "192.0.2.77/26" = .ok j ∧ i = j ∧
      ofAddress (.v4 192 0 2 77) r.prefixLength = .ok i ∧
      i.prefixLength = r.prefixLength ∧ r.Holds i.address ∧
      inNetwork (.v4 192 0 2 7) r =
        .error (.refused (.outsideNetwork "192.0.2.7" "192.0.2.64/26")) := by
  let r : Network.Record := ⟨.v4 192 0 2 64, 26, .v4 255 255 255 192⟩
  have hr : r.Reachable :=
    ⟨[.ofAddress (.v4 192 0 2 64) 26], [r], by decide +kernel, List.mem_singleton_self r⟩
  have hin : inNetwork (.v4 192 0 2 77) r = .ok ⟨.v4 192 0 2 77, 26, r⟩ := by decide +kernel
  have hparse : parse "192.0.2.77/26" = .ok ⟨.v4 192 0 2 77, 26, r⟩ := by decide +kernel
  have hout : ¬ ∃ i, inNetwork (.v4 192 0 2 7) r = .ok i := by
    rintro ⟨i, hi⟩
    rw [inNetwork, if_neg (by decide +kernel)] at hi
    cases hi
  obtain ⟨hnetwork, hobtained, heq, -⟩ := obtained_consistent
  obtain ⟨hlength, hholds, -⟩ := hobtained _ (.inNetwork hr hin)
  exact ⟨_, _, r, hr, hin, hparse,
    (heq _ _ (.inNetwork hr hin) (.parse hparse)).2 ⟨rfl, rfl⟩,
    (hnetwork _ r hr).2.1 _ hin, hlength, hholds,
    ((hnetwork _ r hr).2.2 hout).trans (by decide +kernel)⟩

end Record

end Interface

end Cidr
