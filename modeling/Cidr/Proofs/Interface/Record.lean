import Cidr.Interface.Record
import Cidr.Proofs.Network.Record

/-!
# Records of interfaces are interfaces

An interface is made of an address and a network that holds it, whichever way it
is made: the network is put around the address, tested for it, or gives the
address out itself.

## Main results

* `Interface.item?_hosts` — the interfaces of a network and its host addresses.
* `Interface.Record.ofAddress_eq`, `Interface.Record.inNetwork_record`,
  `Interface.Record.host?_record` — **the operations agree.**
-/

namespace Cidr.Interface

/-! ### Hosts of a network -/

theorem next?_eq_some {n : Network} {w rest : AddressWalk} {a : Address}
    (hw : w.next? = some (a, rest)) (ha : a ∈ n) :
    Hosts.next? ⟨n, w⟩ = some (⟨a, n, ha⟩, ⟨n, rest⟩) := by
  rw [Hosts.next?]
  simp only [hw, Option.bind_eq_bind, Option.bind_some]
  exact dif_pos ha

theorem next?_eq_none {n : Network} {w : AddressWalk} (hw : w.next? = none) :
    Hosts.next? ⟨n, w⟩ = none := by
  rw [Hosts.next?]
  simp only [hw, Option.bind_eq_bind, Option.bind_none]

/-- Where all addresses that are still to come are in the network, one interface is given out for
each. -/
theorem item?_eq_some_iff {n : Network} {w : AddressWalk} {i : Interface}
    (hin : ∀ k a, Walk.item? k w = some a → a ∈ n) (k : Nat) :
    Walk.item? k (Hosts.mk n w) = some i ↔ Walk.item? k w = some i.address ∧ i.network = n := by
  induction k generalizing w with
  | zero =>
    change (Hosts.next? ⟨n, w⟩).map Prod.fst = _ ↔ w.next?.map Prod.fst = _ ∧ _
    cases hw : w.next? with
    | none => simp [next?_eq_none hw]
    | some e =>
      have hmem : e.1 ∈ n := hin 0 e.1 (congrArg (Option.map Prod.fst) hw)
      rw [next?_eq_some hw hmem, Option.map_some, Option.map_some, Option.some_inj, Option.some_inj]
      constructor
      · rintro rfl
        exact ⟨rfl, rfl⟩
      · obtain ⟨a, m, ha⟩ := i
        rintro ⟨rfl, rfl⟩
        rfl
  | succ k ih =>
    change ((Hosts.next? ⟨n, w⟩).bind fun e => Walk.item? k e.2) = _ ↔
      (w.next?.bind fun e => Walk.item? k e.2) = _ ∧ _
    cases hw : w.next? with
    | none => simp [next?_eq_none hw]
    | some e =>
      have hmem : e.1 ∈ n := hin 0 e.1 (congrArg (Option.map Prod.fst) hw)
      have hrest : ∀ k a, Walk.item? k e.2 = some a → a ∈ n := by
        intro k a h
        refine hin (k + 1) a ?_
        change (w.next?.bind fun e => Walk.item? k e.2) = _
        rw [hw]
        exact h
      rw [next?_eq_some hw hmem]
      exact ih hrest

/-- **The interfaces of a network are its host addresses,** in the same order. -/
theorem item?_hosts {n : Network} {i : Interface} (k : Nat) :
    Walk.item? k (hosts n) = some i ↔ Walk.item? k n.hosts = some i.address ∧ i.network = n :=
  item?_eq_some_iff (fun _ _ => Network.mem_of_item?_hosts) k

namespace Record

open Failure

variable {n : Network} {a : Address}

/-! ### Records -/

theorem associate_record (h : a ∈ n) :
    associate a n.record = .ok (Interface.mk a n h).record :=
  if_pos (Network.Record.holds_record_iff.2 h)

theorem ofAddress_eq (a : Address) (k : Nat) :
    ofAddress a k = ofExcept ((Interface.ofAddress a k).map record) := by
  rw [ofAddress, Network.Record.containing_eq, Network.containing, Interface.ofAddress]
  split_ifs with hk
  · exact associate_record (Network.mem_enclosing a k hk)
  · rfl

theorem parse_eq (s : String) : parse s = ofExcept ((Interface.parse s).map record) := by
  unfold parse Interface.parse
  cases Prefixed.parse s with
  | error e => rfl
  | ok p => exact ofAddress_eq p.address p.prefixLength

theorem inNetwork_record (a : Address) (n : Network) :
    inNetwork a n.record = ofExcept ((Interface.inNetwork a n).map record) := by
  rw [inNetwork, Interface.inNetwork]
  by_cases h : a ∈ n
  · rw [if_pos (Network.Record.holds_record_iff.2 h), dif_pos h, associate_record h]
    rfl
  · rw [if_neg fun h' => h (Network.Record.holds_record_iff.1 h'), dif_neg h]
    rfl

theorem host?_record (n : Network) (k : Nat) :
    host? n.record k = .ok ((Walk.item? k (hosts n)).map record) := by
  rw [host?, Network.Record.hosts_record, ok_bind]
  cases ha : Walk.item? k n.hosts with
  | none =>
    have hnone : Walk.item? k (hosts n) = none := by
      rw [Option.eq_none_iff_forall_ne_some]
      intro i hi
      exact absurd (ha.symm.trans ((item?_hosts k).1 hi).1) nofun
    rw [hnone]
    rfl
  | some a =>
    have hmem : a ∈ n := Network.mem_of_item?_hosts ha
    have hsome : Walk.item? k (hosts n) = some ⟨a, n, hmem⟩ := (item?_hosts k).2 ⟨ha, rfl⟩
    change (associate a n.record >>= _) = _
    rw [hsome, associate_record hmem]
    rfl

end Record

end Cidr.Interface
