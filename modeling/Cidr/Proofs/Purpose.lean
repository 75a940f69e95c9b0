import Cidr.Proofs.NetworkSet.Canonical
import Cidr.Purpose

/-!
# What serves a purpose

An address serves a purpose if any network that is set aside holds it, but a network
only if a single one contains all of it.  So a network might serve a purpose with
each of its addresses and yet not as a whole, by reaching over several of the networks
that are set aside.  It cannot do so where these are a reduced list: no two of them
make up a larger network, and then what fits into all of them together fits into one.
This holds of every purpose but the reserved networks of IPv6, which lie side by side.

## Main results

* `Network.Serves.of_contains`, `Network.Serves.address` — what is inside a network
  serves the purposes of the network.
* `Network.forall_mem_serves_iff` — what the addresses of a network serve together.
* `Purpose.reduce_networks` — **the networks of a purpose are a reduced list,** except
  for the reserved ones of IPv6.
* `Purpose.serves_exact` — **networks serve the purposes of their addresses.**
-/

namespace Cidr

variable {a : Address} {m n : Network} {p : Purpose}

/-! ### Inside a network -/

/-- A network inside another one serves its purposes. -/
theorem Network.Serves.of_contains (h : n.Serves p) (hnm : n.Contains m) : m.Serves p := by
  obtain ⟨l, hl, hln⟩ := h
  refine ⟨l, ?_, hln.trans hnm⟩
  have hf : m.family = n.family := Network.family_eq_of_mem hnm.2
  rw [hf]
  exact hl

/-- An address of a network serves the purposes of the network. -/
theorem Network.Serves.address (h : n.Serves p) (ha : a ∈ n) : a.Serves p := by
  obtain ⟨l, hl, hln⟩ := h
  refine ⟨l, ?_, hln.mem ha⟩
  rw [Network.family_eq_of_mem ha]
  exact hl

/-- The network of one address contains just this address. -/
theorem Network.contains_iff_mem_of_full {k : Nat} (h : Network.ofAddress a k = .ok n)
    (hk : k = a.family.bitWidth) : m.Contains n ↔ a ∈ m := by
  obtain ⟨ha, hn⟩ := Network.ofAddress_eq_ok_iff.1 h
  rw [← ha]
  refine and_iff_right_of_imp ?_
  intro hmem
  have hf : n.address.family = m.family := Network.family_eq_of_mem hmem
  rw [hn, hk, ← ha, hf]
  exact m.prefixLength_le

/-- **An address serves a purpose exactly if its own network does.** -/
theorem Address.exists_serves_iff (a : Address) (p : Purpose) :
    ∃ n, Network.ofAddress a a.family.bitWidth = .ok n ∧ (a.Serves p ↔ n.Serves p) := by
  have hn : Network.ofAddress a a.family.bitWidth =
      .ok (.enclosing a a.family.bitWidth (Nat.le_refl _)) := by
    rw [Network.ofAddress_of_le (Nat.le_refl _), if_pos a.truncate_bitWidth]
  refine ⟨_, hn, exists_congr fun m => and_congr_right' ?_⟩
  exact (Network.contains_iff_mem_of_full hn rfl).symm

/-! ### Several networks together -/

/-- The addresses of a network all serve a purpose if it fits into what the networks set aside are
reduced to. -/
theorem Network.forall_mem_serves_iff :
    (∀ a ∈ n, a.Serves p) ↔ ∃ m ∈ Network.reduce (p.networks n.family), m.Contains n := by
  have hserves : ∀ a ∈ n, (a.Serves p ↔ a ∈ NetworkSet.ofList (p.networks n.family)) := by
    intro a ha
    rw [NetworkSet.mem_ofList, ← Network.family_eq_of_mem ha]
    rfl
  constructor
  · intro h
    exact (NetworkSet.reduced_ofList _).exists_contains fun a ha => (hserves a ha).1 (h a ha)
  · rintro ⟨m, hm, hmn⟩ a ha
    exact (hserves a ha).2 ⟨m, hm, hmn.mem ha⟩

/-- **The networks of a purpose are a reduced list:** no two of them make up a larger one.  Only the
reserved networks of IPv6 lie side by side. -/
theorem Purpose.reduce_networks {f : Family} (h : ¬ (p = .reserved ∧ f = .v6)) :
    Network.reduce (p.networks f) = p.networks f := by
  cases p <;> cases f
  case reserved.v6 => exact absurd ⟨rfl, rfl⟩ h
  all_goals decide +kernel

/-- **Networks serve the purposes of their addresses.**  What is inside a network serves all
purposes of the network, and an address serves those of the network that has no other one.  The
other way around, a network serves a purpose if each of its addresses does.  Only of the reserved
networks of IPv6 this is not so: there are networks that reach over several of them. -/
theorem Purpose.serves_exact (p : Purpose) :
    (∀ n : Network, n.Serves p → (∀ a ∈ n, a.Serves p) ∧ ∀ m, n.Contains m → m.Serves p) ∧
    (∀ a : Address, ∃ n, Network.ofAddress a a.family.bitWidth = .ok n ∧
      (a.Serves p ↔ n.Serves p)) ∧
    (∀ n : Network, ¬ (p = .reserved ∧ n.family = .v6) → (∀ a ∈ n, a.Serves p) → n.Serves p) ∧
    ∃ n : Network, n.family = .v6 ∧ (∀ a ∈ n, a.Serves .reserved) ∧ ¬ n.Serves .reserved := by
  refine ⟨?_, fun a => a.exists_serves_iff p, ?_, ?_⟩
  · intro n h
    exact ⟨fun a ha => h.address ha, fun m hm => h.of_contains hm⟩
  · intro n hp h
    rw [Network.forall_mem_serves_iff, reduce_networks hp] at h
    exact h
  · refine ⟨block6 0 0 0 7, rfl, ?_, by decide⟩
    rw [Network.forall_mem_serves_iff]
    decide +kernel

/-- `172.20.0.0/16` is inside the second of the three private networks of IPv4. -/
theorem Purpose.serves_exact_of_private :
    (block4 172 20 0 0 16).Serves .privateUse ∧ (Address.v4 172 20 1 2).Serves .privateUse ∧
    (block4 172 20 1 0 24).Serves .privateUse := by
  obtain ⟨hinside, -, hwhole, -⟩ := serves_exact .privateUse
  have hserves : (block4 172 20 0 0 16).Serves .privateUse := by decide
  obtain ⟨haddress, hnetwork⟩ := hinside _ hserves
  exact ⟨hwhole _ (by decide) haddress, haddress _ (by decide), hnetwork _ (by decide)⟩

end Cidr
