import Cidr.Proofs.Interface.Record

/-!
# The addresses and the hosts of a network, one by one

A walk over a network goes from a first to a last address, so all that can differ
is where it begins and where it ends.  The walk over all addresses takes the bounds
of the network.  The one over the hosts begins one address later or ends one address
earlier, or both, but never in a network of one or two addresses.

## Main results

* `Network.addresses_exact` — **the addresses of a network, call by call.**
* `Network.yields_hosts` — the hosts are the addresses without the ends.
* `Network.hosts_exact` — **the hosts of a network,** their bounds and their
  interfaces.
-/

namespace Cidr

namespace Network

open AddressWalk

variable {n : Network} {all hosts : List Address}

/-! ### All addresses -/

theorem family_address_eq (n : Network) : n.address.family = n.lastAddress.family := rfl

theorem exists_item?_addresses {k : Nat} (hk : k < 2 ^ n.hostBits) :
    ∃ a, Walk.item? k n.addresses = some a ∧ a.family = n.family ∧
      a.toNat = n.address.toNat + k := by
  have hlast := n.position_lastAddress
  rw [stop, start] at hlast
  obtain ⟨a, ha⟩ := exists_item?_between n.family_address_eq (k := k) (by omega)
  obtain ⟨hpos, hle⟩ := (item?_between n.family_address_eq k).1 ha
  have hmem : a ∈ n := mem_of_item?_between n.address_mem n.lastAddress_mem ha
  have hf : a.family = n.address.family := family_eq_of_mem hmem
  rw [Address.position, Address.position, hf] at hpos
  exact ⟨a, ha, hf, by omega⟩

theorem item?_addresses_eq_none {k : Nat} (hk : 2 ^ n.hostBits ≤ k) :
    Walk.item? k n.addresses = none := by
  have hlast := n.position_lastAddress
  rw [stop, start] at hlast
  exact item?_between_eq_none n.family_address_eq (by omega)

/-- **The addresses of a network, call by call.**  There is always a walk over them.  As long as it
has not given out as many addresses as the network has, each call answers the address that is as far
from the first one as there were calls before.  From then on each call answers nothing, and this is
so even where no address comes after the last one. -/
theorem addresses_exact (n : Network) :
    n.record.addresses = .ok n.addresses ∧
    (∀ k < 2 ^ (n.family.bitWidth - n.prefixLength), ∃ a,
      Walk.answer? k n.addresses = some a ∧ a.family = n.family ∧
        a.toWide.toNat = n.address.toWide.toNat + k) ∧
    ∀ k ≥ 2 ^ (n.family.bitWidth - n.prefixLength), Walk.answer? k n.addresses = none := by
  simp only [Walk.answer?_eq_item?, Address.toNat_toWide]
  refine ⟨Record.addresses_record n, ?_, ?_⟩
  · intro k hk
    exact exists_item?_addresses hk
  · intro k hk
    exact item?_addresses_eq_none hk

/-- All IPv6 addresses up to the last one, after which there is no other, and the last two IPv4
addresses. -/
theorem addresses_exact_of_all :
    (2 ^ 128 - 1 < 2 ^ 128 ∧
      (∃ a, Walk.answer? (2 ^ 128 - 1) (enclosing (.ones .v6 0) 0 (Nat.zero_le _)).addresses =
        some a ∧ a.toWide.toNat = 2 ^ 128 - 1) ∧
      Walk.answer? (2 ^ 128) (enclosing (.ones .v6 0) 0 (Nat.zero_le _)).addresses = none) ∧
    1 < 2 ^ 1 ∧
      (∃ a, Walk.answer? 1 (enclosing (.v4 255 255 255 255) 31 (by decide)).addresses = some a ∧
        a.toWide.toNat = 2 ^ 32 - 1) ∧
      Walk.answer? 2 (enclosing (.v4 255 255 255 255) 31 (by decide)).addresses = none := by
  obtain ⟨-, hall, hnone⟩ := addresses_exact (enclosing (.ones .v6 0) 0 (Nat.zero_le _))
  obtain ⟨-, htwo, hnone'⟩ := addresses_exact (enclosing (.v4 255 255 255 255) 31 (by decide))
  obtain ⟨a, ha, -, hna⟩ := hall (2 ^ 128 - 1) (by decide)
  obtain ⟨b, hb, -, hnb⟩ := htwo 1 (by decide)
  exact ⟨⟨by decide, ⟨a, ha, hna.trans (by decide)⟩, hnone (2 ^ 128) (by decide)⟩, by decide,
    ⟨b, hb, hnb.trans (by decide)⟩, hnone' 2 (by decide)⟩

/-! ### Hosts -/

theorem exists_yields_addresses (n : Network) : ∃ all, Walk.Yields n.addresses all :=
  exists_yields_between n.family_address_eq

/-- All addresses of a network of one or two addresses are for hosts. -/
theorem hosts_of_hostBits_le (h : n.hostBits ≤ 1) : n.hosts = n.addresses := by
  rw [hosts, addresses, lastHost, if_pos h, if_neg fun h' => Nat.not_lt.2 h h'.2]

/-- In a larger network the hosts begin one address later. -/
theorem hosts_of_lt_hostBits (h : 1 < n.hostBits) :
    n.hosts = .between n.secondAddress n.lastHost := by
  rw [hosts, if_neg (Nat.not_le.2 h)]

/-- **The hosts are the addresses without the ends:** both of them are left out of an IPv4 network of
more than two addresses, and the first one of such an IPv6 network. -/
theorem yields_hosts (hall : Walk.Yields n.addresses all) :
    Walk.Yields n.hosts (if n.hostBits ≤ 1 then all
      else if n.family = .v4 then all.tail.dropLast else all.tail) := by
  split_ifs with hbits hf
  · -- no address is left out of a network of one or two
    rw [hosts_of_hostBits_le hbits]
    exact hall
  · have hlt : 1 < n.hostBits := Nat.not_le.1 hbits
    have hsecond : n.secondAddress.family = n.lastAddress.family :=
      family_eq_of_mem (secondAddress_mem hlt)
    rw [hosts_of_lt_hostBits hlt, lastHost, if_pos ⟨hf, hlt⟩]
    exact yields_dropLast hsecond (pred?_lastAddress hlt)
      (yields_tail n.family_address_eq (succ?_address hlt) hall)
  · -- IPv6 has no address for broadcasts, so the last address stays
    have hlt : 1 < n.hostBits := Nat.not_le.1 hbits
    rw [hosts_of_lt_hostBits hlt, lastHost, if_neg fun h => hf h.1]
    exact yields_tail n.family_address_eq (succ?_address hlt) hall

theorem second_le_lastHost (h : 1 < n.hostBits) :
    n.secondAddress.position ≤ n.lastHost.position := by
  -- of four addresses there are two between the ends
  have hpow : 2 ^ 2 ≤ 2 ^ n.hostBits := Nat.pow_le_pow_right (by decide) h
  have hsecond := (Address.succ?_eq_some_iff_position.1 (succ?_address h)).2
  have hsecondLast := (Address.pred?_eq_some_iff_position.1 (pred?_lastAddress h)).2
  have hlast := n.position_lastAddress
  rw [stop, start] at hlast
  rw [lastHost]
  split_ifs <;> omega

theorem firstHost_of_v6 (hf : n.family = .v6) : n.firstHost = n.address := by
  have hne : n.family ≠ .v4 := by
    rw [hf]
    decide
  rw [firstHost, if_neg fun h => hne h.1]

/-- In an IPv6 network of more than two addresses, and there alone, the hosts begin after the first
address that is shown for them.  They always end with the last one. -/
theorem ends_of_yields_hosts (h : Walk.Yields n.hosts hosts) :
    hosts.head? =
      (if n.family = .v6 ∧ 1 < n.hostBits then n.firstHost.succ? else some n.firstHost) ∧
    hosts.getLast? = some n.lastHost := by
  by_cases hlt : 1 < n.hostBits
  · rw [hosts_of_lt_hostBits hlt] at h
    have hf : n.secondAddress.family = n.lastHost.family :=
      (family_eq_of_mem (secondAddress_mem hlt)).trans (family_eq_of_mem n.lastHost_mem).symm
    obtain ⟨hhead, hlast⟩ := ends_of_yields_between hf (second_le_lastHost hlt) h
    refine ⟨hhead.trans ?_, hlast⟩
    cases hfam : n.family with
    | v4 => rw [if_neg fun h' => absurd h'.1 (by decide), firstHost, if_pos ⟨hfam, hlt⟩]
    | v6 => rw [if_pos ⟨rfl, hlt⟩, firstHost_of_v6 hfam, succ?_address hlt]
  · have hle : n.address.position ≤ n.lastAddress.position :=
      (mem_iff_position.1 n.lastAddress_mem).1
    rw [hosts_of_hostBits_le (Nat.not_lt.1 hlt)] at h
    obtain ⟨hhead, hlast⟩ := ends_of_yields_between n.family_address_eq hle h
    rw [if_neg fun h' => hlt h'.2, firstHost, if_neg fun h' => hlt h'.2, lastHost,
      if_neg fun h' => hlt h'.2]
    exact ⟨hhead, hlast⟩

/-! ### The address for broadcasts -/

theorem broadcast?_eq_some_iff {b : Address} :
    n.broadcast? = some b ↔ (n.family = .v4 ∧ 1 < n.hostBits) ∧ b = n.lastAddress := by
  have hiff : n.family = .v4 ∧ n.prefixLength < 31 ↔ n.family = .v4 ∧ 1 < n.hostBits := by
    refine and_congr_right ?_
    intro hf
    rw [hostBits, hf, Family.bitWidth_v4]
    omega
  rw [broadcast?, Option.ite_none_right_eq_some, hiff, Option.some_inj, @eq_comm _ n.lastAddress]

/-- The hosts of an IPv4 network end before an address for broadcasts. -/
theorem not_mem_hosts_of_broadcast? {b : Address} (hb : n.broadcast? = some b)
    (h : Walk.Yields n.hosts hosts) : b ∉ hosts := by
  obtain ⟨hlt, rfl⟩ := broadcast?_eq_some_iff.1 hb
  have hf : n.secondAddress.family = n.secondLastAddress.family :=
    (family_eq_of_mem (secondAddress_mem hlt.2)).trans
      (family_eq_of_mem (secondLastAddress_mem hlt.2)).symm
  have hpos := (Address.pred?_eq_some_iff_position.1 (pred?_lastAddress hlt.2)).2
  rw [hosts_of_lt_hostBits hlt.2, lastHost, if_pos hlt] at h
  rw [mem_of_yields_between hf h]
  omega

end Network

/-! ### Interfaces -/

namespace Interface

variable {n : Network} {hosts : List Address}

/-- **The interfaces of a network are its hosts,** each of them in the network. -/
theorem exists_yields_hosts (h : Walk.Yields n.hosts hosts) :
    ∃ interfaces, Walk.Yields (Interface.hosts n) interfaces ∧
      interfaces.map Interface.address = hosts ∧ ∀ i ∈ interfaces, i.network = n := by
  rw [Walk.yields_iff_item?] at h
  have hmem : ∀ a ∈ hosts, a ∈ n := by
    intro a ha
    obtain ⟨k, hk⟩ := List.getElem?_of_mem ha
    exact Network.mem_of_item?_hosts ((h k).trans hk)
  -- an interface carries the proof that its address is in the network
  refine ⟨hosts.pmap (fun a ha => ⟨a, n, ha⟩) hmem, ?_, ?_, ?_⟩
  · rw [Walk.yields_iff_item?]
    intro k
    refine Option.ext ?_
    rintro ⟨a, m, ha⟩
    rw [item?_hosts, h, List.getElem?_pmap, Option.pmap_eq_some_iff]
    constructor
    · rintro ⟨hk, rfl⟩
      exact ⟨a, ha, hk, rfl⟩
    · rintro ⟨b, hb, hk, heq⟩
      injection heq with hab hmn
      exact ⟨hab ▸ hk, hmn⟩
  · rw [List.map_pmap]
    exact (List.pmap_eq_map hmem).trans (List.map_id _)
  · intro i hi
    obtain ⟨a, ha, rfl⟩ := List.mem_pmap.1 hi
    rfl

end Interface

/-! ### All together -/

namespace Network

theorem one_lt_hostBits_iff {n : Network} :
    1 < n.hostBits ↔ n.prefixLength < n.family.bitWidth - 1 := by
  rw [hostBits]
  omega

/-- **The hosts of a network.**  In the sequence of its addresses nothing is left out if the prefix
ends with the last bit or the one before; otherwise the first address is left out, and in an IPv4
network the last one too.  What is shown as the last host comes last.  What is shown as the first host
comes first, but in an IPv6 network with a shorter prefix it is the first address of the network and
the hosts begin after it.  An address for broadcasts is in the network and is no host.  The interfaces
are the hosts in the same order, all in the network.  Nothing that is asked for on the way is
missing. -/
theorem hosts_exact (n : Network) :
    ∃ (all hosts : List Address) (interfaces : List Interface),
      Walk.Yields n.addresses all ∧ Walk.Yields n.hosts hosts ∧
      Walk.Yields (Interface.hosts n) interfaces ∧
      hosts = (if n.family.bitWidth - 1 ≤ n.prefixLength then all
        else if n.family = .v4 then all.tail.dropLast else all.tail) ∧
      hosts.getLast? = some n.lastHost ∧
      hosts.head? = (if n.family = .v6 ∧ n.prefixLength < n.family.bitWidth - 1
        then n.firstHost.succ? else some n.firstHost) ∧
      (n.family = .v6 → n.firstHost = n.address) ∧
      (∀ b, n.broadcast? = some b → b ∈ n ∧ b ∉ hosts) ∧
      interfaces.map Interface.address = hosts ∧ (∀ i ∈ interfaces, i.network = n) ∧
      n.record.lastAddress = .ok n.lastAddress ∧ n.record.broadcast? = .ok n.broadcast? ∧
      n.record.addresses = .ok n.addresses ∧ n.record.firstHost = .ok n.firstHost ∧
      n.record.lastHost = .ok n.lastHost ∧ n.record.hosts = .ok n.hosts ∧
      ∀ k, Interface.Record.host? n.record k = .ok (interfaces[k]?.map Interface.record) := by
  obtain ⟨all, hall⟩ := n.exists_yields_addresses
  have hhosts := yields_hosts hall
  obtain ⟨interfaces, hinterfaces, hmap, hnetwork⟩ := Interface.exists_yields_hosts hhosts
  obtain ⟨hhead, hlast⟩ := ends_of_yields_hosts hhosts
  refine ⟨all, _, interfaces, hall, hhosts, hinterfaces, ?_, hlast, ?_, ?_, ?_, hmap, hnetwork,
    Record.lastAddress_record n, Record.broadcast?_record n, Record.addresses_record n,
    Record.firstHost_record n, Record.lastHost_record n, Record.hosts_record n, ?_⟩
  · simp only [← Nat.not_lt, one_lt_hostBits_iff]
  · simp only [hhead, one_lt_hostBits_iff]
  · intro hf
    exact firstHost_of_v6 hf
  · intro b hb
    obtain ⟨-, rfl⟩ := broadcast?_eq_some_iff.1 hb
    exact ⟨n.lastAddress_mem, not_mem_hosts_of_broadcast? hb hhosts⟩
  · intro k
    rw [Interface.Record.host?_record, Walk.yields_iff_item?.1 hinterfaces]

/-- The hosts of the last four IPv4 addresses, the last of which is for broadcasts, and those of all
IPv6 addresses. -/
theorem hosts_exact_of_four_and_all :
    ((enclosing (.v4 255 255 255 255) 30 (by decide)).broadcast? = some (.v4 255 255 255 255) ∧
      ∃ all hosts, Walk.Yields (enclosing (.v4 255 255 255 255) 30 (by decide)).addresses all ∧
        Walk.Yields (enclosing (.v4 255 255 255 255) 30 (by decide)).hosts hosts ∧
        hosts = all.tail.dropLast ∧ hosts.head? = some (.v4 255 255 255 253) ∧
        hosts.getLast? = some (.v4 255 255 255 254) ∧ .v4 255 255 255 255 ∉ hosts) ∧
    (enclosing (.ones .v6 0) 0 (Nat.zero_le _)).family = .v6 ∧
      (enclosing (.ones .v6 0) 0 (Nat.zero_le _)).firstHost = .ones .v6 0 := by
  obtain ⟨all, hosts, -, hall, hhosts, -, hcut, hlast, hhead, -, hbroadcast, -⟩ :=
    hosts_exact (enclosing (.v4 255 255 255 255) 30 (by decide))
  obtain ⟨-, -, -, -, -, -, -, -, -, hfirst, -⟩ :=
    hosts_exact (enclosing (.ones .v6 0) 0 (Nat.zero_le _))
  have hb : (enclosing (.v4 255 255 255 255) 30 (by decide)).broadcast? =
      some (.v4 255 255 255 255) := by decide
  exact ⟨⟨hb, all, hosts, hall, hhosts, hcut, hhead.trans (by decide), hlast.trans (by decide),
    (hbroadcast _ hb).2⟩, rfl, (hfirst rfl).trans (by decide)⟩

end Network

end Cidr
