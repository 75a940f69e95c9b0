import Cidr.Interface
import Cidr.Proofs.Address
import Cidr.Proofs.Address.RoundTrip
import Cidr.Proofs.Prefixed

/-!
# Reading networks and interfaces back

A network is written with its prefix length, and with one of two masks.  From the
prefix length it is always read back.  A mask is read after an IPv4 address only,
and there a mask of host bits is taken for one of prefix bits if it can be: it is
when all of its bits are the same.

## Main results

* `Network.maskLength_hostMask` — the length that is read from a mask of host bits.
* `Network.parse_written_forms` — **what is read from each written form** of a network
  or an interface.
-/

namespace Cidr

namespace Prefixed

open Address (IsText)

variable {f : Family} {front : List Char} {a : Address}

/-- The text of an address ends at the slash. -/
theorem parse_slash (h : IsText front a) (rest : List Char) :
    parse (String.ofList (front ++ '/' :: rest)) =
      (readLength a.family rest).map (Prefixed.mk a) := by
  have hcut : IsCut (String.ofList (front ++ '/' :: rest)).toList front (some rest) := by
    rw [String.toList_ofList]
    exact .slash (h.not_mem (by decide) (by decide) rfl)
  exact (Meaning.slashed hcut h (readLength_eq_iff.1 rfl)).parse_eq

/-- **An address with a length is read back** from each text of the address. -/
theorem parse_slashed {k : Nat} (h : IsText front a) (hk : k ≤ a.family.bitWidth) :
    parse (String.ofList (slashed front k)) = .ok ⟨a, k⟩ := by
  have hnumber := LengthMeaning.number (.toDigits (by decide) (by decide) k) hk
  rw [slashed, parse_slash h]
  exact congrArg (Except.map (Prefixed.mk a)) hnumber.readLength_eq

theorem readLength_canonical_of_v4 {mask : Address} (hf : mask.family = .v4) :
    readLength .v4 mask.canonical = maskLength mask.octets := by
  refine readLength_of_isText rfl ?_ mask.isText_canonical
  rw [Address.canonical_of_v4 hf]
  exact (Address.isQuad_dotted hf).dot_mem

/-- After an IPv6 address no mask is read. -/
theorem readLength_canonical_of_v6 {mask : Address} (hf : mask.family = .v6) :
    readLength .v6 mask.canonical = .error (.notPrefixLength (toString mask)) := by
  have hcolon : ':' ∈ mask.canonical := mask.isText_canonical.colon_mem_iff.2 hf
  refine (LengthMeaning.neither ?_ (by simp)).readLength_eq
  intro v hv
  exact hv.not_mem (by decide) rfl hcolon

end Prefixed

namespace Network

variable {n : Network}

/-! ### Masks -/

theorem isMask_netmask (n : Network) : n.netmask.octets.IsMask true n.prefixLength :=
  Octets.isMask_ones (n.family.bitWidth_eq ▸ n.prefixLength_le)

theorem isMask_hostMask (n : Network) : n.hostMask.octets.IsMask false n.prefixLength :=
  Octets.isMask_complement_iff.2 n.isMask_netmask

theorem maskLength_netmask (n : Network) :
    Prefixed.maskLength n.netmask.octets = .ok n.prefixLength :=
  Prefixed.maskLength_of_isMask_true (Address.length_octets_le _) n.isMask_netmask

/-- **The length that is read from a mask of host bits.**  At both ends all of its bits are the
same, and they are taken for prefix bits. -/
theorem maskLength_hostMask (n : Network) :
    Prefixed.maskLength n.hostMask.octets =
      .ok (if n.prefixLength = 0 then n.family.bitWidth
        else if n.prefixLength = n.family.bitWidth then 0 else n.prefixLength) := by
  have hle := n.hostMask.length_octets_le
  have hmask := n.isMask_hostMask
  have hlen : 8 * n.hostMask.octets.length = n.family.bitWidth := by
    rw [n.hostMask.length_octets, ← Family.bitWidth_eq]
    rfl
  split_ifs with hzero hfull
  · rw [hzero, Octets.isMask_zero_iff, hlen] at hmask
    exact Prefixed.maskLength_of_isMask_true hle hmask
  · rw [hfull, ← hlen, ← Bool.not_true, ← Octets.isMask_zero_iff] at hmask
    exact Prefixed.maskLength_of_isMask_true hle hmask
  · have hlt : n.prefixLength < 8 * n.hostMask.octets.length := by
      rw [hlen]
      exact Nat.lt_of_le_of_ne n.prefixLength_le hfull
    exact Prefixed.maskLength_of_isMask_false hle
      (hmask.not_other (Nat.pos_of_ne_zero hzero) hlt) hmask

/-! ### Reading -/

theorem parse_eq_ofAddress {s : String} {a : Address} {k : Nat}
    (h : Prefixed.parse s = .ok ⟨a, k⟩) : parse s = ofAddress a k := by
  rw [parse, h]
  rfl

theorem parse_slashed {front : List Char} (h : Address.IsText front n.address) :
    parse (String.ofList (Prefixed.slashed front n.prefixLength)) = .ok n := by
  rw [parse_eq_ofAddress (Prefixed.parse_slashed h n.prefixLength_le), ofAddress_eq_ok_iff]
  exact ⟨rfl, rfl⟩

theorem parse_withMask_of_v4 {mask : Address} {k : Nat} (hf : n.family = .v4)
    (hm : mask.family = .v4) (hk : Prefixed.maskLength mask.octets = .ok k) :
    parse (n.address.withMask mask) = ofAddress n.address k := by
  refine parse_eq_ofAddress ?_
  rw [Address.withMask, Prefixed.parse_slash n.address.isText_canonical]
  change (Prefixed.readLength n.family _).map _ = _
  rw [hf, Prefixed.readLength_canonical_of_v4 hm, hk]
  rfl

theorem parse_withMask_of_v6 {mask : Address} (hf : n.family = .v6) (hm : mask.family = .v6) :
    parse (n.address.withMask mask) = .error (.notPrefixLength (toString mask)) := by
  rw [parse, Address.withMask, Prefixed.parse_slash n.address.isText_canonical]
  change (Except.map _ (Prefixed.readLength n.family _)).bind _ = _
  rw [hf, Prefixed.readLength_canonical_of_v6 hm]
  rfl

theorem parse_withNetmask_of_v4 (hf : n.family = .v4) :
    parse n.withNetmask = ofAddress n.address n.prefixLength :=
  parse_withMask_of_v4 hf hf n.maskLength_netmask

theorem parse_withHostMask_of_v4 (hf : n.family = .v4) :
    parse n.withHostMask =
      ofAddress n.address (if n.prefixLength = 0 then 32
        else if n.prefixLength = 32 then 0 else n.prefixLength) := by
  refine parse_withMask_of_v4 hf hf ?_
  rw [maskLength_hostMask, hf, Family.bitWidth_v4]

/-! ### The shortest prefix and the longest one -/

theorem truncate_zero_of_v4 {a : Address} (hf : a.family = .v4) : a.truncate 0 = .v4 0 0 0 0 :=
  Address.toNat_inj hf a.toNat_truncate_zero

theorem address_of_prefixLength_eq_zero (hf : n.family = .v4) (hk : n.prefixLength = 0) :
    n.address = .v4 0 0 0 0 := by
  rw [← n.truncate_address, hk, truncate_zero_of_v4 hf]

theorem exists_ofAddress {a : Address} {k : Nat} (hk : k ≤ a.family.bitWidth)
    (ha : a.truncate k = a) : ∃ m, ofAddress a k = .ok m ∧ m.address = a ∧ m.prefixLength = k :=
  ⟨⟨a, k, hk, ha⟩, ofAddress_eq_ok_iff.2 ⟨rfl, rfl⟩, rfl, rfl⟩

end Network

/-! ### Interfaces -/

namespace Interface

theorem prefixLength_le (i : Interface) : i.prefixLength ≤ i.address.family.bitWidth := by
  rw [Network.family_eq_of_mem i.address_mem]
  exact i.network.prefixLength_le

/-- Around an address of a network there is no other network with its prefix length. -/
theorem ofAddress_prefixLength (i : Interface) : ofAddress i.address i.prefixLength = .ok i := by
  have hnetwork : Network.enclosing i.address i.prefixLength i.prefixLength_le = i.network :=
    Network.ext (Network.mem_iff.1 i.address_mem) rfl
  rw [ofAddress, dif_pos i.prefixLength_le]
  cases i
  simp only [hnetwork]

theorem parse_slashed {i : Interface} {front : List Char} (h : Address.IsText front i.address) :
    parse (String.ofList (Prefixed.slashed front i.prefixLength)) = .ok i := by
  rw [parse, Prefixed.parse_slashed h i.prefixLength_le]
  exact i.ofAddress_prefixLength

end Interface

/-! ### Written forms -/

namespace Network

open Address (v4)

/-- **Networks and interfaces are read back from their texts.**  With the length both of them are,
in either form of the address.  With a mask of prefix bits IPv4 networks are, and with a mask of
host bits they are unless all bits of the mask are the same; then the mask of host bits counts as
one of prefix bits.  After an IPv6 address both masks are refused. -/
theorem parse_written_forms :
    (∀ n : Network, parse (toString n) = .ok n ∧ parse n.expanded = .ok n) ∧
    (∀ i : Interface, Interface.parse (toString i) = .ok i ∧ Interface.parse i.expanded = .ok i) ∧
    (∀ n : Network, n.family = .v4 →
      parse n.withNetmask = .ok n ∧
      (1 ≤ n.prefixLength → n.prefixLength ≤ 31 → parse n.withHostMask = .ok n) ∧
      (n.prefixLength = 0 → ∃ m, parse n.withHostMask = .ok m ∧
        m.address = .v4 0 0 0 0 ∧ m.prefixLength = 32) ∧
      (n.prefixLength = 32 → n.address = .v4 0 0 0 0 → ∃ m, parse n.withHostMask = .ok m ∧
        m.address = .v4 0 0 0 0 ∧ m.prefixLength = 0) ∧
      (n.prefixLength = 32 → n.address ≠ .v4 0 0 0 0 →
        parse n.withHostMask = .error (.hostBitsSet (toString (Prefixed.mk n.address 0))))) ∧
    ∀ n : Network, n.family = .v6 →
      parse n.withNetmask = .error (.notPrefixLength (toString n.netmask)) ∧
      parse n.withHostMask = .error (.notPrefixLength (toString n.hostMask)) := by
  refine ⟨?_, ?_, ?_, ?_⟩
  · intro n
    exact ⟨parse_slashed n.address.isText_canonical, parse_slashed n.address.isText_expandedChars⟩
  · intro i
    exact ⟨Interface.parse_slashed i.address.isText_canonical,
      Interface.parse_slashed i.address.isText_expandedChars⟩
  · intro n hf
    rw [parse_withHostMask_of_v4 hf]
    refine ⟨?_, ?_, ?_, ?_, ?_⟩
    · rw [parse_withNetmask_of_v4 hf, ofAddress_eq_ok_iff]
      exact ⟨rfl, rfl⟩
    · intro hlow hhigh
      rw [if_neg (by omega), if_neg (by omega), ofAddress_eq_ok_iff]
      exact ⟨rfl, rfl⟩
    · intro hk
      rw [if_pos hk, address_of_prefixLength_eq_zero hf hk]
      exact exists_ofAddress (by decide) (Address.truncate_bitWidth _)
    · intro hk ha
      rw [if_neg (by omega), if_pos hk, ha]
      exact exists_ofAddress (Nat.zero_le _) (truncate_zero_of_v4 rfl)
    · intro hk ha
      rw [if_neg (by omega), if_pos hk, ofAddress_of_le (Nat.zero_le _), truncate_zero_of_v4 hf,
        if_neg (Ne.symm ha)]
  · intro n hf
    exact ⟨parse_withMask_of_v6 hf hf, parse_withMask_of_v6 hf hf⟩

/-- The network of one address has a mask without host bits, which is read as one without prefix
bits. -/
theorem parse_written_forms_single :
    (v4 192 0 2 33).family = .v4 ∧ v4 192 0 2 33 ≠ v4 0 0 0 0 ∧
      parse "192.0.2.33/255.255.255.255" = .ok (enclosing (v4 192 0 2 33) 32 (by decide)) ∧
      parse "192.0.2.33/0.0.0.0" = .error (.hostBitsSet "192.0.2.33/0") := by
  have hne : v4 192 0 2 33 ≠ v4 0 0 0 0 := by decide
  have hnetmask : (enclosing (v4 192 0 2 33) 32 (by decide)).withNetmask =
      "192.0.2.33/255.255.255.255" := by decide
  have hhostMask : (enclosing (v4 192 0 2 33) 32 (by decide)).withHostMask =
      "192.0.2.33/0.0.0.0" := by decide
  obtain ⟨-, -, hforms, -⟩ := parse_written_forms
  obtain ⟨hread, -, -, -, hrefused⟩ := hforms (enclosing (v4 192 0 2 33) 32 (by decide)) rfl
  rw [hnetmask] at hread
  rw [hhostMask] at hrefused
  exact ⟨rfl, hne, hread, hrefused rfl hne⟩

end Network

end Cidr
