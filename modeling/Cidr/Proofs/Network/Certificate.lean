import Cidr.Network.Certificate
import Cidr.Proofs.Address.Mask
import Cidr.Proofs.Network.RoundTrip

/-!
# Reading networks back from certificates

How octets name a network is a matter of how many they are.  As many as an address
has are that address.  Twice as many are an address and a mask, and the network is
the one around the address: what the mask does not keep is dropped, and does not
come back when the octets are written again.

## Main results

* `Network.exists_ofCertificateOctets_append` — what is read from an address and a
  mask, and what the octets of the network keep of it.
* `Network.ofCertificateOctets_certificateOctets` — a network is read back.
* `Network.certificate_exact` — **what octets name which network.**
-/

namespace Cidr

/-- As many octets as a family asks for are read as the address that has them. -/
theorem Address.exists_ofOctets {a : Octets} (h : a.length = 4 ∨ a.length = 16) :
    ∃ address : Address, address.octets = a := by
  rcases h with h | h
  · exact ⟨⟨.v4, a, h⟩, rfl⟩
  · exact ⟨⟨.v6, a, h⟩, rfl⟩

namespace Network

variable {d a m : Octets} {k : Nat}

open Octets (IsMask)

/-! ### The sizes -/

/-- An address alone stands for its network of full length. -/
theorem ofCertificateOctets_octets (a : Address) :
    ofCertificateOctets a.octets = ofAddress a a.family.bitWidth := by
  have hlen : a.octets.length = 4 ∨ a.octets.length = 16 := by
    rw [a.length_octets]
    cases a.family <;> decide
  rw [ofCertificateOctets, if_pos hlen, Address.ofOctets_octets]
  rfl

/-- Two halves of one size are an address and a mask. -/
theorem ofCertificateOctets_append (hlen : a.length = m.length)
    (h : (a ++ m).length = 8 ∨ (a ++ m).length = 32) :
    ofCertificateOctets (a ++ m) = ofMaskedOctets a m := by
  have hnot : ¬((a ++ m).length = 4 ∨ (a ++ m).length = 16) := by omega
  have hhalf : (a ++ m).length / 2 = a.length := by
    rw [List.length_append]
    omega
  rw [ofCertificateOctets, if_neg hnot, if_pos h, hhalf, List.take_left, List.drop_left]

theorem ofCertificateOctets_eq_error (h : d.length ∉ [4, 8, 16, 32]) :
    ofCertificateOctets d = .error (.octetCount d.length) := by
  simp only [List.mem_cons, List.not_mem_nil, or_false, not_or] at h
  rw [ofCertificateOctets, if_neg (by omega), if_neg (by omega)]

/-! ### An address and a mask -/

/-- **The network of an address and a mask** is the one around the address with the length of the
mask. -/
theorem ofMaskedOctets_eq_ok {a : Address} (hlen : m.length = a.octets.length)
    (hm : IsMask true k m) :
    ∃ hk : k ≤ a.family.bitWidth, ofMaskedOctets a.octets m = .ok (enclosing a k hk) := by
  have hk : k ≤ a.family.bitWidth := by
    rw [Family.bitWidth_eq, ← a.length_octets, ← hlen]
    exact hm.le
  refine ⟨hk, ?_⟩
  rw [ofMaskedOctets, (Octets.netmaskLength_eq_ok_iff (hlen ▸ a.length_octets_le)).2 hm,
    Address.ofOctets_octets]
  exact containing_of_le hk

/-- The octets of a network around an address have the bits outside the mask dropped. -/
theorem certificateOctets_enclosing {a : Address} (hlen : m.length = a.octets.length)
    (hm : IsMask true k m) (hk : k ≤ a.family.bitWidth) :
    ∃ b, a.octets.and m = .ok b ∧ (enclosing a k hk).certificateOctets = b ++ m := by
  have hones : m = Octets.ones a.octets.length k := hlen ▸ hm.eq_ones
  refine ⟨a.octets.truncate k, hones ▸ Octets.and_ones _ _, ?_⟩
  rw [hones, a.length_octets]
  rfl

/-- **What is read from two halves,** with all that the octets of the network keep of them. -/
theorem exists_ofCertificateOctets_append (hlen : a.length = m.length)
    (h : (a ++ m).length = 8 ∨ (a ++ m).length = 32) (hm : IsMask true k m) :
    ∃ n b, ofCertificateOctets (a ++ m) = .ok n ∧ n.prefixLength = k ∧
      a.and m = .ok b ∧ n.certificateOctets = b ++ m := by
  have hsize : a.length = 4 ∨ a.length = 16 := by
    rw [List.length_append] at h
    omega
  rw [ofCertificateOctets_append hlen h]
  obtain ⟨a, rfl⟩ := Address.exists_ofOctets hsize
  obtain ⟨hk, hread⟩ := ofMaskedOctets_eq_ok hlen.symm hm
  obtain ⟨b, hand, hoctets⟩ := certificateOctets_enclosing hlen.symm hm hk
  exact ⟨_, b, hread, rfl, hand, hoctets⟩

theorem ofCertificateOctets_append_eq_error (hlen : a.length = m.length)
    (h : (a ++ m).length = 8 ∨ (a ++ m).length = 32) (hm : ∀ k, ¬ IsMask true k m) :
    ofCertificateOctets (a ++ m) = .error .maskNotContiguous := by
  have hmax : m.length ≤ Octets.maxMaskCount := by
    rw [List.length_append] at h
    rw [Octets.maxMaskCount]
    omega
  rw [ofCertificateOctets_append hlen h, ofMaskedOctets, Octets.netmaskLength_eq_error hmax hm]
  rfl

/-! ### The octets of a network -/

theorem length_netmask (n : Network) : n.netmask.octets.length = n.address.octets.length := by
  rw [n.netmask.length_octets, n.address.length_octets]
  rfl

theorem length_certificateOctets (n : Network) :
    n.certificateOctets.length = 8 ∨ n.certificateOctets.length = 32 := by
  rw [certificateOctets, List.length_append, length_netmask, n.address.length_octets]
  cases n.address.family <;> decide

/-- **A network is read back** from the octets that name it. -/
theorem ofCertificateOctets_certificateOctets (n : Network) :
    ofCertificateOctets n.certificateOctets = .ok n := by
  obtain ⟨hk, h⟩ := ofMaskedOctets_eq_ok n.length_netmask n.isMask_netmask
  rw [certificateOctets, ofCertificateOctets_append n.length_netmask.symm
    n.length_certificateOctets, h]
  exact congrArg Except.ok (ext n.truncate_address rfl)

/-- The octets of a network have no bits of the address outside the mask. -/
theorem and_netmask_octets (n : Network) :
    n.address.octets.and n.netmask.octets = .ok n.address.octets := by
  have hand := Octets.and_ones n.address.octets n.prefixLength
  rw [n.address.length_octets] at hand
  exact hand.trans (congrArg (fun a => Except.ok a.octets) n.truncate_address)

/-- **What octets name which network.**  A network is read back from its octets.  As many octets as
an address has stand for the network of that address alone.  Twice as many are an address and a
mask: if the mask is ones and then zeros, the octets of the network that is read are those of the
address within the mask and the mask, and any other mask is refused.  Any other number of octets is
refused and named.  So octets are those of the network read from them exactly if they are an address
and a contiguous mask, and no bit of the address is outside the mask. -/
theorem certificate_exact :
    (∀ n : Network, ofCertificateOctets n.certificateOctets = .ok n) ∧
    (∀ d : Octets, d.length = 4 ∨ d.length = 16 →
      ∃ n, ofCertificateOctets d = .ok n ∧ n.address.octets = d ∧
        n.prefixLength = n.family.bitWidth) ∧
    (∀ a m : Octets, a.length = m.length → (a ++ m).length = 8 ∨ (a ++ m).length = 32 →
      (∀ k, IsMask true k m → ∃ n b, ofCertificateOctets (a ++ m) = .ok n ∧ n.prefixLength = k ∧
        a.and m = .ok b ∧ n.certificateOctets = b ++ m) ∧
      ((∀ k, ¬ IsMask true k m) → ofCertificateOctets (a ++ m) = .error .maskNotContiguous)) ∧
    (∀ d : Octets, d.length ∉ [4, 8, 16, 32] →
      ofCertificateOctets d = .error (.octetCount d.length)) ∧
    ∀ d : Octets, (∃ n, ofCertificateOctets d = .ok n ∧ n.certificateOctets = d) ↔
      ∃ a m, d = a ++ m ∧ a.length = m.length ∧ (d.length = 8 ∨ d.length = 32) ∧
        (∃ k, IsMask true k m) ∧ a.and m = .ok a := by
  refine ⟨ofCertificateOctets_certificateOctets, ?_, ?_, fun d => ofCertificateOctets_eq_error, ?_⟩
  · intro d hd
    obtain ⟨a, rfl⟩ := Address.exists_ofOctets hd
    refine ⟨enclosing a a.family.bitWidth (Nat.le_refl _), ?_, ?_, rfl⟩
    · rw [ofCertificateOctets_octets, ofAddress_eq_ok_iff]
      exact ⟨a.truncate_bitWidth, rfl⟩
    · exact congrArg Address.octets a.truncate_bitWidth
  · intro a m hlen h
    exact ⟨fun k => exists_ofCertificateOctets_append hlen h,
      ofCertificateOctets_append_eq_error hlen h⟩
  · intro d
    constructor
    · rintro ⟨n, -, rfl⟩
      exact ⟨_, _, rfl, n.length_netmask.symm, n.length_certificateOctets,
        ⟨_, n.isMask_netmask⟩, n.and_netmask_octets⟩
    · rintro ⟨a, m, rfl, hlen, h, ⟨k, hm⟩, hand⟩
      obtain ⟨n, b, hread, -, hb, hoctets⟩ := exists_ofCertificateOctets_append hlen h hm
      obtain rfl := Except.ok.inj (hand.symm.trans hb)
      exact ⟨n, hread, hoctets⟩

/-- An address with a bit outside its mask, and a mask with a hole. -/
theorem certificate_exact_of_sixteen :
    (IsMask true 16 [255, 255, 0, 0] ∧
      ∃ n b, ofCertificateOctets ([10, 1, 2, 3] ++ [255, 255, 0, 0]) = .ok n ∧
        n.prefixLength = 16 ∧ Octets.and [10, 1, 2, 3] [255, 255, 0, 0] = .ok b ∧
        n.certificateOctets = b ++ [255, 255, 0, 0]) ∧
    (∀ k, ¬ IsMask true k [255, 0, 255, 0]) ∧
      ofCertificateOctets ([10, 1, 2, 3] ++ [255, 0, 255, 0]) = .error .maskNotContiguous := by
  have hmask : IsMask true 16 [255, 255, 0, 0] := by decide
  have hhole : ∀ k < 33, ¬ IsMask true k [255, 0, 255, 0] := by decide
  have hnone : ∀ k, ¬ IsMask true k [255, 0, 255, 0] :=
    fun k hk => hhole k (Nat.lt_succ_of_le hk.le) hk
  have h := certificate_exact.2.2.1 [10, 1, 2, 3]
  exact ⟨⟨hmask, (h [255, 255, 0, 0] rfl (.inl rfl)).1 16 hmask⟩, hnone,
    (h [255, 0, 255, 0] rfl (.inl rfl)).2 hnone⟩

end Network

end Cidr
