import Cidr.Proofs.Interface.Record
import Cidr.Proofs.Prefixed

/-!
# Three ways to read one text

A text of an address with a prefix length can be read as a network that begins at
the address, as the network around it, and as the interface of the address in that
network.  The three readers cut the text in the same way.  Where they find a length
that the address has, only the first of them can refuse the text, since it alone
looks at the bits after the prefix.  Where they do not, all of them refuse it.

## Main definitions

* `Interface.Reading` — how the answers of the three readers belong together.

## Main results

* `Interface.reading` — they belong together for every text.
* `Interface.Record.parse_agree` — **the three readers agree.**
-/

namespace Cidr.Interface

open Failure

/-- Answers to one text that belong together: of the reader of networks that begin at the address,
of that of networks around the address, and of that of interfaces. -/
inductive Reading (s : String) : (strict lenient : Except Failure Network.Record) →
    (interface : Except Failure Record) → Prop
  /-- There is a network around the address, which may begin at it or not. -/
  | accepted {i : Record} (hk : i.prefixLength = i.network.prefixLength)
      (ha : Address.parse (String.ofList (Prefixed.addressPart s.toList)) = .ok i.address) :
      Reading s
        (if i.network.address = i.address then .ok i.network
          else .error (.refused (.hostBitsSet (toString (Prefixed.mk i.address i.prefixLength)))))
        (.ok i.network) (.ok i)
  /-- There is none, or no address. -/
  | refused {e : Error} (he : ∀ t, e ≠ .hostBitsSet t) :
      Reading s (.error (.refused e)) (.error (.refused e)) (.error (.refused e))

/-- **The three answers belong together for every text.** -/
theorem reading (s : String) :
    Reading s (Network.Record.parse s) (Network.Record.parseContaining s) (Record.parse s) := by
  unfold Network.Record.parse Network.Record.parseContaining Record.parse
  cases hp : Prefixed.parse s with
  | error e => exact .refused fun t => Prefixed.ne_hostBitsSet_of_parse hp
  | ok p =>
    have ha := Prefixed.parse_address hp
    obtain ⟨a, k⟩ := p
    change Reading s (Network.Record.ofAddress a k) (Network.Record.containing a k)
      (Record.ofAddress a k)
    rw [Network.Record.ofAddress_eq, Record.ofAddress, Network.Record.containing_eq]
    by_cases hk : k ≤ a.family.bitWidth
    · rw [Network.ofAddress_of_le hk, Network.containing_of_le hk,
        apply_ite (Except.map Network.record), apply_ite Failure.ofExcept]
      change Reading s _ _ (Record.associate a (Network.enclosing a k hk).record)
      rw [Record.associate_record (Network.mem_enclosing a k hk)]
      exact .accepted (i := ⟨a, k, (Network.enclosing a k hk).record⟩) rfl ha
    · rw [Network.ofAddress_of_not_le hk, Network.containing_of_not_le hk]
      exact .refused fun t => by simp

namespace Reading

variable {s : String} {strict lenient : Except Failure Network.Record}
  {interface : Except Failure Record}

theorem interface_eq_ok_iff (h : Reading s strict lenient interface) {i : Record} :
    interface = .ok i ↔ ∃ n, lenient = .ok n ∧ i.network = n ∧ i.prefixLength = n.prefixLength ∧
      Address.parse (String.ofList (Prefixed.addressPart s.toList)) = .ok i.address := by
  cases h with
  | @accepted j hk ha =>
    constructor
    · rintro ⟨⟩
      exact ⟨_, rfl, rfl, hk, ha⟩
    · rintro ⟨n, hn, rfl, hk', ha'⟩
      have hnetwork : j.network = i.network := Except.ok.inj hn
      have haddress : j.address = i.address := Except.ok.inj (ha.symm.trans ha')
      cases i
      cases j
      simp_all
  | refused he => simp

theorem exists_interface_iff (h : Reading s strict lenient interface) :
    (∃ i, interface = .ok i) ↔ ∃ n, lenient = .ok n := by
  cases h <;> simp

theorem strict_eq_ok_iff (h : Reading s strict lenient interface) {n : Network.Record} :
    strict = .ok n ↔ ∃ i, interface = .ok i ∧ i.network = n ∧ i.address = n.address := by
  cases h with
  | @accepted i hk ha =>
    simp only [Except.ok.injEq, exists_eq_left']
    split
    · next hfirst =>
      constructor
      · rintro ⟨⟩
        exact ⟨rfl, hfirst.symm⟩
      · rintro ⟨rfl, -⟩
        rfl
    · next hbits =>
      refine iff_of_false (by simp) ?_
      rintro ⟨rfl, hfirst⟩
      exact hbits hfirst.symm
  | refused he => simp

theorem strict_eq_hostBitsSet_iff (h : Reading s strict lenient interface) {t : String} :
    strict = .error (.refused (.hostBitsSet t)) ↔
      ∃ i, interface = .ok i ∧ i.address ≠ i.network.address ∧
        t = toString (Prefixed.mk i.address i.prefixLength) := by
  cases h with
  | @accepted i hk ha =>
    simp only [Except.ok.injEq, exists_eq_left']
    split
    · next hfirst => simp [hfirst]
    · next hbits => simp [Ne.symm hbits, eq_comm]
  | refused he => simp [he]

/-- Where there is no network around an address, the reason is the same for all readers. -/
theorem exists_error (h : Reading s strict lenient interface) (hnone : ¬ ∃ n, lenient = .ok n) :
    ∃ e, strict = .error (.refused e) ∧ lenient = .error (.refused e) ∧
      interface = .error (.refused e) := by
  cases h with
  | accepted => exact absurd ⟨_, rfl⟩ hnone
  | refused he => exact ⟨_, rfl, rfl, rfl⟩

end Reading

/-- **The three readers agree on every text.**  An interface is read exactly if a network is read
around the address.  Then that network is the one of the interface, with the same prefix length, and
the address of the interface is the one before the slash.  The network is also read strictly exactly
if it begins at that address; otherwise the bits after the prefix are reported, with the address and
the length as they are written canonically.  Where no network is read around the address, all three
readers report the same error.  The records are those of the networks and interfaces that are read
from the text. -/
theorem Record.parse_agree (s : String) :
    (∀ i, parse s = .ok i ↔ ∃ n, Network.Record.parseContaining s = .ok n ∧
      i.network = n ∧ i.prefixLength = n.prefixLength ∧
      Address.parse (String.ofList (Prefixed.addressPart s.toList)) = .ok i.address) ∧
    ((∃ i, parse s = .ok i) ↔ ∃ n, Network.Record.parseContaining s = .ok n) ∧
    (∀ n, Network.Record.parse s = .ok n ↔
      ∃ i, parse s = .ok i ∧ i.network = n ∧ i.address = n.address) ∧
    (∀ t, Network.Record.parse s = .error (.refused (.hostBitsSet t)) ↔
      ∃ i, parse s = .ok i ∧ i.address ≠ i.network.address ∧
        t = toString (Prefixed.mk i.address i.prefixLength)) ∧
    ((¬ ∃ n, Network.Record.parseContaining s = .ok n) →
      ∃ e, Network.Record.parse s = .error (.refused e) ∧
        Network.Record.parseContaining s = .error (.refused e) ∧
        parse s = .error (.refused e)) ∧
    Network.Record.parse s = ofExcept ((Network.parse s).map Network.record) ∧
    Network.Record.parseContaining s =
      ofExcept ((Network.parseContaining s).map Network.record) ∧
    parse s = ofExcept ((Interface.parse s).map record) := by
  have h := reading s
  exact ⟨fun _ => h.interface_eq_ok_iff, h.exists_interface_iff, fun _ => h.strict_eq_ok_iff,
    fun _ => h.strict_eq_hostBitsSet_iff, h.exists_error, Network.Record.parse_eq s,
    Network.Record.parseContaining_eq s, parse_eq s⟩

/-- No IPv4 address has 33 bits, and every reader says so. -/
theorem Record.parse_agree_too_long :
    (¬ ∃ n, Network.Record.parseContaining "10.0.0.1/33" = .ok n) ∧
      Network.Record.parse "10.0.0.1/33" = .error (.refused (.lengthOutOfRange 33 32)) ∧
      parse "10.0.0.1/33" = .error (.refused (.lengthOutOfRange 33 32)) := by
  have hlenient : Network.Record.parseContaining "10.0.0.1/33" =
      .error (.refused (.lengthOutOfRange 33 32)) := by decide
  have hnone : ¬ ∃ n, Network.Record.parseContaining "10.0.0.1/33" = .ok n := by simp [hlenient]
  obtain ⟨-, -, -, -, hagree, -⟩ := parse_agree "10.0.0.1/33"
  obtain ⟨e, hstrict, he, hinterface⟩ := hagree hnone
  rw [hlenient] at he
  cases he
  exact ⟨hnone, hstrict, hinterface⟩

end Cidr.Interface
