import Cidr.Octets.Basic

/-!
# Hextets

The text of an IPv6 address shows its octets two at a time.  A hextet is such a
pair, the more significant octet first.

## Main definitions

* `Octets.hextets` — the pairs of octets of a sequence.
* `Octets.ofHextets` — the sequence made of pairs of octets.
-/

namespace Cidr.Octets

/-- The number that a pair of octets stands for. -/
def hextet (a b : UInt8) : UInt16 := UInt16.ofNat (a.toNat * 256 + b.toNat)

/-- The pairs of octets of a sequence; an odd octet at the end is left out. -/
def hextets : Octets → List UInt16
  | a :: b :: rest => hextet a b :: hextets rest
  | _ => []

/-- The sequence made of pairs of octets. -/
def ofHextets (hs : List UInt16) : Octets := hs.flatMap fun h => ofNat 2 h.toNat

@[simp] theorem hextets_nil : hextets [] = [] := rfl

@[simp] theorem hextets_cons_cons (a b : UInt8) (rest : Octets) :
    hextets (a :: b :: rest) = hextet a b :: hextets rest := rfl

@[simp] theorem ofHextets_nil : ofHextets [] = [] := rfl

@[simp] theorem ofHextets_cons (h : UInt16) (hs : List UInt16) :
    ofHextets (h :: hs) = ofNat 2 h.toNat ++ ofHextets hs := rfl

theorem ofHextets_append (hs ks : List UInt16) :
    ofHextets (hs ++ ks) = ofHextets hs ++ ofHextets ks := List.flatMap_append

theorem ofHextets_replicate_zero (n : Nat) :
    ofHextets (List.replicate n 0) = List.replicate (n * 2) 0 := by
  induction n with
  | zero => rfl
  | succ n ih =>
    rw [List.replicate_succ, ofHextets_cons, ih, Nat.succ_mul]
    rfl

theorem toNat_hextet (a b : UInt8) : (hextet a b).toNat = a.toNat * 256 + b.toNat := by
  have ha := a.toNat_lt
  have hb := b.toNat_lt
  rw [hextet, UInt16.toNat_ofNat']
  omega

@[simp] theorem length_ofHextets (hs : List UInt16) : (ofHextets hs).length = 2 * hs.length := by
  induction hs with
  | nil => rfl
  | cons h hs ih =>
    rw [ofHextets_cons, List.length_append, length_ofNat, ih, List.length_cons]
    omega

/-- A hextet is made of its two octets. -/
theorem hextet_ofNat (h : UInt16) :
    hextet (UInt8.ofNat (h.toNat >>> 8)) (UInt8.ofNat h.toNat) = h := by
  have hlt := h.toNat_lt
  apply UInt16.toNat_inj.1
  rw [toNat_hextet, UInt8.toNat_ofNat', UInt8.toNat_ofNat']
  omega

/-- Pairing the octets that were made of hextets gives the hextets back. -/
@[simp] theorem hextets_ofHextets (hs : List UInt16) : hextets (ofHextets hs) = hs := by
  induction hs with
  | nil => rfl
  | cons h hs ih =>
    change hextet (UInt8.ofNat (h.toNat >>> 8)) (UInt8.ofNat h.toNat) :: hextets (ofHextets hs) = _
    rw [hextet_ofNat, ih]

/-- The octets of the hextet made of two octets are these. -/
theorem ofNat_hextet (a b : UInt8) : ofNat 2 (hextet a b).toNat = [a, b] := by
  have hb := b.toNat_lt
  have hhigh : UInt8.ofNat ((a.toNat * 256 + b.toNat) >>> 8) = a := by
    rw [show (a.toNat * 256 + b.toNat) >>> 8 = a.toNat by omega, UInt8.ofNat_toNat]
  have hlow : UInt8.ofNat (a.toNat * 256 + b.toNat) = b := by
    apply UInt8.toNat_inj.1
    rw [UInt8.toNat_ofNat']
    omega
  rw [toNat_hextet]
  change [UInt8.ofNat ((a.toNat * 256 + b.toNat) >>> 8),
    UInt8.ofNat (a.toNat * 256 + b.toNat)] = [a, b]
  rw [hhigh, hlow]

/-- Octets that can be paired are made of their pairs. -/
theorem ofHextets_hextets : {a : Octets} → a.length % 2 = 0 → ofHextets (hextets a) = a
  | [], _ => rfl
  | [_], h => by simp at h
  | x :: y :: rest, h => by
    rw [List.length_cons, List.length_cons] at h
    rw [hextets_cons_cons, ofHextets_cons, ofNat_hextet, ofHextets_hextets (by omega)]
    rfl

theorem length_hextets : (a : Octets) → (hextets a).length = a.length / 2
  | [] => rfl
  | [x] => by simp [hextets]
  | x :: y :: rest => by
    rw [hextets_cons_cons, List.length_cons, length_hextets rest, List.length_cons,
      List.length_cons]
    omega

end Cidr.Octets
