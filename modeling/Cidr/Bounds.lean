import Cidr.Failure

/-!
# Bounds

What is taken out of a list is there, what is put into it fits in, a machine word is
moved by fewer places than it has bits, and a count fits its octet.  All of this is
asked for where it is needed, and it is a failure if it does not hold.

## Main definitions

* `Failure.item`, `Failure.slice` — what is taken out of a list.
* `Failure.overwrite`, `Failure.sized` — what is put into a list, or is one of a
  given length.
* `Failure.places` — by how many places a word is moved.
* `Failure.octet`, `Failure.signedOctet`, `Failure.word` — counts that must fit an
  octet, or 32 bits.
-/

namespace Cidr.Failure

variable {α : Type} {xs ys zs : List α} {i start stop count width n : Nat}

/-- The item at a position, which must be within the list. -/
def item (xs : List α) (i : Nat) : Except Failure α := require "index out of bounds" xs[i]?

/-- The items from one position up to another one, which must be in order within the list. -/
def slice (xs : List α) (start stop : Nat) : Except Failure (List α) :=
  require "slice out of bounds"
    (if start ≤ stop ∧ stop ≤ xs.length then some ((xs.take stop).drop start) else none)

/-- The list with other items from a position on; there must be room for them. -/
def overwrite (xs : List α) (start : Nat) (ys : List α) : Except Failure (List α) :=
  require "copy out of bounds"
    (if start + ys.length ≤ xs.length then
      some (xs.take start ++ ys ++ xs.drop (start + ys.length)) else none)

/-- A list that must have a given length. -/
def sized (count : Nat) (xs : List α) : Except Failure (List α) :=
  require "lengths of a copy differ" (if xs.length = count then some xs else none)

/-- A number of places, which must be below the number of bits of a word. -/
def places (width n : Nat) : Except Failure Nat :=
  require "shift by the width of a word" (if n < width then some n else none)

/-- A count that is kept in an octet. -/
def octet (n : Nat) : Except Failure Nat :=
  require "count exceeds an octet" (if n < 256 then some n else none)

/-- A count that is kept in an octet with a sign. -/
def signedOctet (n : Int) : Except Failure Int :=
  require "count exceeds a signed octet" (if -128 ≤ n ∧ n < 128 then some n else none)

/-- A count that is kept in 32 bits. -/
def word (n : Nat) : Except Failure Nat :=
  require "count exceeds a word" (if n < UInt32.size then some n else none)

theorem item_eq_ok (h : i < xs.length) : item xs i = .ok xs[i] := by
  rw [item, List.getElem?_eq_getElem h, require_some]

theorem slice_eq_ok (h : start ≤ stop) (h' : stop ≤ xs.length) :
    slice xs start stop = .ok ((xs.take stop).drop start) := by
  rw [slice, if_pos ⟨h, h'⟩, require_some]

/-- The first items of a list. -/
theorem slice_zero (h : stop ≤ xs.length) : slice xs 0 stop = .ok (xs.take stop) :=
  slice_eq_ok (Nat.zero_le stop) h

/-- The last items of a list. -/
theorem slice_length (h : start ≤ xs.length) : slice xs start xs.length = .ok (xs.drop start) := by
  rw [slice_eq_ok h (Nat.le_refl _), List.take_length]

theorem overwrite_eq_ok (h : start + ys.length ≤ xs.length) :
    overwrite xs start ys = .ok (xs.take start ++ ys ++ xs.drop (start + ys.length)) := by
  rw [overwrite, if_pos h, require_some]

/-- The length of a list does not change when parts of it are overwritten. -/
theorem length_of_overwrite_eq_ok (h : overwrite xs start ys = .ok zs) : zs.length = xs.length := by
  rw [overwrite] at h
  split at h
  · next hroom =>
    obtain rfl := Except.ok.inj h
    rw [List.length_append, List.length_append, List.length_take, List.length_drop]
    omega
  · exact absurd h nofun

/-- Two stretches of a list, the second right after the first, can be overwritten one by one. -/
theorem overwrite_append (xs : List α) (start : Nat) (ys zs : List α) :
    overwrite xs start (ys ++ zs) =
      (overwrite xs start ys >>= fun xs => overwrite xs (start + ys.length) zs) := by
  by_cases hroom : start + ys.length ≤ xs.length
  · have hfront : (xs.take start ++ ys).length = start + ys.length := by
      rw [List.length_append, List.length_take]
      omega
    have hback : (xs.take start ++ ys ++ xs.drop (start + ys.length)).drop
        (start + ys.length + zs.length) = xs.drop (start + ys.length + zs.length) := by
      rw [← List.drop_drop, List.drop_left' hfront, List.drop_drop]
    have hlen := length_of_overwrite_eq_ok (overwrite_eq_ok hroom)
    rw [overwrite_eq_ok hroom, ok_bind, overwrite, overwrite, hlen, List.length_append,
      ← Nat.add_assoc, List.take_left' hfront, hback]
    simp only [List.append_assoc]
  · rw [overwrite, overwrite, if_neg hroom, if_neg (by rw [List.length_append]; omega)]
    rfl

theorem sized_eq_ok (h : xs.length = count) : sized count xs = .ok xs := by
  rw [sized, if_pos h, require_some]

theorem places_eq_ok (h : n < width) : places width n = .ok n := by
  rw [places, if_pos h, require_some]

theorem octet_eq_ok (h : n < 256) : octet n = .ok n := by
  rw [octet, if_pos h, require_some]

theorem signedOctet_eq_ok {n : Int} (h : -128 ≤ n) (h' : n < 128) : signedOctet n = .ok n := by
  rw [signedOctet, if_pos ⟨h, h'⟩, require_some]

theorem word_eq_ok (h : n < UInt32.size) : word n = .ok n := by
  rw [word, if_pos h, require_some]

theorem word_eq_error (h : UInt32.size ≤ n) : word n = .error (.broken "count exceeds a word") := by
  rw [word, if_neg (Nat.not_lt.2 h)]
  rfl

end Cidr.Failure
