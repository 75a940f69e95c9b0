import Cidr.NetworkSet.Basic

/-!
# Intervals of addresses

The addresses from a first to a last one are covered by networks from left to
right.  Each network is the largest one that begins where the one before ended
and does not reach past the last address.

## Main definitions

* `Network.blockAt` — the largest network at the beginning of an interval.
* `Network.blocks` — the networks of an interval from left to right.
* `NetworkSet.ofInterval` — the set of the addresses of an interval.
* `Network.exclude` — the addresses of a network that are not in another one.
-/

namespace Cidr

namespace Network

/-- The number of addresses from `first` to `last`. -/
def span? (first last : Address) : Option Wide := do
  (← last.toWide.sub? first.toWide).add? (.one first.family)

/-- The largest network that begins at `first` and ends at `last` or before: the zeros at the
end of `first` bound the bits after its prefix, and so does the number of addresses. -/
def blockAt (first last : Address) : Except Error Network :=
  match span? first last with
  | none => .error (.notNetwork s!"{first} - {last}")
  | some span =>
    let width := first.family.bitWidth
    let hostBits := min (min first.toWide.trailingZeros width) (span.bitLength - 1)
    ofAddress first (width - hostBits)

theorem of_blockAt_eq_ok {first last : Address} {n : Network} (h : blockAt first last = .ok n) :
    n.address = first ∧ first.toNat ≤ last.toNat := by
  unfold blockAt at h
  split at h
  · exact absurd h nofun
  · next span hspan =>
    refine ⟨(ofAddress_eq_ok_iff.1 h).1, ?_⟩
    obtain ⟨d, hd, -⟩ := Option.bind_eq_some_iff.1 hspan
    rw [Wide.sub?_eq, Address.toNat_toWide, Address.toNat_toWide] at hd
    split at hd
    · next hle => exact hle.2
    · exact absurd hd nofun

/-- The networks of an interval from left to right. -/
def blocks (first last : Address) : Except Error (List Network) :=
  match _hn : blockAt first last with
  | .error e => .error e
  | .ok n =>
    if n.lastAddress = last then .ok [n]
    else
      match _ha : n.lastAddress.succ? with
      | none => .error (.notNetwork (toString n.lastAddress))
      | some next => do return n :: (← blocks next last)
termination_by last.toNat + 1 - first.toNat
decreasing_by
  obtain ⟨rfl, hle⟩ := of_blockAt_eq_ok _hn
  have hnext := (Address.succ?_eq_some _ha).2
  have hlast := n.toNat_address_le
  omega

end Network

/-- The set of the addresses from `first` to `last`. -/
def NetworkSet.ofInterval (first last : Address) : Except Error NetworkSet :=
  if first.family ≠ last.family then .error .familiesDiffer
  else if last < first then .error (.notNetwork s!"{first} - {last}")
  else do return ofList (← Network.blocks first last)

namespace Network

/-! ### Differences -/

/-- The fewest networks with the addresses from `first` to `last`; none if there are no such
addresses. -/
def cover (first last : Address) : List Network :=
  match NetworkSet.ofInterval first last with
  | .ok s => s.networks
  | .error _ => []

/-- The networks that make up the part of `m` before `n`. -/
def before (m n : Network) : List Network :=
  match if m.address < n.address then n.address.pred? else none with
  | some last => cover m.address last
  | none => []

/-- The networks that make up the part of `m` after `n`. -/
def after (m n : Network) : List Network :=
  match if n.lastAddress < m.lastAddress then n.lastAddress.succ? else none with
  | some first => cover first m.lastAddress
  | none => []

/-- The fewest networks with the addresses of `m` that are not in `n`, in order. -/
def exclude (m n : Network) : List Network :=
  if m.Overlaps n then m.before n ++ m.after n else [m]

end Network

end Cidr
