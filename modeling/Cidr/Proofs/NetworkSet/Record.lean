import Cidr.NetworkSet.Record
import Cidr.Proofs.Network.Record
import Cidr.Proofs.NetworkSet.Difference

/-!
# Sets of records are network sets

Looking up and filing records goes by addresses alone, so it commutes with taking
the records of networks.  With the relations between records this makes each
round of an insertion into the records of a network set the round of the
insertion into the set itself, and with insertion the intervals and differences
agree, too.

## Main results

* `NetworkSet.Record.insert_record` — **insertion agrees.**
* `NetworkSet.Record.ofInterval_eq` — intervals agree.
* `Network.Record.exclude_record` — differences agree.
-/

namespace Cidr

open Failure

namespace NetworkSet.Record

variable {s : NetworkSet} {a first last : Address} {n : Network}

/-! ### Access by address -/

@[simp] theorem networks_record (s : NetworkSet) :
    s.record.networks = s.networks.map Network.record := by
  rw [networks, NetworkSet.networks, record, List.map_map, List.map_map]
  rfl

theorem find?_record (s : NetworkSet) (a : Address) :
    s.record.find? a = (s.find? a).map Network.record := by
  rw [find?, NetworkSet.find?, record, List.find?_map, Option.map_map, Option.map_map]
  rfl

theorem floor?_record (s : NetworkSet) (a : Address) :
    s.record.floor? a = (s.floor? a).map Network.record := by
  rw [floor?, NetworkSet.floor?, record, List.filter_map, List.getLast?_map, Option.map_map,
    Option.map_map]
  rfl

theorem eraseBetween_record (s : NetworkSet) (h : first ≤ last) :
    s.record.eraseBetween first last = .ok (s.eraseBetween first last).record := by
  rw [eraseBetween, if_pos h, require_some, NetworkSet.eraseBetween, record, record,
    List.filter_map]
  rfl

theorem erase_record (s : NetworkSet) (a : Address) :
    s.record.erase a = (s.erase a).record := by
  rw [erase, NetworkSet.erase, record, record, List.filter_map]
  rfl

theorem placeIn_map (a : Address) (n : Network) (es : List (Address × Network)) :
    placeIn a n.record (es.map fun e => (e.1, e.2.record)) =
      (NetworkSet.placeIn a n es).map fun e => (e.1, e.2.record) := by
  induction es with
  | nil => rfl
  | cons e es ih =>
    rw [List.map_cons, placeIn, NetworkSet.placeIn, ih]
    cases compare a e.1 <;> rfl

theorem place_record (s : NetworkSet) (n : Network) :
    s.record.place n.record = (s.place n).record :=
  congrArg Record.mk (placeIn_map n.address n s.entries)

/-! ### Insertion -/

/-- The round of records that a round of networks stands for. -/
def ofRound : NetworkSet.Round → Round
  | .settled t => .settled t.record
  | .again t m => .again t.record m.record

theorem covers_record_iff : s.record.Covers n.record ↔ s.Covers n := by
  rw [Covers, NetworkSet.Covers]
  change (∃ m ∈ s.record.floor? n.address, _) ↔ _
  rw [floor?_record]
  cases s.floor? n.address with
  | none => exact iff_of_false (by simp) (by simp)
  | some m => simp [Network.Record.contains_record_iff]

theorem siblingIn?_record (s : NetworkSet) (n : Network) :
    s.record.siblingIn? n.record = .ok ((s.siblingIn? n).map Network.record) := by
  rw [siblingIn?, Network.Record.sibling?_record, ok_bind, NetworkSet.siblingIn?]
  cases n.sibling? with
  | none => rfl
  | some half =>
    have hfind : s.record.find? half.record.address = some half.record ↔
        s.find? half.address = some half := by
      change s.record.find? half.address = _ ↔ _
      rw [find?_record]
      exact (Option.map_injective fun _ _ => Network.Record.record_inj).eq_iff
        (a := s.find? half.address) (b := some half)
    change Except.ok (if _ then some half.record else none) = Except.ok (Option.map _
      (if _ then some half else none))
    simp only [hfind]
    split_ifs <;> rfl

theorem join_record (s : NetworkSet) (n : Network) :
    s.record.join n.record = .ok (ofRound (s.join n)) := by
  rw [join, siblingIn?_record, ok_bind, NetworkSet.join]
  cases s.siblingIn? n with
  | none => exact congrArg (fun t => Except.ok (Round.settled t)) (place_record s n)
  | some half =>
    simp only [Option.map_some, Network.Record.merge?_record, ok_bind]
    cases n.merge? half with
    | none =>
      change Except.ok (Round.settled ((s.record.erase half.address).place n.record)) = _
      rw [erase_record, place_record]
      rfl
    | some whole =>
      change Except.ok (Round.again (s.record.erase half.address) whole.record) = _
      rw [erase_record]
      rfl

/-- **A round of records is a round of networks.** -/
theorem insertRound_record (s : NetworkSet) (n : Network) :
    s.record.insertRound n.record = .ok (ofRound (s.insertRound n)) := by
  rw [insertRound, NetworkSet.insertRound]
  by_cases h : s.Covers n
  · rw [if_pos (covers_record_iff.2 h), if_pos h]
    rfl
  · have hle : n.address ≤ n.lastAddress := by
      rw [Address.le_iff_position_le, Address.position, Address.position]
      exact Nat.add_le_add_left n.toNat_address_le _
    have herase : s.record.eraseBetween n.record.address n.lastAddress =
        .ok (s.eraseBetween n.address n.lastAddress).record := eraseBetween_record s hle
    rw [if_neg (fun h' => h (covers_record_iff.1 h')), if_neg h,
      Network.Record.lastAddress_record, ok_bind, herase, ok_bind, join_record]

/-- An insertion, from one round to the next. -/
theorem insert_eq (s : Record) (r : Network.Record) :
    s.insert r = (do
      match ← s.insertRound r with
      | .settled t => return t
      | .again t m => t.insert m) := by
  rw [insert]
  split
  · next e h =>
    rw [h]
    rfl
  · next t h =>
    rw [h]
    rfl
  · next t m h =>
    rw [h]
    rfl

/-- **Insertion agrees,** round by round. -/
theorem insert_record (s : NetworkSet) (n : Network) :
    s.record.insert n.record = .ok (s.insert n).record := by
  fun_induction NetworkSet.insert s n with
  | case1 s n t h =>
    rw [insert_eq, insertRound_record, h]
    rfl
  | case2 s n t m h ih =>
    rw [insert_eq, insertRound_record, h]
    exact ih

theorem insertMany_record (s : NetworkSet) (ns : List Network) :
    s.record.insertMany (ns.map Network.record) = .ok (s.insertMany ns).record := by
  induction ns generalizing s with
  | nil => rfl
  | cons n ns ih =>
    rw [insertMany, List.map_cons, List.foldlM_cons, insert_record, ok_bind]
    exact ih (s.insert n)

/-! ### Intervals -/

theorem blockAt_eq (first last : Address) :
    blockAt first last = ofExcept ((Network.blockAt first last).map Network.record) := by
  unfold blockAt Network.blockAt
  cases h : Network.span? first last with
  | none => rfl
  | some span =>
    have hpos := Network.toNat_span_pos h
    have hbits : 1 ≤ span.bitLength := by
      have hzero := Wide.bitLength_le_iff (x := span) (k := 0)
      omega
    change (difference span.bitLength 1 >>= _) = _
    rw [difference_eq_ok hbits, ok_bind, Network.Record.ofAddress_eq]

/-- The steps of filling an interval, one after the other. -/
theorem fill_eq (s : Record) (first last : Address) :
    s.fill first last = (do
      let r ← blockAt first last
      let stop ← r.lastAddress
      let t ← s.insert r
      if stop = last then return t
      else
        match stop.succ? with
        | some next => t.fill next last
        | none => .error (.refused (.notNetwork (toString stop)))) := by
  rw [fill]
  split
  · next e h =>
    rw [h]
    rfl
  · next r h =>
    rw [h, ok_bind]
    split
    · next e hlast =>
      rw [hlast]
      rfl
    · next stop hlast =>
      rw [hlast, ok_bind]
      cases s.insert r with
      | error e => rfl
      | ok t =>
        rw [ok_bind]
        refine if_congr Iff.rfl rfl ?_
        split
        · next start hstart => rw [hstart]
        · next hstart => rw [hstart]

/-- Filling goes on after the network at the beginning of the interval. -/
theorem fill_of_blockAt (s : NetworkSet) (h : Network.blockAt first last = .ok n) :
    s.record.fill first last =
      if n.lastAddress = last then .ok (s.insert n).record
      else
        match n.lastAddress.succ? with
        | some next => (s.insert n).record.fill next last
        | none => .error (.refused (.notNetwork (toString n.lastAddress))) := by
  rw [fill_eq, blockAt_eq, h]
  change (n.record.lastAddress >>= _) = _
  rw [Network.Record.lastAddress_record, ok_bind, insert_record, ok_bind]
  rfl

/-- **The records of an interval are inserted as its networks are.** -/
theorem fill_record (s : NetworkSet) (first last : Address) :
    s.record.fill first last =
      ofExcept ((Network.blocks first last).map fun ns => (s.insertMany ns).record) := by
  fun_induction Network.blocks first last generalizing s with
  | case1 first e h =>
    rw [fill_eq, blockAt_eq, h]
    rfl
  | case2 first n h hlast =>
    rw [fill_of_blockAt s h, if_pos hlast]
    rfl
  | case3 first n h hlast hnext =>
    rw [fill_of_blockAt s h, if_neg hlast, hnext]
    rfl
  | case4 first n h hlast start hstart ih =>
    rw [fill_of_blockAt s h, if_neg hlast, hstart]
    change (s.insert n).record.fill start last = _
    rw [ih]
    cases Network.blocks start last <;> rfl

theorem ofInterval_eq (first last : Address) :
    ofInterval first last =
      ofExcept ((NetworkSet.ofInterval first last).map NetworkSet.record) := by
  rw [ofInterval, NetworkSet.ofInterval]
  split_ifs
  · rfl
  · rfl
  · change NetworkSet.empty.record.fill first last = _
    rw [fill_record]
    cases Network.blocks first last <;> rfl

end NetworkSet.Record

namespace Network.Record

/-! ### Differences -/

variable {m n : Network}

theorem cover_eq {first last : Address} (hf : first.family = last.family) (hle : first ≤ last) :
    cover first last = .ok ((Network.cover first last).map record) := by
  obtain ⟨ns, -, hset, -⟩ := NetworkSet.exists_ofInterval hf hle
  rw [cover, NetworkSet.Record.ofInterval_eq, accepted?_ofExcept, ok_bind, Network.cover, hset]
  exact congrArg Except.ok (NetworkSet.Record.networks_record _)

theorem before_record (h : m.Overlaps n) :
    m.record.before n.record = .ok ((m.before n).map record) := by
  rw [before, Network.before]
  by_cases hlt : m.address < n.address
  · have hcon : m.Contains n := h.resolve_right fun h' => h'.not_address_lt hlt
    obtain ⟨a, hpred, haf, -, hle⟩ := exists_pred?_address hcon hlt
    have hpred' : n.record.address.pred? = some a := hpred
    refine (if_pos hlt).trans ?_
    rw [if_pos hlt, hpred, hpred', require_some, ok_bind]
    exact cover_eq haf.symm hle
  · rw [if_neg hlt]
    exact if_neg hlt

theorem after_record (h : m.Overlaps n) :
    m.record.after n.record = .ok ((m.after n).map record) := by
  rw [after, Network.after, lastAddress_record, ok_bind, lastAddress_record, ok_bind]
  by_cases hlt : n.lastAddress < m.lastAddress
  · have hcon : m.Contains n := h.resolve_right fun h' => h'.not_lastAddress_lt hlt
    obtain ⟨a, hsucc, haf, -, hle⟩ := exists_succ?_lastAddress hcon hlt
    rw [if_pos hlt, if_pos hlt, hsucc, require_some, ok_bind]
    exact cover_eq haf hle
  · rw [if_neg hlt, if_neg hlt]
    rfl

/-- **Differences agree.** -/
theorem exclude_record (m n : Network) :
    m.record.exclude n.record = .ok ((m.exclude n).map record) := by
  rw [exclude, Network.exclude]
  by_cases ho : m.Overlaps n
  · rw [if_pos (overlaps_record_iff.2 ho), if_pos ho, before_record ho, ok_bind, after_record ho,
      ok_bind, List.map_append]
    rfl
  · rw [if_neg (fun h => ho (overlaps_record_iff.1 h)), if_neg ho]
    rfl

end Network.Record

end Cidr
