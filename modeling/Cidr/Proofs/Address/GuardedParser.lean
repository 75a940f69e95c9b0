import Cidr.Address.GuardedParser
import Cidr.Proofs.Address.Fields
import Cidr.Proofs.Address.Guarded

/-!
# No guard on reading addresses fails

A gap is neither the first nor the last field, so there is at least one field on each
side of it, and nothing is taken from too small a count.  If there are groups at all
places that are counted, they are put one after the other where there is room for
them: the counts of both sides make up eight at most.

## Main results

* `Address.gapGuarded_eq` — the gap is found if there is just one.
* `Address.placeGuarded_eq` — groups that are put one by one are put all at once.
* `Address.parseGuarded_eq` — **addresses are read without a failure.**
-/

namespace Cidr.Address

open Failure

variable {cause : Error} {fields side : List (Option UInt16)} {hs ks : List UInt16}

/-! ### The gap -/

/-- The only one of several positions, if there is one; more than one are refused. -/
def atMostOne (cause : Error) : List Nat → Except Failure (Option Nat)
  | [] => .ok none
  | [i] => .ok (some i)
  | _ => .error (.refused cause)

/-- Looking through positions finds the only one of them at which a field is empty. -/
theorem foldlM_gapStep (gap : Option Nat) {positions : List Nat}
    (h : ∀ i ∈ positions, i < fields.length) :
    positions.foldlM (gapStep cause fields) gap =
      atMostOne cause (gap.toList ++ positions.filter fun i => fields[i]? = some none) := by
  induction positions generalizing gap with
  | nil => cases gap <;> rfl
  | cons i positions ih =>
    have hi := h i List.mem_cons_self
    have ih := fun gap => ih gap fun j hj => h j (List.mem_cons_of_mem i hj)
    rw [List.foldlM_cons, gapStep, item_eq_ok hi, ok_bind]
    cases hget : fields[i] with
    | some v =>
      rw [List.filter_cons_of_neg (by simp [List.getElem?_eq_getElem hi, hget])]
      exact ih gap
    | none =>
      rw [List.filter_cons_of_pos (by simp [List.getElem?_eq_getElem hi, hget])]
      cases gap with
      | none => exact ih (some i)
      | some j => rfl -- whatever follows, there are two positions already

/-- **The gap is found if there is just one.** -/
theorem gapGuarded_eq (cause : Error) (hne : fields ≠ []) :
    gapGuarded cause fields = atMostOne cause (gaps fields) := by
  have hpos := List.length_pos_of_ne_nil hne
  have hgaps : gaps fields =
      ((List.range (fields.length - 1)).drop 1).filter fun i => fields[i]? = some none := by
    rw [gaps]
    cases fields.length - 1 with
    | zero => rfl
    | succ n =>
      -- the first field is passed over in the loop, and is no gap by the definition of gaps
      rw [List.range_succ_eq_map, List.filter_cons_of_neg (by simp), List.drop_one, List.tail_cons]
      refine List.filter_congr ?_
      intro i hi
      obtain ⟨j, -, rfl⟩ := List.mem_map.1 hi
      simp
  rw [gapGuarded, difference_eq_ok hpos, ok_bind, foldlM_gapStep, hgaps]
  · rfl
  · intro i hi
    have := List.mem_range.1 (List.mem_of_mem_drop hi)
    omega

/-! ### Counts -/

/-- A side is refused if its outermost field is empty but not the only one.  Otherwise it counts all
of its fields, or none if the only one is empty. -/
theorem sideGuarded_cases (cause : Error) {outermost : Option UInt16} (h : outermost ∈ side) :
    (sideGuarded cause side.length outermost = .error (.refused cause) ∧ side? side = none) ∨
    ∃ count ≤ side.length, sideGuarded cause side.length outermost = .ok count ∧
      side? side = (side.take count).mapM id ∧
      side? side = (side.drop (side.length - count)).mapM id := by
  have hpos := List.length_pos_of_mem h
  cases outermost with
  | some v =>
    have hne : side ≠ [none] := by
      rintro rfl
      exact absurd (List.mem_singleton.1 h) nofun
    refine .inr ⟨side.length, Nat.le_refl _, rfl, ?_, ?_⟩
    · rw [side?, if_neg hne, List.take_length]
    · rw [side?, if_neg hne, Nat.sub_self, List.drop_zero]
  | none =>
    rw [sideGuarded, difference_eq_ok hpos, ok_bind]
    by_cases hone : side = [none]
    · subst hone
      exact .inr ⟨0, Nat.zero_le _, rfl, rfl, rfl⟩
    · have hlen : side.length - 1 ≠ 0 := by
        intro h0
        obtain ⟨v, rfl⟩ := List.length_eq_one_iff.1 (by omega : side.length = 1)
        exact hone (by rw [List.mem_singleton.1 h])
      refine .inl ⟨if_pos hlen, ?_⟩
      -- the outermost field is empty, so the fields are not all groups
      rw [side?, if_neg hone, Option.eq_none_iff_forall_ne_some]
      intro hs hsome
      rw [mapM_id_eq_some_iff] at hsome
      simp [hsome] at h

/-! ### Places -/

theorem length_of_mapM_id (h : side.mapM id = some hs) : hs.length = side.length := by
  rw [mapM_id_eq_some_iff.1 h, List.length_map]

/-- **Groups that are put in their places one by one are put there all at once.** -/
theorem placeGuarded_eq {out : Octets} {target source count : Nat}
    (hsource : source + count ≤ fields.length) (htarget : (target + count) * 2 ≤ out.length) :
    placeGuarded cause fields out target source count = (do
      let hs ← accept cause (((fields.drop source).take count).mapM id)
      overwrite out (target * 2) (Octets.ofHextets hs)) := by
  induction count generalizing out target source with
  | zero =>
    have hroom : target * 2 + ([] : Octets).length ≤ out.length := by
      rw [List.length_nil]
      omega
    change _ = overwrite out (target * 2) []
    rw [placeGuarded, overwrite_eq_ok hroom, List.length_nil, List.append_nil, Nat.add_zero,
      List.take_append_drop]
    rfl
  | succ count ih =>
    have hlt : source < fields.length := by omega
    rw [placeGuarded, item_eq_ok hlt, ok_bind, List.drop_eq_getElem_cons hlt, List.take_succ_cons,
      List.mapM_cons]
    cases fields[source] with
    | none => rfl
    | some h =>
      have hroom : target * 2 + (Octets.ofNat 2 h.toNat).length ≤ out.length := by
        rw [Octets.length_ofNat]
        omega
      have hout := overwrite_eq_ok hroom
      have hlen := length_of_overwrite_eq_ok hout
      dsimp only
      rw [hout, ok_bind, ih (by omega) (by omega)]
      cases ((fields.drop (source + 1)).take count).mapM id with
      | none => rfl
      | some hs =>
        -- the octets of the first group and those of the others are next to each other
        change overwrite _ ((target + 1) * 2) (Octets.ofHextets hs) =
          overwrite out (target * 2) (Octets.ofHextets (h :: hs))
        rw [Octets.ofHextets_cons, overwrite_append, hout, ok_bind, Octets.length_ofNat,
          Nat.succ_mul]

/-- Groups at both ends of sixteen zero octets. -/
theorem overwrite_ends (hs ks : List UInt16) (h : hs.length + ks.length ≤ 8) :
    (do
      let out ← overwrite (List.replicate 16 0) 0 (Octets.ofHextets hs)
      overwrite out ((8 - ks.length) * 2) (Octets.ofHextets ks)) =
      .ok (Octets.ofHextets
        (hs ++ List.replicate (8 - (hs.length + ks.length)) 0 ++ ks)) := by
  have hhead := Octets.length_ofHextets hs
  have htail := Octets.length_ofHextets ks
  have hfirst : overwrite (List.replicate 16 0) 0 (Octets.ofHextets hs) =
      .ok (Octets.ofHextets hs ++ List.replicate (16 - 2 * hs.length) 0) := by
    rw [overwrite_eq_ok (by rw [List.length_replicate]; omega), List.take_zero, List.nil_append,
      List.drop_replicate, hhead, Nat.zero_add]
  have htake : (Octets.ofHextets hs ++ List.replicate (16 - 2 * hs.length) 0).take
      ((8 - ks.length) * 2) = Octets.ofHextets hs ++
        List.replicate ((8 - (hs.length + ks.length)) * 2) 0 := by
    rw [List.take_append, List.take_of_length_le (by omega), List.take_replicate, hhead]
    congr 2
    omega
  have hdrop : (Octets.ofHextets hs ++ List.replicate (16 - 2 * hs.length) 0).drop
      ((8 - ks.length) * 2 + (Octets.ofHextets ks).length) = [] := by
    rw [List.drop_eq_nil_iff, List.length_append, List.length_replicate]
    omega
  rw [hfirst, ok_bind, overwrite_eq_ok (by rw [List.length_append, List.length_replicate]; omega),
    htake, hdrop, List.append_nil, Octets.ofHextets_append, Octets.ofHextets_append,
    Octets.ofHextets_replicate_zero]

/-- What is left out between two sides is made up for by zeros. -/
theorem elided?_eq_whole? (h : hs.length + ks.length ≤ 7) :
    elided? hs ks = whole? (hs ++ List.replicate (8 - (hs.length + ks.length)) 0 ++ ks) := by
  have hlen : (hs ++ List.replicate (8 - (hs.length + ks.length)) 0 ++ ks).length = 8 := by
    rw [List.length_append, List.length_append, List.length_replicate]
    omega
  rw [elided?, dif_pos h, whole?, dif_pos hlen]

/-- **The first and the last groups are put at both ends,** and there are zeros in between. -/
theorem placeGuarded_ends (cause : Error) {head tail : Nat} (hhead : head ≤ fields.length)
    (htail : tail ≤ fields.length) (hsum : head + tail ≤ 8) :
    (do
      let out ← placeGuarded cause fields (List.replicate 16 0) 0 0 head
      placeGuarded cause fields out (8 - tail) (fields.length - tail) tail) = accept cause (do
        let hs ← (fields.take head).mapM id
        let ks ← (fields.drop (fields.length - tail)).mapM id
        return Octets.ofHextets (hs ++ List.replicate (8 - (hs.length + ks.length)) 0 ++ ks)) := by
  have hzeros : (List.replicate 16 (0 : UInt8)).length = 16 := List.length_replicate
  rw [placeGuarded_eq (by omega) (by omega), List.drop_zero]
  cases hhs : (fields.take head).mapM id with
  | none => rfl
  | some hs =>
    have hhslen : hs.length = head := by
      rw [length_of_mapM_id hhs, List.length_take_of_le hhead]
    have hroom : 0 + (Octets.ofHextets hs).length ≤ (List.replicate 16 (0 : UInt8)).length := by
      rw [Octets.length_ofHextets]
      omega
    have hout := overwrite_eq_ok hroom
    have houtlen := length_of_overwrite_eq_ok hout
    have hlast : (fields.drop (fields.length - tail)).take tail =
        fields.drop (fields.length - tail) :=
      List.take_of_length_le (by rw [List.length_drop]; omega)
    rw [accept_some, ok_bind, Nat.zero_mul, hout, ok_bind,
      placeGuarded_eq (by omega) (by omega), hlast]
    cases hks : (fields.drop (fields.length - tail)).mapM id with
    | none => rfl
    | some ks =>
      have hkslen : ks.length = tail := by
        rw [length_of_mapM_id hks, List.length_drop, Nat.sub_sub_self htail]
      have hends := overwrite_ends hs ks (by omega)
      rw [hout, ok_bind, hkslen] at hends
      rw [accept_some, ok_bind, hends, ← hkslen]
      rfl

/-- The address with the groups that are counted on both sides. -/
theorem ofFieldsGuarded_of_counts {head tail : Nat}
    (h : countsGuarded cause fields = .ok (head, tail)) (hhead : head ≤ fields.length)
    (htail : tail ≤ fields.length) (hsum : head + tail ≤ 8) :
    ofFieldsGuarded cause fields = accept cause (do
      let hs ← (fields.take head).mapM id
      let ks ← (fields.drop (fields.length - tail)).mapM id
      whole? (hs ++ List.replicate (8 - (hs.length + ks.length)) 0 ++ ks)) := by
  have hends := placeGuarded_ends cause hhead htail hsum
  rw [ofFieldsGuarded, h, ok_bind]
  simp only [difference_eq_ok (show tail ≤ 8 by omega), difference_eq_ok htail, ok_bind]
  rw [← bind_assoc, hends]
  cases hhs : (fields.take head).mapM id with
  | none => rfl
  | some hs =>
    cases hks : (fields.drop (fields.length - tail)).mapM id with
    | none => rfl
    | some ks =>
      have hhslen := length_of_mapM_id hhs
      have hkslen := length_of_mapM_id hks
      rw [List.length_take_of_le hhead] at hhslen
      rw [List.length_drop, Nat.sub_sub_self htail] at hkslen
      have hlen : (hs ++ List.replicate (8 - (hs.length + ks.length)) 0 ++ ks).length = 8 := by
        rw [List.length_append, List.length_append, List.length_replicate]
        omega
      change ofOctetsGuarded (Octets.ofHextets _) = accept cause (whole? _)
      rw [whole?, dif_pos hlen]
      exact ofOctetsGuarded_octets (ofHextets _ hlen)

/-- Without a gap all fields are groups, and there are eight of them. -/
theorem ofFieldsGuarded_of_no_gap (hgap : gapGuarded cause fields = .ok none) :
    ofFieldsGuarded cause fields = accept cause (do whole? (← fields.mapM id)) := by
  by_cases hlen : fields.length = 8
  · have hcounts : countsGuarded cause fields = .ok (8, 0) := by
      rw [countsGuarded, hgap]
      exact if_neg (not_not.2 hlen)
    rw [ofFieldsGuarded_of_counts hcounts (by omega) (by omega) (by omega),
      List.take_of_length_le (by omega), List.drop_eq_nil_of_le (by omega)]
    cases hhs : fields.mapM id with
    | none => rfl
    | some hs =>
      have := length_of_mapM_id hhs
      change accept cause (whole? (hs ++ List.replicate (8 - (hs.length + 0)) 0 ++ [])) = _
      rw [show 8 - (hs.length + 0) = 0 by omega, List.replicate_zero, List.append_nil,
        List.append_nil]
      rfl
  · have hcounts : countsGuarded cause fields = .error (.refused cause) := by
      rw [countsGuarded, hgap]
      exact if_pos hlen
    rw [ofFieldsGuarded, hcounts]
    cases hhs : fields.mapM id with
    | none => rfl
    | some hs =>
      have hwhole : whole? hs = none := dif_neg (by rw [length_of_mapM_id hhs]; exact hlen)
      change _ = accept cause (whole? hs)
      rw [hwhole]
      rfl

/-- With a gap the counts are those of the sides, which make up seven groups at most. -/
theorem countsGuarded_of_gap {i : Nat} (hgap : gapGuarded cause fields = .ok (some i))
    (hi : i + 1 < fields.length) :
    countsGuarded cause fields = (do
      let head ← sideGuarded cause (fields.take i).length fields[0]
      let tail ← sideGuarded cause (fields.drop (i + 1)).length fields[fields.length - 1]
      if 7 < head + tail then .error (.refused cause) else return (head, tail)) := by
  have hhead : (fields.take i).length = i := List.length_take_of_le (by omega)
  rw [countsGuarded, hgap, hhead, List.length_drop, ok_bind]
  dsimp only
  rw [item_eq_ok (by omega), ok_bind]
  refine bind_congr ?_
  intro head
  rw [difference_eq_ok (by omega), ok_bind, difference_eq_ok (by omega), ok_bind,
    difference_eq_ok (by omega), ok_bind, item_eq_ok (by omega), ok_bind, Nat.sub_sub]

/-- With counts on both sides of a gap there are zeros in between, if there is room for them. -/
theorem ofFieldsGuarded_of_sides {head tail : Nat}
    (h : countsGuarded cause fields =
      if 7 < head + tail then .error (.refused cause) else return (head, tail))
    (hhead : head ≤ fields.length) (htail : tail ≤ fields.length) :
    ofFieldsGuarded cause fields = accept cause (do
      elided? (← (fields.take head).mapM id)
        (← (fields.drop (fields.length - tail)).mapM id)) := by
  have hlength : ∀ hs ks, (fields.take head).mapM id = some hs →
      (fields.drop (fields.length - tail)).mapM id = some ks →
      hs.length = head ∧ ks.length = tail := by
    intro hs ks hhs hks
    rw [length_of_mapM_id hhs, length_of_mapM_id hks, List.length_take, List.length_drop]
    omega
  by_cases hsum : 7 < head + tail
  · -- the counts are refused, and so are as many groups, which leave no room for a gap
    rw [if_pos hsum] at h
    rw [ofFieldsGuarded, h]
    cases hhs : (fields.take head).mapM id with
    | none => rfl
    | some hs =>
      cases hks : (fields.drop (fields.length - tail)).mapM id with
      | none => rfl
      | some ks =>
        obtain ⟨hhslen, hkslen⟩ := hlength hs ks hhs hks
        have hnone : elided? hs ks = none := dif_neg (by omega)
        change _ = accept cause (elided? hs ks)
        rw [hnone]
        rfl
  · rw [if_neg hsum] at h
    rw [ofFieldsGuarded_of_counts h hhead htail (by omega)]
    cases hhs : (fields.take head).mapM id with
    | none => rfl
    | some hs =>
      cases hks : (fields.drop (fields.length - tail)).mapM id with
      | none => rfl
      | some ks =>
        obtain ⟨hhslen, hkslen⟩ := hlength hs ks hhs hks
        exact congrArg (accept cause) (elided?_eq_whole? (by omega)).symm

/-- A gap has fields on both sides of it, which are taken up to their counts or refused. -/
theorem ofFieldsGuarded_of_gap {i : Nat} (hgap : gapGuarded cause fields = .ok (some i))
    (hpos : 0 < i) (hi : i + 1 < fields.length) :
    ofFieldsGuarded cause fields =
      accept cause (do elided? (← side? (fields.take i)) (← side? (fields.drop (i + 1)))) := by
  have hcounts := countsGuarded_of_gap hgap hi
  have hfirst : fields[0] ∈ fields.take i :=
    List.mem_take_iff_getElem.2 ⟨0, by omega, rfl⟩
  have hlast : fields[fields.length - 1] ∈ fields.drop (i + 1) :=
    List.mem_drop_iff_getElem.2 ⟨fields.length - 1 - (i + 1), by omega, by congr 1; omega⟩
  rcases sideGuarded_cases cause hfirst with
    ⟨hrefused, hnone⟩ | ⟨head, hle, hok, htake, -⟩
  · rw [ofFieldsGuarded, hcounts, hrefused, hnone]
    rfl
  rcases sideGuarded_cases cause hlast with
    ⟨hrefused, hnone⟩ | ⟨tail, hle', hok', -, hdrop⟩
  · rw [ofFieldsGuarded, hcounts, hok, hrefused, hnone]
    cases side? (fields.take i) <;> rfl
  rw [hok, ok_bind, hok', ok_bind] at hcounts
  rw [List.length_drop] at hle' hdrop
  rw [List.length_take_of_le (by omega)] at hle
  have htake' : side? (fields.take i) = (fields.take head).mapM id := by
    rw [htake, List.take_take, Nat.min_eq_left hle]
  have hdrop' : side? (fields.drop (i + 1)) = (fields.drop (fields.length - tail)).mapM id := by
    rw [hdrop, List.drop_drop, show i + 1 + (fields.length - (i + 1) - tail) =
      fields.length - tail by omega]
  rw [htake', hdrop']
  exact ofFieldsGuarded_of_sides hcounts (by omega) (by omega)

theorem ofFieldsGuarded_eq (hne : fields ≠ []) :
    ofFieldsGuarded cause fields = accept cause (ofFields? fields) := by
  have hgap := gapGuarded_eq cause hne
  rw [ofFields?]
  cases hgaps : gaps fields with
  | nil =>
    rw [hgaps] at hgap
    exact ofFieldsGuarded_of_no_gap hgap
  | cons i rest =>
    rw [hgaps] at hgap
    cases rest with
    | nil =>
      obtain ⟨hpos, hi, -⟩ := mem_gaps.1 (hgaps ▸ List.mem_singleton_self i)
      exact ofFieldsGuarded_of_gap hgap hpos hi
    | cons j rest =>
      rw [ofFieldsGuarded, countsGuarded, hgap]
      rfl

/-! ### Addresses -/

theorem length_le_of_readFields? {parts : List (List Char)}
    (h : readFields? parts = some fields) : parts.length ≤ fields.length := by
  rw [readFields?_eq_some_iff] at h
  induction h with
  | nil => exact Nat.le_refl 0
  | quad hs => simp [hs.length_hextets] -- one part that makes two fields
  | cons hfield hrest ih => simpa using ih

theorem readColonsGuarded_eq (cause : Error) (s : List Char) :
    readColonsGuarded cause s = accept cause (readColons? s) := by
  rw [readColonsGuarded, readColons?]
  split
  · rfl
  · next hparts =>
    cases hfields : readFields? (s.splitOn ':') with
    | none => rfl
    | some fields =>
      have hlen := length_le_of_readFields? hfields
      have hne : fields ≠ [] := List.ne_nil_of_length_pos (by omega)
      change (if 9 < fields.length then _ else ofFieldsGuarded cause fields) =
        accept cause (if fields.length ≤ 9 then ofFields? fields else none)
      by_cases hnine : fields.length ≤ 9
      · rw [if_neg (Nat.not_lt.2 hnine), if_pos hnine, ofFieldsGuarded_eq hne]
      · rw [if_pos (Nat.not_le.1 hnine), if_neg hnine]
        rfl

/-- **Addresses are read without a failure.** -/
theorem parseGuarded_eq (s : String) : parseGuarded s = ofExcept (parse s) := by
  have hparse : ofExcept (parse s) = accept (.notAddress s) (read? s.toList) := by
    rw [parse]
    cases read? s.toList <;> rfl
  rw [parseGuarded, hparse, read?]
  split
  · exact readColonsGuarded_eq (.notAddress s) s.toList
  · rfl

end Cidr.Address
