import Cidr.Address.ZeroRun
import Cidr.Proofs.Address.RoundTrip

/-!
# The longest run of zeros

There is one run of zero hextets that is the leftmost of the longest ones.  It is
found by looking at the sequence from its end, and also in a single pass from left
to right: what the pass keeps is right for the part that it has seen, and stays
right with each further hextet.

## Main results

* `ZeroRun.IsLongest.unique` — there is one such run.
* `ZeroRun.IsLongest.isMaximal` — it goes on at neither end.
* `ZeroRun.isLongest_longest`, `ZeroRun.isLongest_scan` — both ways find it.
-/

namespace Cidr.ZeroRun

variable {hs ks : List UInt16} {h : UInt16} {q r : ZeroRun}

/-! ### Runs -/

theorem isIn_of_length_eq_zero (hzero : q.length = 0) : q.IsIn hs := by
  intro i hi
  omega

/-- A run that is not empty ends within the sequence. -/
theorem IsIn.end_le (hq : q.IsIn hs) (hpos : 0 < q.length) : q.start + q.length ≤ hs.length := by
  have hlast := hq (q.length - 1) (by omega)
  have hlt := (List.getElem?_eq_some_iff.1 hlast).1
  omega

theorem IsIn.append (hq : q.IsIn hs) (ks : List UInt16) : q.IsIn (hs ++ ks) := by
  intro i hi
  rw [List.getElem?_append_left (List.getElem?_eq_some_iff.1 (hq i hi)).1]
  exact hq i hi

/-- A run at the end becomes longer by a further zero. -/
theorem IsIn.concat_zero (hq : q.IsIn hs) (hend : q.start + q.length = hs.length) :
    IsIn ⟨q.start, q.length + 1⟩ (hs ++ [0]) := by
  intro i hi
  rcases Nat.lt_succ_iff_lt_or_eq.1 hi with hlt | rfl
  · exact hq.append [0] i hlt
  · rw [hend, List.getElem?_concat_length]

/-- A run within the part before a further hextet, or one that ends with this hextet. -/
theorem IsIn.of_concat (hq : q.IsIn (hs ++ [h])) :
    q.IsIn hs ∨ h = 0 ∧ 0 < q.length ∧ q.start + q.length = hs.length + 1 ∧
      IsIn ⟨q.start, q.length - 1⟩ hs := by
  have hinit : ∀ n ≤ q.length, q.start + n ≤ hs.length → IsIn ⟨q.start, n⟩ hs := by
    intro n hn hend i hi
    have hi' : i < n := hi
    rw [← hq i (by omega), List.getElem?_append_left (show q.start + i < hs.length by omega)]
  rcases Nat.eq_zero_or_pos q.length with hzero | hpos
  · exact .inl (isIn_of_length_eq_zero hzero)
  · have hend := hq.end_le hpos
    rw [List.length_append, List.length_singleton] at hend
    rcases Nat.lt_or_ge hs.length (q.start + q.length) with hlt | hle
    · have hlast := hq (q.length - 1) (by omega)
      rw [show q.start + (q.length - 1) = hs.length by omega, List.getElem?_concat_length] at hlast
      exact .inr ⟨Option.some.inj hlast, hpos, by omega, hinit _ (Nat.sub_le _ _) (by omega)⟩
    · exact .inl (hinit _ (Nat.le_refl _) hle)

theorem isIn_cons_succ {start length : Nat} :
    IsIn ⟨start + 1, length⟩ (h :: hs) ↔ IsIn ⟨start, length⟩ hs := by
  have hat : ∀ i, (h :: hs)[start + 1 + i]? = hs[start + i]? := by
    intro i
    rw [Nat.add_right_comm, List.getElem?_cons_succ]
  simp only [IsIn, hat]

/-- The runs that begin with the sequence are no longer than its leading zeros. -/
theorem isIn_zero_iff {length : Nat} : IsIn ⟨0, length⟩ hs ↔ length ≤ leading hs := by
  induction hs generalizing length with
  | nil =>
    constructor
    · intro hin
      rcases Nat.eq_zero_or_pos length with hzero | hpos
      · exact Nat.le_of_eq hzero
      · exact Nat.le_trans (Nat.le_add_left _ _) (hin.end_le hpos)
    · intro hle
      exact isIn_of_length_eq_zero (Nat.le_zero.1 hle)
  | cons h hs ih =>
    cases length with
    | zero => exact iff_of_true (isIn_of_length_eq_zero rfl) (Nat.zero_le _)
    | succ n =>
      have hcons : IsIn ⟨0, n + 1⟩ (h :: hs) ↔ h = 0 ∧ IsIn ⟨0, n⟩ hs := by
        constructor
        · intro hin
          refine ⟨Option.some.inj (hin 0 (Nat.succ_pos n)), ?_⟩
          intro i hi
          have := hin (i + 1) (Nat.succ_lt_succ hi)
          rwa [Nat.zero_add, List.getElem?_cons_succ, ← Nat.zero_add i] at this
        · rintro ⟨rfl, hin⟩ i hi
          cases i with
          | zero => rfl
          | succ i =>
            have := hin i (Nat.lt_of_succ_lt_succ hi)
            rwa [Nat.zero_add, List.getElem?_cons_succ, ← Nat.zero_add i]
      rw [hcons, ih, leading, leading, List.takeWhile_cons]
      split <;> simp_all

/-! ### The longest run -/

/-- **There is one longest run,** if among several the leftmost one counts. -/
theorem IsLongest.unique (hq : q.IsLongest hs) (hr : r.IsLongest hs) : q = r := by
  have hlength : q.length = r.length :=
    Nat.le_antisymm (hr.length_le q hq.isIn) (hq.length_le r hr.isIn)
  have hstart : q.start = r.start := by
    rcases Nat.lt_trichotomy q.start r.start with hlt | heq | hgt
    · exact absurd (hr.length_lt q hq.isIn hlt) (by omega)
    · exact heq
    · exact absurd (hq.length_lt r hr.isIn hgt) (by omega)
  cases q
  cases r
  simp_all

/-- The longest run is a whole one: with a zero at either end it would be longer. -/
theorem IsLongest.isMaximal (hr : r.IsLongest hs) : r.IsMaximal hs := by
  refine ⟨hr.isIn, ?_, ?_⟩
  · intro i hi hzero
    refine absurd (hr.length_le ⟨i, r.length + 1⟩ ?_) (by simp)
    intro j hj
    cases j with
    | zero => exact hzero
    | succ j =>
      have := hr.isIn j (Nat.lt_of_succ_lt_succ hj)
      rwa [← hi, Nat.add_right_comm] at this
  · intro hzero
    refine absurd (hr.length_le ⟨r.start, r.length + 1⟩ ?_) (by simp)
    intro j hj
    rcases Nat.lt_succ_iff_lt_or_eq.1 hj with hlt | rfl
    · exact hr.isIn j hlt
    · exact hzero

/-- Looking at the sequence from its end finds the longest run. -/
theorem isLongest_longest (hs : List UInt16) : (longest hs).IsLongest hs := by
  induction hs with
  | nil =>
    refine ⟨isIn_of_length_eq_zero rfl, ?_, fun _ _ hlt => absurd hlt (Nat.not_lt_zero _)⟩
    intro q hq
    rcases Nat.eq_zero_or_pos q.length with hzero | hpos
    · exact Nat.le_of_eq hzero
    · exact Nat.le_trans (Nat.le_add_left _ _) (hq.end_le hpos)
  | cons h hs ih =>
    rw [longest]
    split
    · next hle =>
      refine ⟨isIn_zero_iff.2 (Nat.le_refl _), ?_, fun _ _ hlt => absurd hlt (Nat.not_lt_zero _)⟩
      rintro ⟨start, length⟩ hq
      cases start with
      | zero => exact isIn_zero_iff.1 hq
      | succ start => exact Nat.le_trans (ih.length_le ⟨start, length⟩ (isIn_cons_succ.1 hq)) hle
    · next hlt =>
      have hlater : leading (h :: hs) < (longest hs).length := Nat.lt_of_not_le hlt
      refine ⟨isIn_cons_succ.2 ih.isIn, ?_, ?_⟩
      · rintro ⟨start, length⟩ hq
        cases start with
        | zero => exact Nat.le_trans (isIn_zero_iff.1 hq) (Nat.le_of_lt hlater)
        | succ start => exact ih.length_le ⟨start, length⟩ (isIn_cons_succ.1 hq)
      · rintro ⟨start, length⟩ hq hbefore
        cases start with
        | zero => exact Nat.lt_of_le_of_lt (isIn_zero_iff.1 hq) hlater
        | succ start =>
          exact ih.length_lt ⟨start, length⟩ (isIn_cons_succ.1 hq) (Nat.lt_of_succ_lt_succ hbefore)

/-- The run is at the end of the sequence, and no other run there is longer. -/
structure IsLast (r : ZeroRun) (hs : List UInt16) : Prop where
  isIn : r.IsIn hs
  end_eq : r.start + r.length = hs.length
  length_le : ∀ q : ZeroRun, q.IsIn hs → q.start + q.length = hs.length → q.length ≤ r.length

/-- With a further zero all other runs are old ones, or no longer than the one at the end. -/
theorem IsLast.of_concat_zero (hr : r.IsLast hs) (hq : q.IsIn (hs ++ [0])) :
    q.IsIn hs ∨ q.start + q.length = hs.length + 1 ∧ q.length ≤ r.length + 1 := by
  rcases hq.of_concat with hq | ⟨-, hpos, hend, hinit⟩
  · exact .inl hq
  · have hle : q.length - 1 ≤ r.length :=
      hr.length_le _ hinit (show q.start + (q.length - 1) = _ by omega)
    exact .inr ⟨hend, by omega⟩

/-- With a further zero the run at the end may exceed the longest one. -/
theorem IsLongest.concat_zero (hr : r.IsLongest hs) (hlast : q.IsLast hs) :
    IsLongest (if r.length < q.length + 1 then ⟨q.start, q.length + 1⟩ else r) (hs ++ [0]) := by
  have hend := hlast.end_eq
  split
  · next hbetter =>
    refine ⟨hlast.isIn.concat_zero hend, ?_, ?_⟩
    · intro p hp
      rcases hlast.of_concat_zero hp with hp | ⟨-, hle⟩
      · exact Nat.le_trans (hr.length_le p hp) (Nat.le_of_lt hbetter)
      · exact hle
    · intro p hp hbefore
      have hlt : p.start < q.start := hbefore
      rcases hlast.of_concat_zero hp with hp | ⟨hpend, hle⟩
      · exact Nat.lt_of_le_of_lt (hr.length_le p hp) hbetter
      · -- both end with the new hextet, so the one that begins first is longer
        exact absurd hle (by omega)
  · next hworse =>
    refine ⟨hr.isIn.append _, ?_, ?_⟩
    · intro p hp
      rcases hlast.of_concat_zero hp with hp | ⟨-, hle⟩
      · exact hr.length_le p hp
      · exact Nat.le_trans hle (Nat.le_of_not_lt hworse)
    · intro p hp hbefore
      rcases hlast.of_concat_zero hp with hp | ⟨hpend, hle⟩
      · exact hr.length_lt p hp hbefore
      · -- the longest run ends before the new hextet, where this one ends
        have hrend := hr.isIn.end_le (by omega)
        exact absurd hle (by omega)

/-! ### The single pass -/

namespace Scan

/-- What the pass keeps is right for the hextets that it has seen.  Outside of a run the empty one
at the end counts as the run that the pass is in. -/
structure Follows (s : Scan) (hs : List UInt16) : Prop where
  isLongest_best : s.best.IsLongest hs
  isLast_current : IsLast (if s.current.length = 0 then ⟨hs.length, 0⟩ else s.current) hs

variable {s : Scan}

theorem follows_initial : initial.Follows [] := by
  refine ⟨isLongest_longest [], isIn_of_length_eq_zero rfl, rfl, ?_⟩
  intro q _ hend
  exact Nat.le_trans (Nat.le_add_left _ _) (Nat.le_of_eq hend)

/-- A hextet that is not zero ends the run. -/
theorem Follows.step_of_ne_zero (hs' : s.Follows hs) (hne : h ≠ 0) :
    (s.step h hs.length).Follows (hs ++ [h]) := by
  have hold : ∀ q : ZeroRun, q.IsIn (hs ++ [h]) → q.IsIn hs := by
    intro q hq
    rcases hq.of_concat with hq | ⟨hzero, -⟩
    · exact hq
    · exact absurd hzero hne
  obtain ⟨hbest, -⟩ := hs'
  rw [step, if_pos hne]
  refine ⟨⟨hbest.isIn.append _, fun q hq => hbest.length_le q (hold q hq),
    fun q hq => hbest.length_lt q (hold q hq)⟩, isIn_of_length_eq_zero rfl, rfl, ?_⟩
  intro q hq hend
  rcases Nat.eq_zero_or_pos q.length with hzero | hpos
  · exact Nat.le_of_eq hzero
  · -- a run up to the new hextet would have to be one of the old sequence
    have hle := (hold q hq).end_le hpos
    rw [List.length_append, List.length_singleton] at hend
    omega

/-- A zero makes the run at the end longer, and it may now exceed the best one. -/
theorem Follows.step_zero (hs' : s.Follows hs) : (s.step 0 hs.length).Follows (hs ++ [0]) := by
  obtain ⟨hbest, hlast⟩ := hs'
  obtain ⟨run, hrun⟩ : ∃ run : ZeroRun,
      run = if s.current.length = 0 then ⟨hs.length, 0⟩ else s.current := ⟨_, rfl⟩
  rw [← hrun] at hlast
  have hstep : s.step 0 hs.length =
      ⟨if s.best.length < run.length + 1 then ⟨run.start, run.length + 1⟩ else s.best,
        ⟨run.start, run.length + 1⟩⟩ := by
    rw [step, if_neg (not_not_intro rfl), hrun]
    split
    · next hzero => rw [hzero]
    · rfl
  rw [hstep]
  refine ⟨hbest.concat_zero hlast, ?_⟩
  rw [if_neg (Nat.succ_ne_zero _)]
  refine ⟨hlast.isIn.concat_zero hlast.end_eq, ?_, ?_⟩
  · rw [List.length_append, List.length_singleton, ← hlast.end_eq, Nat.add_assoc]
  · intro q hq hend
    rw [List.length_append, List.length_singleton] at hend
    rcases hlast.of_concat_zero hq with hq | ⟨-, hle⟩
    · rcases Nat.eq_zero_or_pos q.length with hzero | hpos
      · exact hzero ▸ Nat.zero_le _
      · exact absurd (hq.end_le hpos) (by omega)
    · exact hle

/-- **After a pass over all hextets** what it keeps is right for them. -/
theorem follows_foldl (hs : List UInt16) :
    (hs.zipIdx.foldl (fun s e => s.step e.1 e.2) initial).Follows hs := by
  induction hs using List.reverseRecOn with
  | nil => exact follows_initial
  | append_singleton hs h ih =>
    rw [List.zipIdx_append, List.foldl_append, Nat.zero_add]
    change (step _ h hs.length).Follows _
    by_cases hzero : h = 0
    · rw [hzero]
      exact ih.step_zero
    · exact ih.step_of_ne_zero hzero

end Scan

theorem isLongest_scan (hs : List UInt16) : (scan hs).IsLongest hs :=
  (Scan.follows_foldl hs).isLongest_best

/-- **The single pass finds the same run** as looking at the sequence from its end. -/
theorem scan_eq_longest (hs : List UInt16) : scan hs = longest hs :=
  (isLongest_scan hs).unique (isLongest_longest hs)

end Cidr.ZeroRun
