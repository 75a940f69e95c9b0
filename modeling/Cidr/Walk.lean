/-!
# Walks

The addresses of a network and its subnets are given out one at a time.  A walk
is the state of giving them out: a step answers an item and the walk from there
on, or nothing at the end.

## Main definitions

* `Walk.take` — the next items, and the walk from there on.
* `Walk.item?` — the item at a position.
* `Walk.answer?` — what a call for the next item answers after others.
* `Walk.Yields` — the sequence of all items.

## Main results

* `Walk.answer?_eq_item?` — **calls answer the items in order,** and nothing ever
  after.
* `Walk.yields_take` — taking as many items as there are takes the sequence of all
  of them.
-/

namespace Cidr.Walk

variable {σ α : Type} [Std.Stream σ α]

/-- The next `k` items, or all that are left, and the walk from there on. -/
def take : (k : Nat) → σ → List α × σ
  | 0, s => ([], s)
  | k + 1, s =>
    match Std.Stream.next? s with
    | none => ([], s)
    | some (a, t) =>
      let (rest, u) := take k t
      (a :: rest, u)

/-- The item at position `k`, counted from zero. -/
def item? : (k : Nat) → σ → Option α
  | 0, s => (Std.Stream.next? s).map Prod.fst
  | k + 1, s => (Std.Stream.next? s).bind fun (_, t) => item? k t

/-! ### Calls -/

/-- The walk after `k` calls for the next item.  A call at the end leaves it as it is. -/
def after : (k : Nat) → σ → σ
  | 0, s => s
  | k + 1, s => after k (((Std.Stream.next? s).map Prod.snd).getD s)

/-- What a call for the next item answers after `k` others. -/
def answer? (k : Nat) (s : σ) : Option α := (Std.Stream.next? (after k s)).map Prod.fst

theorem item?_of_next?_eq_none {s : σ} (h : Std.Stream.next? s = none) (k : Nat) :
    item? k s = none := by
  cases k with
  | zero => rw [item?, h, Option.map_none]
  | succ k => rw [item?, h, Option.bind_none]

/-- **Calls answer the items in order.**  A walk that is at its end stays there. -/
theorem answer?_eq_item? (k : Nat) (s : σ) : answer? k s = item? k s := by
  induction k generalizing s with
  | zero => rfl
  | succ k ih =>
    change answer? k _ = _
    rw [ih]
    cases h : Std.Stream.next? s with
    | none => exact (item?_of_next?_eq_none h k).trans (item?_of_next?_eq_none h (k + 1)).symm
    | some next => rw [item?, h, Option.map_some, Option.getD_some, Option.bind_some]

/-! ### Sequences -/

/-- The walk gives out the items of the list, one with each call, and nothing after them. -/
def Yields (s : σ) (as : List α) : Prop := ∀ k, answer? k s = as[k]?

theorem yields_iff_item? {s : σ} {as : List α} : Yields s as ↔ ∀ k, item? k s = as[k]? := by
  simp only [Yields, answer?_eq_item?]

/-- Taking as many items as there are takes the sequence of all of them. -/
theorem yields_take {m : Nat} {s : σ} (h : item? m s = none) : Yields s (take m s).1 := by
  rw [yields_iff_item?]
  induction m generalizing s with
  | zero =>
    intro k
    exact item?_of_next?_eq_none (Option.map_eq_none_iff.1 h) k
  | succ m ih =>
    intro k
    cases hs : Std.Stream.next? s with
    | none =>
      rw [item?_of_next?_eq_none hs, take, hs]
      rfl
    | some next =>
      rw [item?, hs] at h
      rw [take, hs]
      cases k with
      | zero =>
        rw [item?, hs]
        rfl
      | succ k =>
        rw [item?, hs]
        exact ih h k

end Cidr.Walk
