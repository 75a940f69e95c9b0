import Cidr.Error

/-!
# Failures

An operation on plain data ends without a result for one of two reasons.  Its
input may be refused, for a cause that is named.  Or the data are not in order,
and something is missing that is there whenever they are.

## Main definitions

* `Failure` — the two reasons.
* `Failure.ofExcept`, `Failure.accept`, `Failure.accepted?` — an operation that may
  refuse its input, a value that is there unless it does, and what is left of one
  where a refusal is no failure.
* `Failure.require`, `Failure.difference` — what is there when the data are in
  order.
-/

namespace Cidr

/-- Why an operation on plain data has no result. -/
inductive Failure where
  /-- The input is refused. -/
  | refused (cause : Error)
  /-- The data are not in order. -/
  | broken (what : String)
  deriving DecidableEq, Repr, Inhabited

namespace Failure

variable {α β : Type}

/-- The result of an operation that may refuse its input. -/
def ofExcept : Except Error α → Except Failure α
  | .ok a => .ok a
  | .error e => .error (.refused e)

/-- A value that is there unless the input is refused. -/
def accept (cause : Error) : Option α → Except Failure α
  | some a => .ok a
  | none => .error (.refused cause)

/-- The result of an operation, if its input is not refused. -/
def accepted? : Except Failure α → Except Failure (Option α)
  | .ok a => .ok (some a)
  | .error (.refused _) => .ok none
  | .error (.broken what) => .error (.broken what)

/-- A value that is there when the data are in order. -/
def require (what : String) : Option α → Except Failure α
  | some a => .ok a
  | none => .error (.broken what)

/-- The difference of two numbers, the second of which is not greater when the data are in
order. -/
def difference (a b : Nat) : Except Failure Nat :=
  require "difference below zero" (if b ≤ a then some (a - b) else none)

@[simp] theorem ofExcept_ok (a : α) : ofExcept (.ok a) = .ok a := rfl

@[simp] theorem ofExcept_error (e : Error) :
    ofExcept (.error e : Except Error α) = .error (.refused e) := rfl

theorem ofExcept_eq_ok_iff {x : Except Error α} {a : α} : ofExcept x = .ok a ↔ x = .ok a := by
  cases x <;> simp

@[simp] theorem accept_some (cause : Error) (a : α) : accept cause (some a) = .ok a := rfl

@[simp] theorem accept_none (cause : Error) :
    accept cause (none : Option α) = .error (.refused cause) := rfl

@[simp] theorem accepted?_ofExcept (x : Except Error α) :
    accepted? (ofExcept x) = .ok x.toOption := by
  cases x <;> rfl

@[simp] theorem require_some (what : String) (a : α) : require what (some a) = .ok a := rfl

theorem difference_eq_ok {a b : Nat} (h : b ≤ a) : difference a b = .ok (a - b) := by
  rw [difference, if_pos h, require_some]

theorem difference_eq_ok_iff {a b c : Nat} : difference a b = .ok c ↔ b ≤ a ∧ c = a - b := by
  by_cases h : b ≤ a
  · rw [difference_eq_ok h]
    simp [h, eq_comm]
  · rw [difference, if_neg h]
    exact iff_of_false nofun fun h' => h h'.1

theorem accepted?_eq_ok_some_iff {x : Except Failure α} {a : α} :
    accepted? x = .ok (some a) ↔ x = .ok a := by
  cases x with
  | ok b => simp [accepted?]
  | error e => cases e <;> simp [accepted?]

@[simp] theorem ok_bind (a : α) (f : α → Except Failure β) : (Except.ok a >>= f) = f a := rfl

@[simp] theorem error_bind (e : Failure) (f : α → Except Failure β) :
    (Except.error e >>= f) = .error e := rfl

/-- An operation in two steps has a result when both steps have one. -/
theorem bind_eq_ok_iff {ε : Type} {x : Except ε α} {f : α → Except ε β} {b : β} :
    (x >>= f) = .ok b ↔ ∃ a, x = .ok a ∧ f a = .ok b := by
  cases x with
  | error e => simp [bind, Except.bind]
  | ok a => simp [bind, Except.bind]

end Failure

end Cidr
