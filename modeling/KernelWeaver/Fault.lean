/-!
# Faults

Lane ids and counts are 32-bit words, sizes in bytes are 64-bit words, and tables have fixed
lengths. A computation that leaves these bounds has no answer: it ends with a `Fault`. Faults are
kept apart from the errors that a model or a snippet can cause.
-/

namespace KernelWeaver

/-- Why a computation has no answer. -/
inductive Fault where
  /-- A result does not fit its word. -/
  | overflow
  /-- A division by zero. -/
  | divisionByZero
  /-- An index past the end of a table or a text. -/
  | outOfRange
  /-- An operation was applied outside its domain. -/
  | precondition
  /-- A name resolves through itself without end. -/
  | endless
deriving DecidableEq, Repr

/-- A computation that may end with a fault. -/
abbrev Checked (α : Type) := Except Fault α

/-- `n` as a word of `width` bits, if it fits. -/
def fit (width n : Nat) : Checked Nat :=
  if n < Nat.pow 2 width then .ok n else .error .overflow

theorem fit_eq_ok_iff {width n m : Nat} : fit width n = .ok m ↔ n < Nat.pow 2 width ∧ n = m := by
  unfold fit
  by_cases h : n < Nat.pow 2 width
  · rw [if_pos h]
    exact ⟨fun e => ⟨h, Except.ok.inj e⟩, fun e => congrArg Except.ok e.2⟩
  · rw [if_neg h]
    exact ⟨fun e => (nomatch e), fun e => absurd e.1 h⟩

/-- The quotient of `n` by `d`, rounded down. -/
def quotient (n d : Nat) : Checked Nat :=
  if d = 0 then .error .divisionByZero else .ok (n / d)

theorem quotient_eq_ok_iff {n d q : Nat} : quotient n d = .ok q ↔ d ≠ 0 ∧ n / d = q := by
  by_cases h : d = 0 <;> simp [quotient, h]

/-- The entry of `xs` at `i`. -/
def entry {α : Type} (xs : List α) (i : Nat) : Checked α :=
  match xs[i]? with
  | some x => .ok x
  | none => .error .outOfRange

theorem entry_eq_ok_iff {α : Type} {xs : List α} {i : Nat} {x : α} :
    entry xs i = .ok x ↔ xs[i]? = some x := by
  unfold entry
  split <;> simp_all

end KernelWeaver
