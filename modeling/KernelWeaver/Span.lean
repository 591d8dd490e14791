/-!
# Source spans

A span is a range of bytes of a source text together with the line it starts on.
-/

namespace KernelWeaver

/-- A range of bytes of a source text and the line, counted from one, on which it starts. -/
structure Span where
  start : Nat
  stop : Nat
  line : Nat
deriving DecidableEq, Repr, Inhabited

namespace Span

/-- The span of nothing. -/
def zero : Span := ⟨0, 0, 0⟩

/-- The least span that covers two spans. -/
def merge (a b : Span) : Span :=
  ⟨min a.start b.start, max a.stop b.stop, min a.line b.line⟩

theorem merge_comm (a b : Span) : a.merge b = b.merge a := by
  simp [merge, Nat.min_comm, Nat.max_comm]

theorem merge_assoc (a b c : Span) : (a.merge b).merge c = a.merge (b.merge c) := by
  simp [merge, Nat.min_assoc, Nat.max_assoc]

end Span

end KernelWeaver
