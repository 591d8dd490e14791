import KernelWeaver.Proofs.Typing.Parentheses

/-!
# Compound assignments

An assignment that is joined with an operator has a type exactly if the plain assignment has one in
which the operator is written out, and then it has the same type. The two are checked in different
ways: the value of the operator is assigned in the one and dropped in the other. That they agree
rests on what the operators that can be joined yield: a number from two numbers, a pointer of the
same kind from a pointer, and else nothing that the target could take.
-/

namespace KernelWeaver

namespace Snippet.Expr

/-- The expression inside the parentheses around it. -/
def content : Expr → Expr
  | group _ inner => inner.content
  | e => e

/-- The other is the same expression, but for the parentheses around it and the numbers and places
of its nodes. -/
def Restated (e e' : Expr) : Prop := e'.content.shape = e.content.shape

end Snippet.Expr

namespace Typing

open Snippet

variable {aliases : Aliases} {names : String → Option (List CType)}

/-! ### Operators -/

/-- Operators that are joined with an assignment neither compare their operands nor join truth
values. -/
theorem yields_value_of_assignOp? {kind : TokenKind} {op : BinaryOp}
    (h : Parser.assignOp? kind = some (.compound op)) :
    op.isLogical = false ∧ op.isComparison = false := by
  cases kind <;> cases h <;> exact ⟨rfl, rfl⟩

/-- A pointer can be assigned what is a pointer of its kind to values that are no more const. -/
theorem assignable_removeConst_pointer (s : CType) (c : Bool) :
    assignable (.pointer s c) (CType.pointer s c).removeConst = true := by
  have hkind : s.sameKind s = true := by simp [CType.sameKind]
  simp [CType.removeConst, CType.withConst, assignable, hkind]

section

variable {op : BinaryOp} {a b : CType}

/-- Two numbers yield a number. -/
theorem exists_num_of_binaryType {n m : Numeric} {c d : Bool} {r : CType}
    (hlogical : op.isLogical = false) (h : binaryType op (.value n c) (.value m d) = .ok r) :
    ∃ k, r = CType.num k := by
  unfold binaryType at h
  rw [if_neg (by simp [hlogical])] at h
  dsimp only at h
  split at h
  next => cases h
  next =>
    split at h
    next =>
      cases h
      exact ⟨.int32, rfl⟩
    next =>
      split at h
      next =>
        cases h
        exact ⟨n.promoted, rfl⟩
      next =>
        cases h
        exact ⟨n.common m, rfl⟩

/-- A number and a pointer yield the pointer, without its constness. -/
theorem eq_removeConst_of_binaryType_value_pointer {n : Numeric} {t r : CType} {c d : Bool}
    (hlogical : op.isLogical = false) (h : binaryType op (.value n c) (.pointer t d) = .ok r) :
    r = (CType.pointer t d).removeConst := by
  unfold binaryType at h
  rw [if_neg (by simp [hlogical])] at h
  dsimp only at h
  split at h
  next => exact (Except.ok.inj h).symm
  next => cases h

/-- A pointer and a number yield the pointer, without its constness. -/
theorem eq_removeConst_of_binaryType_pointer_value {s r : CType} {m : Numeric} {c d : Bool}
    (hlogical : op.isLogical = false) (h : binaryType op (.pointer s c) (.value m d) = .ok r) :
    r = (CType.pointer s c).removeConst := by
  unfold binaryType at h
  rw [if_neg (by simp [hlogical])] at h
  dsimp only at h
  split at h
  next => exact (Except.ok.inj h).symm
  next => cases h

/-- Only a comparison takes two pointers. -/
theorem binaryType_pointers_ne_ok {s t r : CType} {c d : Bool} (hlogical : op.isLogical = false)
    (hcomparison : op.isComparison = false) :
    binaryType op (.pointer s c) (.pointer t d) ≠ .ok r := by
  unfold binaryType
  rw [if_neg (by simp [hlogical])]
  dsimp only
  rw [if_neg (by simp [hcomparison])]
  split <;> exact fun h => by cases h

/-- Operators that join no truth values take numbers and pointers alone. -/
theorem isScalar_of_binaryType {r : CType} (hlogical : op.isLogical = false)
    (h : binaryType op a b = .ok r) : isScalar a = true ∧ isScalar b = true := by
  unfold binaryType at h
  rw [if_neg (by simp [hlogical])] at h
  split at h
  next => exact ⟨rfl, rfl⟩
  next => exact ⟨rfl, rfl⟩
  next => exact ⟨rfl, rfl⟩
  next => exact ⟨rfl, rfl⟩
  next => cases h

/-- What an operator yields can be assigned to its left operand, unless that is a number and the
right operand is none. -/
theorem assignable_of_binaryType {r : CType} (hlogical : op.isLogical = false)
    (hcomparison : op.isComparison = false) (h : binaryType op a b = .ok r) :
    assignable a r = !(a.isNumeric && !b.isNumeric) := by
  obtain ⟨ha, hb⟩ := isScalar_of_binaryType hlogical h
  cases a with
  | void | function | device => cases ha
  | value n c =>
      cases b with
      | void | function | device => cases hb
      | value m d =>
          obtain ⟨k, rfl⟩ := exists_num_of_binaryType hlogical h
          rfl
      | pointer t d =>
          rw [eq_removeConst_of_binaryType_value_pointer hlogical h]
          rfl
  | pointer s c =>
      cases b with
      | void | function | device => cases hb
      | value m d =>
          rw [eq_removeConst_of_binaryType_pointer_value hlogical h,
            assignable_removeConst_pointer]
          rfl
      | pointer t d => exact absurd h (binaryType_pointers_ne_ok hlogical hcomparison)

/-- An assignment joined with an operator is the assignment of what the operator yields. -/
theorem assigned?_compound (hlogical : op.isLogical = false) (hcomparison : op.isComparison = false)
    (target value : CType) :
    assigned? (.compound op) target value =
      (binaryType op target value).toOption.bind (assigned? .plain target) := by
  unfold assigned?
  cases hconst : target.isConst with
  | true => simp
  | false =>
      simp only [Bool.false_eq_true, if_false]
      cases hresult : binaryType op target value with
      | error flaw => simp [Except.toOption]
      | ok r =>
          have hfits := assignable_of_binaryType hlogical hcomparison hresult
          simp only [Except.toOption, Option.map_some, Option.bind_some, hfits]
          cases target.isNumeric && !value.isNumeric <;> rfl

end

/-! ### Expressions -/

theorem typeOf?_content (e : Expr) : typeOf? aliases names e.content = typeOf? aliases names e := by
  cases e with
  | group node inner =>
      rw [Expr.content, typeOf?, typeOf?_content inner]
  | _ => rfl

/-- Parentheses around an expression do not matter for its type. -/
theorem typeOf?_eq_of_restated {e e' : Expr} (h : e.Restated e') :
    typeOf? aliases names e' = typeOf? aliases names e := by
  rw [← typeOf?_content e', ← typeOf?_shape, h, typeOf?_shape, typeOf?_content]

/-- The type of a compound assignment is that of the assignment with its operator written out. -/
theorem typeOf?_compound {op : BinaryOp} (hlogical : op.isLogical = false)
    (hcomparison : op.isComparison = false) (node node' inner : Node)
    {target left right value operand : Expr} (hleft : target.Restated left)
    (hright : target.Restated right) (hvalue : value.Restated operand) :
    typeOf? aliases names (.assign node (.compound op) target value) =
      typeOf? aliases names (.assign node' .plain left (.binary inner op right operand)) := by
  simp only [typeOf?, typeOf?_eq_of_restated hleft, typeOf?_eq_of_restated hright,
    typeOf?_eq_of_restated hvalue, assigned?_compound hlogical hcomparison]
  cases typeOf? aliases names target with
  | none => rfl
  | some t =>
      simp only [Option.bind_some, Option.bind_assoc]

/-- A compound assignment is checked without a remark exactly if the plain assignment is in which
its operator is written out, and both have the same type or none, wherever in a snippet they
stand. -/
theorem compound_assignment_iff_written_out {kind : TokenKind} {op : BinaryOp}
    (hop : Parser.assignOp? kind = some (.compound op)) (setting : Setting) {c c' : Checker}
    (hscopes : c'.scopes = c.scopes) (node node' inner : Node)
    {target left right value operand : Expr} (hleft : target.Restated left)
    (hright : target.Restated right) (hvalue : value.Restated operand) :
    let joined := check setting (.assign node (.compound op) target value) c
    let apart := check setting (.assign node' .plain left (.binary inner op right operand)) c'
    (joined.2.report = c.report ↔ apart.2.report = c'.report) ∧ joined.1 = apart.1 := by
  obtain ⟨hlogical, hcomparison⟩ := yields_value_of_assignOp? hop
  have htype : typeOf? setting.aliases (setting.namesIn c.scopes)
      (.assign node (.compound op) target value) = _ :=
    typeOf?_compound hlogical hcomparison node node' inner hleft hright hvalue
  constructor
  · rw [check_clean_iff, check_clean_iff, hscopes, htype]
  · rw [(check_yields _ c rfl).1, (check_yields _ c' hscopes).1, htype]

theorem compound_assignment_iff_written_out_pointer :
    let setting : Setting := ⟨fun _ => none, [], none⟩
    let t := CType.pointer (.value .int32 true) false
    let c := { Checker.initial with scopes := [[("p", t)]], loopDepth := 1 }
    let p := Expr.name ⟨0, default⟩ "p"
    let one := Expr.bool ⟨1, default⟩ true
    let joined := check setting (.assign ⟨2, default⟩ (.compound .sub) p one) c
    let apart := check setting (.assign ⟨4, default⟩ .plain p
      (.binary ⟨3, default⟩ .sub (.group ⟨2, default⟩ p) (.group ⟨5, default⟩ one))) c
    (joined.2.report = c.report ↔ apart.2.report = c.report) ∧ joined.1 = apart.1 ∧
      joined.1 = some t := by
  intro setting t c p one joined apart
  have hop : Parser.assignOp? .minusEqual = some (.compound .sub) := rfl
  have htarget : p.Restated (.group ⟨2, default⟩ p) := rfl
  have hvalue : one.Restated (.group ⟨5, default⟩ one) := rfl
  have hboth := compound_assignment_iff_written_out hop setting (Eq.refl c.scopes)
    ⟨2, default⟩ ⟨4, default⟩ ⟨3, default⟩ (rfl : p.Restated p) htarget hvalue
  exact ⟨hboth.1, hboth.2, by decide +kernel⟩

end Typing

end KernelWeaver
