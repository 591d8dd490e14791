import KernelWeaver.Proofs.Outcome
import KernelWeaver.Proofs.Snippet.Numbering
import KernelWeaver.Proofs.Typing.StmtDerivation
import KernelWeaver.Snippet.Lexer

/-!
# Constness is kept

A pointer that code computes comes from other pointers: it is one of them moved, cast, chosen or
stored. If one of these points to const values, so does it, and so does whatever it is stored in or
passed to. Nothing const is assigned to.
-/

namespace KernelWeaver

/-- Whether the type is a pointer to values that are const. -/
def CType.pointsToConst : CType → Bool
  | .pointer t _ => t.isConst
  | _ => false

/-- The expression that an assignment or a step changes. -/
def Snippet.Expr.changed? : Expr → Option Expr
  | .assign _ _ target _ | .stepBefore _ _ target | .stepAfter _ _ target => some target
  | _ => none

namespace Typing

open Snippet

variable {aliases : Aliases} {types : NodeTypes} {t u a b : CType}

/-- Whether the type of an expression is a pointer. -/
def isPointerIn (types : NodeTypes) (e : Expr) : Bool := (types.find? e.id).any CType.isPointer

/-- The pointers that the value of an expression can come from. -/
def pointerSources (types : NodeTypes) : Expr → List Expr
  | .number .. | .bool .. => []
  | .string node lexeme => [.string node lexeme]
  | .name node text => [.name node text]
  | .call node callee args => [.call node callee args]
  | .subscript node array index => [.subscript node array index]
  | .unary node op operand =>
    match op with
    | .deref | .addressOf => [.unary node op operand]
    | .plus | .minus | .not | .complement => []
  | .binary _ op left right =>
    match op with
    | .add | .sub =>
      (if isPointerIn types left then pointerSources types left else []) ++
        if isPointerIn types right then pointerSources types right else []
    | _ => []
  | .group _ inner => pointerSources types inner
  | .cast _ _ operand => pointerSources types operand
  | .conditional _ _ yes no => pointerSources types yes ++ pointerSources types no
  | .assign _ op target value =>
    match op with
    | .plain => pointerSources types value ++ pointerSources types target
    | .compound _ => pointerSources types target
  | .stepBefore _ _ target => pointerSources types target
  | .stepAfter _ _ target => pointerSources types target

/-- If a pointer that the expression can come from points to const values, so does the type. -/
def KeepsSources (types : NodeTypes) (e : Expr) (t : CType) : Prop :=
  ∀ s ∈ pointerSources types e, ∃ u, types.find? s.id = some u ∧
    (u.pointsToConst = true → t.pointsToConst = true)

/-! ### Rules -/

/-- Types that are the same apart from their own constness have the same target. -/
theorem pointsToConst_eq_of_sameKind (h : a.sameKind b = true) :
    a.pointsToConst = b.pointsToConst := by
  rw [CType.sameKind, decide_eq_true_iff] at h
  cases a <;> cases b <;> cases h <;> rfl

theorem pointsToConst_of_assignable (h : assignable t u = true) (hu : u.pointsToConst = true) :
    t.pointsToConst = true := by
  unfold assignable at h
  split at h
  · cases hu
  · simp only [CType.pointsToConst, Bool.and_eq_true, Bool.or_eq_true, Bool.not_eq_true'] at h hu ⊢
    exact h.2.resolve_left (by simp [hu])
  · cases h

theorem pointsToConst_of_castType {source : CType} {literal : Bool}
    (h : castType t source literal = .ok u) (hsource : source.pointsToConst = true) :
    u.pointsToConst = true := by
  rw [castType_eq_ok h]
  unfold castType at h
  split at h
  · cases hsource
  · split at h
    · cases h
    · split at h
      · cases h
      next hkept =>
        simp only [CType.pointsToConst, Bool.not_eq_true, Bool.or_eq_false_iff] at hsource hkept ⊢
        simpa [hsource] using hkept.1
  · cases h

theorem pointsToConst_of_conditionalType (h : conditionalType a b = .ok t) :
    (a.pointsToConst = true → t.pointsToConst = true) ∧
      (b.pointsToConst = true → t.pointsToConst = true) := by
  unfold conditionalType at h
  split at h
  · exact ⟨nofun, nofun⟩
  · split at h
    next hkind =>
      cases h
      exact ⟨id, (pointsToConst_eq_of_sameKind hkind).trans⟩
    · cases h
  · cases h

/-- Only one of the operands of a sum or a difference can be a pointer, which is then moved. -/
theorem pointsToConst_of_binaryType {op : BinaryOp} (hop : op = .add ∨ op = .sub)
    (h : binaryType op a b = .ok t) :
    (a.isPointer = true → a.pointsToConst = true → t.pointsToConst = true) ∧
      (b.isPointer = true → b.pointsToConst = true → t.pointsToConst = true) := by
  have hlogical : op.isLogical = false := by
    rcases hop with rfl | rfl <;> rfl
  unfold binaryType at h
  rw [hlogical, if_neg Bool.false_ne_true] at h
  split at h
  · exact ⟨nofun, nofun⟩
  · split at h
    · cases h
      exact ⟨fun _ => id, nofun⟩
    · cases h
  · split at h
    · cases h
      exact ⟨nofun, fun _ => id⟩
    · cases h
  · split at h
    next hcompare =>
      have hnot : op.isComparison = false := by
        rcases hop with rfl | rfl <;> rfl
      rw [hnot] at hcompare
      cases hcompare
    · cases h
  · cases h

/-! ### Expressions -/

theorem isPointerIn_eq {e : Expr} (h : HasType aliases types e t) :
    isPointerIn types e = t.isPointer := by
  rw [isPointerIn, h.find?_eq, Option.any_some]

/-- Whatever the sources of a part keep, they keep of a type that is const where that of the part
is. -/
theorem KeepsSources.imp {part : Expr} (h : KeepsSources types part u)
    (hconst : u.pointsToConst = true → t.pointsToConst = true) : KeepsSources types part t := by
  intro s hs
  obtain ⟨v, hfind, hv⟩ := h s hs
  exact ⟨v, hfind, fun hsource => hconst (hv hsource)⟩

theorem keepsSources_of_self {e : Expr} (h : HasType aliases types e t)
    (hsources : pointerSources types e = [e]) : KeepsSources types e t := by
  intro s hs
  rw [hsources, List.mem_singleton] at hs
  exact ⟨t, hs ▸ h.find?_eq, id⟩

theorem keepsSources_binary {node : Node} {op : BinaryOp} {left right : Expr}
    (hleft : HasType aliases types left a) (hright : HasType aliases types right b)
    (hrule : binaryType op a b = .ok t) (ihleft : KeepsSources types left a)
    (ihright : KeepsSources types right b) :
    KeepsSources types (.binary node op left right) t := by
  have hsum : op = .add ∨ op = .sub → KeepsSources types (.binary node op left right) t := by
    intro hop s hs
    have hs : s ∈ (if isPointerIn types left then pointerSources types left else []) ++
        if isPointerIn types right then pointerSources types right else [] := by
      rcases hop with rfl | rfl <;> exact hs
    rw [isPointerIn_eq hleft, isPointerIn_eq hright, List.mem_append] at hs
    obtain ⟨hkeepleft, hkeepright⟩ := pointsToConst_of_binaryType hop hrule
    rcases hs with hs | hs
    · split at hs
      next hpointer => exact ihleft.imp (hkeepleft hpointer) s hs
      next => exact absurd hs List.not_mem_nil
    · split at hs
      next hpointer => exact ihright.imp (hkeepright hpointer) s hs
      next => exact absurd hs List.not_mem_nil
  cases op with
  | add => exact hsum (.inl rfl)
  | sub => exact hsum (.inr rfl)
  | _ => exact fun _ hs => absurd hs List.not_mem_nil

/-- The type of an expression points to const values if one of its sources does. -/
theorem keepsSources (e : Expr) {t : CType} (h : HasType aliases types e t) :
    KeepsSources types e t := by
  have hself := keepsSources_of_self h
  cases h with
  | number | bool => exact fun _ hs => absurd hs List.not_mem_nil
  | string | name | call | subscript => exact hself rfl
  | @unary node op =>
      cases op with
      | deref | addressOf => exact hself rfl
      | _ => exact fun _ hs => absurd hs List.not_mem_nil
  | binary _ hleft hright hrule =>
      exact keepsSources_binary hleft hright hrule (keepsSources _ hleft) (keepsSources _ hright)
  | @group node inner t _ hinner => exact keepsSources inner hinner
  | @cast node type operand target source t _ _ hoperand hrule =>
      exact (keepsSources operand hoperand).imp (pointsToConst_of_castType hrule)
  | @conditional node condition yes no s a b t _ _ _ hyes hno hrule =>
      obtain ⟨hkeepyes, hkeepno⟩ := pointsToConst_of_conditionalType hrule
      intro s hs
      rcases List.mem_append.mp hs with hs | hs
      · exact (keepsSources yes hyes).imp hkeepyes s hs
      · exact (keepsSources no hno).imp hkeepno s hs
  | @assign node op target value t v _ htarget hvalue hassigns =>
      cases op with
      | compound op => exact keepsSources target htarget
      | plain =>
          intro s hs
          rcases List.mem_append.mp hs with hs | hs
          · exact (keepsSources value hvalue).imp (pointsToConst_of_assignable hassigns.2) s hs
          · exact keepsSources target htarget s hs
  | @stepBefore node op target t _ htarget _ => exact keepsSources target htarget
  | @stepAfter node op target t _ htarget _ => exact keepsSources target htarget

mutual

/-- Every part of an expression has a type by the rules. -/
theorem HasType.exists_of_mem_parts {part : Expr} (e : Expr) {t : CType}
    (h : HasType aliases types e t) (hpart : part ∈ e.parts) :
    ∃ u, HasType aliases types part u := by
  have hone : ∀ {xs}, part ∈ e :: xs → (part ∈ xs → ∃ u, HasType aliases types part u) →
      ∃ u, HasType aliases types part u := by
    intro xs hpart hxs
    rcases List.mem_cons.mp hpart with rfl | hpart
    · exact ⟨t, h⟩
    · exact hxs hpart
  have htwo : ∀ {xs ys}, part ∈ e :: (xs ++ ys) → (part ∈ xs → ∃ u, HasType aliases types part u) →
      (part ∈ ys → ∃ u, HasType aliases types part u) → ∃ u, HasType aliases types part u :=
    fun hpart hxs hys => hone hpart fun hpart => (List.mem_append.mp hpart).elim hxs hys
  cases h with
  | number | bool | string | name => exact hone hpart fun h => absurd h List.not_mem_nil
  | @group node inner t _ hinner => exact hone hpart (hinner.exists_of_mem_parts inner)
  | @unary node op operand a t _ hinner _ => exact hone hpart (hinner.exists_of_mem_parts operand)
  | @cast node type operand target source t _ _ hinner _ =>
      exact hone hpart (hinner.exists_of_mem_parts operand)
  | @stepBefore node op target t _ hinner _ => exact hone hpart (hinner.exists_of_mem_parts target)
  | @stepAfter node op target t _ hinner _ => exact hone hpart (hinner.exists_of_mem_parts target)
  | @binary node op left right a b t _ hleft hright _ =>
      exact htwo hpart (hleft.exists_of_mem_parts left) (hright.exists_of_mem_parts right)
  | @assign node op target value t v _ htarget hvalue _ =>
      exact htwo hpart (htarget.exists_of_mem_parts target) (hvalue.exists_of_mem_parts value)
  | @subscript node array index a i t _ harray hindex _ _ =>
      exact htwo hpart (harray.exists_of_mem_parts array) (hindex.exists_of_mem_parts index)
  | @call node callee args function ts score _ hcallee hargs _ =>
      exact htwo hpart (hcallee.exists_of_mem_parts callee) (hargs.exists_of_mem_parts args)
  | @conditional node condition yes no s a b t _ hcondition _ hyes hno _ =>
      refine htwo hpart (fun hpart => ?_) (hno.exists_of_mem_parts no)
      rcases List.mem_append.mp hpart with hpart | hpart
      · exact hcondition.exists_of_mem_parts condition hpart
      · exact hyes.exists_of_mem_parts yes hpart

theorem HasTypes.exists_of_mem_parts {part : Expr} (es : List Expr) {ts : List CType}
    (h : HasTypes aliases types es ts) (hpart : part ∈ Expr.partsOfAll es) :
    ∃ u, HasType aliases types part u := by
  cases h with
  | nil => exact absurd hpart List.not_mem_nil
  | cons he hes =>
      rcases List.mem_append.mp hpart with hpart | hpart
      · exact he.exists_of_mem_parts _ hpart
      · exact hes.exists_of_mem_parts _ hpart

end

/-- Each argument can be assigned to its parameter. -/
theorem HasTypes.assignable_of_mem_zip {params : List CType} {args : List Expr} {ts : List CType}
    (h : HasTypes aliases types args ts)
    (htakes : ∀ pair ∈ params.zip ts, assignable pair.1 pair.2 = true) :
    ∀ pair ∈ params.zip args, ∃ t, HasType aliases types pair.2 t ∧ assignable pair.1 t = true := by
  induction params generalizing args ts with
  | nil => exact fun _ hpair => absurd hpair List.not_mem_nil
  | cons param params ih =>
      cases h with
      | nil => exact fun _ hpair => absurd hpair List.not_mem_nil
      | cons harg hargs =>
          rw [List.zip_cons_cons, List.forall_mem_cons] at htakes ⊢
          exact ⟨⟨_, harg, htakes.1⟩, ih hargs htakes.2⟩

theorem exists_of_callScore? {args : List CType} {f : CType} {score : Nat}
    (h : callScore? args f = some score) :
    ∃ returns params variadic isConst, f = .function returns params variadic isConst ∧
      ∀ pair ∈ params.zip args, assignable pair.1 pair.2 = true := by
  unfold callScore? at h
  split at h
  next returns params variadic isConst =>
    split at h
    next htakes =>
      rw [takes, Bool.and_eq_true, List.all_eq_true] at htakes
      exact ⟨returns, params, variadic, isConst, rfl, htakes.2⟩
    next => cases h
  next => cases h

/-- What can be assigned to a type keeps its sources there. -/
theorem keepsSources_of_assignable {e : Expr} (h : HasType aliases types e u)
    (hassignable : assignable t u = true) : KeepsSources types e t :=
  (keepsSources e h).imp (pointsToConst_of_assignable hassignable)

/-! ### Snippets -/

/-- The expressions that stand in a clause. -/
def Clause.exprs : Clause → List Expr
  | .value e => e.parts
  | .declared _ d => d.init.elim [] Expr.parts

/-- In all clauses, constness is kept on the way from the sources of a pointer to the pointer, to the
name that starts with it, and to the parameter that it is passed for, and nothing const is
changed. -/
structure KeepsConst (aliases : Aliases) (types : NodeTypes) (clauses : List Clause) : Prop where
  values : ∀ clause ∈ clauses, ∀ e ∈ clause.exprs, ∃ t, types.find? e.id = some t ∧
    KeepsSources types e t
  declared : ∀ type d, Clause.declared type d ∈ clauses → ∃ t, types.find? d.id = some t ∧
    declaredType? aliases type d.pointer = some t ∧ ∀ init ∈ d.init, KeepsSources types init t
  arguments : ∀ clause ∈ clauses, ∀ node callee args, .call node callee args ∈ clause.exprs →
    ∃ returns params variadic isConst,
      types.find? callee.id = some (.function returns params variadic isConst) ∧
      ∀ pair ∈ params.zip args, KeepsSources types pair.2 pair.1
  changed : ∀ clause ∈ clauses, ∀ e ∈ clause.exprs, ∀ target ∈ e.changed?,
    ∃ t, types.find? target.id = some t ∧ t.isConst = false

theorem exists_hasType_of_mem_exprs {clauses : List Clause} {clause : Clause} {e : Expr}
    (h : ClausesTyped aliases clauses types) (hclause : clause ∈ clauses)
    (he : e ∈ clause.exprs) : ∃ t, HasType aliases types e t := by
  have htyped := h clause hclause
  cases clause with
  | value whole =>
      obtain ⟨t, ht⟩ := htyped
      exact ht.exists_of_mem_parts whole he
  | declared type d =>
      obtain ⟨t, _, _, hinit⟩ := htyped
      rw [Clause.exprs] at he
      cases hd : d.init with
      | none =>
          rw [hd] at he
          exact absurd he List.not_mem_nil
      | some init =>
          rw [hd] at he
          obtain ⟨given, hgiven, _⟩ := hinit init hd
          exact hgiven.exists_of_mem_parts init he

theorem keepsConst_of_clausesTyped {clauses : List Clause}
    (h : ClausesTyped aliases clauses types) : KeepsConst aliases types clauses where
  values clause hclause e he := by
    obtain ⟨t, ht⟩ := exists_hasType_of_mem_exprs h hclause he
    exact ⟨t, ht.find?_eq, keepsSources e ht⟩
  declared type d hclause := by
    obtain ⟨t, hfind, hdeclared, hinit⟩ := h _ hclause
    refine ⟨t, hfind, hdeclared, fun init hd => ?_⟩
    obtain ⟨given, hgiven, hassignable⟩ := hinit init hd
    exact keepsSources_of_assignable hgiven hassignable
  arguments clause hclause node callee args he := by
    obtain ⟨t, ht⟩ := exists_hasType_of_mem_exprs h hclause he
    cases ht with
    | call _ hcallee hargs hscore =>
        obtain ⟨returns, params, variadic, isConst, rfl, htakes⟩ := exists_of_callScore? hscore
        refine ⟨returns, params, variadic, isConst, hcallee.find?_eq, fun pair hpair => ?_⟩
        obtain ⟨u, hu, hassignable⟩ := hargs.assignable_of_mem_zip htakes pair hpair
        exact keepsSources_of_assignable hu hassignable
  changed clause hclause e he target htarget := by
    obtain ⟨t, ht⟩ := exists_hasType_of_mem_exprs h hclause he
    cases ht with
    | assign _ hwhole _ hassigns =>
        cases htarget
        exact ⟨_, hwhole.find?_eq, hassigns.1⟩
    | stepBefore _ hwhole hsteps | stepAfter _ hwhole hsteps =>
        cases htarget
        exact ⟨_, hwhole.find?_eq, hsteps.2.2⟩
    | _ => cases htarget

/-- A snippet that is checked without a remark keeps constness, and so does an expression on its
own. -/
theorem checked_snippet_keeps_const (setting : Setting) (tokens : List Token) :
    ((checkSnippet setting (parseItems tokens).1).report = [] →
      KeepsConst setting.aliases (checkSnippet setting (parseItems tokens).1).types
        (StmtClauses.ofItems (parseItems tokens).1)) ∧
    ∀ e report, parseExpr tokens = (some e, report) → (checkExpr setting e).2.report = [] →
      KeepsConst setting.aliases (checkExpr setting e).2.types [.value e] := by
  constructor
  · intro hclean
    exact keepsConst_of_clausesTyped (checkSnippet_typed (nodup_parseItems tokens) hclean)
  · intro e report hparse hclean
    obtain ⟨t, ht⟩ := checkExpr_typed (nodup_parseExpr hparse) hclean
    exact keepsConst_of_clausesTyped (.cons ⟨t, ht⟩ .nil)

/-- Values that may only be read, behind `table`, and one that may be changed. -/
def readOnlyTable : Setting where
  typesOf name :=
    if name = "table" then some [.pointer (.value .float true) false]
    else if name = "x" then some [.num .float]
    else none
  aliases := []
  synapseNames := none

theorem checked_snippet_keeps_const_readOnlyTable :
    (∃ scan, Scan.ofSource [] "const float* q = (table + 2); x = *q++ * 2;" = .ok scan ∧
      (checkSnippet readOnlyTable (parseItems scan.tokens).1).report = [] ∧
      (StmtClauses.ofItems (parseItems scan.tokens).1).length = 2 ∧
      KeepsConst [] (checkSnippet readOnlyTable (parseItems scan.tokens).1).types
        (StmtClauses.ofItems (parseItems scan.tokens).1)) ∧
    ∃ scan, Scan.ofSource [] "x > 0 ? table : table + 1" = .ok scan ∧
      ∃ e report, parseExpr scan.tokens = (some e, report) ∧
        (checkExpr readOnlyTable e).2.report = [] ∧
        KeepsConst [] (checkExpr readOnlyTable e).2.types [.value e] := by
  obtain ⟨scan, hscan, hclean, hlength⟩ := exists_ok_of_decide
    (x := Scan.ofSource [] "const float* q = (table + 2); x = *q++ * 2;")
    (P := fun scan => (checkSnippet readOnlyTable (parseItems scan.tokens).1).report = [] ∧
      (StmtClauses.ofItems (parseItems scan.tokens).1).length = 2) (by decide +kernel)
  obtain ⟨scan', hscan', e, he, hclean'⟩ := exists_ok_of_decide
    (x := Scan.ofSource [] "x > 0 ? table : table + 1")
    (P := fun scan => ∃ e ∈ (parseExpr scan.tokens).1,
      (checkExpr readOnlyTable e).2.report = []) (by decide +kernel)
  have hparse : parseExpr scan'.tokens = (some e, (parseExpr scan'.tokens).2) :=
    Prod.ext (Option.mem_def.mp he) rfl
  refine ⟨⟨scan, hscan, hclean, hlength, ?_⟩, scan', hscan', e, _, hparse, hclean', ?_⟩
  · exact (checked_snippet_keeps_const readOnlyTable scan.tokens).1 hclean
  · exact (checked_snippet_keeps_const readOnlyTable scan'.tokens).2 e _ hparse hclean'

end Typing

end KernelWeaver
