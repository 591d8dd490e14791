import KernelWeaver.Proofs.Typing.Alike

/-!
# The type of an expression, computed

What the check of an expression finds depends on what its names and aliases stand for, and on
nothing else in the state. It is computed here by recursion on the expression alone, without numbers
of nodes, places and reports.
-/

namespace KernelWeaver.Typing

open Snippet

variable {α β : Type}

/-- What the names stand for inside scopes of declarations. -/
def Setting.namesIn (setting : Setting) (scopes : List (Table CType)) (name : String) :
    Option (List CType) :=
  (scopes.findSome? (Table.find? · name)).elim (setting.typesOf name) fun t => some [t]

/-- The only one of several types. -/
def sole? : List CType → Option CType
  | [t] => some t
  | _ => none

theorem eq_of_sole? {types : List CType} {t : CType} (h : sole? types = some t) : types = [t] := by
  unfold sole? at h
  split at h
  next => rw [Option.some.inj h]
  next => cases h

/-- The type of `++` and `--` on a target, if they apply. -/
def stepped? (target : Expr) (t : CType) : Option CType :=
  if isScalar t && target.isAssignable && !t.isConst then some t else none

/-- The type of an assignment, if it is allowed. -/
def assigned? (op : AssignOp) (target value : CType) : Option CType :=
  if target.isConst then none
  else
    match op with
    | .plain => if assignable target value then some target else none
    | .compound op =>
      if target.isNumeric && !value.isNumeric then none
      else (binaryType op target value).toOption.map fun _ => target

/-- The type of a subscript, if it is allowed. -/
def subscripted? (array index : CType) : Option CType :=
  if index.isIntegral then array.target? else none

section

variable (aliases : Aliases) (names : String → Option (List CType))

mutual

/-- The type of an expression, if it has one. -/
def typeOf? : Expr → Option CType
  | .number _ _ n => some (CType.num n).addConst
  | .bool .. => some (CType.num .bool).addConst
  | .string .. => some (CType.num .int8).addConst.toPointer
  | .name _ name => (names name).bind sole?
  | .group _ inner => typeOf? inner
  | .unary _ op operand =>
    (typeOf? operand).bind fun t => (unaryType op operand.isAssignable t).toOption
  | .binary _ op left right =>
    (typeOf? left).bind fun a => (typeOf? right).bind fun b => (binaryType op a b).toOption
  | .call _ callee args =>
    (match callee with
      | .name _ name => names name
      | _ => (typeOf? callee).map fun t => [t]).bind fun choices =>
    (typesOfAll? args).bind fun types =>
    (chooseCall? types (fun t => t) choices).map returnType
  | .cast _ type operand =>
    (castTarget? aliases type).bind fun target => (typeOf? operand).bind fun source =>
    (castType target source (isLiteral operand)).toOption
  | .assign _ op target value =>
    (typeOf? target).bind fun t => (typeOf? value).bind fun v => assigned? op t v
  | .conditional _ condition yes no =>
    (typeOf? condition).bind fun s => (if isScalar s then some () else none).bind fun _ =>
    (typeOf? yes).bind fun a => (typeOf? no).bind fun b => (conditionalType a b).toOption
  | .subscript _ array index =>
    (typeOf? array).bind fun a => (typeOf? index).bind fun i => subscripted? a i
  | .stepBefore _ _ target => (typeOf? target).bind (stepped? target)
  | .stepAfter _ _ target => (typeOf? target).bind (stepped? target)

/-- The types of several expressions, if each has one. -/
def typesOfAll? : List Expr → Option (List CType)
  | [] => some []
  | e :: es => (typeOf? e).bind fun t => (typesOfAll? es).map fun ts => t :: ts

end

/-- The types that a callee can be called with. -/
def choicesOf? : Expr → Option (List CType)
  | .name _ name => names name
  | callee => (typeOf? aliases names callee).map fun t => [t]

theorem typeOf?_call (node : Node) (callee : Expr) (args : List Expr) :
    typeOf? aliases names (.call node callee args) =
      (choicesOf? aliases names callee).bind fun choices =>
      (typesOfAll? aliases names args).bind fun types =>
      (chooseCall? types (fun t => t) choices).map returnType := by
  cases callee <;> rfl

end

/-! ### What the checker finds -/

/-- Inside these scopes the check has a fixed outcome, and it leaves the scopes as they are. -/
def Check.Yields (m : Check α) (scopes : List (Table CType)) (outcome : Option α) : Prop :=
  ∀ c, c.scopes = scopes → (m c).1 = outcome ∧ (m c).2.scopes = scopes

namespace Check.Yields

variable {m : Check α} {f : α → Check β} {scopes : List (Table CType)} {outcome : Option α}
  {g : α → Option β}

theorem pure (a : α) : Yields (pure a) scopes (some a) := fun _ h => ⟨rfl, h⟩

theorem fail (span : Span) (flaw : Flaw) :
    Yields (fail span flaw : Check α) scopes none := fun _ h => ⟨rfl, h⟩

theorem bind (h : Yields m scopes outcome) (hf : ∀ a, Yields (f a) scopes (g a)) :
    Yields (m >>= f) scopes (outcome.bind g) := by
  intro c hc
  obtain ⟨houtcome, hscopes⟩ := h c hc
  cases hm : m c with
  | mk found c₁ =>
      rw [hm] at houtcome hscopes
      subst houtcome
      cases found with
      | none =>
          rw [Check.bind_of_none hm]
          exact ⟨rfl, hscopes⟩
      | some a =>
          rw [Check.bind_of_some hm]
          exact hf a c₁ hscopes

theorem fail_bind (span : Span) (flaw : Flaw) (f : α → Check β) :
    Yields (Check.fail span flaw >>= f) scopes none := fun _ h => ⟨rfl, h⟩

theorem rule (span : Span) (found : Except Flaw CType) :
    Yields (rule span found) scopes found.toOption := by
  cases found with
  | ok t => exact .pure t
  | error flaw => exact .fail span flaw

theorem note (id : NodeId) (t : CType) : Yields (note id t) scopes (some ()) :=
  fun _ h => ⟨rfl, h⟩

theorem typesOf (setting : Setting) (name : String) :
    Yields (typesOf setting name) scopes (some (setting.namesIn scopes name)) := by
  rintro c rfl
  rw [typesOf_eq]
  exact ⟨rfl, rfl⟩

theorem noted {m : Check CType} {t : Option CType} (h : Yields m scopes t) (node : Node) :
    Yields (noted node m) scopes t := by
  rw [← Option.bind_fun_some t]
  exact h.bind fun t => (note node.id t).bind fun _ => pure t

theorem requireCondition (span : Span) (t : CType) :
    Yields (requireCondition span t) scopes (if isScalar t then some () else none) := by
  rw [Typing.requireCondition]
  split
  next => exact .pure ()
  next => exact .fail _ _

theorem stepType (op : StepOp) (target : Expr) (t : CType) :
    Yields (stepType op target t) scopes (stepped? target t) := by
  rw [Typing.stepType, stepped?]
  cases isScalar t with
  | false => exact .fail _ _
  | true =>
      cases target.isAssignable with
      | false => exact .fail _ _
      | true =>
          cases t.isConst with
          | true => exact .fail _ _
          | false => exact .pure t

theorem assignType (span targetSpan : Span) (op : AssignOp) (target value : CType) :
    Yields (assignType span targetSpan op target value) scopes (assigned? op target value) := by
  unfold Typing.assignType assigned?
  split
  next => exact .fail _ _
  next =>
    cases op with
    | plain =>
        dsimp only
        split
        next => exact .pure target
        next => exact .fail _ _
    | compound op =>
        dsimp only
        split
        next => exact .fail _ _
        next =>
          rw [Option.map_eq_bind]
          exact .bind (.rule span _) fun _ => .pure target

end Check.Yields

section

variable {setting : Setting} {scopes : List (Table CType)}

/-- A callee yields its choices, and only then are the arguments looked at. -/
theorem callee_yields (callee : Expr) {f : List CType → Check α} {g : List CType → Option α}
    (h : (check setting callee).Yields scopes
      (typeOf? setting.aliases (setting.namesIn scopes) callee))
    (hf : ∀ choices, (f choices).Yields scopes (g choices)) :
    Check.Yields (match callee with
      | .name calleeNode name => do
        match ← Check.typesOf setting name with
        | some types => do
          let choices ← pure types
          f choices
        | none => do
          let choices ← Check.fail calleeNode.span (.undefined name)
          f choices
      | _ => do
        let t ← check setting callee
        let choices ← pure [t]
        f choices) scopes
      ((choicesOf? setting.aliases (setting.namesIn scopes) callee).bind g) := by
  cases callee with
  | name calleeNode name =>
      change Check.Yields _ scopes
        ((some (setting.namesIn scopes name)).bind fun found => found.bind g)
      refine .bind (.typesOf setting name) fun found => ?_
      cases found with
      | none => exact .fail_bind _ _ _
      | some types => exact .bind (.pure types) hf
  | _ =>
      rw [choicesOf?, Option.map_eq_bind, Option.bind_assoc]
      · exact .bind h fun t => .bind (.pure [t]) hf
      · rintro _ _ ⟨⟩

mutual

/-- What the check of an expression finds is the type that is computed for it. -/
theorem check_yields (e : Expr) :
    (check setting e).Yields scopes
      (typeOf? setting.aliases (setting.namesIn scopes) e) := by
  cases e with
  | number node lexeme n => exact .noted (.pure _) node
  | bool node value => exact .noted (.pure _) node
  | string node lexeme => exact .noted (.pure _) node
  | name node name =>
      refine .noted ?_ node
      rw [typeOf?]
      change Check.Yields _ scopes
        ((some (setting.namesIn scopes name)).bind fun found => found.bind sole?)
      refine .bind (.typesOf setting name) fun found => ?_
      split
      next t => exact .pure t
      next choices hseveral =>
        have hnone : sole? choices = none := by
          unfold sole?
          split
          next t => exact absurd rfl (hseveral t)
          next => rfl
        rw [Option.bind_some, hnone]
        exact .fail _ _
      next => exact .fail _ _
  | group node inner => exact .noted (check_yields inner) node
  | unary node op operand =>
      exact .noted (.bind (check_yields operand) fun t => .rule _ _) node
  | binary node op left right =>
      refine .noted (.bind (check_yields left) fun a => ?_) node
      exact .bind (check_yields right) fun b => .rule _ _
  | call node callee args =>
      rw [typeOf?_call]
      refine .noted (callee_yields callee (check_yields callee) fun choices => ?_) node
      refine .bind (checkAll_yields args) fun types => ?_
      split
      next hnone =>
        rw [hnone]
        exact .fail _ _
      next chosen hchosen =>
        rw [hchosen]
        exact .bind (.note callee.id chosen) fun _ => .pure _
  | cast node type operand =>
      refine .noted ?_ node
      rw [resolve_eq, typeOf?]
      cases castTarget? setting.aliases type with
      | none => exact .fail_bind _ _ _
      | some target =>
          refine .bind (.pure target) fun target => ?_
          exact .bind (check_yields operand) fun source => .rule _ _
  | assign node op target value =>
      refine .noted (.bind (check_yields target) fun t => ?_) node
      exact .bind (check_yields value) fun v => .assignType _ _ _ _ _
  | conditional node condition yes no =>
      refine .noted (.bind (check_yields condition) fun s => ?_) node
      refine .bind (.requireCondition _ s) fun _ => ?_
      refine .bind (check_yields yes) fun a => ?_
      exact .bind (check_yields no) fun b => .rule _ _
  | subscript node array index =>
      refine .noted (.bind (check_yields array) fun a => ?_) node
      refine .bind (check_yields index) fun i => ?_
      rw [subscripted?]
      cases a.target? with
      | none => cases i.isIntegral <;> exact .fail _ _
      | some t =>
          cases i.isIntegral with
          | true => exact .pure t
          | false => exact .fail _ _
  | stepBefore node op target =>
      exact .noted (.bind (check_yields target) fun t => .stepType op target t) node
  | stepAfter node op target =>
      exact .noted (.bind (check_yields target) fun t => .stepType op target t) node

theorem checkAll_yields (es : List Expr) :
    (checkAll setting es).Yields scopes
      (typesOfAll? setting.aliases (setting.namesIn scopes) es) := by
  cases es with
  | nil => exact .pure []
  | cons e es =>
      refine .bind (check_yields e) fun t => ?_
      rw [Option.map_eq_bind]
      exact .bind (checkAll_yields es) fun ts => .pure (t :: ts)

end

/-- What is found for an expression on its own is the type that is computed for it. -/
theorem checkExpr_fst (setting : Setting) (e : Expr) :
    (checkExpr setting e).1 = typeOf? setting.aliases setting.typesOf e :=
  (check_yields e .initial rfl).1

/-- A check in scopes is without a remark exactly if the expression has a type there. -/
theorem check_clean_iff (e : Expr) (c : Checker) :
    (check setting e c).2.report = c.report ↔
      ∃ t, typeOf? setting.aliases (setting.namesIn c.scopes) e = some t := by
  have hsound : Check.Sound (check setting e) c _ := check_sound e .univ
  rw [← (check_yields e c rfl).1]
  exact ⟨hsound.of_report_eq, fun ⟨_, ht⟩ => (hsound.of_success ht).1⟩

/-- An expression is checked without a remark exactly if it has a type. -/
theorem checkExpr_clean_iff (setting : Setting) (e : Expr) :
    (checkExpr setting e).2.report = [] ↔
      ∃ t, typeOf? setting.aliases setting.typesOf e = some t :=
  check_clean_iff e .initial

end

end KernelWeaver.Typing
