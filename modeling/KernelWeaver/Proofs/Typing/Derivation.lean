import KernelWeaver.Proofs.Typing.Choice
import KernelWeaver.Proofs.Typing.Parts

/-!
# Typing derivations

The typing rules of expressions without the checker: a table of types follows them if the type of
each node is the one that its rule gives for the types of its parts. The types that the checker
notes follow the rules, as long as no two nodes have the same number.
-/

namespace KernelWeaver.Typing

open Snippet

/-- Whether a value may be assigned to a target with the operator. -/
def Assigns (op : AssignOp) (target value : CType) : Prop :=
  target.isConst = false ∧
    match op with
    | .plain => assignable target value = true
    | .compound op => ∃ t, binaryType op target value = .ok t

/-- Whether a target can be stepped up or down. -/
def Steps (target : Expr) (t : CType) : Prop :=
  isScalar t = true ∧ target.isAssignable = true ∧ t.isConst = false

mutual

/-- The types of the nodes of an expression follow the typing rules, and its own type is the given
one. -/
inductive HasType (aliases : Aliases) (types : NodeTypes) : Expr → CType → Prop where
  | number {node : Node} {lexeme : String} {n : Numeric} :
      types.find? node.id = some (CType.num n).addConst →
      HasType aliases types (.number node lexeme n) (CType.num n).addConst
  | bool {node : Node} {value : Bool} :
      types.find? node.id = some (CType.num .bool).addConst →
      HasType aliases types (.bool node value) (CType.num .bool).addConst
  | string {node : Node} {lexeme : String} :
      types.find? node.id = some (CType.num .int8).addConst.toPointer →
      HasType aliases types (.string node lexeme) (CType.num .int8).addConst.toPointer
  | name {node : Node} {text : String} {t : CType} : types.find? node.id = some t →
      HasType aliases types (.name node text) t
  | group {node : Node} {inner : Expr} {t : CType} : types.find? node.id = some t →
      HasType aliases types inner t → HasType aliases types (.group node inner) t
  | unary {node : Node} {op : UnaryOp} {operand : Expr} {a t : CType} :
      types.find? node.id = some t → HasType aliases types operand a →
      unaryType op operand.isAssignable a = .ok t →
      HasType aliases types (.unary node op operand) t
  | binary {node : Node} {op : BinaryOp} {left right : Expr} {a b t : CType} :
      types.find? node.id = some t → HasType aliases types left a →
      HasType aliases types right b → binaryType op a b = .ok t →
      HasType aliases types (.binary node op left right) t
  /-- The callee has the type of the function that takes the arguments. -/
  | call {node : Node} {callee : Expr} {args : List Expr} {function : CType} {ts : List CType}
      {score : Nat} :
      types.find? node.id = some (returnType function) → HasType aliases types callee function →
      HasTypes aliases types args ts → callScore? ts function = some score →
      HasType aliases types (.call node callee args) (returnType function)
  | cast {node : Node} {type : TypeSpec} {operand : Expr} {target source t : CType} :
      types.find? node.id = some t → castTarget? aliases type = some target →
      HasType aliases types operand source → castType target source (isLiteral operand) = .ok t →
      HasType aliases types (.cast node type operand) t
  | assign {node : Node} {op : AssignOp} {target value : Expr} {t v : CType} :
      types.find? node.id = some t → HasType aliases types target t →
      HasType aliases types value v → Assigns op t v →
      HasType aliases types (.assign node op target value) t
  | conditional {node : Node} {condition yes no : Expr} {s a b t : CType} :
      types.find? node.id = some t → HasType aliases types condition s → isScalar s = true →
      HasType aliases types yes a → HasType aliases types no b → conditionalType a b = .ok t →
      HasType aliases types (.conditional node condition yes no) t
  | subscript {node : Node} {array index : Expr} {a i t : CType} :
      types.find? node.id = some t → HasType aliases types array a →
      HasType aliases types index i → a.target? = some t → i.isIntegral = true →
      HasType aliases types (.subscript node array index) t
  | stepBefore {node : Node} {op : StepOp} {target : Expr} {t : CType} :
      types.find? node.id = some t → HasType aliases types target t → Steps target t →
      HasType aliases types (.stepBefore node op target) t
  | stepAfter {node : Node} {op : StepOp} {target : Expr} {t : CType} :
      types.find? node.id = some t → HasType aliases types target t → Steps target t →
      HasType aliases types (.stepAfter node op target) t

/-- Expressions have these types, one by one. -/
inductive HasTypes (aliases : Aliases) (types : NodeTypes) : List Expr → List CType → Prop where
  | nil : HasTypes aliases types [] []
  | cons {e : Expr} {es : List Expr} {t : CType} {ts : List CType} : HasType aliases types e t →
      HasTypes aliases types es ts → HasTypes aliases types (e :: es) (t :: ts)

end

variable {aliases : Aliases} {types : NodeTypes} {e : Expr} {t : CType}

theorem HasType.find?_eq (h : HasType aliases types e t) : types.find? e.id = some t := by
  cases h <;> assumption

/-! ### Noting types -/

/-- What noting the types of nodes does to a table: other nodes keep their types, and `P` holds of
every table that gives the nodes the same types. -/
structure Notes (before : NodeTypes) (nodes : List NodeId) (P : NodeTypes → Prop)
    (after : NodeTypes) : Prop where
  others : ∀ id ∉ nodes, after.find? id = before.find? id
  holds : ∀ types, (∀ id ∈ nodes, types.find? id = after.find? id) → P types

namespace Notes

variable {before between after : NodeTypes} {xs ys : List NodeId} {P Q : NodeTypes → Prop}
  {id : NodeId}

theorem refl (before : NodeTypes) (h : ∀ types, P types) : Notes before [] P before :=
  ⟨fun _ _ => rfl, fun types _ => h types⟩

theorem imp (h : Notes before xs P after) (hPQ : ∀ types, P types → Q types) :
    Notes before xs Q after :=
  ⟨h.others, fun types htypes => hPQ types (h.holds types htypes)⟩

theorem and (h : Notes before xs P after) (h' : Notes before xs Q after) :
    Notes before xs (fun types => P types ∧ Q types) after :=
  ⟨h.others, fun types htypes => ⟨h.holds types htypes, h'.holds types htypes⟩⟩

theorem here (h : Notes before xs P after) : P after := h.holds after fun _ _ => rfl

theorem trans (h : Notes before xs P between) (h' : Notes between ys Q after)
    (hnodup : (xs ++ ys).Nodup) :
    Notes before (xs ++ ys) (fun types => P types ∧ Q types) after where
  others id hid := by
    rw [List.mem_append, not_or] at hid
    exact (h'.others id hid.2).trans (h.others id hid.1)
  holds types htypes := by
    rw [List.forall_mem_append] at htypes
    constructor
    · apply h.holds
      intro id hid
      have hout : id ∉ ys := fun hys => (List.nodup_append.mp hnodup).2.2 id hid id hys rfl
      rw [htypes.1 id hid, h'.others id hout]
    · exact h'.holds types htypes.2

theorem note (h : Notes before xs P after) (hnew : id ∉ xs) (t : CType) :
    Notes before (id :: xs) (fun types => types.find? id = some t ∧ P types)
      ((id, t) :: after) where
  others other hother := by
    rw [List.mem_cons, not_or] at hother
    rw [NodeTypes.find?_cons, if_neg hother.1]
    exact h.others other hother.2
  holds types htypes := by
    rw [List.forall_mem_cons, NodeTypes.find?_cons, if_pos rfl] at htypes
    refine ⟨htypes.1, h.holds types fun other hother => ?_⟩
    have hne : other ≠ id := fun heq => hnew (heq ▸ hother)
    rw [htypes.2 other hother, NodeTypes.find?_cons, if_neg hne]

/-- Nothing changes if a node is noted again with the type it has. -/
theorem again (h : Notes before xs P after) (hid : after.find? id = some t) :
    Notes before xs P ((id, t) :: after) := by
  have hsame : ∀ other, NodeTypes.find? ((id, t) :: after) other = after.find? other := by
    intro other
    rw [NodeTypes.find?_cons]
    split
    next heq => rw [heq, hid]
    next => rfl
  refine ⟨fun other hother => ?_, fun types htypes => h.holds types fun other hother => ?_⟩
  · rw [hsame, h.others other hother]
  · rw [htypes other hother, hsame]

end Notes

/-! ### Rules -/

section

variable {setting : Setting} {c : Checker} {xs : List NodeId} {m : Check CType}

theorem requireCondition_sound (span : Span) (t : CType) (c : Checker) :
    (requireCondition span t).Sound c fun _ c' => c' = c ∧ isScalar t = true := by
  rw [requireCondition]
  split
  next h => exact .pure ⟨rfl, h⟩
  next => exact .fail _ _

theorem stepType_sound (op : StepOp) (target : Expr) (t : CType) (c : Checker) :
    (stepType op target t).Sound c fun t' c' => c' = c ∧ t' = t ∧ Steps target t := by
  rw [stepType]
  split
  next => exact .fail _ _
  next hscalar =>
    split
    next => exact .fail _ _
    next hassignable =>
      split
      next => exact .fail _ _
      next hconst =>
        exact .pure ⟨rfl, rfl, by simpa using hscalar, by simpa using hassignable,
          by simpa using hconst⟩

theorem assignType_sound (span targetSpan : Span) (op : AssignOp) (target value : CType)
    (c : Checker) :
    (assignType span targetSpan op target value).Sound c fun t c' =>
      c' = c ∧ t = target ∧ Assigns op target value := by
  unfold assignType
  split
  next => exact .fail _ _
  next hconst =>
    rw [Bool.not_eq_true] at hconst
    cases op with
    | plain =>
        dsimp only
        split
        next h => exact .pure ⟨rfl, rfl, hconst, h⟩
        next => exact .fail _ _
    | compound op =>
        dsimp only
        split
        next => exact .fail _ _
        next =>
          refine .bind (P := fun r c' => c' = c ∧ binaryType op target value = .ok r)
            (.rule_eq fun r hr => ⟨rfl, hr⟩) ?_
          rintro r _ ⟨rfl, hr⟩
          exact .pure ⟨rfl, rfl, hconst, r, hr⟩

/-- The rule of the whole applies once its type is noted. -/
theorem noted_notes (e : Expr) (hnodup : (e.id :: xs).Nodup)
    (h : m.Sound c fun t c' => Notes c.types xs
      (fun types => types.find? e.id = some t → HasType setting.aliases types e t) c'.types) :
    (noted e.node m).Sound c fun t c' =>
      Notes c.types (e.id :: xs) (HasType setting.aliases · e t) c'.types := by
  refine .bind h fun t c₁ h₁ => ?_
  refine .bind (P := fun _ c₂ => Notes c.types (e.id :: xs) (HasType setting.aliases · e t) c₂.types)
    (.modify rfl ?_) fun _ _ h₂ => .pure h₂
  exact (h₁.note (List.nodup_cons.mp hnodup).1 t).imp fun types ⟨hfind, hrule⟩ => hrule hfind

/-- A callee is noted with what is chosen for the arguments, whatever is noted in between. -/
theorem callee_notes {α : Type} (callee : Expr) {f : List CType → Check α}
    {R : α → Checker → Prop}
    (h : (check setting callee).Sound c fun t c' =>
      Notes c.types callee.nodes (HasType setting.aliases · callee t) c'.types)
    (hf : ∀ choices (c' : Checker), (∀ chosen ∈ choices, ∀ after ys Q,
        Notes c'.types ys Q after → (callee.nodes ++ ys).Nodup →
        Notes c.types (callee.nodes ++ ys)
          (fun types => HasType setting.aliases types callee chosen ∧ Q types)
          ((callee.id, chosen) :: after)) → (f choices).Sound c' R) :
    Check.Sound (match callee with
      | .name calleeNode name => do
        match ← Check.typesOf setting name with
        | some types => do
          let choices ← pure types
          f choices
        | none => do
          let choices ← Check.fail calleeNode.span (.undefined name)
          f choices
      | _ => do
        let t ← check setting callee
        let choices ← pure [t]
        f choices) c R := by
  refine callee_cases callee (fun node name choices hcallee _ => ?_) fun _ =>
    h.imp fun t c₁ h₁ => ?_
  · subst hcallee
    refine hf choices c fun chosen _ after ys Q hys hnodup => ?_
    exact (hys.note (List.nodup_cons.mp hnodup).1 chosen).imp
      fun types ⟨hfind, hQ⟩ => ⟨.name hfind, hQ⟩
  · refine hf [t] c₁ fun chosen hchosen after ys Q hys hnodup => ?_
    rw [List.mem_singleton.mp hchosen]
    have hboth := h₁.trans hys hnodup
    exact hboth.again hboth.here.1.find?_eq

end

mutual

theorem check_notes {setting : Setting} (e : Expr) (hnodup : e.nodes.Nodup) (c : Checker) :
    (check setting e).Sound c fun t c' =>
      Notes c.types e.nodes (HasType setting.aliases · e t) c'.types := by
  cases e with
  | number node lexeme n =>
      exact noted_notes (.number node lexeme n) hnodup (.pure (.refl _ fun _ => .number))
  | bool node value =>
      exact noted_notes (.bool node value) hnodup (.pure (.refl _ fun _ => .bool))
  | string node lexeme =>
      exact noted_notes (.string node lexeme) hnodup (.pure (.refl _ fun _ => .string))
  | name node name =>
      refine noted_notes (.name node name) hnodup (.bind (typesOf_sound name c) ?_)
      rintro found _ rfl
      split
      next t => exact .pure (.refl _ fun _ => .name)
      next => exact .fail _ _
      next => exact .fail _ _
  | group node inner =>
      refine noted_notes (.group node inner) hnodup ?_
      refine (check_notes inner (List.nodup_cons.mp hnodup).2 c).imp fun t c' h => ?_
      exact h.imp fun types hinner hfind => .group hfind hinner
  | unary node op operand =>
      refine noted_notes (.unary node op operand) hnodup ?_
      refine .bind (check_notes operand (List.nodup_cons.mp hnodup).2 c) fun a c₁ h => ?_
      exact .rule_eq fun t ht => h.imp fun types ha hfind => .unary hfind ha ht
  | binary node op left right =>
      have hparts := (List.nodup_cons.mp hnodup).2
      obtain ⟨hleft, hright, -⟩ := List.nodup_append.mp hparts
      refine noted_notes (.binary node op left right) hnodup ?_
      refine .bind (check_notes left hleft c) fun a c₁ h₁ => ?_
      refine .bind (check_notes right hright c₁) fun b c₂ h₂ => ?_
      exact .rule_eq fun t ht => (h₁.trans h₂ hparts).imp
        fun types ⟨ha, hb⟩ hfind => .binary hfind ha hb ht
  | call node callee args =>
      have hparts := (List.nodup_cons.mp hnodup).2
      obtain ⟨hcallee, hargs, -⟩ := List.nodup_append.mp hparts
      refine noted_notes (.call node callee args) hnodup ?_
      refine callee_notes callee (check_notes callee hcallee c) fun choices c₁ hchoices => ?_
      refine .bind (checkAll_notes args hargs c₁) fun ts c₂ h₂ => ?_
      split
      next => exact .fail _ _
      next chosen hchosen =>
        obtain ⟨hmem, score, hscore⟩ := of_chooseCall? hchosen
        refine .bind (P := fun _ c₃ => Notes c.types (callee.nodes ++ Expr.nodesOfAll args)
          (fun types => HasType setting.aliases types callee chosen ∧
            HasTypes setting.aliases types args ts) c₃.types)
          (.modify rfl (hchoices chosen hmem _ _ _ h₂ hparts)) fun _ c₃ h₃ => ?_
        exact .pure (h₃.imp fun types ⟨hf, hts⟩ hfind => .call hfind hf hts hscore)
  | cast node type operand =>
      refine noted_notes (.cast node type operand) hnodup ?_
      rw [resolve_eq]
      cases htarget : castTarget? setting.aliases type with
      | none => exact .bind (P := fun _ _ => False) (.fail _ _) fun _ _ h => h.elim
      | some target =>
          refine .bind (P := fun found c' => found = target ∧ c' = c) (.pure ⟨rfl, rfl⟩) ?_
          rintro _ _ ⟨rfl, rfl⟩
          refine .bind (check_notes operand (List.nodup_cons.mp hnodup).2 _) fun s c₁ h => ?_
          exact .rule_eq fun t ht => h.imp fun types hs hfind => .cast hfind htarget hs ht
  | assign node op target value =>
      have hparts := (List.nodup_cons.mp hnodup).2
      obtain ⟨htarget, hvalue, -⟩ := List.nodup_append.mp hparts
      refine noted_notes (.assign node op target value) hnodup ?_
      refine .bind (check_notes target htarget c) fun s c₁ h₁ => ?_
      refine .bind (check_notes value hvalue c₁) fun v c₂ h₂ => ?_
      refine (assignType_sound _ _ op s v c₂).imp ?_
      rintro t c' ⟨rfl, rfl, hassigns⟩
      exact (h₁.trans h₂ hparts).imp fun types ⟨hs, hv⟩ hfind => .assign hfind hs hv hassigns
  | conditional node condition yes no =>
      have hparts := (List.nodup_cons.mp hnodup).2
      obtain ⟨hfirst, hno, -⟩ := List.nodup_append.mp hparts
      obtain ⟨hcondition, hyes, -⟩ := List.nodup_append.mp hfirst
      refine noted_notes (.conditional node condition yes no) hnodup ?_
      refine .bind (check_notes condition hcondition c) fun s c₁ h₁ => ?_
      refine .bind (requireCondition_sound _ s c₁) ?_
      rintro _ _ ⟨rfl, hscalar⟩
      refine .bind (check_notes yes hyes _) fun a c₂ h₂ => ?_
      refine .bind (check_notes no hno c₂) fun b c₃ h₃ => ?_
      exact .rule_eq fun t ht => ((h₁.trans h₂ hfirst).trans h₃ hparts).imp
        fun types ⟨⟨hs, ha⟩, hb⟩ hfind => .conditional hfind hs hscalar ha hb ht
  | subscript node array index =>
      have hparts := (List.nodup_cons.mp hnodup).2
      obtain ⟨harray, hindex, -⟩ := List.nodup_append.mp hparts
      refine noted_notes (.subscript node array index) hnodup ?_
      refine .bind (check_notes array harray c) fun a c₁ h₁ => ?_
      refine .bind (check_notes index hindex c₁) fun i c₂ h₂ => ?_
      split
      next => exact .fail _ _
      next t htarget =>
        split
        next hintegral =>
          exact .pure ((h₁.trans h₂ hparts).imp
            fun types ⟨ha, hi⟩ hfind => .subscript hfind ha hi htarget hintegral)
        next => exact .fail _ _
  | stepBefore node op target =>
      refine noted_notes (.stepBefore node op target) hnodup ?_
      refine .bind (check_notes target (List.nodup_cons.mp hnodup).2 c) fun t c₁ h => ?_
      refine (stepType_sound op target t c₁).imp ?_
      rintro _ _ ⟨rfl, rfl, hsteps⟩
      exact h.imp fun types ht hfind => .stepBefore hfind ht hsteps
  | stepAfter node op target =>
      refine noted_notes (.stepAfter node op target) hnodup ?_
      refine .bind (check_notes target (List.nodup_cons.mp hnodup).2 c) fun t c₁ h => ?_
      refine (stepType_sound op target t c₁).imp ?_
      rintro _ _ ⟨rfl, rfl, hsteps⟩
      exact h.imp fun types ht hfind => .stepAfter hfind ht hsteps

theorem checkAll_notes {setting : Setting} (es : List Expr) (hnodup : (Expr.nodesOfAll es).Nodup)
    (c : Checker) :
    (checkAll setting es).Sound c fun ts c' =>
      Notes c.types (Expr.nodesOfAll es) (HasTypes setting.aliases · es ts) c'.types := by
  cases es with
  | nil => exact .pure (.refl _ fun _ => .nil)
  | cons e es =>
      obtain ⟨he, hes, -⟩ := List.nodup_append.mp hnodup
      refine .bind (check_notes e he c) fun t c₁ h₁ => ?_
      refine .bind (checkAll_notes es hes c₁) fun ts c₂ h₂ => ?_
      exact .pure ((h₁.trans h₂ hnodup).imp fun types ⟨ht, hts⟩ => .cons ht hts)

end

/-- The types noted for an expression that is checked without a remark follow the rules. -/
theorem checkExpr_typed {setting : Setting} {e : Expr} (hnodup : e.nodes.Nodup)
    (hclean : (checkExpr setting e).2.report = []) :
    ∃ t, HasType setting.aliases (checkExpr setting e).2.types e t := by
  have hsound : (check { setting with synapseNames := none } e).Sound .initial fun t c' =>
      Notes [] e.nodes (HasType setting.aliases · e t) c'.types := check_notes e hnodup .initial
  obtain ⟨t, -, hnotes⟩ := hsound.of_clean hclean
  exact ⟨t, hnotes.here⟩

end KernelWeaver.Typing
