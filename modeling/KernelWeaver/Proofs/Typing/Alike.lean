import KernelWeaver.Proofs.Typing.Parts

/-!
# Types do not depend on the numbers of nodes

Two expressions of one form, the casts of which name the same types, are checked alike: where the
check of one succeeds, that of the other finds the same types, node by node.
-/

namespace KernelWeaver.Typing

open Snippet

variable {α β : Type}

/-- What the second check finds from one state, the first finds from a state related to it. -/
def Check.Follows (R : Checker → Checker → Prop) (m' m : Check α) : Prop :=
  ∀ c d a c', R c d → m c = (some a, c') → ∃ d', m' d = (some a, d') ∧ R c' d'

/-- The states have the same scopes, and paired nodes have the same types. -/
structure Agree (pairs : Set (NodeId × NodeId)) (c d : Checker) : Prop where
  scopes : d.scopes = c.scopes
  types : ∀ p ∈ pairs, d.types.find? p.2 = c.types.find? p.1

/-- No node is in a pair with two others. -/
def OneToOne (pairs : Set (NodeId × NodeId)) : Prop :=
  ∀ p ∈ pairs, ∀ q ∈ pairs, p.1 = q.1 ↔ p.2 = q.2

namespace Check.Follows

variable {R : Checker → Checker → Prop} {m m' : Check α} {f f' : α → Check β}
  {pairs : Set (NodeId × NodeId)}

theorem pure (a : α) : Follows R (pure a) (pure a) := by
  rintro c d b c' hR h
  cases h
  exact ⟨d, rfl, hR⟩

theorem bind (h : Follows R m' m) (hf : ∀ a, Follows R (f' a) (f a)) :
    Follows R (m' >>= f') (m >>= f) := by
  intro c d b c' hR hrun
  cases hm : m c with
  | mk outcome c₁ =>
      cases outcome with
      | none =>
          rw [Check.bind_of_none hm] at hrun
          cases hrun
      | some a =>
          rw [Check.bind_of_some hm] at hrun
          obtain ⟨d₁, hm', hR₁⟩ := h c d a c₁ hR hm
          rw [Check.bind_of_some hm']
          exact hf a c₁ d₁ b c' hR₁ hrun

/-- What fails need not be followed. -/
theorem fail (span : Span) (flaw : Flaw) : Follows R m' (fail span flaw) := by
  rintro c d a c' - h
  cases h

theorem fail_bind (span : Span) (flaw : Flaw) (f : α → Check β) {m' : Check β} :
    Follows R m' (Check.fail span flaw >>= f) := by
  rintro c d a c' - h
  cases h

/-- A typing rule is the same at any place. -/
theorem rule (span span' : Span) (outcome : Except Flaw CType) :
    Follows R (rule span' outcome) (rule span outcome) := by
  cases outcome with
  | ok t => exact .pure t
  | error flaw => exact .fail span flaw

theorem typesOf (setting : Setting) (name : String) :
    Follows (Agree pairs) (typesOf setting name) (typesOf setting name) := by
  intro c d a c' hagree h
  rw [typesOf_eq] at h ⊢
  cases h
  exact ⟨d, by rw [hagree.scopes], hagree⟩

theorem note {id id' : NodeId} (hpairs : OneToOne pairs) (hpair : (id, id') ∈ pairs) (t : CType) :
    Follows (Agree pairs) (note id' t) (note id t) := by
  rintro c d _ _ hagree ⟨⟩
  refine ⟨_, rfl, hagree.scopes, fun p hp => ?_⟩
  change NodeTypes.find? ((id', t) :: d.types) p.2 = NodeTypes.find? ((id, t) :: c.types) p.1
  rw [NodeTypes.find?_cons, NodeTypes.find?_cons, hagree.types p hp]
  have hsame : p.1 = id ↔ p.2 = id' := hpairs p hp (id, id') hpair
  simp only [hsame]

end Check.Follows

/-- A node of a pair is noted once the inner checks follow each other. -/
theorem noted_follows {pairs : Set (NodeId × NodeId)} {m m' : Check CType} {node node' : Node}
    (hpairs : OneToOne pairs) (hpair : (node.id, node'.id) ∈ pairs)
    (h : Check.Follows (Agree pairs) m' m) :
    Check.Follows (Agree pairs) (noted node' m') (noted node m) :=
  .bind h fun t => .bind (.note hpairs hpair t) fun _ => .pure t

theorem requireCondition_follows {R : Checker → Checker → Prop} (span span' : Span) (t : CType) :
    Check.Follows R (requireCondition span' t) (requireCondition span t) := by
  rw [requireCondition, requireCondition]
  split
  next => exact .pure ()
  next => exact .fail span _

theorem stepType_follows {R : Checker → Checker → Prop} {target target' : Expr}
    (htarget : target'.isAssignable = target.isAssignable) (op : StepOp) (t : CType) :
    Check.Follows R (stepType op target' t) (stepType op target t) := by
  rw [stepType, stepType, htarget]
  split
  next => exact .fail _ _
  next =>
    split
    next => exact .fail _ _
    next =>
      split
      next => exact .fail _ _
      next => exact .pure t

theorem assignType_follows {R : Checker → Checker → Prop} (span span' targetSpan targetSpan' : Span)
    (op : AssignOp) (target value : CType) :
    Check.Follows R (assignType span' targetSpan' op target value)
      (assignType span targetSpan op target value) := by
  unfold assignType
  split
  next => exact .fail _ _
  next =>
    cases op with
    | plain =>
        dsimp only
        split
        next => exact .pure target
        next => exact .fail _ _
    | compound op =>
        dsimp only
        split
        next => exact .fail _ _
        next => exact .bind (.rule _ _ _) fun _ => .pure target

/-- A literal stays one when casts are spelled anew. -/
theorem isLiteral_eq_of_shape_eq {spelling : NodeId → TypeSpec} {e e' : Expr}
    (h : e'.shape = (e.respell spelling).shape) : isLiteral e' = isLiteral e := by
  have hshape (a : Expr) : isLiteral a.shape = isLiteral a := by cases a <;> rfl
  have hrespell : isLiteral (e.respell spelling) = isLiteral e := by cases e <;> rfl
  rw [← hshape e', h, hshape, hrespell]

/-- Only the place of the type may differ. -/
theorem castTarget?_eq_of_words {aliases : Aliases} {type type' : TypeSpec}
    (h : { type' with span := default } = { type with span := default }) :
    castTarget? aliases type' = castTarget? aliases type := by
  obtain ⟨words, isConst, pointer, span⟩ := type
  obtain ⟨words', isConst', pointer', span'⟩ := type'
  cases h
  rfl

/-- The nodes of parts are paired, their casts are spelled so that they name the same types, and
they call nothing but names. -/
structure Comparable (aliases : Aliases) (spelling : NodeId → TypeSpec)
    (pairs : Set (NodeId × NodeId)) (nodes nodes' : List NodeId) (parts : List Expr) : Prop where
  pairs : ∀ p ∈ nodes.zip nodes', p ∈ pairs
  casts : ∀ node type operand, .cast node type operand ∈ parts →
    castTarget? aliases (spelling node.id) = castTarget? aliases type
  callsNames : Expr.CallsNames parts

namespace Comparable

variable {aliases : Aliases} {spelling : NodeId → TypeSpec} {pairs : Set (NodeId × NodeId)}
  {x x' : NodeId} {xs xs' ys ys' : List NodeId} {p : Expr} {ps qs : List Expr}

theorem head (h : Comparable aliases spelling pairs (x :: xs) (x' :: xs') ps) :
    (x, x') ∈ pairs :=
  h.pairs _ List.mem_cons_self

theorem tail (h : Comparable aliases spelling pairs (x :: xs) (x' :: xs') (p :: ps)) :
    Comparable aliases spelling pairs xs xs' ps where
  pairs p hp := h.pairs p (List.mem_cons_of_mem _ hp)
  casts node type operand hmem := h.casts node type operand (List.mem_cons_of_mem _ hmem)
  callsNames := h.callsNames.tail

theorem left (h : Comparable aliases spelling pairs (xs ++ ys) (xs' ++ ys') (ps ++ qs))
    (hlength : xs.length = xs'.length) : Comparable aliases spelling pairs xs xs' ps where
  pairs p hp := h.pairs p (by rw [List.zip_append hlength]; exact List.mem_append_left _ hp)
  casts node type operand hmem := h.casts node type operand (List.mem_append_left _ hmem)
  callsNames := h.callsNames.left

theorem right (h : Comparable aliases spelling pairs (xs ++ ys) (xs' ++ ys') (ps ++ qs))
    (hlength : xs.length = xs'.length) : Comparable aliases spelling pairs ys ys' qs where
  pairs p hp := h.pairs p (by rw [List.zip_append hlength]; exact List.mem_append_right _ hp)
  casts node type operand hmem := h.casts node type operand (List.mem_append_right _ hmem)
  callsNames := h.callsNames.right

end Comparable

section

variable {setting : Setting} {spelling : NodeId → TypeSpec} {pairs : Set (NodeId × NodeId)}

mutual

theorem check_follows (hpairs : OneToOne pairs) (e e' : Expr)
    (hshape : e'.shape = (e.respell spelling).shape)
    (h : Comparable setting.aliases spelling pairs e.nodes e'.nodes e.parts) :
    Check.Follows (Agree pairs) (check setting e') (check setting e) := by
  cases e with
  | number node lexeme type =>
      cases e' with
      | number node' lexeme' type' =>
          cases hshape
          exact noted_follows hpairs h.head (.pure _)
      | _ => cases hshape
  | bool node value =>
      cases e' with
      | bool node' value' => exact noted_follows hpairs h.head (.pure _)
      | _ => cases hshape
  | string node lexeme =>
      cases e' with
      | string node' lexeme' => exact noted_follows hpairs h.head (.pure _)
      | _ => cases hshape
  | name node name =>
      cases e' with
      | name node' name' =>
          cases hshape
          refine noted_follows hpairs h.head (.bind (.typesOf setting name) fun found => ?_)
          split
          next t => exact .pure t
          next => exact .fail _ _
          next => exact .fail _ _
      | _ => cases hshape
  | group node inner =>
      cases e' with
      | group node' inner' =>
          injection hshape with _ hinner
          exact noted_follows hpairs h.head (check_follows hpairs inner inner' hinner h.tail)
      | _ => cases hshape
  | unary node op operand =>
      cases e' with
      | unary node' op' operand' =>
          injection hshape with _ hop hoperand
          subst hop
          refine noted_follows hpairs h.head ?_
          refine .bind (check_follows hpairs operand operand' hoperand h.tail) fun t => ?_
          rw [Expr.isAssignable_eq_of_shape_eq hoperand]
          exact .rule _ _ _
      | _ => cases hshape
  | binary node op left right =>
      cases e' with
      | binary node' op' left' right' =>
          injection hshape with _ hop hleft hright
          subst hop
          have hlength := Expr.length_nodes_eq_of_shape_eq hleft
          refine noted_follows hpairs h.head ?_
          refine .bind (check_follows hpairs left left' hleft (h.tail.left hlength)) fun a => ?_
          refine .bind (check_follows hpairs right right' hright (h.tail.right hlength)) fun b => ?_
          exact .rule _ _ _
      | _ => cases hshape
  | call node callee args =>
      cases e' with
      | call node' callee' args' =>
          obtain ⟨calleeNode, text, rfl⟩ := h.callsNames node callee args List.mem_cons_self
          injection hshape with _ hcallee hargs
          cases callee' with
          | name calleeNode' text' =>
              cases hcallee
              refine noted_follows hpairs h.head (.bind (.typesOf setting text) fun found => ?_)
              cases found with
              | none => exact .fail_bind _ _ _
              | some choices =>
                  refine .bind (.pure choices) fun choices => ?_
                  refine .bind (checkAll_follows hpairs args args' hargs h.tail.tail)
                    fun types => ?_
                  split
                  next => exact .fail _ _
                  next chosen _ =>
                    exact .bind (.note hpairs h.tail.head chosen) fun _ => .pure _
          | _ => cases hcallee
      | _ => cases hshape
  | cast node type operand =>
      cases e' with
      | cast node' type' operand' =>
          injection hshape with _ htype hoperand
          have hwords : castTarget? setting.aliases type' =
              castTarget? setting.aliases (spelling node.id) := castTarget?_eq_of_words htype
          have htarget := hwords.trans (h.casts node type operand List.mem_cons_self)
          refine noted_follows hpairs h.head ?_
          rw [resolve_eq, resolve_eq, htarget, isLiteral_eq_of_shape_eq hoperand]
          cases castTarget? setting.aliases type with
          | none => exact .fail_bind _ _ _
          | some t =>
              refine .bind (.pure t) fun t => ?_
              refine .bind (check_follows hpairs operand operand' hoperand h.tail) fun source => ?_
              exact .rule _ _ _
      | _ => cases hshape
  | assign node op target value =>
      cases e' with
      | assign node' op' target' value' =>
          injection hshape with _ hop htarget hvalue
          subst hop
          have hlength := Expr.length_nodes_eq_of_shape_eq htarget
          refine noted_follows hpairs h.head ?_
          refine .bind (check_follows hpairs target target' htarget (h.tail.left hlength))
            fun t => ?_
          refine .bind (check_follows hpairs value value' hvalue (h.tail.right hlength))
            fun v => ?_
          exact assignType_follows _ _ _ _ _ _ _
      | _ => cases hshape
  | conditional node condition yes no =>
      cases e' with
      | conditional node' condition' yes' no' =>
          injection hshape with _ hcondition hyes hno
          have hinner : (condition.nodes ++ yes.nodes).length =
              (condition'.nodes ++ yes'.nodes).length := by
            rw [List.length_append, List.length_append, Expr.length_nodes_eq_of_shape_eq hcondition,
              Expr.length_nodes_eq_of_shape_eq hyes]
          have hfirst := h.tail.left hinner
          have hlength := Expr.length_nodes_eq_of_shape_eq hcondition
          refine noted_follows hpairs h.head ?_
          refine .bind (check_follows hpairs condition condition' hcondition (hfirst.left hlength))
            fun t => ?_
          refine .bind (requireCondition_follows _ _ t) fun _ => ?_
          refine .bind (check_follows hpairs yes yes' hyes (hfirst.right hlength)) fun a => ?_
          refine .bind (check_follows hpairs no no' hno (h.tail.right hinner)) fun b => ?_
          exact .rule _ _ _
      | _ => cases hshape
  | subscript node array index =>
      cases e' with
      | subscript node' array' index' =>
          injection hshape with _ harray hindex
          have hlength := Expr.length_nodes_eq_of_shape_eq harray
          refine noted_follows hpairs h.head ?_
          refine .bind (check_follows hpairs array array' harray (h.tail.left hlength)) fun a => ?_
          refine .bind (check_follows hpairs index index' hindex (h.tail.right hlength)) fun i => ?_
          split
          next => exact .fail _ _
          next t _ =>
            split
            next => exact .pure t
            next => exact .fail _ _
      | _ => cases hshape
  | stepBefore node op target =>
      cases e' with
      | stepBefore node' op' target' =>
          injection hshape with _ hop htarget
          subst hop
          refine noted_follows hpairs h.head ?_
          refine .bind (check_follows hpairs target target' htarget h.tail) fun t => ?_
          exact stepType_follows (Expr.isAssignable_eq_of_shape_eq htarget) _ t
      | _ => cases hshape
  | stepAfter node op target =>
      cases e' with
      | stepAfter node' op' target' =>
          injection hshape with _ hop htarget
          subst hop
          refine noted_follows hpairs h.head ?_
          refine .bind (check_follows hpairs target target' htarget h.tail) fun t => ?_
          exact stepType_follows (Expr.isAssignable_eq_of_shape_eq htarget) _ t
      | _ => cases hshape

theorem checkAll_follows (hpairs : OneToOne pairs) (es es' : List Expr)
    (hshape : Expr.shapes es' = Expr.shapes (Expr.respellAll spelling es))
    (h : Comparable setting.aliases spelling pairs (Expr.nodesOfAll es) (Expr.nodesOfAll es')
      (Expr.partsOfAll es)) :
    Check.Follows (Agree pairs) (checkAll setting es') (checkAll setting es) := by
  cases es with
  | nil =>
      cases es' with
      | nil => exact .pure []
      | cons => cases hshape
  | cons e es =>
      cases es' with
      | nil => cases hshape
      | cons e' es' =>
          obtain ⟨he, hes⟩ := List.cons.inj hshape
          have hlength := Expr.length_nodes_eq_of_shape_eq he
          refine .bind (check_follows hpairs e e' he (h.left hlength)) fun t => ?_
          refine .bind (checkAll_follows hpairs es es' hes (h.right hlength)) fun ts => ?_
          exact .pure (t :: ts)

end

end

/-- Nodes that are paired place by place, none of them twice, are in no other pair. -/
theorem oneToOne_zip {xs ys : List NodeId} (hxs : xs.Nodup) (hys : ys.Nodup) :
    OneToOne {p | p ∈ xs.zip ys} := by
  intro p hp q hq
  obtain ⟨i, hi, rfl⟩ := List.getElem_of_mem hp
  obtain ⟨j, hj, rfl⟩ := List.getElem_of_mem hq
  rw [List.getElem_zip, List.getElem_zip]
  exact (List.getElem_inj hxs).trans (List.getElem_inj hys).symm

/-- An expression of the same form as one that is checked without a remark, with casts to the same
types, is checked without a remark as well. It has the same type, as do its nodes one by one. -/
theorem checkExpr_follows {setting : Setting} {spelling : NodeId → TypeSpec} {e e' : Expr}
    (hshape : e'.shape = (e.respell spelling).shape) (hnodup : e.nodes.Nodup)
    (hnodup' : e'.nodes.Nodup) (hcalls : Expr.CallsNames e.parts)
    (hcasts : ∀ node type operand, .cast node type operand ∈ e.parts →
      castTarget? setting.aliases (spelling node.id) = castTarget? setting.aliases type)
    (hclean : (checkExpr setting e).2.report = []) :
    (checkExpr setting e').2.report = [] ∧ (checkExpr setting e').1 = (checkExpr setting e).1 ∧
      e'.nodes.map (checkExpr setting e').2.types.find? =
        e.nodes.map (checkExpr setting e).2.types.find? := by
  have hlength := Expr.length_nodes_eq_of_shape_eq hshape
  have hfollows : Check.Follows (Agree {p | p ∈ e.nodes.zip e'.nodes})
      (check { setting with synapseNames := none } e')
      (check { setting with synapseNames := none } e) :=
    check_follows (oneToOne_zip hnodup hnodup') e e' hshape ⟨fun p hp => hp, hcasts, hcalls⟩
  obtain ⟨t, hrun, -⟩ := (check_sound e .univ).of_clean hclean
  obtain ⟨d', hrun', hagree⟩ := hfollows .initial .initial t _ ⟨rfl, fun _ _ => rfl⟩ hrun
  have hsuccess := (check_sound e' .univ).of_success (congrArg Prod.fst hrun')
  rw [hrun'] at hsuccess
  rw [checkExpr, checkExpr, hrun']
  refine ⟨hsuccess.1, (congrArg Prod.fst hrun).symm, ?_⟩
  refine List.ext_getElem (by simp [hlength]) fun i hi hi' => ?_
  rw [List.getElem_map, List.getElem_map]
  rw [List.length_map] at hi hi'
  have hmem := List.getElem_mem (l := e.nodes.zip e'.nodes) (n := i)
    (by rw [List.length_zip]; omega)
  rw [List.getElem_zip] at hmem
  exact hagree.types _ hmem

end KernelWeaver.Typing
