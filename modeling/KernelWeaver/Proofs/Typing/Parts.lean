import KernelWeaver.Proofs.Snippet.Respelling
import KernelWeaver.Proofs.Typing.Soundness

/-!
# What checking notes of the parts of an expression

After an expression is checked without a remark, every part of it has a type of its own. A cast has
the type that it spells, and an address is taken only of what can be assigned to. Nothing is noted
of nodes elsewhere, so this still holds when more has been checked.
-/

namespace KernelWeaver.Typing

open Snippet

/-- The type that the specification of a cast spells. -/
def castTarget? (aliases : Aliases) (type : TypeSpec) : Option CType :=
  (aliases.resolve? type.words).map fun n =>
    match type.pointer with
    | some pointer => .pointer (.value n type.isConst) pointer.isConst
    | none => .value n type.isConst

theorem resolve_eq (setting : Setting) (type : TypeSpec) :
    resolve setting type none = match castTarget? setting.aliases type with
      | some t => pure t
      | none => Check.fail type.span (.unknownType type.words) := by
  rw [resolve, castTarget?]
  cases setting.aliases.resolve? type.words with
  | none => rfl
  | some n =>
      rw [Option.or_none]
      cases type.pointer <;> rfl

/-- The type is one that the form of the expression allows. -/
def Suits (aliases : Aliases) (t : CType) : Expr → Prop
  | .cast _ type _ => castTarget? aliases type = some t
  | .unary _ .addressOf operand => operand.isAssignable = true
  | _ => True

/-- What checking parts with these nodes leaves: each has a type that suits it, and nothing else is
noted. -/
structure Settled (aliases : Aliases) (c : Checker) (nodes : List NodeId) (parts : List Expr)
    (c' : Checker) : Prop where
  others : ∀ id ∉ nodes, c'.types.find? id = c.types.find? id
  suits : ∀ part ∈ parts, part.id ∈ nodes ∧
    ∃ t, c'.types.find? part.id = some t ∧ Suits aliases t part

theorem NodeTypes.find?_cons (types : NodeTypes) (id other : NodeId) (t : CType) :
    NodeTypes.find? ((id, t) :: types) other =
      if other = id then some t else types.find? other := by
  rw [NodeTypes.find?, List.lookup_cons]
  by_cases h : other = id
  · simp [h]
  · rw [if_neg h, beq_eq_false_iff_ne.mpr h]
    rfl

namespace Settled

variable {aliases : Aliases} {c c' c'' : Checker} {xs ys : List NodeId} {ps qs : List Expr}

theorem refl (c : Checker) : Settled aliases c [] [] c :=
  ⟨fun _ _ => rfl, fun _ h => absurd h List.not_mem_nil⟩

theorem trans (h : Settled aliases c xs ps c') (h' : Settled aliases c' ys qs c'')
    (hnodup : (xs ++ ys).Nodup) : Settled aliases c (xs ++ ys) (ps ++ qs) c'' where
  others id hid := by
    rw [List.mem_append, not_or] at hid
    exact (h'.others id hid.2).trans (h.others id hid.1)
  suits part hmem := by
    rcases List.mem_append.mp hmem with hmem | hmem
    · obtain ⟨hin, t, hfind, hsuits⟩ := h.suits part hmem
      have hout : part.id ∉ ys := fun hys => (List.nodup_append.mp hnodup).2.2 _ hin _ hys rfl
      exact ⟨List.mem_append_left _ hin, t, (h'.others _ hout).trans hfind, hsuits⟩
    · obtain ⟨hin, hrest⟩ := h'.suits part hmem
      exact ⟨List.mem_append_right _ hin, hrest⟩

/-- One more part is noted with a type that suits it. -/
theorem note (h : Settled aliases c xs ps c') {e : Expr} {t : CType} (hnew : e.id ∉ xs)
    (hsuits : Suits aliases t e) :
    Settled aliases c (e.id :: xs) (e :: ps) { c' with types := (e.id, t) :: c'.types } where
  others id hid := by
    rw [List.mem_cons, not_or] at hid
    rw [NodeTypes.find?_cons, if_neg hid.1]
    exact h.others id hid.2
  suits part hmem := by
    rw [NodeTypes.find?_cons]
    rcases List.mem_cons.mp hmem with rfl | hmem
    · exact ⟨List.mem_cons_self, t, if_pos rfl, hsuits⟩
    · obtain ⟨hin, hrest⟩ := h.suits part hmem
      have hne : part.id ≠ e.id := fun heq => hnew (heq ▸ hin)
      rw [if_neg hne]
      exact ⟨List.mem_cons_of_mem _ hin, hrest⟩

end Settled

/-- The outcome of a typing rule is known where checking goes on. -/
theorem Check.Sound.rule_eq {span : Span} {outcome : Except Flaw CType} {c : Checker}
    {Q : CType → Checker → Prop} (h : ∀ t, outcome = .ok t → Q t c) :
    (Check.rule span outcome).Sound c Q := by
  cases outcome with
  | ok t => exact .pure (h t rfl)
  | error flaw => exact .fail span flaw

section

variable {setting : Setting} {c : Checker} {xs : List NodeId} {ps : List Expr} {m : Check CType}

/-- The type of the whole is noted once its parts are settled. -/
theorem noted_settled (e : Expr) (hnodup : (e.id :: xs).Nodup)
    (h : m.Sound c fun t c' => Settled setting.aliases c xs ps c' ∧ Suits setting.aliases t e) :
    (noted e.node m).Sound c fun _ c' =>
      Settled setting.aliases c (e.id :: xs) (e :: ps) c' := by
  refine .bind h fun t c' hc' => ?_
  refine .bind (P := fun _ c'' => Settled setting.aliases c (e.id :: xs) (e :: ps) c'')
    (.modify rfl ?_) fun _ _ hc'' => .pure hc''
  exact hc'.1.note (List.nodup_cons.mp hnodup).1 hc'.2

end

/-- A cast that is accepted yields the type that it names. -/
theorem castType_eq_ok {target source t : CType} {literal : Bool}
    (h : castType target source literal = .ok t) : t = target := by
  unfold castType at h
  split at h
  · split at h
    · cases h
    · exact (Except.ok.inj h).symm
  · split at h
    · cases h
    · split at h
      · cases h
      · exact (Except.ok.inj h).symm
  · cases h

/-- An operator before its operand is accepted only where its form allows it. -/
theorem suits_unary {aliases : Aliases} {node : Node} {op : UnaryOp} {operand : Expr} {a t : CType}
    (h : unaryType op operand.isAssignable a = .ok t) :
    Suits aliases t (.unary node op operand) := by
  cases op with
  | addressOf =>
      rw [unaryType] at h
      split at h
      next hwhole => exact (Bool.and_eq_true_iff.mp hwhole).2
      next => cases h
  | _ => trivial

/-- What a name can be is found in the state alone. -/
theorem typesOf_sound {setting : Setting} (name : String) (c : Checker) :
    (Check.typesOf setting name).Sound c fun _ c' => c' = c := by
  exact (check_typesOf .univ name).imp fun _ _ h => h.1

/-- Parts with nodes of their own that call nothing but names. -/
structure Orderly (nodes : List NodeId) (parts : List Expr) : Prop where
  nodup : nodes.Nodup
  callsNames : Expr.CallsNames parts

namespace Orderly

variable {x : NodeId} {xs ys : List NodeId} {p : Expr} {ps qs : List Expr}

theorem tail (h : Orderly (x :: xs) (p :: ps)) : Orderly xs ps :=
  ⟨(List.nodup_cons.mp h.nodup).2, h.callsNames.tail⟩

theorem left (h : Orderly (xs ++ ys) (ps ++ qs)) : Orderly xs ps :=
  ⟨(List.nodup_append.mp h.nodup).1, h.callsNames.left⟩

theorem right (h : Orderly (xs ++ ys) (ps ++ qs)) : Orderly ys qs :=
  ⟨(List.nodup_append.mp h.nodup).2.1, h.callsNames.right⟩

end Orderly

mutual

theorem check_settled {setting : Setting} (e : Expr) (horderly : Orderly e.nodes e.parts)
    (c : Checker) :
    (check setting e).Sound c fun _ c' => Settled setting.aliases c e.nodes e.parts c' := by
  have hnodup := horderly.nodup
  cases e with
  | number node lexeme type =>
      exact noted_settled (.number node lexeme type) hnodup (.pure ⟨.refl c, trivial⟩)
  | bool node value => exact noted_settled (.bool node value) hnodup (.pure ⟨.refl c, trivial⟩)
  | string node lexeme =>
      exact noted_settled (.string node lexeme) hnodup (.pure ⟨.refl c, trivial⟩)
  | name node name =>
      refine noted_settled (.name node name) hnodup (.bind (typesOf_sound name c) ?_)
      rintro found _ rfl
      split
      next => exact .pure ⟨.refl _, trivial⟩
      next => exact .fail _ _
      next => exact .fail _ _
  | group node inner =>
      refine noted_settled (.group node inner) hnodup ?_
      exact (check_settled inner horderly.tail c).imp fun _ _ h => ⟨h, trivial⟩
  | unary node op operand =>
      refine noted_settled (.unary node op operand) hnodup ?_
      refine .bind (check_settled operand horderly.tail c) fun a c₁ h => ?_
      exact .rule_eq fun t ht => ⟨h, suits_unary ht⟩
  | binary node op left right =>
      refine noted_settled (.binary node op left right) hnodup ?_
      refine .bind (check_settled left horderly.tail.left c) fun a c₁ h₁ => ?_
      refine .bind (check_settled right horderly.tail.right c₁) fun b c₂ h₂ => ?_
      exact .rule fun t => ⟨h₁.trans h₂ horderly.tail.nodup, trivial⟩
  | call node callee args =>
      obtain ⟨calleeNode, text, rfl⟩ := horderly.callsNames node callee args List.mem_cons_self
      refine noted_settled (.call node (.name calleeNode text) args) hnodup ?_
      refine .bind (typesOf_sound text c) ?_
      rintro found _ rfl
      cases found with
      | none => exact .bind (P := fun _ _ => False) (.fail _ _) fun _ _ h => h.elim
      | some choices =>
          refine .bind (P := fun _ c' => c' = _) (.pure rfl) ?_
          rintro _ _ rfl
          -- the callee is noted last, with what was chosen for the arguments
          have hargs : Orderly (Expr.nodesOfAll args) (Expr.partsOfAll args) := horderly.tail.tail
          refine .bind (checkAll_settled args hargs _) fun types c₁ h₁ => ?_
          split
          next => exact .fail _ _
          next chosen _ =>
            have hcallee := h₁.note (e := .name calleeNode text) (t := chosen)
              (List.nodup_cons.mp horderly.tail.nodup).1 trivial
            exact .bind (P := fun _ c₂ => Settled _ _ _ _ c₂) (.modify rfl hcallee)
              fun _ _ h₂ => .pure ⟨h₂, trivial⟩
  | cast node type operand =>
      refine noted_settled (.cast node type operand) hnodup ?_
      rw [resolve_eq]
      cases htarget : castTarget? setting.aliases type with
      | none => exact .bind (P := fun _ _ => False) (.fail _ _) fun _ _ h => h.elim
      | some target =>
          refine .bind (P := fun found c' => found = target ∧ c' = c) (.pure ⟨rfl, rfl⟩) ?_
          rintro _ _ ⟨rfl, rfl⟩
          refine .bind (check_settled operand horderly.tail _) fun source c₁ h => ?_
          exact .rule_eq fun t ht => ⟨h, castType_eq_ok ht ▸ htarget⟩
  | assign node op target value =>
      refine noted_settled (.assign node op target value) hnodup ?_
      refine .bind (check_settled target horderly.tail.left c) fun t c₁ h₁ => ?_
      refine .bind (check_settled value horderly.tail.right c₁) fun v c₂ h₂ => ?_
      exact .assignType fun t => ⟨h₁.trans h₂ horderly.tail.nodup, trivial⟩
  | conditional node condition yes no =>
      have hinner := horderly.tail.left
      refine noted_settled (.conditional node condition yes no) hnodup ?_
      refine .bind (check_settled condition hinner.left c) fun t c₁ h₁ => ?_
      refine .bind (P := fun _ c' => c' = c₁) (.requireCondition rfl) ?_
      rintro _ _ rfl
      refine .bind (check_settled yes hinner.right _) fun a c₂ h₂ => ?_
      refine .bind (check_settled no horderly.tail.right c₂) fun b c₃ h₃ => ?_
      exact .rule fun t => ⟨(h₁.trans h₂ hinner.nodup).trans h₃ horderly.tail.nodup, trivial⟩
  | subscript node array index =>
      refine noted_settled (.subscript node array index) hnodup ?_
      refine .bind (check_settled array horderly.tail.left c) fun a c₁ h₁ => ?_
      refine .bind (check_settled index horderly.tail.right c₁) fun i c₂ h₂ => ?_
      split
      next => exact .fail _ _
      next =>
        split
        next => exact .pure ⟨h₁.trans h₂ horderly.tail.nodup, trivial⟩
        next => exact .fail _ _
  | stepBefore node op target =>
      refine noted_settled (.stepBefore node op target) hnodup ?_
      exact .bind (check_settled target horderly.tail c) fun t c₁ h => .stepType ⟨h, trivial⟩
  | stepAfter node op target =>
      refine noted_settled (.stepAfter node op target) hnodup ?_
      exact .bind (check_settled target horderly.tail c) fun t c₁ h => .stepType ⟨h, trivial⟩

theorem checkAll_settled {setting : Setting} (es : List Expr)
    (horderly : Orderly (Expr.nodesOfAll es) (Expr.partsOfAll es)) (c : Checker) :
    (checkAll setting es).Sound c fun _ c' =>
      Settled setting.aliases c (Expr.nodesOfAll es) (Expr.partsOfAll es) c' := by
  cases es with
  | nil => exact .pure (.refl c)
  | cons e es =>
      refine .bind (check_settled e horderly.left c) fun t c₁ h₁ => ?_
      refine .bind (checkAll_settled es horderly.right c₁) fun ts c₂ h₂ => ?_
      exact .pure (h₁.trans h₂ horderly.nodup)

end

/-- After an expression is checked without a remark its parts have types that suit them. -/
theorem checkExpr_settled {setting : Setting} {e : Expr} (horderly : Orderly e.nodes e.parts)
    (hclean : (checkExpr setting e).2.report = []) :
    ∀ part ∈ e.parts, ∃ t, (checkExpr setting e).2.types.find? part.id = some t ∧
      Suits setting.aliases t part := by
  have hsound : (check { setting with synapseNames := none } e).Sound .initial fun _ c' =>
      Settled setting.aliases .initial e.nodes e.parts c' := check_settled e horderly .initial
  obtain ⟨t, -, hsettled⟩ := hsound.of_clean hclean
  exact fun part hmem => (hsettled.suits part hmem).2

end KernelWeaver.Typing
