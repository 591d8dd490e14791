import KernelWeaver.Proofs.Snippet.Occurrences
import KernelWeaver.Proofs.Typing.Derivation
import KernelWeaver.Proofs.Typing.Synthesis

/-!
# The types of names in an expression

A name that stands for a value is noted with the only type that it has in the scopes around, and a
name that is called with the type that is chosen, for the types of the arguments, among all that it
has there. This is so for every name in an expression, however deep inside it stands, because no
part of an expression declares a name.
-/

namespace KernelWeaver.Typing

open Snippet

/-- The callee has the type that is chosen for the types of the arguments among those of its
name. -/
def CalleeChosen (aliases : Aliases) (names : String → Option (List CType)) (callee : Node)
    (name : String) (args : List Expr) (types : NodeTypes) : Prop :=
  ∃ choices ts chosen, names name = some choices ∧ HasTypes aliases types args ts ∧
    chooseCall? ts (fun t => t) choices = some chosen ∧ types.find? callee.id = some chosen

/-- The name is noted with a type that it has. -/
def OccurrenceTyped (aliases : Aliases) (names : String → Option (List CType))
    (types : NodeTypes) (o : Occurrence) : Prop :=
  match o.args with
  | none => ∃ t, names o.name = some [t] ∧ types.find? o.node.id = some t
  | some args => CalleeChosen aliases names o.node o.name args types

/-- Each of the names is noted with a type that it has. -/
def OccurrencesTyped (aliases : Aliases) (names : String → Option (List CType))
    (os : List Occurrence) (types : NodeTypes) : Prop :=
  ∀ o ∈ os, OccurrenceTyped aliases names types o

namespace OccurrencesTyped

variable {aliases : Aliases} {names : String → Option (List CType)} {o : Occurrence}
  {os more : List Occurrence} {types : NodeTypes}

theorem nil : OccurrencesTyped aliases names [] types := fun _ h => absurd h List.not_mem_nil

theorem cons (ho : OccurrenceTyped aliases names types o)
    (h : OccurrencesTyped aliases names os types) :
    OccurrencesTyped aliases names (o :: os) types :=
  List.forall_mem_cons.mpr ⟨ho, h⟩

theorem append (h : OccurrencesTyped aliases names os types)
    (h' : OccurrencesTyped aliases names more types) :
    OccurrencesTyped aliases names (os ++ more) types :=
  List.forall_mem_append.mpr ⟨h, h'⟩

end OccurrencesTyped

/-- What a check that declares nothing does if it succeeds: types of these nodes are noted, for
which `P` holds. -/
structure Checker.NotesOnly (c : Checker) (nodes : List NodeId) (P : NodeTypes → Prop)
    (c' : Checker) : Prop where
  notes : Notes c.types nodes P c'.types
  scopes : c'.scopes = c.scopes

namespace Checker.NotesOnly

variable {c c' c'' : Checker} {xs ys : List NodeId} {P Q : NodeTypes → Prop}

theorem refl (c : Checker) (h : ∀ types, P types) : c.NotesOnly [] P c :=
  ⟨.refl c.types h, rfl⟩

theorem imp (h : c.NotesOnly xs P c') (hPQ : ∀ types, P types → Q types) : c.NotesOnly xs Q c' :=
  ⟨h.notes.imp hPQ, h.scopes⟩

theorem trans (h : c.NotesOnly xs P c') (h' : c'.NotesOnly ys Q c'')
    (hnodup : (xs ++ ys).Nodup) : c.NotesOnly (xs ++ ys) (fun types => P types ∧ Q types) c'' :=
  ⟨h.notes.trans h'.notes hnodup, h'.scopes.trans h.scopes⟩

end Checker.NotesOnly

section

variable {setting : Setting} {scopes : List (Table CType)} {c c' c'' : Checker}
  {xs ys : List NodeId} {os more : List Occurrence} {m : Check CType}

theorem Checker.NotesOnly.append {aliases : Aliases} {names : String → Option (List CType)}
    (h : c.NotesOnly xs (OccurrencesTyped aliases names os) c')
    (h' : c'.NotesOnly ys (OccurrencesTyped aliases names more) c'') (hnodup : (xs ++ ys).Nodup) :
    c.NotesOnly (xs ++ ys) (OccurrencesTyped aliases names (os ++ more)) c'' :=
  (h.trans h' hnodup).imp fun _ hboth => hboth.1.append hboth.2

/-- The whole is noted behind its parts. -/
theorem noted_only {P : CType → NodeTypes → Prop} {Q : NodeTypes → Prop} (node : Node)
    (hnodup : (node.id :: xs).Nodup) (h : m.Sound c fun t c' => c.NotesOnly xs (P t) c')
    (hPQ : ∀ t types, types.find? node.id = some t → P t types → Q types) :
    (noted node m).Sound c fun _ c' => c.NotesOnly (node.id :: xs) Q c' := by
  refine .bind h fun t c₁ h₁ => ?_
  refine .bind (P := fun _ c₂ => c.NotesOnly (node.id :: xs) Q c₂) (.modify rfl ?_)
    fun _ _ h₂ => .pure h₂
  exact ⟨(h₁.notes.note (List.nodup_cons.mp hnodup).1 t).imp fun types hP => hPQ t types hP.1 hP.2,
    h₁.scopes⟩

/-- Nothing is asked of the type of the whole. -/
theorem noted_parts {P : NodeTypes → Prop} (node : Node) (hnodup : (node.id :: xs).Nodup)
    (h : m.Sound c fun _ c' => c.NotesOnly xs P c') :
    (noted node m).Sound c fun _ c' => c.NotesOnly (node.id :: xs) P c' :=
  noted_only node hnodup h fun _ _ _ hP => hP

mutual

theorem check_occurrences (e : Expr) (hnodup : e.nodes.Nodup) {c : Checker}
    (hc : c.scopes = scopes) :
    (check setting e).Sound c fun _ c' => c.NotesOnly e.nodes
      (OccurrencesTyped setting.aliases (setting.namesIn scopes) e.occurrences) c' := by
  cases e with
  | number node | bool node | string node =>
      exact noted_parts node hnodup (.pure (.refl c fun _ => .nil))
  | name node name =>
      refine noted_only (P := fun t _ => setting.namesIn scopes name = some [t]) node hnodup ?_
        fun t types hfind hname => .cons ⟨t, hname, hfind⟩ .nil
      refine .bind (P := fun found c' => c' = c ∧ found = setting.namesIn scopes name) ?_ ?_
      · rw [Check.Sound, typesOf_eq, hc]
        exact ⟨rfl, rfl, rfl⟩
      rintro found _ ⟨rfl, hfound⟩
      split
      next t => exact .pure (.refl _ fun _ => hfound.symm)
      next => exact .fail _ _
      next => exact .fail _ _
  | group node inner =>
      exact noted_parts node hnodup (check_occurrences inner (List.nodup_cons.mp hnodup).2 hc)
  | unary node op operand =>
      refine noted_parts node hnodup ?_
      refine .bind (check_occurrences operand (List.nodup_cons.mp hnodup).2 hc) fun _ c₁ h => ?_
      exact .rule fun _ => h
  | binary node op left right =>
      have hparts := (List.nodup_cons.mp hnodup).2
      obtain ⟨hleft, hright, -⟩ := List.nodup_append.mp hparts
      refine noted_parts node hnodup ?_
      refine .bind (check_occurrences left hleft hc) fun _ c₁ h₁ => ?_
      refine .bind (check_occurrences right hright (h₁.scopes.trans hc)) fun _ c₂ h₂ => ?_
      exact .rule fun _ => h₁.append h₂ hparts
  | call node callee args =>
      have hparts := (List.nodup_cons.mp hnodup).2
      obtain ⟨hcallee, hargs, -⟩ := List.nodup_append.mp hparts
      have hcheckArgs : ∀ c₁ : Checker, c₁.scopes = scopes →
          (checkAll setting args).Sound c₁ fun ts c₂ => c₁.NotesOnly (Expr.nodesOfAll args)
            (fun types => HasTypes setting.aliases types args ts ∧ OccurrencesTyped setting.aliases
              (setting.namesIn scopes) (Expr.occurrencesOfAll args) types) c₂ :=
        fun c₁ hc₁ => ((checkAll_notes args hargs c₁).and
          (checkAll_occurrences args hargs hc₁)).imp
          fun ts c₂ ⟨hts, hos⟩ => ⟨hts.and hos.notes, hos.scopes⟩
      refine noted_parts node hnodup ?_
      refine callee_cases callee (fun calleeNode name choices hname hchoices => ?_) fun hother => ?_
      · -- the type of the callee is noted last, for a node that was left out so far
        subst hname
        rw [typesOf_eq, hc] at hchoices
        refine .bind (hcheckArgs c hc) fun ts c₁ h₁ => ?_
        split
        next => exact .fail _ _
        next chosen hchosen =>
          refine .bind (P := fun _ c₂ => c.NotesOnly (calleeNode.id :: Expr.nodesOfAll args) _ c₂)
            (.modify rfl ⟨(h₁.notes.note (List.nodup_cons.mp hparts).1 chosen).imp ?_, h₁.scopes⟩)
            fun _ _ h₂ => .pure h₂
          rintro types ⟨hfind, hts, hos⟩
          exact .cons ⟨choices, ts, chosen, Option.some.inj (Prod.mk.inj hchoices).1, hts, hchosen,
            hfind⟩ hos
      · rw [Expr.occurrences_call node args hother]
        refine ((check_notes callee hcallee c).and (check_occurrences callee hcallee hc)).imp ?_
        rintro t c₁ ⟨htype, h₁⟩
        refine .bind (hcheckArgs c₁ (h₁.scopes.trans hc)) fun ts c₂ h₂ => ?_
        split
        next => exact .fail _ _
        next chosen hchosen =>
          -- the callee is noted once more with the only type that it can have
          have hsame : chosen = t := List.mem_singleton.mp (of_chooseCall? hchosen).1
          have hboth := (htype.and h₁.notes).trans h₂.notes hparts
          refine .bind (P := fun _ c₃ => c.NotesOnly (callee.nodes ++ Expr.nodesOfAll args) _ c₃)
            (.modify rfl ⟨(hboth.again ?_).imp ?_, h₂.scopes.trans h₁.scopes⟩)
            fun _ _ h₃ => .pure h₃
          · rw [hsame]
            exact hboth.here.1.1.find?_eq
          · rintro types ⟨⟨-, hcallee⟩, -, hargs⟩
            exact hcallee.append hargs
  | cast node type operand =>
      refine noted_parts node hnodup ?_
      refine .bind (resolve_sound type none) ?_
      rintro target _ rfl
      refine .bind (check_occurrences operand (List.nodup_cons.mp hnodup).2 hc) fun _ c₁ h => ?_
      exact .rule fun _ => h
  | assign node op target value =>
      have hparts := (List.nodup_cons.mp hnodup).2
      obtain ⟨htarget, hvalue, -⟩ := List.nodup_append.mp hparts
      refine noted_parts node hnodup ?_
      refine .bind (check_occurrences target htarget hc) fun _ c₁ h₁ => ?_
      refine .bind (check_occurrences value hvalue (h₁.scopes.trans hc)) fun _ c₂ h₂ => ?_
      exact .assignType fun _ => h₁.append h₂ hparts
  | conditional node condition yes no =>
      have hparts := (List.nodup_cons.mp hnodup).2
      obtain ⟨hfirst, hno, -⟩ := List.nodup_append.mp hparts
      obtain ⟨hcondition, hyes, -⟩ := List.nodup_append.mp hfirst
      refine noted_parts node hnodup ?_
      refine .bind (check_occurrences condition hcondition hc) fun _ c₁ h₁ => ?_
      refine .bind (P := fun _ c' => c' = c₁) (.requireCondition rfl) ?_
      rintro _ _ rfl
      refine .bind (check_occurrences yes hyes (h₁.scopes.trans hc)) fun _ c₂ h₂ => ?_
      have h := h₁.append h₂ hfirst
      refine .bind (check_occurrences no hno (h.scopes.trans hc)) fun _ c₃ h₃ => ?_
      exact .rule fun _ => h.append h₃ hparts
  | subscript node array index =>
      have hparts := (List.nodup_cons.mp hnodup).2
      obtain ⟨harray, hindex, -⟩ := List.nodup_append.mp hparts
      refine noted_parts node hnodup ?_
      refine .bind (check_occurrences array harray hc) fun a c₁ h₁ => ?_
      refine .bind (check_occurrences index hindex (h₁.scopes.trans hc)) fun i c₂ h₂ => ?_
      split
      next => exact .fail _ _
      next =>
        split
        next => exact .pure (h₁.append h₂ hparts)
        next => exact .fail _ _
  | stepBefore node op target | stepAfter node op target =>
      refine noted_parts node hnodup ?_
      exact .bind (check_occurrences target (List.nodup_cons.mp hnodup).2 hc)
        fun _ _ h => .stepType h

theorem checkAll_occurrences (es : List Expr) (hnodup : (Expr.nodesOfAll es).Nodup) {c : Checker}
    (hc : c.scopes = scopes) :
    (checkAll setting es).Sound c fun _ c' => c.NotesOnly (Expr.nodesOfAll es)
      (OccurrencesTyped setting.aliases (setting.namesIn scopes)
        (Expr.occurrencesOfAll es)) c' := by
  cases es with
  | nil => exact .pure (.refl c fun _ => .nil)
  | cons e es =>
      obtain ⟨he, hes, -⟩ := List.nodup_append.mp hnodup
      refine .bind (check_occurrences e he hc) fun _ c₁ h₁ => ?_
      refine .bind (checkAll_occurrences es hes (h₁.scopes.trans hc)) fun _ c₂ h₂ => ?_
      exact .pure (h₁.append h₂ hnodup)

end

/-- In an expression that is checked without a remark every name is noted with a type that it
has. -/
theorem checkExpr_occurrences {e : Expr} (hnodup : e.nodes.Nodup)
    (hclean : (checkExpr setting e).2.report = []) :
    OccurrencesTyped setting.aliases setting.typesOf e.occurrences
      (checkExpr setting e).2.types := by
  have hos : (check { setting with synapseNames := none } e).Sound .initial _ :=
    check_occurrences e hnodup rfl
  obtain ⟨t, -, hchecked⟩ := hos.of_clean hclean
  exact hchecked.notes.here

/-- In an expression that is checked without a remark every name that is called has the type that is
chosen for the call. -/
theorem checkExpr_calls {e : Expr} (hnodup : e.nodes.Nodup)
    (hclean : (checkExpr setting e).2.report = []) (node callee : Node) (name : String)
    (args : List Expr) (h : .call node (.name callee name) args ∈ e.parts) :
    CalleeChosen setting.aliases setting.typesOf callee name args (checkExpr setting e).2.types :=
  checkExpr_occurrences hnodup hclean _ (Expr.mem_occurrences_of_call h)

end

end KernelWeaver.Typing
