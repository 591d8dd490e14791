import KernelWeaver.Proofs.Typing.Synthesis

/-!
# Parentheses and types

An expression that has a type has it without its parentheses as well. Parentheses that are put into
an expression take its type away in two places only: around a literal that is cast, which then keeps
its constness, and around a callee with several types, which is then not chosen by its arguments.
-/

namespace KernelWeaver

namespace Snippet.Expr

mutual

/-- The expression without its parentheses. -/
def bare : Expr → Expr
  | number n lexeme type => number n lexeme type
  | bool n value => bool n value
  | string n lexeme => string n lexeme
  | .name n text => .name n text
  | unary n op e => unary n op e.bare
  | binary n op a b => binary n op a.bare b.bare
  | call n callee args => call n callee.bare (bareAll args)
  | cast n type e => cast n type e.bare
  | assign n op a b => assign n op a.bare b.bare
  | conditional n a b c => conditional n a.bare b.bare c.bare
  | subscript n a b => subscript n a.bare b.bare
  | group _ e => e.bare
  | stepBefore n op e => stepBefore n op e.bare
  | stepAfter n op e => stepAfter n op e.bare

/-- Several expressions without their parentheses. -/
def bareAll : List Expr → List Expr
  | [] => []
  | e :: es => e.bare :: bareAll es

end

/-- Parentheses do not change what can be assigned to. -/
theorem isAssignable_bare : (e : Expr) → e.bare.isAssignable = e.isAssignable
  | group _ inner => by
      rw [bare, isAssignable, isAssignable_bare inner]
  | unary _ op _ => by cases op <;> rfl
  | number .. | bool .. | string .. | .name .. | binary .. | call .. | cast .. | assign ..
  | conditional .. | subscript .. | stepBefore .. | stepAfter .. => rfl

end Snippet.Expr

namespace Typing

open Snippet

variable {α β : Type} {aliases : Aliases} {names : String → Option (List CType)}

theorem isLiteral_bare {e : Expr} (h : isLiteral e = true) : isLiteral e.bare = true := by
  cases e with
  | number | bool | string => rfl
  | _ => cases h

theorem isLiteral_shape (e : Expr) : isLiteral e.shape = isLiteral e := by
  cases e <;> rfl

/-- What may be cast is also cast as a literal. -/
theorem castType_literal {target source t : CType} (h : castType target source false = .ok t) :
    castType target source true = .ok t := by
  unfold castType at h ⊢
  split at h
  · split at h
    next => cases h
    next => simpa using h
  · exact h
  · cases h

/-- Only a name can be called with several types. -/
theorem name_or_choicesOf?_eq (e : Expr) :
    (∃ node name, e = .name node name) ∨
      choicesOf? aliases names e = (typeOf? aliases names e).map fun t => [t] := by
  cases e with
  | name node name => exact .inl ⟨node, name, rfl⟩
  | _ => exact .inr rfl

/-- An expression with a type can be called with that type only. -/
theorem choicesOf?_of_typeOf? {e : Expr} {t : CType} (h : typeOf? aliases names e = some t) :
    choicesOf? aliases names e = some [t] := by
  obtain ⟨node, name, rfl⟩ | heq := name_or_choicesOf?_eq e
  · rw [typeOf?, Option.bind_eq_some_iff] at h
    obtain ⟨types, hnames, hsole⟩ := h
    rw [choicesOf?, hnames, eq_of_sole? hsole]
  · rw [heq, h, Option.map_some]

/-! ### Taking parentheses out -/

/-- What goes on from a value goes on from it wherever it is found. -/
theorem bind_of_mem {x x' : Option α} {f f' : α → Option β} (hx : ∀ a ∈ x, a ∈ x')
    (hf : ∀ a, ∀ b ∈ f a, b ∈ f' a) : ∀ b ∈ x.bind f, b ∈ x'.bind f' := by
  intro b hb
  obtain ⟨a, ha, hb⟩ := Option.bind_eq_some_iff.mp hb
  exact Option.bind_eq_some_iff.mpr ⟨a, hx a ha, hf a b hb⟩

mutual

/-- An expression that has a type has it without its parentheses. -/
theorem typeOf?_bare_of_mem (e : Expr) :
    ∀ t ∈ typeOf? aliases names e, t ∈ typeOf? aliases names e.bare := by
  cases e with
  | number | bool | string | name => exact fun t ht => ht
  | group node inner => exact typeOf?_bare_of_mem inner
  | unary node op operand =>
      refine bind_of_mem (typeOf?_bare_of_mem operand) fun a => ?_
      rw [Expr.isAssignable_bare]
      exact fun t ht => ht
  | binary node op left right =>
      refine bind_of_mem (typeOf?_bare_of_mem left) fun a => ?_
      exact bind_of_mem (typeOf?_bare_of_mem right) fun b t ht => ht
  | call node callee args =>
      have hcallee : ∀ choices ∈ choicesOf? aliases names callee,
          choices ∈ choicesOf? aliases names callee.bare := by
        intro choices hchoices
        obtain ⟨calleeNode, name, rfl⟩ | heq := name_or_choicesOf?_eq callee
        · exact hchoices
        · rw [heq] at hchoices
          obtain ⟨t, ht, rfl⟩ := Option.map_eq_some_iff.mp hchoices
          exact choicesOf?_of_typeOf? (typeOf?_bare_of_mem callee t ht)
      rw [Expr.bare, typeOf?_call, typeOf?_call]
      refine bind_of_mem hcallee fun choices => ?_
      exact bind_of_mem (typesOfAll?_bare_of_mem args) fun types t ht => ht
  | cast node type operand =>
      refine bind_of_mem (fun t ht => ht) fun target => ?_
      refine bind_of_mem (typeOf?_bare_of_mem operand) fun source t ht => ?_
      cases hliteral : isLiteral operand with
      | true =>
          rw [hliteral] at ht
          rwa [isLiteral_bare hliteral]
      | false =>
          rw [hliteral] at ht
          cases isLiteral operand.bare with
          | false => exact ht
          | true =>
              cases hcast : castType target source false with
              | ok t' =>
                  rw [hcast] at ht
                  rwa [castType_literal hcast]
              | error => rw [hcast] at ht; cases ht
  | assign node op target value =>
      refine bind_of_mem (typeOf?_bare_of_mem target) fun t => ?_
      exact bind_of_mem (typeOf?_bare_of_mem value) fun v t ht => ht
  | conditional node condition yes no =>
      refine bind_of_mem (typeOf?_bare_of_mem condition) fun s => ?_
      refine bind_of_mem (fun _ h => h) fun _ => ?_
      refine bind_of_mem (typeOf?_bare_of_mem yes) fun a => ?_
      exact bind_of_mem (typeOf?_bare_of_mem no) fun b t ht => ht
  | subscript node array index =>
      refine bind_of_mem (typeOf?_bare_of_mem array) fun a => ?_
      exact bind_of_mem (typeOf?_bare_of_mem index) fun i t ht => ht
  | stepBefore node op target | stepAfter node op target =>
      refine bind_of_mem (typeOf?_bare_of_mem target) fun a => ?_
      rw [stepped?, stepped?, Expr.isAssignable_bare]
      exact fun t ht => ht

theorem typesOfAll?_bare_of_mem (es : List Expr) :
    ∀ ts ∈ typesOfAll? aliases names es, ts ∈ typesOfAll? aliases names (Expr.bareAll es) := by
  cases es with
  | nil => exact fun ts hts => hts
  | cons e es =>
      refine bind_of_mem (typeOf?_bare_of_mem e) fun t ts hts => ?_
      obtain ⟨ts', hts', rfl⟩ := Option.map_eq_some_iff.mp hts
      exact Option.map_eq_some_iff.mpr ⟨ts', typesOfAll?_bare_of_mem es ts' hts', rfl⟩

end

/-! ### Putting parentheses in -/

/-- A name that stands for something, but not for one type. -/
def Overloaded (names : String → Option (List CType)) (name : String) : Prop :=
  ∃ types, names name = some types ∧ sole? types = none

/-- No literal that is cast is in parentheses, and no name that is called has several types and is
in parentheses. -/
structure Transparent (names : String → Option (List CType)) (parts : List Expr) : Prop where
  casts : ∀ node type operand, .cast node type operand ∈ parts →
    isLiteral operand.bare = isLiteral operand
  callees : ∀ node callee args, .call node callee args ∈ parts →
    ∀ calleeNode name, callee.bare = .name calleeNode name → Overloaded names name →
      callee = .name calleeNode name

theorem Transparent.of_subset {ps qs : List Expr} (h : Transparent names qs) (hsub : ps ⊆ qs) :
    Transparent names ps :=
  ⟨fun node type operand hmem => h.casts node type operand (hsub hmem),
    fun node callee args hmem => h.callees node callee args (hsub hmem)⟩

/-- A callee in parentheses has the choices that it has without them, unless it is an overloaded
name. -/
theorem choicesOf?_bare {callee : Expr}
    (h : typeOf? aliases names callee.bare = typeOf? aliases names callee)
    (hname : ∀ node name, callee.bare = .name node name → Overloaded names name →
      callee = .name node name) :
    choicesOf? aliases names callee.bare = choicesOf? aliases names callee := by
  cases htype : typeOf? aliases names callee with
  | some t => rw [choicesOf?_of_typeOf? htype, choicesOf?_of_typeOf? (h.trans htype)]
  | none =>
      obtain ⟨node, name, rfl⟩ | heq := name_or_choicesOf?_eq callee
      · rfl
      obtain ⟨node, name, hbare⟩ | hbare := name_or_choicesOf?_eq callee.bare
      · rw [htype, hbare, typeOf?, Option.bind_eq_none_iff] at h
        cases hnames : names name with
        | none => rw [heq, htype, hbare, choicesOf?, hnames, Option.map_none]
        | some types =>
            rw [hname node name hbare ⟨types, hnames, h types hnames⟩]
            rfl
      · rw [hbare, h, heq]

mutual

/-- Without its parentheses an expression has the type that it has with them, if any. -/
theorem typeOf?_bare (e : Expr) (h : Transparent names e.parts) :
    typeOf? aliases names e.bare = typeOf? aliases names e := by
  cases e with
  | number | bool | string | name => rfl
  | group node inner => exact typeOf?_bare inner (h.of_subset (List.subset_cons_self _ _))
  | unary node op operand =>
      have hoperand := typeOf?_bare operand (h.of_subset (List.subset_cons_self _ _))
      rw [Expr.bare, typeOf?, typeOf?, hoperand, Expr.isAssignable_bare]
  | binary node op left right =>
      have hparts := h.of_subset (List.subset_cons_self _ _)
      rw [Expr.bare, typeOf?, typeOf?,
        typeOf?_bare left (hparts.of_subset (List.subset_append_left _ _)),
        typeOf?_bare right (hparts.of_subset (List.subset_append_right _ _))]
  | call node callee args =>
      have hparts := h.of_subset (List.subset_cons_self _ _)
      have hcallee := typeOf?_bare callee (hparts.of_subset (List.subset_append_left _ _))
      rw [Expr.bare, typeOf?_call, typeOf?_call,
        choicesOf?_bare hcallee (h.callees node callee args List.mem_cons_self),
        typesOfAll?_bare args (hparts.of_subset (List.subset_append_right _ _))]
  | cast node type operand =>
      have hoperand := typeOf?_bare operand (h.of_subset (List.subset_cons_self _ _))
      rw [Expr.bare, typeOf?, typeOf?, hoperand, h.casts node type operand List.mem_cons_self]
  | assign node op target value =>
      have hparts := h.of_subset (List.subset_cons_self _ _)
      rw [Expr.bare, typeOf?, typeOf?,
        typeOf?_bare target (hparts.of_subset (List.subset_append_left _ _)),
        typeOf?_bare value (hparts.of_subset (List.subset_append_right _ _))]
  | conditional node condition yes no =>
      have hparts := h.of_subset (List.subset_cons_self _ _)
      have hfirst := hparts.of_subset (List.subset_append_left _ _)
      rw [Expr.bare, typeOf?, typeOf?,
        typeOf?_bare condition (hfirst.of_subset (List.subset_append_left _ _)),
        typeOf?_bare yes (hfirst.of_subset (List.subset_append_right _ _)),
        typeOf?_bare no (hparts.of_subset (List.subset_append_right _ _))]
  | subscript node array index =>
      have hparts := h.of_subset (List.subset_cons_self _ _)
      rw [Expr.bare, typeOf?, typeOf?,
        typeOf?_bare array (hparts.of_subset (List.subset_append_left _ _)),
        typeOf?_bare index (hparts.of_subset (List.subset_append_right _ _))]
  | stepBefore node op target | stepAfter node op target =>
      have htarget := typeOf?_bare target (h.of_subset (List.subset_cons_self _ _))
      have hstepped : stepped? target.bare = stepped? target := by
        funext t
        rw [stepped?, stepped?, Expr.isAssignable_bare]
      rw [Expr.bare, typeOf?, typeOf?, htarget, hstepped]

theorem typesOfAll?_bare (es : List Expr) (h : Transparent names (Expr.partsOfAll es)) :
    typesOfAll? aliases names (Expr.bareAll es) = typesOfAll? aliases names es := by
  cases es with
  | nil => rfl
  | cons e es =>
      rw [Expr.bareAll, typesOfAll?, typesOfAll?,
        typeOf?_bare e (h.of_subset (List.subset_append_left _ _)),
        typesOfAll?_bare es (h.of_subset (List.subset_append_right _ _))]

end

/-! ### Numbers and places of nodes -/

theorem choicesOf?_shape {e : Expr}
    (h : typeOf? aliases names e.shape = typeOf? aliases names e) :
    choicesOf? aliases names e.shape = choicesOf? aliases names e := by
  cases e with
  | name => rfl
  | _ => exact congrArg (Option.map fun t => [t]) h

mutual

theorem typeOf?_shape (e : Expr) : typeOf? aliases names e.shape = typeOf? aliases names e := by
  cases e with
  | number | bool | string | name => rfl
  | group node inner => exact typeOf?_shape inner
  | unary node op operand =>
      rw [Expr.shape, typeOf?, typeOf?, typeOf?_shape operand, Expr.isAssignable_shape]
  | binary node op a b | assign node op a b | subscript node a b =>
      rw [Expr.shape, typeOf?, typeOf?, typeOf?_shape a, typeOf?_shape b]
  | call node callee args =>
      rw [Expr.shape, typeOf?_call, typeOf?_call, choicesOf?_shape (typeOf?_shape callee),
        typesOfAll?_shapes args]
  | cast node type operand =>
      rw [Expr.shape, typeOf?, typeOf?, typeOf?_shape operand, isLiteral_shape]
      rfl
  | conditional node condition yes no =>
      rw [Expr.shape, typeOf?, typeOf?, typeOf?_shape condition, typeOf?_shape yes,
        typeOf?_shape no]
  | stepBefore node op target | stepAfter node op target =>
      have hstepped : stepped? target.shape = stepped? target := by
        funext t
        rw [stepped?, stepped?, Expr.isAssignable_shape]
      rw [Expr.shape, typeOf?, typeOf?, typeOf?_shape target, hstepped]

theorem typesOfAll?_shapes (es : List Expr) :
    typesOfAll? aliases names (Expr.shapes es) = typesOfAll? aliases names es := by
  cases es with
  | nil => rfl
  | cons e es =>
      rw [Expr.shapes, typesOfAll?, typesOfAll?, typeOf?_shape e, typesOfAll?_shapes es]

end

/-! ### Checking -/

/-- Parentheses change neither the type of an expression nor the report, wherever in a snippet it is
checked, as long as they are not around a literal that is cast or an overloaded name that is
called. -/
theorem check_regrouped {setting : Setting} {e e' : Expr} {c c' : Checker} {t : CType}
    (hsame : e'.bare.shape = e.bare.shape) (hscopes : c'.scopes = c.scopes)
    (htransparent : Transparent (setting.namesIn c.scopes) e'.parts)
    (h : (check setting e c).1 = some t) :
    (check setting e' c').1 = some t ∧ (check setting e' c').2.report = c'.report := by
  have htype : typeOf? setting.aliases (setting.namesIn c.scopes) e' = some t := by
    rw [(check_yields e c rfl).1] at h
    rw [← typeOf?_bare e' htransparent, ← typeOf?_shape, hsame, typeOf?_shape]
    exact typeOf?_bare_of_mem e t h
  have hrun : (check setting e' c').1 = some t :=
    (check_yields e' c' hscopes).1.trans htype
  exact ⟨hrun, ((check_sound e' .univ).of_success hrun).1⟩

/-- An expression that is checked without a remark is checked without one, and has the same type,
with other parentheses. -/
theorem checkExpr_regrouped {setting : Setting} {e e' : Expr}
    (hsame : e'.bare.shape = e.bare.shape)
    (htransparent : Transparent setting.typesOf e'.parts)
    (hclean : (checkExpr setting e).2.report = []) :
    (checkExpr setting e').2.report = [] ∧ (checkExpr setting e').1 = (checkExpr setting e).1 := by
  obtain ⟨t, ht⟩ := (checkExpr_clean_iff setting e).mp hclean
  rw [← checkExpr_fst] at ht
  have hrun : (checkExpr setting e').1 = some t ∧ (checkExpr setting e').2.report = [] :=
    check_regrouped (c := .initial) hsame rfl htransparent ht
  exact ⟨hrun.2, hrun.1.trans ht.symm⟩

/-- A literal can lose its constness in a cast, but not from within parentheses. -/
example :
    typeOf? [] (fun _ => none) (.cast default ⟨["int"], false, none, default⟩
      (.number default "5" .int32)) = some CType.int ∧
    typeOf? [] (fun _ => none) (.cast default ⟨["int"], false, none, default⟩
      (.group default (.number default "5" .int32))) = none :=
  ⟨by decide +kernel, by decide +kernel⟩

end Typing

end KernelWeaver
