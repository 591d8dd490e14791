import KernelWeaver.Proofs.Snippet.Respelling

/-!
# Expressions in the place of names

An expression in which each name is replaced by an expression of its own. Its parts are those of
the replacements, and the other parts of the original with the names in them replaced.
-/

namespace KernelWeaver.Snippet.Expr

mutual

/-- The expression with each name replaced by what is given for it. -/
def expand (replacement : Node → String → Expr) : Expr → Expr
  | number n lexeme type => number n lexeme type
  | bool n value => bool n value
  | string n lexeme => string n lexeme
  | .name n text => replacement n text
  | unary n op e => unary n op (e.expand replacement)
  | binary n op a b => binary n op (a.expand replacement) (b.expand replacement)
  | call n callee args => call n (callee.expand replacement) (expandAll replacement args)
  | cast n type e => cast n type (e.expand replacement)
  | assign n op a b => assign n op (a.expand replacement) (b.expand replacement)
  | conditional n a b c =>
    conditional n (a.expand replacement) (b.expand replacement) (c.expand replacement)
  | subscript n a b => subscript n (a.expand replacement) (b.expand replacement)
  | group n e => group n (e.expand replacement)
  | stepBefore n op e => stepBefore n op (e.expand replacement)
  | stepAfter n op e => stepAfter n op (e.expand replacement)

/-- Several expressions with each name replaced. -/
def expandAll (replacement : Node → String → Expr) : List Expr → List Expr
  | [] => []
  | e :: es => e.expand replacement :: expandAll replacement es

end

variable {replacement : Node → String → Expr}

mutual

/-- Nothing changes if names stand for themselves. -/
theorem expand_name (e : Expr) : e.expand .name = e := by
  cases e with
  | number | bool | string | name => rfl
  | unary _ _ a | cast _ _ a | group _ a | stepBefore _ _ a | stepAfter _ _ a =>
      rw [expand, expand_name a]
  | binary _ _ a b | assign _ _ a b | subscript _ a b =>
      rw [expand, expand_name a, expand_name b]
  | call _ callee args => rw [expand, expand_name callee, expandAll_name args]
  | conditional _ a b c => rw [expand, expand_name a, expand_name b, expand_name c]

theorem expandAll_name (es : List Expr) : expandAll .name es = es := by
  cases es with
  | nil => rfl
  | cons e es => rw [expandAll, expand_name e, expandAll_name es]

end

/-! ### Parts -/

section Forms

variable {q : Expr} (hname : ∀ n text, q ≠ .name n text)
include hname

theorem eq_unary_of_expand {n : Node} {op : UnaryOp} {a : Expr}
    (h : q.expand replacement = unary n op a) :
    ∃ b, q = unary n op b ∧ a = b.expand replacement := by
  cases q with
  | unary n op b => cases h; exact ⟨b, rfl, rfl⟩
  | name n text => exact absurd rfl (hname n text)
  | _ => cases h

theorem eq_call_of_expand {n : Node} {callee : Expr} {args : List Expr}
    (h : q.expand replacement = call n callee args) :
    ∃ f as, q = call n f as ∧ callee = f.expand replacement := by
  cases q with
  | call n f as => cases h; exact ⟨f, as, rfl, rfl⟩
  | name n text => exact absurd rfl (hname n text)
  | _ => cases h

theorem eq_cast_of_expand {n : Node} {type : TypeSpec} {a : Expr}
    (h : q.expand replacement = cast n type a) : ∃ b, q = cast n type b := by
  cases q with
  | cast n type b => cases h; exact ⟨b, rfl⟩
  | name n text => exact absurd rfl (hname n text)
  | _ => cases h

end Forms

/-- A part of an expanded expression: one of the original that is no name, or one of what is there
for a name of the original. -/
def IsExpandedPart (replacement : Node → String → Expr) (parts : List Expr) (part : Expr) : Prop :=
  (∃ e ∈ parts, (∀ n text, e ≠ .name n text) ∧ e.expand replacement = part) ∨
    ∃ n text, .name n text ∈ parts ∧ part ∈ (replacement n text).parts

namespace IsExpandedPart

variable {ps qs : List Expr} {part : Expr}

theorem of_subset (h : IsExpandedPart replacement ps part) (hsubset : ps ⊆ qs) :
    IsExpandedPart replacement qs part := by
  obtain ⟨e, hmem, h⟩ | ⟨n, text, hmem, h⟩ := h
  · exact .inl ⟨e, hsubset hmem, h⟩
  · exact .inr ⟨n, text, hsubset hmem, h⟩

theorem cons (h : IsExpandedPart replacement ps part) (e : Expr) :
    IsExpandedPart replacement (e :: ps) part := h.of_subset (List.subset_cons_self e ps)

theorem append (h : IsExpandedPart replacement ps part ∨ IsExpandedPart replacement qs part) :
    IsExpandedPart replacement (ps ++ qs) part :=
  h.elim (·.of_subset (List.subset_append_left ps qs)) (·.of_subset (List.subset_append_right ps qs))

/-- The whole is a part if it is no name. -/
theorem self {e : Expr} (hname : ∀ n text, e ≠ .name n text) :
    IsExpandedPart replacement (e :: ps) (e.expand replacement) :=
  .inl ⟨e, List.mem_cons_self, hname, rfl⟩

end IsExpandedPart

mutual

theorem isExpandedPart_of_mem (e : Expr) {part : Expr} (h : part ∈ (e.expand replacement).parts) :
    IsExpandedPart replacement e.parts part := by
  cases e with
  | number | bool | string =>
      obtain rfl := List.mem_singleton.mp h
      exact .self nofun
  | name n text => exact .inr ⟨n, text, List.mem_cons_self, h⟩
  | unary _ _ a | cast _ _ a | group _ a | stepBefore _ _ a | stepAfter _ _ a =>
      obtain rfl | h := List.mem_cons.mp h
      · exact .self nofun
      · exact (isExpandedPart_of_mem a h).cons _
  | binary _ _ a b | assign _ _ a b | subscript _ a b =>
      obtain rfl | h := List.mem_cons.mp h
      · exact .self nofun
      · have hparts := (List.mem_append.mp h).imp (isExpandedPart_of_mem a) (isExpandedPart_of_mem b)
        exact (IsExpandedPart.append hparts).cons _
  | call _ callee args =>
      obtain rfl | h := List.mem_cons.mp h
      · exact .self nofun
      · have hparts := (List.mem_append.mp h).imp (isExpandedPart_of_mem callee)
          (isExpandedPart_of_mem_all args)
        exact (IsExpandedPart.append hparts).cons _
  | conditional _ a b c =>
      obtain rfl | h := List.mem_cons.mp h
      · exact .self nofun
      · have hparts := (List.mem_append.mp h).imp
          (fun h => IsExpandedPart.append ((List.mem_append.mp h).imp (isExpandedPart_of_mem a)
            (isExpandedPart_of_mem b))) (isExpandedPart_of_mem c)
        exact (IsExpandedPart.append hparts).cons _

theorem isExpandedPart_of_mem_all (es : List Expr) {part : Expr}
    (h : part ∈ partsOfAll (expandAll replacement es)) :
    IsExpandedPart replacement (partsOfAll es) part := by
  cases es with
  | nil => exact absurd h List.not_mem_nil
  | cons e es =>
      exact .append ((List.mem_append.mp h).imp (isExpandedPart_of_mem e)
        (isExpandedPart_of_mem_all es))

end

end KernelWeaver.Snippet.Expr
