import KernelWeaver.Proofs.Snippet.Respelling
import KernelWeaver.Proofs.Snippet.Sites
import Mathlib.Data.List.Flatten
import Mathlib.Data.List.Perm.Basic

/-!
# Nodes behind their parts

The numbers of a tree in the order in which its nodes are finished: a node comes behind its parts.
Where these numbers rise, no two nodes have the same, and the number of every expression is greater
than those of the expressions in it.
-/

namespace KernelWeaver.Snippet

namespace Expr

/-- The expressions that an expression is directly made of. -/
def operands : Expr → List Expr
  | number .. | bool .. | string .. | .name .. => []
  | unary _ _ e | cast _ _ e | group _ e | stepBefore _ _ e | stepAfter _ _ e => [e]
  | binary _ _ a b | assign _ _ a b | subscript _ a b => [a, b]
  | call _ callee args => callee :: args
  | conditional _ a b c => [a, b, c]

mutual

/-- The numbers of an expression and of its parts, each behind those of its own parts. -/
def numbers : Expr → List NodeId
  | number n .. | bool n .. | string n .. | .name n .. => [n.id]
  | unary n _ e | cast n _ e | group n e | stepBefore n _ e | stepAfter n _ e =>
    e.numbers ++ [n.id]
  | binary n _ a b | assign n _ a b | subscript n a b => a.numbers ++ b.numbers ++ [n.id]
  | call n callee args => callee.numbers ++ numbersOfAll args ++ [n.id]
  | conditional n a b c => a.numbers ++ b.numbers ++ c.numbers ++ [n.id]

/-- The numbers of several expressions and of their parts. -/
def numbersOfAll : List Expr → List NodeId
  | [] => []
  | e :: es => e.numbers ++ numbersOfAll es

end

/-- The numbers of an expression that may be left out. -/
def numbersOfOption (e : Option Expr) : List NodeId := e.elim [] numbers

variable {a e p : Expr}

theorem numbersOfAll_eq_flatMap (es : List Expr) : numbersOfAll es = es.flatMap numbers := by
  induction es with
  | nil => rfl
  | cons e es ih => rw [numbersOfAll, ih, List.flatMap_cons]

theorem partsOfAll_eq_flatMap (es : List Expr) : partsOfAll es = es.flatMap parts := by
  induction es with
  | nil => rfl
  | cons e es ih => rw [partsOfAll, ih, List.flatMap_cons]

/-- The number of an expression stands behind those of its operands. -/
theorem numbers_eq (e : Expr) : e.numbers = e.operands.flatMap numbers ++ [e.id] := by
  cases e <;>
    simp [numbers, operands, numbersOfAll_eq_flatMap, Expr.id, node]

theorem parts_eq (e : Expr) : e.parts = e :: e.operands.flatMap parts := by
  cases e <;> simp [parts, operands, partsOfAll_eq_flatMap]

theorem nodes_eq (e : Expr) : e.nodes = e.id :: e.operands.flatMap nodes := by
  rw [nodes_eq_map_parts, parts_eq, List.map_cons, List.map_flatMap]
  simp only [← nodes_eq_map_parts]

theorem sizeOf_lt_of_mem_operands (h : a ∈ e.operands) : sizeOf a < sizeOf e := by
  cases e with
  | number | bool | string | name => cases h
  | unary | cast | group | stepBefore | stepAfter =>
      obtain rfl := List.mem_singleton.mp h
      decreasing_tactic
  | binary | assign | subscript =>
      simp only [binary.sizeOf_spec, assign.sizeOf_spec, subscript.sizeOf_spec]
      rcases List.mem_pair.mp h with rfl | rfl <;> omega
  | conditional =>
      simp only [operands, List.mem_cons, List.not_mem_nil, or_false] at h
      simp only [conditional.sizeOf_spec]
      rcases h with rfl | rfl | rfl <;> omega
  | call node callee args =>
      simp only [call.sizeOf_spec]
      rcases List.mem_cons.mp h with rfl | hmem
      · omega
      · have hlt := List.sizeOf_lt_of_mem hmem
        omega

/-- What holds of an expression if it holds of its operands holds of every expression. -/
theorem induction_operands {P : Expr → Prop} (h : ∀ e : Expr, (∀ a ∈ e.operands, P a) → P e)
    (e : Expr) : P e :=
  h e fun a _ => induction_operands h a
termination_by sizeOf e
decreasing_by exact sizeOf_lt_of_mem_operands ‹_›

/-- The numbers of the nodes are the same in any order. -/
theorem numbers_perm (e : Expr) : e.numbers.Perm e.nodes := by
  induction e using induction_operands with
  | h e ih =>
    rw [numbers_eq, nodes_eq]
    exact List.perm_append_comm.trans ((List.Perm.flatMap_left _ ih).cons _)

/-- The numbers of a part stand in those of the whole. -/
theorem numbers_sublist (h : p ∈ e.parts) : p.numbers.Sublist e.numbers := by
  induction e using induction_operands with
  | h e ih =>
    rw [parts_eq, List.mem_cons, List.mem_flatMap] at h
    rcases h with rfl | ⟨a, ha, hp⟩
    · exact List.Sublist.refl _
    · have hoperand := (List.singleton_sublist.mpr ha).flatMap numbers
      rw [List.flatMap_singleton] at hoperand
      rw [numbers_eq e]
      exact ((ih a ha hp).trans hoperand).trans (List.sublist_append_left _ _)

theorem id_mem_numbers (h : p ∈ e.parts) : p.id ∈ e.numbers := by
  rw [e.numbers_perm.mem_iff, nodes_eq_map_parts]
  exact List.mem_map_of_mem h

/-- Every expression in the expression has a greater number than all that stand in its operands. -/
def ExceedsParts (e : Expr) : Prop :=
  ∀ p ∈ e.parts, ∀ q ∈ p.operands, ∀ r ∈ q.parts, r.id < p.id

/-- Where numbers rise, they are greater than those in front of them. -/
theorem ExceedsParts.of_ascending (h : e.numbers.Pairwise (· < ·)) : e.ExceedsParts := by
  intro p hp q hq r hr
  have hrise := h.sublist (numbers_sublist hp)
  rw [numbers_eq, List.pairwise_append] at hrise
  exact hrise.2.2 _ (List.mem_flatMap.mpr ⟨q, hq, id_mem_numbers hr⟩) _ List.mem_cons_self

end Expr

/-- The numbers of declared names, each behind those of its value. -/
def Declarator.numbersOfAll : List Declarator → List NodeId
  | [] => []
  | d :: ds => Expr.numbersOfOption d.init ++ [d.id] ++ numbersOfAll ds

namespace Stmt

mutual

/-- The numbers in a statement, each behind those of its own parts. -/
def numbers : Stmt → List NodeId
  | .expr _ value => Expr.numbersOfOption value
  | block _ items => numbersOfItems items
  | declare _ _ names => Declarator.numbersOfAll names
  | ifElse _ test yes no => test.numbers ++ yes.numbers ++ numbersOfOption no
  | whileLoop _ test body | switch _ test body => test.numbers ++ body.numbers
  | doLoop _ body test => body.numbers ++ test.numbers
  | forLoop _ init test step body =>
    numbersOfOption init ++ Expr.numbersOfOption test ++ Expr.numbersOfOption step ++ body.numbers
  | caseLabel _ value body => value.numbers ++ body.numbers
  | defaultLabel _ body | eachSynapse _ body => body.numbers
  | breakLoop _ | continueLoop _ => []
  | print _ value => value.numbers

/-- The numbers in a statement that may be left out. -/
def numbersOfOption : Option Stmt → List NodeId
  | none => []
  | some s => s.numbers

/-- The numbers in several statements. -/
def numbersOfItems : List Stmt → List NodeId
  | [] => []
  | s :: ss => s.numbers ++ numbersOfItems ss

end

end Stmt

/-! ### The same numbers in another order -/

theorem Expr.numbersOfOption_perm (e : Option Expr) :
    (numbersOfOption e).Perm (nodesOfOption e) := by
  cases e with
  | none => exact .nil
  | some e => exact e.numbers_perm

theorem Declarator.numbersOfAll_perm (ds : List Declarator) :
    (numbersOfAll ds).Perm (nodesOfAll ds) := by
  induction ds with
  | nil => exact .nil
  | cons d ds ih =>
      have hvalue := (Expr.numbersOfOption_perm d.init).append_right [d.id]
      exact (hvalue.trans List.perm_append_comm).append ih

namespace Stmt

mutual

theorem numbers_perm (s : Stmt) : s.numbers.Perm s.nodes := by
  cases s with
  | expr _ value => exact Expr.numbersOfOption_perm value
  | block _ items => exact numbersOfItems_perm items
  | declare _ _ names => exact Declarator.numbersOfAll_perm names
  | ifElse _ test yes no =>
      exact (test.numbers_perm.append yes.numbers_perm).append (numbersOfOption_perm no)
  | whileLoop _ test body | switch _ test body | caseLabel _ test body =>
      exact test.numbers_perm.append body.numbers_perm
  | doLoop _ body test => exact body.numbers_perm.append test.numbers_perm
  | forLoop _ init test step body =>
      exact (((numbersOfOption_perm init).append (Expr.numbersOfOption_perm test)).append
        (Expr.numbersOfOption_perm step)).append body.numbers_perm
  | defaultLabel _ body | eachSynapse _ body => exact body.numbers_perm
  | breakLoop | continueLoop => exact .nil
  | print _ value => exact value.numbers_perm

theorem numbersOfOption_perm (s : Option Stmt) : (numbersOfOption s).Perm (nodesOfOption s) := by
  cases s with
  | none => exact .nil
  | some s => exact s.numbers_perm

/-- The numbers of the nodes are the same in any order. -/
theorem numbersOfItems_perm (ss : List Stmt) : (numbersOfItems ss).Perm (nodesOfItems ss) := by
  cases ss with
  | nil => exact .nil
  | cons s ss => exact s.numbers_perm.append (numbersOfItems_perm ss)

end

end Stmt

/-! ### The expressions of a snippet -/

/-- The numbers of expressions that stand somewhere. -/
def numbersOfSites (sites : List (Context × Expr)) : List NodeId :=
  sites.flatMap fun site => site.2.numbers

@[simp]
theorem numbersOfSites_append (xs ys : List (Context × Expr)) :
    numbersOfSites (xs ++ ys) = numbersOfSites xs ++ numbersOfSites ys := List.flatMap_append

@[simp]
theorem numbersOfSites_cons (x : Context) (e : Expr) (xs : List (Context × Expr)) :
    numbersOfSites ((x, e) :: xs) = e.numbers ++ numbersOfSites xs := List.flatMap_cons

theorem sublist_numbersOfOption (x : Context) (e : Option Expr) :
    (numbersOfSites (Expr.sitesOfOption x e)).Sublist (Expr.numbersOfOption e) := by
  cases e with
  | none => exact .slnil
  | some e =>
      change (e.numbers ++ []).Sublist e.numbers
      rw [List.append_nil]

theorem sublist_numbersOfDeclarators (x : Context) (ds : List Declarator) :
    (numbersOfSites (Declarator.sitesOfAll x ds)).Sublist (Declarator.numbersOfAll ds) := by
  induction ds generalizing x with
  | nil => exact .slnil
  | cons d ds ih =>
      rw [Declarator.sitesOfAll, Declarator.numbersOfAll, numbersOfSites_append]
      have hinit := sublist_numbersOfOption (x.declare d.name) d.init
      exact (hinit.trans (List.sublist_append_left _ _)).append (ih _)

mutual

theorem sublist_numbersOfStmt (x : Context) (s : Stmt) :
    (numbersOfSites (s.sites x)).Sublist s.numbers := by
  cases s with
  | expr _ value => exact sublist_numbersOfOption x value
  | block _ items => exact sublist_numbersOfItems x items
  | declare _ _ names => exact sublist_numbersOfDeclarators x names
  | ifElse _ test yes no =>
      rw [Stmt.sites, Stmt.numbers, numbersOfSites_cons, numbersOfSites_append, List.append_assoc]
      exact (List.Sublist.refl _).append
        ((sublist_numbersOfStmt x yes).append (sublist_numbersOfStmtOption x no))
  | whileLoop _ test body | switch _ test body | caseLabel _ test body =>
      rw [Stmt.sites, Stmt.numbers, numbersOfSites_cons]
      exact (List.Sublist.refl _).append (sublist_numbersOfStmt x body)
  | doLoop _ body test =>
      rw [Stmt.sites, Stmt.numbers, numbersOfSites_append]
      exact (sublist_numbersOfStmt x body).append (sublist_numbersOfOption x (some test))
  | forLoop _ init test step body =>
      rw [Stmt.sites, Stmt.numbers, numbersOfSites_append, numbersOfSites_append,
        numbersOfSites_append]
      exact (((sublist_numbersOfStmtOption x init).append (sublist_numbersOfOption _ test)).append
        (sublist_numbersOfOption _ step)).append (sublist_numbersOfStmt _ body)
  | defaultLabel _ body => exact sublist_numbersOfStmt x body
  | eachSynapse _ body => exact sublist_numbersOfStmt x.looped body
  | breakLoop | continueLoop => exact .slnil
  | print _ value => exact sublist_numbersOfOption x (some value)

theorem sublist_numbersOfStmtOption (x : Context) (s : Option Stmt) :
    (numbersOfSites (Stmt.sitesOfOption x s)).Sublist (Stmt.numbersOfOption s) := by
  cases s with
  | none => exact .slnil
  | some s => exact sublist_numbersOfStmt x s

/-- The numbers of the expressions of a snippet rise where all its numbers do. -/
theorem sublist_numbersOfItems (x : Context) (ss : List Stmt) :
    (numbersOfSites (Stmt.sitesOfItems x ss)).Sublist (Stmt.numbersOfItems ss) := by
  cases ss with
  | nil => exact .slnil
  | cons s ss =>
      rw [Stmt.sitesOfItems, Stmt.numbersOfItems, numbersOfSites_append]
      exact (sublist_numbersOfStmt x s).append (sublist_numbersOfItems _ ss)

end

/-- The numbers of an expression of a snippet stand in those of the snippet. -/
theorem numbers_sublist_items {x y : Context} {e : Expr} {ss : List Stmt}
    (h : (y, e) ∈ Stmt.sitesOfItems x ss) : e.numbers.Sublist (Stmt.numbersOfItems ss) := by
  have hsite := (List.singleton_sublist.mpr h).flatMap fun site => site.2.numbers
  rw [List.flatMap_singleton] at hsite
  exact hsite.trans (sublist_numbersOfItems x ss)

end KernelWeaver.Snippet
