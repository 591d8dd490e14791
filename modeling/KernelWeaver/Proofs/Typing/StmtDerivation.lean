import KernelWeaver.Proofs.Typing.Derivation
import KernelWeaver.Proofs.Typing.StmtSoundness

/-!
# Typing derivations of statements

A statement is made of clauses: expressions and declared names. After the statements of a snippet
are checked without a remark, the types that are noted follow the rules in every clause of it.
-/

namespace KernelWeaver.Typing

open Snippet

/-- An expression in a statement that is not inside of another, or a declared name with the type
before it. -/
inductive Clause where
  | value (e : Expr)
  | declared (type : TypeSpec) (d : Declarator)

/-- An expression that may be left out. -/
def Clause.ofOption (e : Option Expr) : List Clause := (e.map Clause.value).toList

namespace StmtClauses

mutual

/-- The clauses of a statement. -/
def ofStmt : Stmt → List Clause
  | .expr _ value => Clause.ofOption value
  | .block _ items => ofItems items
  | .declare _ type names => names.map (Clause.declared type)
  | .ifElse _ test yes no => .value test :: (ofStmt yes ++ ofOption no)
  | .whileLoop _ test body | .switch _ test body => .value test :: ofStmt body
  | .doLoop _ body test => ofStmt body ++ [.value test]
  | .forLoop _ init test step body =>
    ofOption init ++ Clause.ofOption test ++ Clause.ofOption step ++ ofStmt body
  | .caseLabel _ value body => .value value :: ofStmt body
  | .defaultLabel _ body | .eachSynapse _ body => ofStmt body
  | .breakLoop _ | .continueLoop _ => []
  | .print _ value => [.value value]

/-- The clauses of a statement that may be left out. -/
def ofOption : Option Stmt → List Clause
  | none => []
  | some s => ofStmt s

/-- The clauses of several statements. -/
def ofItems : List Stmt → List Clause
  | [] => []
  | s :: ss => ofStmt s ++ ofItems ss

end

end StmtClauses

/-- The type that a declaration gives to a name. -/
def declaredType? (aliases : Aliases) (type : TypeSpec) (star : Option PointerMark) :
    Option CType :=
  castTarget? aliases { type with pointer := type.pointer.or star }

/-- The types of the nodes of a clause follow the rules. A value that a declared name starts with
can be assigned to it. -/
def Clause.Typed (aliases : Aliases) (types : NodeTypes) : Clause → Prop
  | .value e => ∃ t, HasType aliases types e t
  | .declared type d => ∃ t, types.find? d.id = some t ∧
      declaredType? aliases type d.pointer = some t ∧
      ∀ init ∈ d.init, ∃ given, HasType aliases types init given ∧ assignable t given = true

/-- The types of the nodes of several clauses follow the rules. -/
def ClausesTyped (aliases : Aliases) (clauses : List Clause) (types : NodeTypes) : Prop :=
  ∀ clause ∈ clauses, clause.Typed aliases types

variable {setting : Setting} {c : Checker}

theorem resolve_eq_of_star (setting : Setting) (type : TypeSpec) (star : Option PointerMark) :
    resolve setting type star = match declaredType? setting.aliases type star with
      | some t => pure t
      | none => Check.fail type.span (.unknownType type.words) := by
  have hstar : resolve setting type star =
      resolve setting { type with pointer := type.pointer.or star } none := by
    simp only [resolve, Option.or_none]
  rw [hstar, resolve_eq]
  rfl

/-- A check that goes on with the state it is in. -/
theorem Check.Sound.read {α : Type} {f : Checker → Check α} {R : α → Checker → Prop}
    (h : (f c).Sound c R) : Check.Sound (Check.state >>= f) c R := by
  rw [Check.Sound, Check.bind_of_some (show Check.state c = (some c, c) from rfl)]
  exact h

theorem ClausesTyped.nil {aliases : Aliases} {types : NodeTypes} : ClausesTyped aliases [] types :=
  fun _ h => absurd h List.not_mem_nil

theorem ClausesTyped.cons {aliases : Aliases} {types : NodeTypes} {clause : Clause}
    {clauses : List Clause} (h : clause.Typed aliases types)
    (hrest : ClausesTyped aliases clauses types) : ClausesTyped aliases (clause :: clauses) types :=
  List.forall_mem_cons.mpr ⟨h, hrest⟩

/-- Clauses that are checked one after the other. -/
theorem Notes.append {aliases : Aliases} {before between after : NodeTypes} {xs ys : List NodeId}
    {cs ds : List Clause} (h : Notes before xs (ClausesTyped aliases cs) between)
    (h' : Notes between ys (ClausesTyped aliases ds) after) (hnodup : (xs ++ ys).Nodup) :
    Notes before (xs ++ ys) (ClausesTyped aliases (cs ++ ds)) after :=
  (h.trans h' hnodup).imp fun _ hboth => List.forall_mem_append.mpr hboth

theorem checkDeclarator_notes (type : TypeSpec) (d : Declarator)
    (hnodup : (d.id :: Expr.nodesOfOption d.init).Nodup) (c : Checker) :
    (checkDeclarator setting type d).Sound c fun _ c' =>
      Notes c.types (d.id :: Expr.nodesOfOption d.init)
        (fun types => (Clause.declared type d).Typed setting.aliases types) c'.types := by
  rw [checkDeclarator, resolve_eq_of_star]
  cases hdeclared : declaredType? setting.aliases type d.pointer with
  | none => exact .bind (P := fun _ _ => False) (.fail _ _) fun _ _ h => h.elim
  | some declared =>
      refine .bind (P := fun t c' => t = declared ∧ c' = c) (.pure ⟨rfl, rfl⟩) ?_
      rintro declared c ⟨rfl, rfl⟩
      have hname : Notes c.types [d.id] (fun types => types.find? d.id = some declared)
          ((d.id, declared) :: c.types) :=
        ((Notes.refl c.types fun _ => trivial).note List.not_mem_nil declared).imp
          fun types h => h.1
      refine .bind (P := fun _ c₁ => Notes c.types [d.id]
        (fun types => types.find? d.id = some declared) c₁.types) (.modify rfl hname)
        fun _ c₁ h₁ => ?_
      refine .bind (declare_sound d.span d.name declared c₁) ?_
      rintro _ _ ⟨rfl, -⟩
      cases hinit : d.init with
      | none =>
          exact .pure (h₁.imp fun types hfind =>
            ⟨declared, hfind, hdeclared, by rw [hinit]; exact nofun⟩)
      | some init =>
          rw [hinit] at hnodup
          refine .bind (check_notes init (List.nodup_cons.mp hnodup).2 _) fun given c₂ h₂ => ?_
          split
          next => exact .fail _ _
          next hassignable =>
            refine .pure ((h₁.trans h₂ hnodup).imp fun types ⟨hfind, hgiven⟩ =>
              ⟨declared, hfind, hdeclared, ?_⟩)
            rw [hinit]
            rintro _ ⟨⟩
            exact ⟨given, hgiven, by simpa using hassignable⟩

theorem checkDeclarators_notes (type : TypeSpec) (ds : List Declarator)
    (hnodup : (Declarator.nodesOfAll ds).Nodup) (c : Checker) :
    (checkDeclarators setting type ds).Sound c fun _ c' =>
      Notes c.types (Declarator.nodesOfAll ds)
        (ClausesTyped setting.aliases (ds.map (Clause.declared type))) c'.types := by
  induction ds generalizing c with
  | nil => exact .pure (.refl _ fun _ => .nil)
  | cons d ds ih =>
      rw [Declarator.nodesOfAll, ← List.cons_append] at hnodup ⊢
      obtain ⟨hd, hds, -⟩ := List.nodup_append.mp hnodup
      refine .bind (checkDeclarator_notes type d hd c) fun _ c₁ h₁ => ?_
      refine (ih hds c₁).imp fun _ c₂ h₂ => ?_
      exact (h₁.trans h₂ hnodup).imp fun types ⟨h, hrest⟩ => .cons h hrest

/-- Nothing more is asked of an expression that stands as a clause than that it has a type. -/
theorem value_notes (e : Expr) (hnodup : e.nodes.Nodup) {m : CType → Check Unit}
    (hm : ∀ t c, (m t).Sound c fun _ c' => c' = c) (c : Checker) :
    Check.Sound (do
      let t ← check setting e
      m t) c fun _ c' =>
        Notes c.types e.nodes (ClausesTyped setting.aliases [.value e]) c'.types := by
  refine .bind (check_notes e hnodup c) fun t c₁ h₁ => (hm t c₁).imp ?_
  rintro _ _ rfl
  exact h₁.imp fun types h => .cons ⟨t, h⟩ .nil

theorem checkValue_notes (e : Expr) (hnodup : e.nodes.Nodup) (c : Checker) :
    (checkValue setting e).Sound c fun _ c' =>
      Notes c.types e.nodes (ClausesTyped setting.aliases [.value e]) c'.types :=
  value_notes e hnodup (fun _ _ => .pure rfl) c

theorem checkCondition_notes (e : Expr) (hnodup : e.nodes.Nodup) (c : Checker) :
    (checkCondition setting e).Sound c fun _ c' =>
      Notes c.types e.nodes (ClausesTyped setting.aliases [.value e]) c'.types :=
  value_notes e hnodup (fun _ _ => .requireCondition rfl) c

theorem checkIntegral_notes (e : Expr) (flaw : CType → Flaw) (hnodup : e.nodes.Nodup)
    (c : Checker) :
    (checkIntegral setting e flaw).Sound c fun _ c' =>
      Notes c.types e.nodes (ClausesTyped setting.aliases [.value e]) c'.types := by
  refine value_notes e hnodup (fun t c => ?_) c
  split
  next => exact .fail _ _
  next => exact .pure rfl

theorem checkOptional_notes {m : Expr → Check Unit} (e : Option Expr)
    (hm : ∀ (a : Expr), a.nodes.Nodup → ∀ c, (m a).Sound c fun _ c' =>
      Notes c.types a.nodes (ClausesTyped setting.aliases [.value a]) c'.types)
    (hnodup : (Expr.nodesOfOption e).Nodup) (c : Checker) :
    (checkOptional m e).Sound c fun _ c' =>
      Notes c.types (Expr.nodesOfOption e)
        (ClausesTyped setting.aliases (Clause.ofOption e)) c'.types := by
  cases e with
  | none => exact .pure (.refl _ fun _ => .nil)
  | some e => exact hm e hnodup c

mutual

theorem checkStmt_notes (s : Stmt) (hnodup : s.nodes.Nodup) (c : Checker) :
    (checkStmt setting s).Sound c fun _ c' =>
      Notes c.types s.nodes (ClausesTyped setting.aliases (StmtClauses.ofStmt s)) c'.types := by
  cases s with
  | expr span value =>
      rw [checkStmt]
      exact checkOptional_notes value checkValue_notes hnodup c
  | block span items =>
      rw [checkStmt]
      exact Check.Tells.block (checkItems_notes items hnodup _)
  | declare span type names =>
      rw [checkStmt]
      exact checkDeclarators_notes type names hnodup c
  | ifElse span test yes no =>
      obtain ⟨hfirst, hno, -⟩ := List.nodup_append.mp hnodup
      obtain ⟨htest, hyes, -⟩ := List.nodup_append.mp hfirst
      cases no with
      | none =>
          rw [checkStmt]
          refine .bind (checkCondition_notes test htest c) fun _ c₁ h₁ => ?_
          refine .bind (checkStmt_notes yes hyes c₁) fun _ c₂ h₂ => .pure ?_
          exact (h₁.append h₂ hfirst).append (.refl _ fun _ => .nil) hnodup
      | some no =>
          rw [checkStmt]
          refine .bind (checkCondition_notes test htest c) fun _ c₁ h₁ => ?_
          refine .bind (checkStmt_notes yes hyes c₁) fun _ c₂ h₂ => ?_
          refine (checkStmt_notes no hno c₂).imp fun _ c₃ h₃ => ?_
          exact (h₁.append h₂ hfirst).append h₃ hnodup
  | whileLoop span test body =>
      obtain ⟨htest, hbody, -⟩ := List.nodup_append.mp hnodup
      rw [checkStmt]
      refine .bind (checkCondition_notes test htest c) fun _ c₁ h₁ => ?_
      refine .between _ _ rfl (fun _ => rfl) ((checkStmt_notes body hbody _).imp fun _ c₂ h₂ => ?_)
      exact h₁.append h₂ hnodup
  | doLoop span body test =>
      obtain ⟨hbody, htest, -⟩ := List.nodup_append.mp hnodup
      rw [checkStmt]
      refine .bind (P := fun _ c₁ => Notes c.types body.nodes
        (ClausesTyped setting.aliases (StmtClauses.ofStmt body)) c₁.types)
        (.between _ _ rfl (fun _ => rfl) (checkStmt_notes body hbody _)) fun _ c₁ h₁ => ?_
      exact (checkCondition_notes test htest c₁).imp fun _ c₂ h₂ => h₁.append h₂ hnodup
  | forLoop span init test step body =>
      obtain ⟨hhead, hbody, -⟩ := List.nodup_append.mp hnodup
      obtain ⟨hclauses, hstep, -⟩ := List.nodup_append.mp hhead
      obtain ⟨hinit, htest, -⟩ := List.nodup_append.mp hclauses
      have hrest : ∀ c₁ : Checker, Notes c.types (Stmt.nodesOfOption init)
          (ClausesTyped setting.aliases (StmtClauses.ofOption init)) c₁.types →
          Check.Sound (do
            checkOptional (checkCondition setting) test
            checkOptional (checkValue setting) step
            Check.inLoop (checkStmt setting body)) c₁ fun _ c' =>
              Notes c.types (Stmt.forLoop span init test step body).nodes (ClausesTyped
                setting.aliases (StmtClauses.ofStmt (.forLoop span init test step body)))
                c'.types := by
        intro c₁ h₁
        refine .bind (checkOptional_notes test checkCondition_notes htest c₁) fun _ c₂ h₂ => ?_
        refine .bind (checkOptional_notes step checkValue_notes hstep c₂) fun _ c₃ h₃ => ?_
        refine .between _ _ rfl (fun _ => rfl)
          ((checkStmt_notes body hbody _).imp fun _ c₄ h₄ => ?_)
        exact ((h₁.append h₂ hclauses).append h₃ hhead).append h₄ hnodup
      rw [checkStmt]
      refine .inScope ?_
      cases init with
      | none => exact hrest _ (.refl _ fun _ => .nil)
      | some init => exact .bind (checkStmt_notes init hinit _) fun _ c₁ h₁ => hrest c₁ h₁
  | switch span test body =>
      obtain ⟨htest, hbody, -⟩ := List.nodup_append.mp hnodup
      rw [checkStmt]
      refine .bind (checkIntegral_notes test _ htest c) fun _ c₁ h₁ => ?_
      refine .between _ _ rfl (fun _ => rfl) ((checkStmt_notes body hbody _).imp fun _ c₂ h₂ => ?_)
      exact h₁.append h₂ hnodup
  | caseLabel span value body =>
      obtain ⟨hvalue, hbody, -⟩ := List.nodup_append.mp hnodup
      rw [checkStmt]
      refine .read ?_
      split
      next => exact .fail _ _
      next =>
        refine .bind (checkIntegral_notes value _ hvalue _) fun _ c₁ h₁ => ?_
        exact (checkStmt_notes body hbody c₁).imp fun _ c₂ h₂ => h₁.append h₂ hnodup
  | defaultLabel span body =>
      rw [checkStmt]
      refine .read ?_
      split
      next => exact .fail _ _
      next => exact checkStmt_notes body hnodup _
  | breakLoop span =>
      rw [checkStmt]
      refine .read ?_
      split
      next => exact .fail _ _
      next => exact .pure (.refl _ fun _ => .nil)
  | continueLoop span =>
      rw [checkStmt]
      refine .read ?_
      split
      next => exact .fail _ _
      next => exact .pure (.refl _ fun _ => .nil)
  | print span value =>
      rw [checkStmt]
      refine value_notes value hnodup (fun t c => ?_) c
      split
      next => exact .pure rfl
      next =>
        split
        next => exact .fail _ _
        next => exact .pure rfl
  | eachSynapse span body =>
      rw [checkStmt]
      refine .bind (synapseNames_sound span c) ?_
      rintro names c ⟨rfl, -, -⟩
      refine .bind (P := fun _ c' => c' = { c with scopes := [] :: c.scopes }) (.modify rfl rfl) ?_
      rintro _ _ rfl
      refine .bind (declareAll_sound span names rfl) ?_
      rintro _ _ ⟨rfl, -, -⟩
      refine .bind (P := fun _ c' => c'.types = c.types) (.modify rfl rfl) fun _ c₁ h₁ => ?_
      refine .afterwards (fun _ => rfl) (.between _ _ rfl (fun _ => rfl) ?_)
      rw [← h₁]
      exact checkStmt_notes body hnodup _

theorem checkItems_notes (ss : List Stmt) (hnodup : (Stmt.nodesOfItems ss).Nodup) (c : Checker) :
    (checkItems setting ss).Tells c fun c' =>
      Notes c.types (Stmt.nodesOfItems ss)
        (ClausesTyped setting.aliases (StmtClauses.ofItems ss)) c'.types := by
  cases ss with
  | nil => exact ⟨true, c, rfl, rfl, .refl _ fun _ => .nil⟩
  | cons s ss =>
      obtain ⟨hs, hss, -⟩ := List.nodup_append.mp hnodup
      rw [checkItems]
      refine .cons (checkStmt_notes s hs c) (fun c₁ h₁ => ?_)
        fun c' => (checkItems_notes ss hss c').imp fun _ _ => trivial
      refine (checkItems_notes ss hss c₁).imp fun c₂ h₂ => ?_
      exact h₁.append h₂ hnodup

end

/-- The types noted for a snippet that is checked without a remark follow the rules. -/
theorem checkSnippet_typed {ss : List Stmt} (hnodup : (Stmt.nodesOfItems ss).Nodup)
    (hclean : (checkSnippet setting ss).report = []) :
    ClausesTyped setting.aliases (StmtClauses.ofItems ss) (checkSnippet setting ss).types := by
  exact ((checkItems_notes ss hnodup { Checker.initial with scopes := [[]] }).of_clean hclean).here

end KernelWeaver.Typing
