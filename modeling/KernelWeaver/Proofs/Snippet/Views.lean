import KernelWeaver.Proofs.Snippet.Sites

/-!
# What names stand for in a snippet

Where an expression stands, a name can be one that the snippet has declared, in front of a loop over
synapses or inside it, or one that the loop binds. It stands for what is innermost among these. So
the order of the declarations and of the loop matters, and not only which names have been declared.
-/

namespace KernelWeaver.Snippet

/-- What makes names known: a declaration, or a loop over synapses. -/
inductive Layer where
  | declaration (name : String) (id : NodeId)
  | loop

/-- What makes names known where an expression stands, the innermost first. -/
abbrev View := List Layer

/-- What a name stands for. -/
inductive Meaning where
  /-- The declared name of the number. -/
  | declared (id : NodeId)
  /-- What the loop binds the name to. -/
  | looped
  /-- What the name is bound to outside of the snippet. -/
  | outer
deriving DecidableEq

namespace View

/-- The view behind one more declared name. -/
def declare (v : View) (d : Declarator) : View := .declaration d.name d.id :: v

/-- The view behind several declared names. -/
def declareAll (v : View) : List Declarator → View
  | [] => v
  | d :: ds => (v.declare d).declareAll ds

/-- The view inside a loop over synapses. -/
def looped (v : View) : View := .loop :: v

/-- The names that are declared, and whether there is a loop around. -/
def context : View → Context
  | [] => .initial
  | .declaration name _ :: v => (context v).declare name
  | .loop :: v => (context v).looped

/-- What a name stands for, where a loop binds the given names. -/
def meaning (loop : List String) (name : String) : View → Meaning
  | [] => .outer
  | .declaration other id :: v => if other = name then .declared id else meaning loop name v
  | .loop :: v => if name ∈ loop then .looped else meaning loop name v

end View

/-- An expression that may be left out, with its view. -/
def Expr.viewsOfOption (v : View) (e : Option Expr) : List (View × Expr) :=
  (e.map fun e => (v, e)).toList

/-- The values of declared names with their views. -/
def Declarator.viewsOfAll (v : View) : List Declarator → List (View × Expr)
  | [] => []
  | d :: ds => Expr.viewsOfOption (v.declare d) d.init ++ viewsOfAll (v.declare d) ds

namespace Stmt

/-- The view behind a statement. -/
def viewBehind (v : View) : Stmt → View
  | declare _ _ names => v.declareAll names
  | caseLabel _ _ body | defaultLabel _ body | eachSynapse _ body => body.viewBehind v
  | .expr .. | block .. | ifElse .. | whileLoop .. | doLoop .. | forLoop .. | switch ..
  | breakLoop _ | continueLoop _ | print .. => v

/-- The view in a `for` behind its first clause. -/
def viewBehindInit (v : View) : Option Stmt → View
  | some (declare _ _ names) => v.declareAll names
  | _ => v

mutual

/-- The expressions of a statement with their views. -/
def views (v : View) : Stmt → List (View × Expr)
  | .expr _ value => Expr.viewsOfOption v value
  | block _ items => viewsOfItems v items
  | declare _ _ names => Declarator.viewsOfAll v names
  | ifElse _ test yes no => (v, test) :: (yes.views v ++ viewsOfOption v no)
  | whileLoop _ test body | switch _ test body => (v, test) :: body.views v
  | doLoop _ body test => body.views v ++ [(v, test)]
  | forLoop _ init test step body =>
    let inside := viewBehindInit v init
    viewsOfOption v init ++ Expr.viewsOfOption inside test ++ Expr.viewsOfOption inside step ++
      body.views inside
  | caseLabel _ value body => (v, value) :: body.views v
  | defaultLabel _ body => body.views v
  | breakLoop _ | continueLoop _ => []
  | print _ value => [(v, value)]
  | eachSynapse _ body => body.views v.looped

/-- The expressions of a statement that may be left out, with their views. -/
def viewsOfOption (v : View) : Option Stmt → List (View × Expr)
  | none => []
  | some s => s.views v

/-- The expressions of several statements with their views. -/
def viewsOfItems (v : View) : List Stmt → List (View × Expr)
  | [] => []
  | s :: ss => s.views v ++ viewsOfItems (s.viewBehind v) ss

end

end Stmt

/-! ### Views and contexts -/

/-- An expression with the context that it stands in. -/
def siteOf (view : View × Expr) : Context × Expr := (view.1.context, view.2)

theorem View.context_declareAll (v : View) (ds : List Declarator) :
    (v.declareAll ds).context = v.context.declareAll ds := by
  induction ds generalizing v with
  | nil => rfl
  | cons d ds ih => exact ih (v.declare d)

theorem Expr.map_viewsOfOption (v : View) (e : Option Expr) :
    (Expr.viewsOfOption v e).map siteOf = Expr.sitesOfOption v.context e := by
  cases e <;> rfl

theorem Declarator.map_viewsOfAll (v : View) (ds : List Declarator) :
    (viewsOfAll v ds).map siteOf = sitesOfAll v.context ds := by
  induction ds generalizing v with
  | nil => rfl
  | cons d ds ih =>
      rw [viewsOfAll, sitesOfAll, List.map_append, Expr.map_viewsOfOption, ih]
      rfl

namespace Stmt

theorem context_viewBehind (v : View) (s : Stmt) :
    (s.viewBehind v).context = s.behind v.context := by
  cases s with
  | declare span type names => exact v.context_declareAll names
  | caseLabel _ _ body | defaultLabel _ body | eachSynapse _ body =>
      rw [viewBehind, behind]
      exact context_viewBehind v body
  | _ => rfl

theorem context_viewBehindInit (v : View) (init : Option Stmt) :
    (viewBehindInit v init).context = behindInit v.context init := by
  rcases init with - | init
  · rfl
  · cases init with
    | declare span type names => exact v.context_declareAll names
    | _ => rfl

mutual

/-- Views tell all that contexts tell. -/
theorem map_views (v : View) (s : Stmt) : (s.views v).map siteOf = s.sites v.context := by
  cases s with
  | expr span value => exact Expr.map_viewsOfOption v value
  | declare span type names => exact Declarator.map_viewsOfAll v names
  | block span items => rw [views, sites, map_viewsOfItems]
  | ifElse span test yes no =>
      rw [views, sites, List.map_cons, List.map_append, map_views v yes, map_viewsOfOption v no]
      rfl
  | whileLoop span test body | switch span test body | caseLabel span test body =>
      rw [views, sites, List.map_cons, map_views v body]
      rfl
  | doLoop span body test =>
      rw [views, sites, List.map_append, map_views v body]
      rfl
  | forLoop span init test step body =>
      rw [views, sites, List.map_append, List.map_append, List.map_append,
        map_viewsOfOption v init, Expr.map_viewsOfOption, Expr.map_viewsOfOption, map_views _ body,
        context_viewBehindInit]
  | defaultLabel span body =>
      rw [views, sites]
      exact map_views v body
  | eachSynapse span body =>
      rw [views, sites]
      exact map_views v.looped body
  | breakLoop | continueLoop | print => rfl

theorem map_viewsOfOption (v : View) (s : Option Stmt) :
    (viewsOfOption v s).map siteOf = sitesOfOption v.context s := by
  cases s with
  | none => rfl
  | some s => exact map_views v s

theorem map_viewsOfItems (v : View) (ss : List Stmt) :
    (viewsOfItems v ss).map siteOf = sitesOfItems v.context ss := by
  cases ss with
  | nil => rfl
  | cons s ss =>
      rw [viewsOfItems, sitesOfItems, List.map_append, map_views v s, map_viewsOfItems _ ss,
        context_viewBehind]

end

end Stmt

/-- By the grammar only declarations make names known to what is behind them. -/
theorem DerivesStmt.viewBehind_eq {Place : Span → List Token → Prop} {ts : List Token}
    {phrase : StmtPhrase} (h : DerivesStmt Place phrase ts) (v : View) :
    ∀ s, phrase = .statement s → s.viewBehind v = v := by
  induction h with
  | evaluation h =>
      rintro _ ⟨⟩
      cases h with
      | intro => rfl
  | caseLabel _ _ _ _ _ ih | defaultLabel _ _ _ _ ih | eachSynapse _ _ _ ih =>
      rintro _ ⟨⟩
      rw [Stmt.viewBehind]
      exact ih _ rfl
  | _ => rintro _ ⟨⟩ <;> rfl

/-! ### Meanings and contexts -/

namespace View

variable {loop : List String} {name : String} {id : NodeId} {v : View}

theorem mem_declared_of_meaning (h : v.meaning loop name = .declared id) :
    name ∈ v.context.declared := by
  induction v with
  | nil => cases h
  | cons layer v ih =>
      cases layer with
      | declaration other id' =>
          rw [meaning] at h
          split at h
          next heq => exact heq ▸ List.mem_cons_self
          next => exact List.mem_cons_of_mem _ (ih h)
      | loop =>
          rw [meaning] at h
          split at h
          next => cases h
          next => exact ih h

theorem of_meaning_looped (h : v.meaning loop name = .looped) :
    v.context.inLoop = true ∧ name ∈ loop := by
  induction v with
  | nil => cases h
  | cons layer v ih =>
      cases layer with
      | declaration other id' =>
          rw [meaning] at h
          split at h
          next => cases h
          next => exact ih h
      | loop =>
          rw [meaning] at h
          split at h
          next hmem => exact ⟨rfl, hmem⟩
          next => exact ⟨rfl, (ih h).2⟩

/-- A name stands for what it means outside of the snippet exactly if nothing has made it known. -/
theorem meaning_eq_outer_iff : v.meaning loop name = .outer ↔
    name ∉ v.context.declared ∧ ¬ (v.context.inLoop = true ∧ name ∈ loop) := by
  induction v with
  | nil => simp [meaning, context, Context.initial]
  | cons layer v ih =>
      cases layer with
      | declaration other id' =>
          rw [meaning, context, Context.declare, List.mem_cons]
          split
          next heq => simp [heq]
          next hne => rw [ih, not_or, and_assoc, and_iff_right (Ne.symm hne)]
      | loop =>
          rw [meaning, context, Context.looped]
          split
          next hmem => simp [hmem]
          next hmem => simp [ih, hmem]

end View

end KernelWeaver.Snippet
