import KernelWeaver.Proofs.Snippet.StmtGrammar

/-!
# Where the expressions of a snippet stand

A snippet is made of expressions that are not inside of others. Each is listed here with what the
snippet has declared around it and before it, as a scope of C has it: a name is known to its own
value and behind it to the end of its block, and the names in the head of a `for` are known in the
whole loop.
-/

namespace KernelWeaver.Snippet

/-- Where an expression of a snippet stands. -/
structure Context where
  /-- The names that the snippet has declared there, the innermost first. -/
  declared : List String
  /-- Whether a loop over synapses is around the expression. -/
  inLoop : Bool

namespace Context

/-- Outside of all declarations. -/
def initial : Context := ⟨[], false⟩

/-- The context behind one more name. -/
def declare (x : Context) (name : String) : Context := { x with declared := name :: x.declared }

/-- The context behind several declared names. -/
def declareAll (x : Context) : List Declarator → Context
  | [] => x
  | d :: ds => (x.declare d.name).declareAll ds

/-- The context inside a loop over synapses. -/
def looped (x : Context) : Context := { x with inLoop := true }

/-- The names that are declared in the context by the snippet, or by a loop that binds the given
names. -/
def known (loop : Option (List String)) (x : Context) : Set String :=
  {name | name ∈ x.declared ∨ x.inLoop = true ∧ ∃ names ∈ loop, name ∈ names}

end Context

/-- An expression that may be left out, with its context. -/
def Expr.sitesOfOption (x : Context) (e : Option Expr) : List (Context × Expr) :=
  (e.map fun e => (x, e)).toList

/-- The values of declared names with their contexts. -/
def Declarator.sitesOfAll (x : Context) : List Declarator → List (Context × Expr)
  | [] => []
  | d :: ds =>
    Expr.sitesOfOption (x.declare d.name) d.init ++ sitesOfAll (x.declare d.name) ds

namespace Stmt

/-- The context behind a statement. A label and the head of a loop over synapses are no blocks. -/
def behind (x : Context) : Stmt → Context
  | declare _ _ names => x.declareAll names
  | caseLabel _ _ body | defaultLabel _ body | eachSynapse _ body => body.behind x
  | .expr .. | block .. | ifElse .. | whileLoop .. | doLoop .. | forLoop .. | switch ..
  | breakLoop _ | continueLoop _ | print .. => x

/-- The context in a `for` behind its first clause. -/
def behindInit (x : Context) : Option Stmt → Context
  | some (declare _ _ names) => x.declareAll names
  | _ => x

mutual

/-- The expressions of a statement with their contexts. -/
def sites (x : Context) : Stmt → List (Context × Expr)
  | .expr _ value => Expr.sitesOfOption x value
  | block _ items => sitesOfItems x items
  | declare _ _ names => Declarator.sitesOfAll x names
  | ifElse _ test yes no => (x, test) :: (yes.sites x ++ sitesOfOption x no)
  | whileLoop _ test body | switch _ test body => (x, test) :: body.sites x
  | doLoop _ body test => body.sites x ++ [(x, test)]
  | forLoop _ init test step body =>
    let inside := behindInit x init
    sitesOfOption x init ++ Expr.sitesOfOption inside test ++ Expr.sitesOfOption inside step ++
      body.sites inside
  | caseLabel _ value body => (x, value) :: body.sites x
  | defaultLabel _ body => body.sites x
  | breakLoop _ | continueLoop _ => []
  | print _ value => [(x, value)]
  | eachSynapse _ body => body.sites x.looped

/-- The expressions of a statement that may be left out, with their contexts. -/
def sitesOfOption (x : Context) : Option Stmt → List (Context × Expr)
  | none => []
  | some s => s.sites x

/-- The expressions of several statements with their contexts. -/
def sitesOfItems (x : Context) : List Stmt → List (Context × Expr)
  | [] => []
  | s :: ss => s.sites x ++ sitesOfItems (s.behind x) ss

end

end Stmt

end KernelWeaver.Snippet
