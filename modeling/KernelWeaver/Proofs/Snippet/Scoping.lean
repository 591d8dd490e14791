import KernelWeaver.Proofs.Snippet.StmtGrammar
import Mathlib.Data.Set.Insert

/-!
# Names and nodes of snippets

The nodes of a snippet are its expressions and its declared names. A snippet is scoped if every name
in it is known where it stands: from outside, from a declaration before it in its block or around
it, or from the loop over synapses around it.
-/

namespace KernelWeaver.Snippet

namespace Expr

mutual

/-- The numbers of an expression and of its parts. -/
def nodes : Expr → List NodeId
  | number n .. | bool n .. | string n .. | .name n .. => [n.id]
  | unary n _ e | cast n _ e | group n e | stepBefore n _ e | stepAfter n _ e => n.id :: e.nodes
  | binary n _ a b | assign n _ a b | subscript n a b => n.id :: (a.nodes ++ b.nodes)
  | call n callee args => n.id :: (callee.nodes ++ nodesOfAll args)
  | conditional n a b c => n.id :: (a.nodes ++ b.nodes ++ c.nodes)

/-- The numbers of several expressions and of their parts. -/
def nodesOfAll : List Expr → List NodeId
  | [] => []
  | e :: es => e.nodes ++ nodesOfAll es

end

mutual

/-- The names that stand in an expression. -/
def names : Expr → List String
  | number .. | bool .. | string .. => []
  | .name _ text => [text]
  | unary _ _ e | cast _ _ e | group _ e | stepBefore _ _ e | stepAfter _ _ e => e.names
  | binary _ _ a b | assign _ _ a b | subscript _ a b => a.names ++ b.names
  | call _ callee args => callee.names ++ namesOfAll args
  | conditional _ a b c => a.names ++ b.names ++ c.names

/-- The names that stand in several expressions. -/
def namesOfAll : List Expr → List String
  | [] => []
  | e :: es => e.names ++ namesOfAll es

end

/-- Every name in the expression is known. -/
def Scoped (known : Set String) (e : Expr) : Prop := ∀ name ∈ e.names, name ∈ known

/-- The nodes of an expression that may be left out. -/
def nodesOfOption (e : Option Expr) : List NodeId := e.elim [] nodes

/-- Every name in an expression that may be left out is known. -/
def ScopedOption (known : Set String) (e : Option Expr) : Prop := ∀ a ∈ e, a.Scoped known

theorem id_mem_nodes (e : Expr) : e.id ∈ e.nodes := by
  cases e <;> exact List.mem_cons_self

end Expr

/-- The nodes of declared names and their values. -/
def Declarator.nodesOfAll : List Declarator → List NodeId
  | [] => []
  | d :: ds => d.id :: (Expr.nodesOfOption d.init ++ nodesOfAll ds)

namespace Stmt

mutual

/-- The numbers of the expressions and declared names in a statement. -/
def nodes : Stmt → List NodeId
  | .expr _ value => Expr.nodesOfOption value
  | block _ items => nodesOfItems items
  | declare _ _ names => Declarator.nodesOfAll names
  | ifElse _ test yes no => test.nodes ++ yes.nodes ++ nodesOfOption no
  | whileLoop _ test body | switch _ test body => test.nodes ++ body.nodes
  | doLoop _ body test => body.nodes ++ test.nodes
  | forLoop _ init test step body =>
    nodesOfOption init ++ Expr.nodesOfOption test ++ Expr.nodesOfOption step ++ body.nodes
  | caseLabel _ value body => value.nodes ++ body.nodes
  | defaultLabel _ body | eachSynapse _ body => body.nodes
  | breakLoop _ | continueLoop _ => []
  | print _ value => value.nodes

/-- The numbers in a statement that may be left out. -/
def nodesOfOption : Option Stmt → List NodeId
  | none => []
  | some s => s.nodes

/-- The numbers in several statements. -/
def nodesOfItems : List Stmt → List NodeId
  | [] => []
  | s :: ss => s.nodes ++ nodesOfItems ss

end

mutual

/-- Whether a loop over synapses occurs in the statement. -/
def hasSynapseLoop : Stmt → Bool
  | eachSynapse .. => true
  | block _ items => hasSynapseLoopIn items
  | ifElse _ _ yes no => yes.hasSynapseLoop || hasSynapseLoopInOption no
  | whileLoop _ _ body | switch _ _ body | doLoop _ body _ | caseLabel _ _ body
  | defaultLabel _ body => body.hasSynapseLoop
  | forLoop _ init _ _ body => hasSynapseLoopInOption init || body.hasSynapseLoop
  | .expr .. | declare .. | breakLoop _ | continueLoop _ | print .. => false

/-- Whether a loop over synapses occurs in a statement that may be left out. -/
def hasSynapseLoopInOption : Option Stmt → Bool
  | none => false
  | some s => s.hasSynapseLoop

/-- Whether a loop over synapses occurs in several statements. -/
def hasSynapseLoopIn : List Stmt → Bool
  | [] => false
  | s :: ss => s.hasSynapseLoop || hasSynapseLoopIn ss

end

end Stmt

/-- Declared names are known to their own values and behind them. The last argument is what is known
behind all of them. -/
inductive ScopedDeclarators : Set String → List Declarator → Set String → Prop where
  | nil {known : Set String} : ScopedDeclarators known [] known
  | cons {known behind : Set String} {d : Declarator} {ds : List Declarator} :
      Expr.ScopedOption (insert d.name known) d.init →
      ScopedDeclarators (insert d.name known) ds behind → ScopedDeclarators known (d :: ds) behind

/-- Every name in the first clause of a `for` is known. The last argument is what is known in the
rest of the loop. -/
inductive ScopedForInit : Set String → Option Stmt → Set String → Prop where
  | none {known : Set String} : ScopedForInit known none known
  | declaration {known behind : Set String} {span : Span} {type : TypeSpec}
      {names : List Declarator} : ScopedDeclarators known names behind →
      ScopedForInit known (some (.declare span type names)) behind
  | evaluation {known : Set String} {span : Span} {e : Expr} : e.Scoped known →
      ScopedForInit known (some (.expr span (some e))) known

/-- Every name in statements or items is known where it stands. The first argument is what a loop
over synapses makes known to its body, where such a loop can stand. -/
inductive Scoped : Option (List String) → Set String → StmtPhrase → Prop where
  | empty {loop : Option (List String)} {known : Set String} {span : Span} :
      Scoped loop known (.statement (.expr span none))
  | evaluation {loop : Option (List String)} {known : Set String} {span : Span} {e : Expr} :
      e.Scoped known → Scoped loop known (.statement (.expr span (some e)))
  | block {loop : Option (List String)} {known : Set String} {span : Span} {ss : List Stmt} :
      Scoped loop known (.items ss) → Scoped loop known (.statement (.block span ss))
  | ifThen {loop : Option (List String)} {known : Set String} {span : Span} {test : Expr}
      {yes : Stmt} : test.Scoped known → Scoped loop known (.statement yes) →
      Scoped loop known (.statement (.ifElse span test yes none))
  | ifElse {loop : Option (List String)} {known : Set String} {span : Span} {test : Expr}
      {yes no : Stmt} : test.Scoped known → Scoped loop known (.statement yes) →
      Scoped loop known (.statement no) →
      Scoped loop known (.statement (.ifElse span test yes (some no)))
  | whileLoop {loop : Option (List String)} {known : Set String} {span : Span} {test : Expr}
      {body : Stmt} : test.Scoped known → Scoped loop known (.statement body) →
      Scoped loop known (.statement (.whileLoop span test body))
  | doLoop {loop : Option (List String)} {known : Set String} {span : Span} {test : Expr}
      {body : Stmt} : Scoped loop known (.statement body) → test.Scoped known →
      Scoped loop known (.statement (.doLoop span body test))
  | forLoop {loop : Option (List String)} {known inside : Set String} {span : Span}
      {init : Option Stmt} {test step : Option Expr} {body : Stmt} :
      ScopedForInit known init inside → Expr.ScopedOption inside test →
      Expr.ScopedOption inside step → Scoped loop inside (.statement body) →
      Scoped loop known (.statement (.forLoop span init test step body))
  | switch {loop : Option (List String)} {known : Set String} {span : Span} {test : Expr}
      {body : Stmt} : test.Scoped known → Scoped loop known (.statement body) →
      Scoped loop known (.statement (.switch span test body))
  | caseLabel {loop : Option (List String)} {known : Set String} {span : Span} {value : Expr}
      {body : Stmt} : value.Scoped known → Scoped loop known (.statement body) →
      Scoped loop known (.statement (.caseLabel span value body))
  | defaultLabel {loop : Option (List String)} {known : Set String} {span : Span} {body : Stmt} :
      Scoped loop known (.statement body) → Scoped loop known (.statement (.defaultLabel span body))
  | breakLoop {loop : Option (List String)} {known : Set String} {span : Span} :
      Scoped loop known (.statement (.breakLoop span))
  | continueLoop {loop : Option (List String)} {known : Set String} {span : Span} :
      Scoped loop known (.statement (.continueLoop span))
  | print {loop : Option (List String)} {known : Set String} {span : Span} {value : Expr} :
      value.Scoped known → Scoped loop known (.statement (.print span value))
  | eachSynapse {names : List String} {known : Set String} {span : Span} {body : Stmt} :
      names.Nodup → Scoped none ({n | n ∈ names} ∪ known) (.statement body) →
      Scoped (some names) known (.statement (.eachSynapse span body))
  | nil {loop : Option (List String)} {known : Set String} : Scoped loop known (.items [])
  | declaration {loop : Option (List String)} {known behind : Set String} {span : Span}
      {type : TypeSpec} {names : List Declarator} {ss : List Stmt} :
      ScopedDeclarators known names behind → Scoped loop behind (.items ss) →
      Scoped loop known (.items (.declare span type names :: ss))
  | statement {loop : Option (List String)} {known : Set String} {s : Stmt} {ss : List Stmt} :
      Scoped loop known (.statement s) → Scoped loop known (.items ss) →
      Scoped loop known (.items (s :: ss))

end KernelWeaver.Snippet
