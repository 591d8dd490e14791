import KernelWeaver.Diagnostic
import KernelWeaver.TypeText
import KernelWeaver.Typing.Rules

/-!
# The state of checking

While a snippet is checked, the checker keeps the scopes of its declarations, the types found so
far and the report. A check that fails has reported why and leaves the state behind.
-/

namespace KernelWeaver.Typing

open Snippet

/-- The types of the nodes of a snippet, the latest first. -/
abbrev NodeTypes := List (NodeId × CType)

namespace NodeTypes

/-- The type of a node. -/
def find? (types : NodeTypes) (id : NodeId) : Option CType :=
  List.lookup id types

/-- The nodes in ascending order, each with its type. -/
def sorted (types : NodeTypes) : List (NodeId × CType) :=
  let ids := (types.map Prod.fst).mergeSort
  ids.eraseReps.filterMap fun id => (find? types id).map fun t => (id, t)

end NodeTypes

/-- What a snippet is checked against. -/
structure Setting where
  /-- The types bound to a name outside the snippet; functions may have several. -/
  typesOf : String → Option (List CType)
  aliases : Aliases
  /-- The names that a loop over synapses binds, where such loops are allowed. -/
  synapseNames : Option (List (String × CType))

/-- The state of a check. -/
structure Checker where
  /-- The declarations of the snippet by scope, the innermost first. -/
  scopes : List (Table CType)
  inSynapseLoop : Bool
  loopDepth : Nat
  switchDepth : Nat
  types : NodeTypes
  report : Report

namespace Checker

/-- The state before checking, outside all scopes. -/
def initial : Checker := ⟨[], false, 0, 0, [], []⟩

end Checker

/-- A check: what it finds, if it succeeds, and the state it leaves in both cases. -/
def Check (α : Type) := Checker → Option α × Checker

namespace Check

instance : Monad Check where
  pure a := fun c => (some a, c)
  bind m f := fun c =>
    match m c with
    | (some a, c) => f a c
    | (none, c) => (none, c)

/-- The state. -/
def state : Check Checker := fun c => (some c, c)

/-- Changes the state. -/
def modify (f : Checker → Checker) : Check Unit := fun c => (some (), f c)

/-- Fails with an error on record. -/
def fail {α : Type} (span : Span) (flaw : Flaw) : Check α := fun c =>
  (none, { c with report := c.report ++ [.error span flaw.message] })

/-- Fails without a further error. -/
def failed {α : Type} : Check α := fun c => (none, c)

/-- The outcome of a typing rule applied at a place. -/
def rule (span : Span) (outcome : Except Flaw CType) : Check CType :=
  match outcome with
  | .ok t => pure t
  | .error flaw => fail span flaw

/-- Whether a check succeeds; its failure is not passed on. -/
def succeeds {α : Type} (m : Check α) : Check Bool := fun c =>
  let (a, c) := m c
  (some a.isSome, c)

/-- Runs a check and then changes the state, whether the check succeeds or not. -/
def afterwards {α : Type} (m : Check α) (f : Checker → Checker) : Check α := fun c =>
  let (a, c) := m c
  (a, f c)

/-- Notes the type of a node. -/
def note (id : NodeId) (t : CType) : Check Unit :=
  modify fun c => { c with types := (id, t) :: c.types }

/-- Opens a scope. -/
def pushScope : Check Unit := modify fun c => { c with scopes := [] :: c.scopes }

/-- Runs a check inside a scope of its own. -/
def inScope {α : Type} (m : Check α) : Check α := do
  pushScope
  afterwards m fun c => { c with scopes := c.scopes.tail }

/-- Runs a check inside a loop. -/
def inLoop {α : Type} (m : Check α) : Check α := do
  modify fun c => { c with loopDepth := c.loopDepth + 1 }
  afterwards m fun c => { c with loopDepth := c.loopDepth - 1 }

/-- Runs a check inside a switch. -/
def inSwitch {α : Type} (m : Check α) : Check α := do
  modify fun c => { c with switchDepth := c.switchDepth + 1 }
  afterwards m fun c => { c with switchDepth := c.switchDepth - 1 }

/-- Declares a name in the innermost scope, unless it is declared there already. -/
def declare (span : Span) (name : String) (t : CType) : Check Unit := do
  match (← state).scopes with
  | [] => modify fun c => { c with scopes := [[(name, t)]] }
  | scope :: outer =>
    if scope.has name then fail span (.redeclared name)
    else modify fun c => { c with scopes := scope.insert name t :: outer }

/-- The types of a name: that of its innermost declaration in the snippet, or those it is bound to
outside. -/
def typesOf (setting : Setting) (name : String) : Check (Option (List CType)) := do
  match (← state).scopes.findSome? (Table.find? · name) with
  | some t => return some [t]
  | none => return setting.typesOf name

end Check

/-- The type that specifiers spell, with a star of their own or of a declared name. -/
def resolve (setting : Setting) (type : TypeSpec) (star : Option PointerMark) : Check CType := do
  match setting.aliases.resolve? type.words with
  | none => Check.fail type.span (.unknownType type.words)
  | some n =>
    let t := CType.value n type.isConst
    match type.pointer.or star with
    | some pointer => return .pointer t pointer.isConst
    | none => return t

end KernelWeaver.Typing
