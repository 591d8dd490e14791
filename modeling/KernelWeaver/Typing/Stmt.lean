import KernelWeaver.Typing.Expr

/-!
# Checking statements

A statement whose check fails is left, and the check goes on with the next one of its block.
-/

namespace KernelWeaver.Typing

open Snippet

/-- Checks the declaration of one name. The name is visible in its own initialiser. -/
def checkDeclarator (setting : Setting) (type : TypeSpec) (d : Declarator) : Check Unit := do
  let declared ← resolve setting type d.pointer
  Check.note d.id declared
  Check.declare d.span d.name declared
  match d.init with
  | none => return
  | some init =>
    let given ← check setting init
    if !assignable declared given then
      Check.fail init.span (.initialiser d.name declared given)

/-- Checks the declarations of several names. -/
def checkDeclarators (setting : Setting) (type : TypeSpec) : List Declarator → Check Unit
  | [] => pure ()
  | d :: ds => do
    checkDeclarator setting type d
    checkDeclarators setting type ds

/-- Checks an expression that stands as a condition. -/
def checkCondition (setting : Setting) (e : Expr) : Check Unit := do
  let t ← check setting e
  requireCondition e.span t

/-- Checks an expression that may be left out. -/
def checkOptional (m : Expr → Check Unit) : Option Expr → Check Unit
  | none => pure ()
  | some e => m e

/-- Checks an expression for its errors alone. -/
def checkValue (setting : Setting) (e : Expr) : Check Unit := do
  let _ ← check setting e

/-- Checks an expression that must have a whole number as its value. -/
def checkIntegral (setting : Setting) (e : Expr) (flaw : CType → Flaw) : Check Unit := do
  let t ← check setting e
  if !t.isIntegral then Check.fail e.span (flaw t)

/-- Declares the names of a loop over synapses. -/
def declareAll (span : Span) : List (String × CType) → Check Unit
  | [] => pure ()
  | (name, t) :: rest => do
    Check.declare span name t
    declareAll span rest

/-- The names that a loop over synapses binds here. -/
def synapseNames (setting : Setting) (span : Span) : Check (List (String × CType)) := do
  match setting.synapseNames with
  | none => Check.fail span .noSynapseLoop
  | some names =>
    if (← Check.state).inSynapseLoop then Check.fail span .nestedSynapseLoop else return names

mutual

/-- Checks a statement. -/
def checkStmt (setting : Setting) : Stmt → Check Unit
  | .expr _ value => checkOptional (checkValue setting) value
  | .block _ items => do
    let ok ← Check.inScope (checkItems setting items)
    if !ok then Check.failed
  | .declare _ type names => checkDeclarators setting type names
  | .ifElse _ condition yes no => do
    checkCondition setting condition
    checkStmt setting yes
    match no with
    | none => return
    | some no => checkStmt setting no
  | .whileLoop _ condition body => do
    checkCondition setting condition
    Check.inLoop (checkStmt setting body)
  | .doLoop _ body condition => do
    Check.inLoop (checkStmt setting body)
    checkCondition setting condition
  | .forLoop _ init condition step body => Check.inScope do
    match init with
    | none => pure ()
    | some init => checkStmt setting init
    checkOptional (checkCondition setting) condition
    checkOptional (checkValue setting) step
    Check.inLoop (checkStmt setting body)
  | .switch _ condition body => do
    checkIntegral setting condition .switchCondition
    Check.inSwitch (checkStmt setting body)
  | .caseLabel span value body => do
    if (← Check.state).switchDepth = 0 then Check.fail span .strayLabel
    else
      checkIntegral setting value .caseValue
      checkStmt setting body
  | .defaultLabel span body => do
    if (← Check.state).switchDepth = 0 then Check.fail span .strayLabel
    else checkStmt setting body
  | .breakLoop span => do
    let c ← Check.state
    if c.loopDepth = 0 ∧ c.switchDepth = 0 then Check.fail span .strayBreak
  | .continueLoop span => do
    if (← Check.state).loopDepth = 0 then Check.fail span .strayContinue
  | .print _ value => do
    let t ← check setting value
    match value with
    | .string .. => return
    | _ => if !t.isNumeric then Check.fail value.span (.print t)
  | .eachSynapse span body => do
    let names ← synapseNames setting span
    -- the names of the loop have a scope of their own around its body
    Check.pushScope
    declareAll span names
    Check.modify fun c => { c with inSynapseLoop := true }
    Check.afterwards (Check.inLoop (checkStmt setting body)) fun c =>
      { c with inSynapseLoop := false, scopes := c.scopes.tail }

/-- Checks every statement of a list and tells whether all checks succeed. -/
def checkItems (setting : Setting) : List Stmt → Check Bool
  | [] => pure true
  | s :: rest => do
    let ok ← Check.succeeds (checkStmt setting s)
    let restOk ← checkItems setting rest
    return ok && restOk

end

/-- Checks the statements of a snippet. -/
def checkSnippet (setting : Setting) (statements : List Stmt) : Checker :=
  (Check.inScope (checkItems setting statements) .initial).2

end KernelWeaver.Typing
