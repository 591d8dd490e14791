import KernelWeaver.Typing.Checker

/-!
# Types of expressions

Every expression that can be typed has its type noted under its number. The callee of a call is
noted with the type of the function that was chosen for the arguments.
-/

namespace KernelWeaver.Typing

open Snippet

/-- Whether an expression is a literal. -/
def isLiteral : Expr → Bool
  | .number .. | .bool .. | .string .. => true
  | _ => false

/-- The name of a callee in an error message. -/
def calleeName : Expr → String
  | .name _ name => name
  | _ => "expression"

/-- Succeeds for types that can stand as a condition. -/
def requireCondition (span : Span) (t : CType) : Check Unit :=
  if isScalar t then pure () else Check.fail span (.condition t)

/-- The type of `++` and `--` on a target. -/
def stepType (op : StepOp) (target : Expr) (t : CType) : Check CType :=
  if !isScalar t then Check.fail target.span (.stepOperand op t)
  else if !target.isAssignable then Check.fail target.span (.stepTarget op)
  else if t.isConst then Check.fail target.span (.stepConst op t)
  else pure t

/-- The type of an assignment. -/
def assignType (span targetSpan : Span) (op : AssignOp) (target value : CType) : Check CType :=
  if target.isConst then Check.fail targetSpan (.assignConst target)
  else
    match op with
    | .plain =>
      if assignable target value then pure target else Check.fail span (.assign value target)
    | .compound op =>
      if target.isNumeric && !value.isNumeric then Check.fail span (.binary op target value)
      else do
        let _ ← Check.rule span (binaryType op target value)
        return target

/-- Notes the type that a check finds for a node. -/
def noted (node : Node) (m : Check CType) : Check CType := do
  let t ← m
  Check.note node.id t
  return t

mutual

/-- Checks an expression and notes its type. -/
def check (setting : Setting) : Expr → Check CType
  | .number node _ type => noted node (pure ((CType.num type).addConst))
  | .bool node _ => noted node (pure ((CType.num .bool).addConst))
  | .string node _ => noted node (pure ((CType.num .int8).addConst.toPointer))
  | .name node name => noted node do
    match ← Check.typesOf setting name with
    | some [t] => return t
    | some _ => Check.fail node.span (.ambiguous name)
    | none => Check.fail node.span (.undefined name)
  | .group node inner => noted node (check setting inner)
  | .unary node op operand => noted node do
    let t ← check setting operand
    Check.rule node.span (unaryType op operand.isAssignable t)
  | .binary node op left right => noted node do
    let a ← check setting left
    let b ← check setting right
    Check.rule node.span (binaryType op a b)
  | .call node callee args => noted node do
    let choices ←
      match callee with
      | .name calleeNode name => do
        match ← Check.typesOf setting name with
        | some types => pure types
        | none => Check.fail calleeNode.span (.undefined name)
      | _ => do pure [← check setting callee]
    let types ← checkAll setting args
    match chooseCall? types (fun t => t) choices with
    | none => Check.fail node.span (.noFunction (calleeName callee) types)
    | some chosen =>
      Check.note callee.id chosen
      return returnType chosen
  | .cast node type operand => noted node do
    let target ← resolve setting type none
    let source ← check setting operand
    Check.rule node.span (castType target source (isLiteral operand))
  | .assign node op target value => noted node do
    let t ← check setting target
    let v ← check setting value
    assignType node.span target.span op t v
  | .conditional node condition yes no => noted node do
    let c ← check setting condition
    requireCondition condition.span c
    let a ← check setting yes
    let b ← check setting no
    Check.rule node.span (conditionalType a b)
  | .subscript node array index => noted node do
    let a ← check setting array
    let i ← check setting index
    match a.target? with
    | none => Check.fail array.span (.notPointer a)
    | some t => if i.isIntegral then return t else Check.fail index.span (.notIndex i)
  | .stepBefore node op target => noted node do
    let t ← check setting target
    stepType op target t
  | .stepAfter node op target => noted node do
    let t ← check setting target
    stepType op target t

/-- Checks expressions from left to right. -/
def checkAll (setting : Setting) : List Expr → Check (List CType)
  | [] => pure []
  | e :: es => do
    let t ← check setting e
    let ts ← checkAll setting es
    return t :: ts

end

/-- Checks an expression on its own. -/
def checkExpr (setting : Setting) (e : Expr) : Option CType × Checker :=
  check { setting with synapseNames := none } e .initial

end KernelWeaver.Typing
