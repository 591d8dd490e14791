import KernelWeaver.Code.Emit
import KernelWeaver.Typing.Checker

/-!
# Printing expressions

A checked expression is printed as it was written, but for its names: a name declared by the snippet
gets an underscore in front, so that it cannot meet a name of the generated code, and any other name
is replaced by the code it stands for.
-/

namespace KernelWeaver.Printing

open Code Snippet Typing

/-- How a name declared by a snippet is printed. -/
def localName (name : String) : String := "_" ++ name

/-- The type of a node. -/
def typeOf (types : NodeTypes) (id : NodeId) : Emit CType :=
  match types.find? id with
  | some t => pure t
  | none => Emit.fail (.untypedNode id)

/-- The code of a name. -/
def printName (locals : List String) (name : String) (wanted : Option CType) : Emit String :=
  if locals.contains name then pure (localName name) else Emit.resolve name wanted

/-- The code of a call. The code of the callee has slots for the arguments, or is a whole call or
block that takes none, or is the name of a function. -/
def callText (callee : String) (args : List String) : String :=
  if hasSlots callee then fillSlots callee args
  else if args.isEmpty && (callee.startsWith "\x7b" || callee.endsWith ")") then callee
  else callee ++ "(" ++ Text.join ", " args ++ ")"

/-- The type by which a callee is told from others of its name. -/
def calleeName (types : NodeTypes) (locals : List String) (id : NodeId) (name : String) :
    Emit String := do
  let t ← typeOf types id
  printName locals name (some t)

mutual

/-- The text of an expression. -/
def printExpr (types : NodeTypes) (locals : List String) : Expr → Emit String
  | .number _ lexeme _ => pure lexeme
  | .bool _ value => pure (if value then "true" else "false")
  | .string _ lexeme => pure lexeme
  | .name _ name => printName locals name none
  | .unary _ op operand => do
    let a ← printExpr types locals operand
    return op.spelling ++ a
  | .binary _ op left right => do
    let a ← printExpr types locals left
    let b ← printExpr types locals right
    return a ++ " " ++ op.spelling ++ " " ++ b
  | .call _ (.name node name) args => do
    let callee ← calleeName types locals node.id name
    let printed ← printAll types locals args
    return callText callee printed
  | .call _ callee args => do
    let callee ← printExpr types locals callee
    let printed ← printAll types locals args
    return callText callee printed
  | .cast node _ operand => do
    let t ← typeOf types node.id
    let a ← printExpr types locals operand
    return "(" ++ t.name ++ ")" ++ a
  | .assign _ op target value => do
    let a ← printExpr types locals target
    let b ← printExpr types locals value
    return a ++ " " ++ op.spelling ++ " " ++ b
  | .conditional _ condition yes no => do
    let c ← printExpr types locals condition
    let a ← printExpr types locals yes
    let b ← printExpr types locals no
    return c ++ " ? " ++ a ++ " : " ++ b
  | .subscript _ array index => do
    let a ← printExpr types locals array
    let i ← printExpr types locals index
    return a ++ "[" ++ i ++ "]"
  | .group _ inner => do
    let a ← printExpr types locals inner
    return "(" ++ a ++ ")"
  | .stepBefore _ op target => do
    let a ← printExpr types locals target
    return op.spelling ++ a
  | .stepAfter _ op target => do
    let a ← printExpr types locals target
    return a ++ op.spelling

/-- The texts of several expressions. -/
def printAll (types : NodeTypes) (locals : List String) : List Expr → Emit (List String)
  | [] => pure []
  | e :: es => do
    let a ← printExpr types locals e
    let more ← printAll types locals es
    return a :: more

end

end KernelWeaver.Printing
