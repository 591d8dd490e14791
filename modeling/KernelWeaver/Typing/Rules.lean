import KernelWeaver.CType
import KernelWeaver.Snippet.Tree

/-!
# Typing rules

What the operators of the snippet language do to types: which operands they take, what type the
outcome has, and what is wrong where they do not apply.
-/

namespace KernelWeaver.Typing

open Snippet

/-- What is wrong with the types of a snippet. -/
inductive Flaw where
  | undefined (name : String)
  | ambiguous (name : String)
  | unknownType (words : List String)
  | redeclared (name : String)
  | initialiser (name : String) (declared given : CType)
  | condition (type : CType)
  | branches (yes no : CType)
  | notPointer (type : CType)
  | notIndex (type : CType)
  | stepOperand (op : StepOp) (type : CType)
  | stepTarget (op : StepOp)
  | stepConst (op : StepOp) (type : CType)
  | deref (type : CType)
  | addressOf (type : CType)
  | unary (op : UnaryOp) (type : CType)
  | binary (op : BinaryOp) (left right : CType)
  | pointerArithmetic (left right : CType)
  | noFunction (name : String) (args : List CType)
  | cast (source target : CType)
  | castKind (source target : CType)
  | castConst (source target : CType)
  | assignConst (target : CType)
  | assign (value target : CType)
  | switchCondition (type : CType)
  | caseValue (type : CType)
  | strayLabel
  | strayBreak
  | strayContinue
  | print (type : CType)
  | nestedSynapseLoop
  | noSynapseLoop
deriving Repr

namespace Flaw

/-- A type between quotes. -/
def quoted (t : CType) : String := "'" ++ t.name ++ "'"

/-- The text of the error. -/
def message : Flaw → String
  | undefined name => "Undefined identifier '" ++ name ++ "'"
  | ambiguous name => "Ambiguous reference to overloaded function '" ++ name ++ "'"
  | unknownType words => "Unknown type '" ++ Text.join " " words ++ "'"
  | redeclared name => "Redeclaration of '" ++ name ++ "'"
  | initialiser name declared given =>
    "Invalid initialisation of '" ++ name ++ "' of type " ++ quoted declared ++ " with " ++
      quoted given
  | condition t => "Invalid condition of type " ++ quoted t
  | branches a b =>
    "Incompatible operand types " ++ quoted a ++ " and " ++ quoted b ++ " in conditional"
  | notPointer t => "Subscripted value of type " ++ quoted t ++ " is not a pointer"
  | notIndex t => "Array subscript of type " ++ quoted t ++ " is not an integer"
  | stepOperand op t => "Invalid operand of type " ++ quoted t ++ " to '" ++ op.spelling ++ "'"
  | stepTarget op => "Operand of '" ++ op.spelling ++ "' is not assignable"
  | stepConst .increment t => "Cannot increment read-only value of type " ++ quoted t
  | stepConst .decrement t => "Cannot decrement read-only value of type " ++ quoted t
  | deref t => "Cannot dereference value of type " ++ quoted t
  | addressOf t => "Cannot take address of value of type " ++ quoted t
  | unary op t =>
    let what := if op = .plus ∨ op = .minus then "unary '" else "'"
    "Invalid operand of type " ++ quoted t ++ " to " ++ what ++ op.spelling ++ "'"
  | binary op a b =>
    "Invalid operand types " ++ quoted a ++ " and " ++ quoted b ++ " to binary '" ++
      op.spelling ++ "'"
  | pointerArithmetic a b =>
    "Pointer arithmetic between " ++ quoted a ++ " and " ++ quoted b ++ " is not supported"
  | noFunction name args =>
    "No matching function for call to '" ++ name ++ "' with arguments (" ++
      Text.join ", " (args.map CType.name) ++ ")"
  | cast s t => "Invalid cast from " ++ quoted s ++ " to " ++ quoted t
  | castKind s t => "Invalid cast: cannot reinterpret " ++ quoted s ++ " as " ++ quoted t
  | castConst s t =>
    "Invalid cast from " ++ quoted s ++ " to " ++ quoted t ++ ": cannot remove const"
  | assignConst t => "Cannot assign to read-only value of type " ++ quoted t
  | assign v t => "Invalid assignment of " ++ quoted v ++ " to " ++ quoted t
  | switchCondition t => "Switch condition of type " ++ quoted t ++ " is not integral"
  | caseValue t => "Case value of type " ++ quoted t ++ " is not integral"
  | strayLabel => "Label not within a switch statement"
  | strayBreak => "'break' not within a loop or switch statement"
  | strayContinue => "'continue' not within a loop"
  | print t => "Cannot print value of type " ++ quoted t
  | nestedSynapseLoop => "'for_each_synapse' loops cannot be nested"
  | noSynapseLoop => "'for_each_synapse' is not supported in this context"

end Flaw

/-- Whether a value of type `source` may be stored where a `target` is. Numbers convert freely;
pointers must lead to the same kind of values and may gain constness behind them, but not lose
it. -/
def assignable (target source : CType) : Bool :=
  match target, source with
  | .value .., .value .. => true
  | .pointer t _, .pointer s _ => t.sameKind s && (!s.isConst || t.isConst)
  | _, _ => false

/-- Whether a type can stand as a condition. -/
def isScalar (t : CType) : Bool := t.isNumeric || t.isPointer

/-- The type of `a op b`. -/
def binaryType (op : BinaryOp) (a b : CType) : Except Flaw CType :=
  if op.isLogical then
    if isScalar a && isScalar b then .ok CType.int else .error (.binary op a b)
  else
    match a, b with
    | .value n _, .value m _ =>
      if op.needsIntegers && !(n.isIntegral && m.isIntegral) then .error (.binary op a b)
      else if op.isComparison then .ok CType.int
      else if op = .shiftLeft ∨ op = .shiftRight then .ok (CType.num n.promoted)
      else .ok (CType.num (n.common m))
    | .pointer .., .value m _ =>
      if m.isIntegral && (op = .add || op = .sub) then .ok a.removeConst
      else .error (.binary op a b)
    | .value n _, .pointer .. =>
      if n.isIntegral && op = .add then .ok b.removeConst else .error (.binary op a b)
    | .pointer s _, .pointer t _ =>
      if op.isComparison && s.sameKind t then .ok CType.int
      else if op = .add ∨ op = .sub then .error (.pointerArithmetic a b)
      else .error (.binary op a b)
    | _, _ => .error (.binary op a b)

/-- The type of `op a`, where `modifiable` tells whether the operand designates storage. -/
def unaryType (op : UnaryOp) (modifiable : Bool) (a : CType) : Except Flaw CType :=
  match op with
  | .deref =>
    match a.target? with
    | some t => .ok t
    | none => .error (.deref a)
  | .addressOf =>
    if a.isNumeric && modifiable then .ok a.toPointer else .error (.addressOf a)
  | .not => if isScalar a then .ok CType.int else .error (.unary op a)
  | .plus | .minus =>
    match a.numeric? with
    | some n => .ok (CType.num n.promoted)
    | none => .error (.unary op a)
  | .complement =>
    match a.numeric? with
    | some n => if n.isIntegral then .ok (CType.num n.promoted) else .error (.unary op a)
    | none => .error (.unary op a)

/-- The type of a conditional with the given branches. -/
def conditionalType (yes no : CType) : Except Flaw CType :=
  match yes, no with
  | .value n _, .value m _ => .ok (CType.num (n.common m))
  | .pointer .., _ => if yes.sameKind no then .ok yes else .error (.branches yes no)
  | _, _ => .error (.branches yes no)

/-- The type of a cast to `target`. Only a literal may lose its constness. -/
def castType (target source : CType) (literal : Bool) : Except Flaw CType :=
  match target, source with
  | .value .., .value .. =>
    if source.isConst && !target.isConst && !literal then .error (.castConst source target)
    else .ok target
  | .pointer t _, .pointer s _ =>
    -- constness must not be lost on either side of the star
    if !t.sameKind s then .error (.castKind source target)
    else if (s.isConst && !t.isConst) || (source.isConst && !target.isConst) then
      .error (.castConst source target)
    else .ok target
  | _, _ => .error (.cast source target)

/-- Whether a function with these parameters takes these arguments. -/
def takes (params args : List CType) (variadic : Bool) : Bool :=
  (if variadic then params.length ≤ args.length else args.length = params.length) &&
    (params.zip args).all fun (param, arg) => assignable param arg

/-- How many arguments are of exactly the kind of their parameter. -/
def exactMatches (params args : List CType) : Nat :=
  (params.zip args).countP fun (param, arg) => param.sameKind arg

/-- How well a type can be called with the given arguments, if it can. -/
def callScore? (args : List CType) : CType → Option Nat
  | .function _ params variadic _ =>
    if takes params args variadic then some (exactMatches params args) else none
  | _ => none

/-- The better of the best choice so far and one more: a later choice has to be strictly better. -/
def betterCall {α : Type} (args : List CType) (type : α → CType) (best : Option (Nat × α))
    (next : α) : Option (Nat × α) :=
  match callScore? args (type next) with
  | none => best
  | some score =>
    match best with
    | none => some (score, next)
    | some (most, _) => if most < score then some (score, next) else best

/-- The choice with the most exactly matching arguments, the first of equally good ones. -/
def chooseCall? {α : Type} (args : List CType) (type : α → CType) (choices : List α) : Option α :=
  (choices.foldl (betterCall args type) none).map Prod.snd

/-- What a function yields. -/
def returnType : CType → CType
  | .function returns .. => returns
  | _ => CType.none

end KernelWeaver.Typing
