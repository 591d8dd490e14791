import KernelWeaver.Numeric
import KernelWeaver.Snippet.Token
import KernelWeaver.Text.Blank

/-!
# Syntax trees of snippets

Expressions and statements as written. Every expression and every declared name carries a node
number of its own, under which its type is kept.
-/

namespace KernelWeaver.Snippet

/-- The number of an expression or of a declared name. -/
abbrev NodeId := Nat

/-- An operator before its operand, other than `++` and `--`. -/
inductive UnaryOp where
  | plus | minus | not | complement | deref | addressOf
deriving DecidableEq, Repr, Inhabited

/-- The spelling of the operator. -/
def UnaryOp.spelling : UnaryOp → String
  | plus => "+"
  | minus => "-"
  | not => "!"
  | complement => "~"
  | deref => "*"
  | addressOf => "&"

/-- An operator between two operands, other than assignments. -/
inductive BinaryOp where
  | mul | div | rem | add | sub | shiftLeft | shiftRight
  | less | lessEqual | greater | greaterEqual | equal | notEqual
  | bitAnd | bitXor | bitOr | logicalAnd | logicalOr
deriving DecidableEq, Repr, Inhabited

namespace BinaryOp

/-- The spelling of the operator. -/
def spelling : BinaryOp → String
  | mul => "*"
  | div => "/"
  | rem => "%"
  | add => "+"
  | sub => "-"
  | shiftLeft => "<<"
  | shiftRight => ">>"
  | less => "<"
  | lessEqual => "<="
  | greater => ">"
  | greaterEqual => ">="
  | equal => "=="
  | notEqual => "!="
  | bitAnd => "&"
  | bitXor => "^"
  | bitOr => "|"
  | logicalAnd => "&&"
  | logicalOr => "||"

/-- How tightly the operator binds. All operators associate to the left. -/
def level : BinaryOp → Nat
  | logicalOr => 1
  | logicalAnd => 2
  | bitOr => 3
  | bitXor => 4
  | bitAnd => 5
  | equal | notEqual => 6
  | less | lessEqual | greater | greaterEqual => 7
  | shiftLeft | shiftRight => 8
  | add | sub => 9
  | mul | div | rem => 10

/-- Whether the operator compares its operands. -/
def isComparison : BinaryOp → Bool
  | less | lessEqual | greater | greaterEqual | equal | notEqual => true
  | _ => false

/-- Whether the operator joins truth values. -/
def isLogical : BinaryOp → Bool
  | logicalAnd | logicalOr => true
  | _ => false

/-- Whether the operator needs whole numbers. -/
def needsIntegers : BinaryOp → Bool
  | rem | shiftLeft | shiftRight | bitAnd | bitXor | bitOr => true
  | _ => false

end BinaryOp

/-- An assignment, plain or with an operator. -/
inductive AssignOp where
  | plain
  | compound (op : BinaryOp)
deriving DecidableEq, Repr, Inhabited

/-- The spelling of the assignment. -/
def AssignOp.spelling : AssignOp → String
  | plain => "="
  | compound op => op.spelling ++ "="

/-- A step up or down by one. -/
inductive StepOp where
  | increment
  | decrement
deriving DecidableEq, Repr, Inhabited

/-- The spelling of the step. -/
def StepOp.spelling : StepOp → String
  | increment => "++"
  | decrement => "--"

/-- A star behind a type, with its constness. -/
structure PointerMark where
  isConst : Bool
deriving DecidableEq, Repr, Inhabited

/-- A type as written: specifier words, whether `const` stands among them, and a star. -/
structure TypeSpec where
  words : List String
  isConst : Bool
  pointer : Option PointerMark
  span : Span
deriving DecidableEq, Repr, Inhabited

/-- The number and place of an expression. -/
structure Node where
  id : NodeId
  span : Span
deriving DecidableEq, Repr, Inhabited

/-- An expression. -/
inductive Expr where
  /-- A number with the type that its digits and suffix give it. -/
  | number (node : Node) (lexeme : String) (type : Numeric)
  | bool (node : Node) (value : Bool)
  /-- A string with its quotes. -/
  | string (node : Node) (lexeme : String)
  | name (node : Node) (name : String)
  | unary (node : Node) (op : UnaryOp) (operand : Expr)
  | binary (node : Node) (op : BinaryOp) (left right : Expr)
  | call (node : Node) (callee : Expr) (args : List Expr)
  | cast (node : Node) (type : TypeSpec) (operand : Expr)
  | assign (node : Node) (op : AssignOp) (target value : Expr)
  | conditional (node : Node) (condition yes no : Expr)
  | subscript (node : Node) (array index : Expr)
  /-- An expression in parentheses. -/
  | group (node : Node) (inner : Expr)
  | stepBefore (node : Node) (op : StepOp) (target : Expr)
  | stepAfter (node : Node) (op : StepOp) (target : Expr)
deriving Repr, Inhabited

namespace Expr

/-- The number and place of the expression. -/
def node : Expr → Node
  | number n .. | bool n .. | string n .. | name n .. | unary n .. | binary n .. | call n ..
  | cast n .. | assign n .. | conditional n .. | subscript n .. | group n .. | stepBefore n ..
  | stepAfter n .. => n

/-- The number of the expression. -/
def id (e : Expr) : NodeId := e.node.id

/-- The place of the expression. -/
def span (e : Expr) : Span := e.node.span

/-- Whether the expression has the form of something that can be assigned to. -/
def isAssignable : Expr → Bool
  | name .. | subscript .. => true
  | unary _ .deref _ => true
  | group _ inner => inner.isAssignable
  | _ => false

end Expr

/-- A name introduced by a declaration. The star belongs to this name only. -/
structure Declarator where
  id : NodeId
  name : String
  pointer : Option PointerMark
  init : Option Expr
  span : Span
deriving Repr, Inhabited

/-- A statement. -/
inductive Stmt where
  /-- An expression, or nothing, before a semicolon. -/
  | expr (span : Span) (value : Option Expr)
  | block (span : Span) (items : List Stmt)
  | declare (span : Span) (type : TypeSpec) (names : List Declarator)
  | ifElse (span : Span) (condition : Expr) (yes : Stmt) (no : Option Stmt)
  | whileLoop (span : Span) (condition : Expr) (body : Stmt)
  | doLoop (span : Span) (body : Stmt) (condition : Expr)
  | forLoop (span : Span) (init : Option Stmt) (condition step : Option Expr) (body : Stmt)
  | switch (span : Span) (condition : Expr) (body : Stmt)
  | caseLabel (span : Span) (value : Expr) (body : Stmt)
  | defaultLabel (span : Span) (body : Stmt)
  | breakLoop (span : Span)
  | continueLoop (span : Span)
  | print (span : Span) (value : Expr)
  /-- A loop over the synapses of the current row. -/
  | eachSynapse (span : Span) (body : Stmt)
deriving Repr, Inhabited

/-- The place of a statement. -/
def Stmt.span : Stmt → Span
  | expr s .. | block s .. | declare s .. | ifElse s .. | whileLoop s .. | doLoop s ..
  | forLoop s .. | switch s .. | caseLabel s .. | defaultLabel s .. | breakLoop s | continueLoop s
  | print s .. | eachSynapse s .. => s

/-- The type of a number, from its spelling: a hexadecimal mark, the suffix, and whether there is a
point or an exponent. -/
def numberType (lexeme : String) : Numeric :=
  let cs := lexeme.toList.map Char.toLower
  let last := cs.getLast?
  let integer := if last = some 'u' then Numeric.uint32 else .int32
  if ['0', 'x'].isPrefixOf cs then integer
  else if last = some 'f' then .float
  else if cs.contains '.' || cs.contains 'e' then .double
  else integer

end KernelWeaver.Snippet
