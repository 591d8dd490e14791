import KernelWeaver.Snippet.Cursor

/-!
# Reading expressions

Assignments associate to the right and bind least, then come conditionals, the levels of binary
operators, operators before an operand and casts, operators behind an operand, and at last names,
literals and parentheses. Every operand, every conditional tail and every assigned value is one
level of nesting.
-/

namespace KernelWeaver.Snippet

namespace Parser

/-- The binary operator that a token spells. -/
def binaryOp? : TokenKind → Option BinaryOp
  | .pipePipe => some .logicalOr
  | .ampersandAmpersand => some .logicalAnd
  | .pipe => some .bitOr
  | .caret => some .bitXor
  | .ampersand => some .bitAnd
  | .equalEqual => some .equal
  | .notEqual => some .notEqual
  | .less => some .less
  | .lessEqual => some .lessEqual
  | .greater => some .greater
  | .greaterEqual => some .greaterEqual
  | .shiftLeft => some .shiftLeft
  | .shiftRight => some .shiftRight
  | .plus => some .add
  | .minus => some .sub
  | .star => some .mul
  | .slash => some .div
  | .percent => some .rem
  | _ => none

/-- The assignment that a token spells. -/
def assignOp? : TokenKind → Option AssignOp
  | .equal => some .plain
  | .starEqual => some (.compound .mul)
  | .slashEqual => some (.compound .div)
  | .percentEqual => some (.compound .rem)
  | .plusEqual => some (.compound .add)
  | .minusEqual => some (.compound .sub)
  | .shiftLeftEqual => some (.compound .shiftLeft)
  | .shiftRightEqual => some (.compound .shiftRight)
  | .ampersandEqual => some (.compound .bitAnd)
  | .caretEqual => some (.compound .bitXor)
  | .pipeEqual => some (.compound .bitOr)
  | _ => none

/-- The operator before an operand that a token spells. -/
def unaryOp? : TokenKind → Option UnaryOp
  | .plus => some .plus
  | .minus => some .minus
  | .not => some .not
  | .tilde => some .complement
  | .star => some .deref
  | .ampersand => some .addressOf
  | _ => none

/-- The step that a token spells. -/
def stepOp? : TokenKind → Option StepOp
  | .plusPlus => some .increment
  | .minusMinus => some .decrement
  | _ => none

/-- A node with a new number. -/
def node (span : Span) : Parser Node := return ⟨← freshId, span⟩

/-- A star and the `const` behind it. -/
def pointerMark : Parser (Option PointerMark) := do
  if ← accept .star then return some ⟨← accept .typeQualifier⟩ else return none

/-- The specifier words at the front of a list of tokens, whether `const` is among them, and the
number of tokens. -/
def specifierWords : List Token → List String × Bool × Nat
  | [] => ([], false, 0)
  | token :: rest =>
    let (words, isConst, count) := specifierWords rest
    match token.kind with
    | .typeSpecifier => (token.lexeme :: words, isConst, count + 1)
    | .typeQualifier => (words, true, count + 1)
    | _ => ([], false, 0)

/-- The cursor behind a number of tokens. -/
def advanceBy : Nat → Cursor → Cursor
  | 0, c => c
  | n + 1, c => advanceBy n c.advance

/-- Specifier words and `const` in any order; at least one word. -/
def specifiers : Parser TypeSpec := do
  let start ← hereSpan
  let (words, isConst, count) := specifierWords (← here).rest
  fun c => .done () (advanceBy count c)
  if words.isEmpty then fail "Expected type specifier"
  else return { words, isConst, pointer := none, span := ← spanFrom start }

/-- A type: specifiers and at most one star. -/
def typeName : Parser TypeSpec := do
  let type ← specifiers
  let pointer ← pointerMark
  return { type with pointer, span := ← spanFrom type.span }

mutual

/-- An assignment, or an expression that binds tighter. -/
def assignment : Nat → Parser Expr
  | 0 => stop
  | n + 1 => do
    let target ← conditional n
    match assignOp? (← here).kind with
    | none => return target
    | some op =>
      if !target.isAssignable then fail "Invalid assignment target"
      else
        let _ ← take
        let value ← nested (assignment n)
        return .assign (← node (target.span.merge value.span)) op target value

/-- A conditional, or an expression that binds tighter. -/
def conditional : Nat → Parser Expr
  | 0 => stop
  | n + 1 => do
    let condition ← binary n 0
    if ← accept .question then
      let (yes, no) ← nested do
        let yes ← assignment n
        let _ ← expect .colon "in conditional expression"
        return (yes, ← conditional n)
      return .conditional (← node (condition.span.merge no.span)) condition yes no
    else return condition

/-- Operands joined by operators of at least the given level. -/
def binary : Nat → Nat → Parser Expr
  | 0, _ => stop
  | n + 1, level => do
    let left ← unary n
    binaryRest n level left

/-- The operators and operands that follow a left operand. -/
def binaryRest : Nat → Nat → Expr → Parser Expr
  | 0, _, _ => stop
  | n + 1, level, left => do
    match binaryOp? (← here).kind with
    | none => return left
    | some op =>
      if op.level < level then return left
      else
        let _ ← take
        -- an operator of the same level is left to the loop: all operators associate to the left
        let right ← binary n (op.level + 1)
        binaryRest n level (.binary (← node (left.span.merge right.span)) op left right)

/-- An operand with the operators before it: one level of nesting. -/
def unary : Nat → Parser Expr
  | 0 => stop
  | n + 1 => nested (operand n)

/-- An operand behind at most one operator or cast. -/
def operand : Nat → Parser Expr
  | 0 => stop
  | n + 1 => do
    let start ← hereSpan
    let c ← here
    match stepOp? c.kind with
    | some op =>
      let _ ← take
      let target ← unary n
      return .stepBefore (← node (start.merge target.span)) op target
    | none =>
      match unaryOp? c.kind with
      | some op =>
        let _ ← take
        let inner ← unary n
        return .unary (← node (start.merge inner.span)) op inner
      | none =>
        -- a type behind a parenthesis makes a cast
        if c.kind = .leftParen ∧ c.secondKind.startsType then
          let _ ← take
          let type ← typeName
          let _ ← expect .rightParen "after cast type"
          let inner ← unary n
          return .cast (← node (start.merge inner.span)) type inner
        else
          let first ← primary n
          operandRest n first

/-- The subscripts, calls and steps that follow an operand. -/
def operandRest : Nat → Expr → Parser Expr
  | 0, _ => stop
  | n + 1, first => do
    match (← here).kind with
    | .leftBracket =>
      let _ ← take
      let index ← assignment n
      let _ ← expect .rightBracket "after subscript"
      operandRest n (.subscript (← node (← spanFrom first.span)) first index)
    | .leftParen =>
      let _ ← take
      let args ← if (← here).kind = .rightParen then pure [] else arguments n
      let _ ← expect .rightParen "after arguments"
      operandRest n (.call (← node (← spanFrom first.span)) first args)
    | .plusPlus =>
      let _ ← take
      operandRest n (.stepAfter (← node (← spanFrom first.span)) .increment first)
    | .minusMinus =>
      let _ ← take
      operandRest n (.stepAfter (← node (← spanFrom first.span)) .decrement first)
    | _ => return first

/-- Expressions between commas. -/
def arguments : Nat → Parser (List Expr)
  | 0 => stop
  | n + 1 => do
    let first ← assignment n
    if ← accept .comma then return first :: (← arguments n) else return [first]

/-- A name, a literal or an expression in parentheses. -/
def primary : Nat → Parser Expr
  | 0 => stop
  | n + 1 => do
    let token := (← here).current
    match token.kind with
    | .number =>
      let _ ← take
      return .number (← node token.span) token.lexeme (numberType token.lexeme)
    | .trueWord =>
      let _ ← take
      return .bool (← node token.span) true
    | .falseWord =>
      let _ ← take
      return .bool (← node token.span) false
    | .string =>
      let _ ← take
      return .string (← node token.span) token.lexeme
    | .identifier =>
      let _ ← take
      return .name (← node token.span) token.lexeme
    | .leftParen =>
      let _ ← take
      let inner ← assignment n
      let _ ← expect .rightParen "after expression"
      return .group (← node (← spanFrom token.span)) inner
    | _ => fail "Expect expression"

end

/-- More steps than reading an expression from `n` tokens takes: at most seven for each token and
seven behind the last. -/
def exprSteps (n : Nat) : Nat := 8 * (n + 1)

/-- An expression. -/
def expression : Parser Expr := fun c => assignment (exprSteps c.rest.length) c

end Parser

/-- Reads a list of tokens as one expression. -/
def parseExpr (tokens : List Token) : Option Expr × Report :=
  match Parser.expression (.ofTokens tokens) with
  | .failed c => (none, c.report)
  | .done e c =>
    if c.atEnd then (some e, c.report)
    else (none, (c.reportHere "Expected end of expression").report)

end KernelWeaver.Snippet
