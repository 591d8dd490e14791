import KernelWeaver.Snippet.ExprParser

/-!
# Reading statements

A snippet is a list of declarations and statements. After an error reading is taken up at the next
likely beginning of a statement, so that one pass reports every error of a snippet.
-/

namespace KernelWeaver.Snippet

namespace Parser

/-- Declared names between commas; `n` bounds their number. -/
def declarators : Nat → Parser (List Declarator)
  | 0 => stop
  | n + 1 => do
    let start ← hereSpan
    let pointer ← pointerMark
    let name ← expectName "in declaration"
    let init ← if ← accept .equal then some <$> expression else pure none
    let span ← spanFrom start
    let declarator : Declarator := { id := ← freshId, name, pointer, init, span }
    if ← accept .comma then return declarator :: (← declarators n) else return [declarator]

/-- A declaration. -/
def declaration : Parser Stmt := do
  let start ← hereSpan
  let type ← specifiers
  let names ← declarators ((← here).rest.length + 1)
  let _ ← expect .semicolon "after declaration"
  return .declare (← spanFrom start) type names

/-- An expression, or nothing, before a semicolon. -/
def exprStatement : Parser Stmt := do
  let start ← hereSpan
  if ← accept .semicolon then return .expr start none
  else
    let value ← expression
    let _ ← expect .semicolon "after expression"
    return .expr (← spanFrom start) (some value)

/-- A condition in parentheses. -/
def condition (keyword : String) : Parser Expr := do
  let _ ← expect .leftParen ("after '" ++ keyword ++ "'")
  let value ← expression
  let _ ← expect .rightParen ("after '" ++ keyword ++ "' condition")
  return value

/-- The first clause of a `for`. -/
def forInit : Parser (Option Stmt) := do
  let kind := (← here).kind
  if kind = .semicolon then
    let _ ← take
    return none
  else if kind.startsType then some <$> declaration
  else some <$> exprStatement

/-- An expression that may be left out before a token of the given kind. -/
def optionalBefore (kind : TokenKind) : Parser (Option Expr) := do
  if (← here).kind = kind then return none else some <$> expression

mutual

/-- A declaration or a statement. -/
def blockItem : Nat → Parser Stmt
  | 0 => stop
  | n + 1 => do
    if (← here).kind.startsType then declaration else statement n

/-- Items up to the end of input, or inside a block up to its end. An item that cannot be read is
left out. -/
def items : Nat → Bool → Cursor → List Stmt × Cursor
  | 0, _, c => ([], c)
  | n + 1, inBlock, c =>
    if c.atEnd || (inBlock && c.kind = .rightBrace) then ([], c)
    else
      match blockItem n c with
      | .done item c =>
        let (more, c) := items n inBlock c
        (item :: more, c)
      -- the cursor stands where reading was given up, in the midst of the item
      | .failed c => items n inBlock c.resume

/-- A statement: one level of nesting. -/
def statement : Nat → Parser Stmt
  | 0 => stop
  | n + 1 => nested (bareStatement n)

/-- A statement by its first token. -/
def bareStatement : Nat → Parser Stmt
  | 0 => stop
  | n + 1 => do
    let start ← hereSpan
    match (← here).kind with
    | .leftBrace =>
      let _ ← take
      let body ← fun c => let (body, c) := items n true c; .done body c
      let _ ← expect .rightBrace "after block"
      return .block (← spanFrom start) body
    | .ifWord =>
      let _ ← take
      let test ← condition "if"
      let yes ← statement n
      let no ← if ← accept .elseWord then some <$> statement n else pure none
      return .ifElse (← spanFrom start) test yes no
    | .whileWord =>
      let _ ← take
      let test ← condition "while"
      let body ← statement n
      return .whileLoop (← spanFrom start) test body
    | .doWord =>
      let _ ← take
      let body ← statement n
      let _ ← expect .whileWord "after 'do' body"
      let test ← condition "do-while"
      let _ ← expect .semicolon "after 'do-while' condition"
      return .doLoop (← spanFrom start) body test
    | .forWord =>
      let _ ← take
      let _ ← expect .leftParen "after 'for'"
      let init ← forInit
      let test ← optionalBefore .semicolon
      let _ ← expect .semicolon "after loop condition"
      let step ← optionalBefore .rightParen
      let _ ← expect .rightParen "after for clauses"
      let body ← statement n
      return .forLoop (← spanFrom start) init test step body
    | .switchWord =>
      let _ ← take
      let test ← condition "switch"
      let body ← statement n
      return .switch (← spanFrom start) test body
    | .caseWord =>
      let _ ← take
      let value ← expression
      let _ ← expect .colon "after 'case' value"
      let body ← statement n
      return .caseLabel (← spanFrom start) value body
    | .defaultWord =>
      let _ ← take
      let _ ← expect .colon "after 'default'"
      let body ← statement n
      return .defaultLabel (← spanFrom start) body
    | .breakWord =>
      let _ ← take
      let _ ← expect .semicolon "after 'break'"
      return .breakLoop (← spanFrom start)
    | .continueWord =>
      let _ ← take
      let _ ← expect .semicolon "after 'continue'"
      return .continueLoop (← spanFrom start)
    | .printWord =>
      let _ ← take
      let value ← expression
      let _ ← expect .semicolon "after value"
      return .print (← spanFrom start) value
    | .forEachSynapse =>
      let _ ← take
      let body ← statement n
      return .eachSynapse (← spanFrom start) body
    | .typeSpecifier | .typeQualifier => fail "Declarations are only allowed as block items"
    | _ => exprStatement

end

/-- More steps than reading items from `n` tokens takes: at most four for each token and four
behind the last. -/
def itemSteps (n : Nat) : Nat := 8 * (n + 1)

end Parser

/-- Reads a list of tokens as a list of declarations and statements. -/
def parseItems (tokens : List Token) : List Stmt × Report :=
  let c := Cursor.ofTokens tokens
  let (items, c) := Parser.items (Parser.itemSteps c.rest.length) false c
  (items, c.report)

end KernelWeaver.Snippet
