import KernelWeaver.Diagnostic
import KernelWeaver.Snippet.Token
import KernelWeaver.Snippet.Tree

/-!
# Reading a list of tokens

A cursor stands before the tokens that are left to read. A parser moves it and yields a tree, or
gives up after having reported why; in both cases it says where it stopped.
-/

namespace KernelWeaver.Snippet

/-- Where reading has got to. -/
structure Cursor where
  /-- The token read last; before any is read, the first one. -/
  previous : Token
  /-- The tokens left to read, without the end of input. -/
  rest : List Token
  /-- The end of input. -/
  ending : Token
  /-- How many nested forms are being read. -/
  depth : Nat
  /-- The number of the next node. -/
  nextId : NodeId
  report : Report
deriving Repr

namespace Cursor

/-- The end of input behind a list of tokens without one. -/
def endAfter (tokens : List Token) : Token :=
  let last : Span := (tokens.getLast?.map Token.span).getD .zero
  ⟨.endOfInput, "", ⟨last.stop, last.stop, last.line⟩⟩

/-- A cursor before a list of tokens, which may leave out the end of input. -/
def ofTokens (tokens : List Token) : Cursor :=
  let (rest, ending) :=
    match tokens.getLast? with
    | some last =>
      if last.kind = TokenKind.endOfInput then (tokens.dropLast, last)
      else (tokens, endAfter tokens)
    | none => ([], endAfter [])
  { previous := rest.headD ending, rest, ending, depth := 0, nextId := 0, report := [] }

/-- The token to be read next. -/
def current (c : Cursor) : Token := c.rest.headD c.ending

/-- The kind of the token to be read next. -/
def kind (c : Cursor) : TokenKind := c.current.kind

/-- The kind of the token behind the next one. -/
def secondKind (c : Cursor) : TokenKind :=
  ((c.rest[1]?).map (·.kind)).getD .endOfInput

/-- Whether all tokens have been read. -/
def atEnd (c : Cursor) : Bool := c.kind = .endOfInput

/-- The cursor behind the next token. The end of input is never passed. -/
def advance (c : Cursor) : Cursor :=
  match c.rest with
  | [] => c
  | token :: rest => { c with previous := token, rest }

/-- An error at a token, which a note names. -/
def errorAt (token : Token) (message : String) : Diagnostic :=
  let place := if token.kind = .endOfInput then "end" else "'" ++ token.lexeme ++ "'"
  (Diagnostic.error token.span message).withNote ("error at " ++ place)

/-- The cursor with an error about the next token on record. -/
def reportHere (c : Cursor) (message : String) : Cursor :=
  { c with report := c.report ++ [errorAt c.current message] }

/-- Whether a statement is likely to begin with a token of this kind, or a block to end with it. -/
def isBoundary : TokenKind → Bool
  | .forWord | .ifWord | .whileWord | .doWord | .switchWord | .caseWord | .defaultWord
  | .printWord | .breakWord | .continueWord | .forEachSynapse | .typeSpecifier
  | .typeQualifier | .leftBrace | .rightBrace => true
  | _ => false

/-- Skips tokens until one follows a semicolon or is a boundary. -/
def skipToBoundary (previous : Token) : List Token → Token × List Token
  | [] => (previous, [])
  | token :: rest =>
    if previous.kind = .semicolon ∨ isBoundary token.kind then (previous, token :: rest)
    else skipToBoundary token rest

/-- Moves to where reading can be taken up after an error; at least one token is skipped. -/
def resume (c : Cursor) : Cursor :=
  match c.rest with
  | [] => c
  | token :: rest =>
    let (previous, rest) := skipToBoundary token rest
    { c with previous, rest }

end Cursor

/-- What came of reading. -/
inductive Outcome (α : Type) where
  | done (value : α) (cursor : Cursor)
  /-- Reading was given up; the reason is in the report. -/
  | failed (cursor : Cursor)

/-- A way of reading something from the tokens behind a cursor. -/
def Parser (α : Type) := Cursor → Outcome α

namespace Parser

instance : Monad Parser where
  pure a := fun c => .done a c
  bind p f := fun c =>
    match p c with
    | .done a c => f a c
    | .failed c => .failed c

/-- The cursor itself. -/
def here : Parser Cursor := fun c => .done c c

/-- The place of the next token. -/
def hereSpan : Parser Span := fun c => .done c.current.span c

/-- The least span from `start` to the token read last. -/
def spanFrom (start : Span) : Parser Span := fun c => .done (start.merge c.previous.span) c

/-- Gives up with an error about the next token. -/
def fail {α : Type} (message : String) : Parser α := fun c => .failed (c.reportHere message)

/-- Gives up with nothing to report. -/
def stop {α : Type} : Parser α := fun c => .failed c

/-- The next token, which is read. -/
def take : Parser Token := fun c => .done c.current c.advance

/-- A number for a new node. -/
def freshId : Parser NodeId := fun c => .done c.nextId { c with nextId := c.nextId + 1 }

/-- Reads the next token if it is of the given kind. -/
def accept (kind : TokenKind) : Parser Bool := fun c =>
  if c.kind = kind then .done true c.advance else .done false c

/-- Reads a token of the given kind, or gives up. -/
def expect (kind : TokenKind) (context : String) : Parser Span := fun c =>
  if c.kind = kind then .done c.current.span c.advance
  else .failed (c.reportHere ("Expected " ++ kind.description ++ " " ++ context))

/-- Reads a name, or gives up. -/
def expectName (context : String) : Parser String := fun c =>
  if c.kind = .identifier then .done c.current.lexeme c.advance
  else .failed (c.reportHere ("Expected identifier " ++ context))

/-- How deep forms may nest. -/
def maxDepth : Nat := 64

/-- Reads a nested form. Where the nesting is too deep the level is not left again. -/
def nested {α : Type} (p : Parser α) : Parser α := fun c =>
  let c := { c with depth := c.depth + 1 }
  if c.depth > maxDepth then
    .failed (c.reportHere
      ("Nesting depth exceeded (maximum " ++ toString maxDepth ++ " levels)"))
  else
    match p c with
    | .done a c => .done a { c with depth := c.depth - 1 }
    | .failed c => .failed { c with depth := c.depth - 1 }

end Parser

end KernelWeaver.Snippet
