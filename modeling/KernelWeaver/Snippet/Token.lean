import KernelWeaver.Span

/-!
# Tokens of the snippet language

The kinds of tokens with the spellings of symbols and keywords, and tokens as pieces of a source.
-/

namespace KernelWeaver.Snippet

/-- A kind of token. -/
inductive TokenKind where
  | leftParen | rightParen | leftBrace | rightBrace | leftBracket | rightBracket
  | comma | colon | semicolon | question | tilde
  | not | notEqual | equal | equalEqual
  | greater | greaterEqual | shiftRight | shiftRightEqual
  | less | lessEqual | shiftLeft | shiftLeftEqual
  | plus | plusEqual | plusPlus | minus | minusEqual | minusMinus
  | star | starEqual | slash | slashEqual | percent | percentEqual
  | ampersand | ampersandEqual | ampersandAmpersand
  | pipe | pipeEqual | pipePipe | caret | caretEqual
  | identifier | number | string | typeSpecifier | typeQualifier
  | doWord | elseWord | falseWord | forWord | forEachSynapse | ifWord | trueWord | whileWord
  | printWord | switchWord | continueWord | breakWord | caseWord | defaultWord
  | endOfInput
deriving DecidableEq, Repr, Inhabited

namespace TokenKind

/-- The spellings of symbols. A spelling that continues another one stands before it. -/
def symbols : List (String × TokenKind) :=
  [("<<=", shiftLeftEqual), (">>=", shiftRightEqual),
    ("<<", shiftLeft), (">>", shiftRight), ("<=", lessEqual), (">=", greaterEqual),
    ("==", equalEqual), ("!=", notEqual), ("++", plusPlus), ("+=", plusEqual),
    ("--", minusMinus), ("-=", minusEqual), ("*=", starEqual), ("/=", slashEqual),
    ("%=", percentEqual), ("&&", ampersandAmpersand), ("&=", ampersandEqual),
    ("||", pipePipe), ("|=", pipeEqual), ("^=", caretEqual),
    ("(", leftParen), (")", rightParen), ("\x7b", leftBrace), ("\x7d", rightBrace),
    ("[", leftBracket), ("]", rightBracket), (",", comma), (":", colon), (";", semicolon),
    ("?", question), ("~", tilde), ("!", not), ("=", equal), ("<", less), (">", greater),
    ("+", plus), ("-", minus), ("*", star), ("/", slash), ("%", percent), ("&", ampersand),
    ("|", pipe), ("^", caret)]

/-- The words with a meaning of their own. -/
def keywords : List (String × TokenKind) :=
  [("do", doWord), ("else", elseWord), ("false", falseWord), ("for", forWord),
    ("for_each_synapse", forEachSynapse), ("if", ifWord), ("true", trueWord),
    ("while", whileWord), ("print", printWord), ("switch", switchWord),
    ("continue", continueWord), ("break", breakWord), ("case", caseWord),
    ("default", defaultWord)]

/-- The words that spell built-in numeric types. -/
def specifiers : List String :=
  ["bool", "char", "short", "int", "signed", "unsigned", "float", "double"]

/-- The kind of a word that is no name. -/
def ofWord? (word : String) : Option TokenKind :=
  if word = "const" then some typeQualifier
  else if specifiers.contains word then some typeSpecifier
  else keywords.lookup word

/-- The one spelling of a symbol or keyword. -/
def spelling? (kind : TokenKind) : Option String :=
  ((symbols ++ keywords).find? fun (_, other) => other = kind).map Prod.fst

/-- The kind in the words of an error message. -/
def description (kind : TokenKind) : String :=
  match kind.spelling? with
  | some spelling => "'" ++ spelling ++ "'"
  | none =>
    match kind with
    | number => "number"
    | string => "string literal"
    | typeSpecifier => "type specifier"
    | typeQualifier => "type qualifier"
    | endOfInput => "end of input"
    | _ => "identifier"

/-- Whether the kind is an assignment operator, simple or compound. -/
def isAssignment : TokenKind → Bool
  | equal | starEqual | slashEqual | percentEqual | plusEqual | minusEqual | ampersandEqual
  | caretEqual | pipeEqual | shiftLeftEqual | shiftRightEqual => true
  | _ => false

/-- Whether a type can begin with the kind. -/
def startsType : TokenKind → Bool
  | typeSpecifier | typeQualifier => true
  | _ => false

end TokenKind

/-- A piece of a source text. -/
structure Token where
  kind : TokenKind
  lexeme : String
  span : Span
deriving DecidableEq, Repr, Inhabited

end KernelWeaver.Snippet
