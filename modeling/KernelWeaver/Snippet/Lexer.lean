import KernelWeaver.Diagnostic
import KernelWeaver.Fault
import KernelWeaver.Snippet.Token
import KernelWeaver.Text.Blank
import KernelWeaver.Text.WordChar
import KernelWeaver.TypeText

/-!
# Reading tokens

A source text is read from the front in lexemes: a lexeme is skipped, is a token, or has a flaw
that is reported. Every lexeme takes at least one character, and the lexemes of a text make up the
whole text.
-/

namespace KernelWeaver.Snippet

/-- What is wrong with a piece of source text. -/
inductive LexFlaw where
  | openComment
  | openString
  | noHexDigits
  | noExponentDigits
  | badNumber
  | unexpected
deriving DecidableEq, Repr

/-- The text of the error about a flawed lexeme. -/
def LexFlaw.message (flaw : LexFlaw) (lexeme : List Char) : String :=
  let quoted := " '" ++ String.ofList lexeme ++ "'"
  match flaw with
  | openComment => "Unterminated block comment"
  | openString => "Unterminated string literal"
  | noHexDigits => "Hexadecimal literal has no digits" ++ quoted
  | noExponentDigits => "Exponent has no digits" ++ quoted
  | badNumber => "Invalid numeric literal" ++ quoted
  | unexpected => "Unexpected character" ++ quoted

/-- What a lexeme amounts to. -/
inductive Reading where
  /-- A blank or a comment. -/
  | skip
  | token (kind : TokenKind)
  | flaw (flaw : LexFlaw)
deriving DecidableEq, Repr

/-- A piece read from the front of a text, and what follows it. -/
structure Lexeme where
  reading : Reading
  text : List Char
  rest : List Char

namespace Lexer

/-- Characters that may begin a name. -/
def isNameStart (c : Char) : Bool := c.isAlpha || c = '_'

/-- Hexadecimal digits. -/
def isHexDigit (c : Char) : Bool :=
  c.isDigit || ('a' ≤ c && c ≤ 'f') || ('A' ≤ c && c ≤ 'F')

/-- The longest run of characters with a property, and what follows it. -/
def run (p : Char → Bool) (cs : List Char) : List Char × List Char :=
  (cs.takeWhile p, cs.dropWhile p)

/-- At most one character with a property, and what follows it. -/
def atMostOne (p : Char → Bool) : List Char → List Char × List Char
  | [] => ([], [])
  | c :: cs => if p c then ([c], cs) else ([], c :: cs)

/-- The end of a number: no letter or digit may follow. -/
def endNumber (text cs : List Char) : Lexeme :=
  match run Text.isAsciiWord cs with
  | ([], _) => ⟨.token .number, text, cs⟩
  | (more, rest) => ⟨.flaw .badNumber, text ++ more, rest⟩

/-- A hexadecimal number; `text` is its mark. -/
def hexNumber (text cs : List Char) : Lexeme :=
  let (digits, rest) := run isHexDigit cs
  if digits.isEmpty then ⟨.flaw .noHexDigits, text, cs⟩
  else
    let (suffix, rest) := atMostOne (fun c => c = 'u' || c = 'U') rest
    endNumber (text ++ digits ++ suffix) rest

/-- A point and the digits behind it. -/
def fraction (cs : List Char) : List Char × List Char :=
  match atMostOne (· = '.') cs with
  | ([], _) => ([], cs)
  | (point, rest) =>
    let (digits, rest) := run Char.isDigit rest
    (point ++ digits, rest)

/-- The letter and the sign of an exponent. -/
def exponentMark (cs : List Char) : List Char × List Char :=
  match atMostOne (fun c => c = 'e' || c = 'E') cs with
  | ([], _) => ([], cs)
  | (letter, rest) =>
    let (sign, rest) := atMostOne (fun c => c = '+' || c = '-') rest
    (letter ++ sign, rest)

/-- A decimal number. -/
def decimalNumber (cs : List Char) : Lexeme :=
  let (whole, rest) := run Char.isDigit cs
  let (fraction, rest) := fraction rest
  let (mark, rest) := exponentMark rest
  let (exponent, rest) := if mark.isEmpty then ([], rest) else run Char.isDigit rest
  let text := whole ++ fraction ++ mark ++ exponent
  if !mark.isEmpty && exponent.isEmpty then ⟨.flaw .noExponentDigits, text, rest⟩
  else
    let isFloat := !(fraction.isEmpty && mark.isEmpty)
    let (suffix, rest) :=
      atMostOne (fun c => if isFloat then c = 'f' || c = 'F' else c = 'u' || c = 'U') rest
    endNumber (text ++ suffix) rest

/-- A number. -/
def number (cs : List Char) : Lexeme :=
  match cs with
  | '0' :: x :: rest =>
    if x = 'x' || x = 'X' then hexNumber ['0', x] rest else decimalNumber cs
  | _ => decimalNumber cs

/-- What follows the opening quote of a string. A backslash takes the next character with it,
whatever it is; one at the end of the text has nothing to take. -/
def stringBody : List Char → Checked Lexeme
  | [] => .ok ⟨.flaw .openString, [], []⟩
  | '\n' :: rest => .ok ⟨.flaw .openString, [], '\n' :: rest⟩
  | '"' :: rest => .ok ⟨.token .string, ['"'], rest⟩
  | ['\\'] => .error .outOfRange
  | '\\' :: c :: rest =>
    (stringBody rest).map fun body => { body with text := '\\' :: c :: body.text }
  | c :: rest => (stringBody rest).map fun body => { body with text := c :: body.text }

/-- What follows the opening mark of a block comment. -/
def commentBody : List Char → Lexeme
  | [] => ⟨.flaw .openComment, [], []⟩
  | '*' :: '/' :: rest => ⟨.skip, ['*', '/'], rest⟩
  | c :: rest =>
    let body := commentBody rest
    { body with text := c :: body.text }

/-- A word: a keyword, a type or a name. -/
def word (aliases : Aliases) (cs : List Char) : Lexeme :=
  let (text, rest) := run Text.isAsciiWord cs
  let spelling := String.ofList text
  let kind :=
    match TokenKind.ofWord? spelling with
    | some kind => kind
    | none => if Table.has aliases spelling then .typeSpecifier else .identifier
  ⟨.token kind, text, rest⟩

/-- The symbol at the front of a text. -/
def symbol? (cs : List Char) : Option (String × TokenKind) :=
  TokenKind.symbols.find? fun (spelling, _) => spelling.toList.isPrefixOf cs

/-- A symbol, or a character that begins nothing. -/
def symbol (c : Char) (cs : List Char) : Lexeme :=
  match symbol? (c :: cs) with
  | some (spelling, kind) =>
    let n := spelling.toList.length - 1
    ⟨.token kind, c :: cs.take n, cs.drop n⟩
  | none => ⟨.flaw .unexpected, [c], cs⟩

/-- The lexeme at the front of a text whose first character is `c`. -/
def lexeme (aliases : Aliases) (c : Char) (cs : List Char) : Checked Lexeme :=
  if Text.isAsciiBlank c then .ok ⟨.skip, [c], cs⟩
  else if isNameStart c then .ok (word aliases (c :: cs))
  else if c.isDigit || (c = '.' && cs.head?.any Char.isDigit) then .ok (number (c :: cs))
  else if c = '"' then (stringBody cs).map fun body => { body with text := c :: body.text }
  else if c = '/' && cs.head? = some '/' then
    .ok ⟨.skip, c :: cs.takeWhile (· != '\n'), cs.dropWhile (· != '\n')⟩
  else if c = '/' && cs.head? = some '*' then
    let body := commentBody (cs.drop 1)
    .ok { body with text := c :: '*' :: body.text }
  else .ok (symbol c cs)

/-! ### Every lexeme is a non-empty piece of the text -/

theorem run_append (p : Char → Bool) (cs : List Char) : (run p cs).1 ++ (run p cs).2 = cs :=
  List.takeWhile_append_dropWhile

theorem atMostOne_append (p : Char → Bool) (cs : List Char) :
    (atMostOne p cs).1 ++ (atMostOne p cs).2 = cs := by
  cases cs with
  | nil => rfl
  | cons c cs => by_cases h : p c = true <;> simp [atMostOne, h]

theorem endNumber_append (text cs : List Char) :
    (endNumber text cs).text ++ (endNumber text cs).rest = text ++ cs := by
  have h := run_append Text.isAsciiWord cs
  unfold endNumber
  split
  · rfl
  · next more rest _ heq => simp_all

theorem hexNumber_append (text cs : List Char) :
    (hexNumber text cs).text ++ (hexNumber text cs).rest = text ++ cs := by
  have h := run_append isHexDigit cs
  have hs := atMostOne_append (fun c => c = 'u' || c = 'U') (run isHexDigit cs).2
  simp only [hexNumber]
  split
  · rfl
  · rw [endNumber_append, List.append_assoc, hs, List.append_assoc, h]

theorem fraction_append (cs : List Char) : (fraction cs).1 ++ (fraction cs).2 = cs := by
  have h := atMostOne_append (· = '.') cs
  unfold fraction
  split
  · rfl
  · next point rest _ heq =>
    have hr := run_append Char.isDigit rest
    simp_all

theorem exponentMark_append (cs : List Char) :
    (exponentMark cs).1 ++ (exponentMark cs).2 = cs := by
  have h := atMostOne_append (fun c => c = 'e' || c = 'E') cs
  unfold exponentMark
  split
  · rfl
  · next letter rest _ heq =>
    have hr := atMostOne_append (fun c => c = '+' || c = '-') rest
    simp_all

theorem decimalNumber_append (cs : List Char) :
    (decimalNumber cs).text ++ (decimalNumber cs).rest = cs := by
  have hw := run_append Char.isDigit cs
  have hf := fraction_append (run Char.isDigit cs).2
  have hm := exponentMark_append (fraction (run Char.isDigit cs).2).2
  have he := run_append Char.isDigit (exponentMark (fraction (run Char.isDigit cs).2).2).2
  unfold decimalNumber
  by_cases h : (exponentMark (fraction (run Char.isDigit cs).2).2).1.isEmpty = true
  · simp only [h, if_true, Bool.not_true, Bool.false_and, Bool.false_eq_true, if_false]
    rw [endNumber_append, List.append_assoc _ (atMostOne _ _).1, atMostOne_append]
    simp_all
  · simp only [h, Bool.false_eq_true, if_false]
    split
    · simp_all
    · rw [endNumber_append, List.append_assoc _ (atMostOne _ _).1, atMostOne_append]
      simp_all

theorem number_append (cs : List Char) : (number cs).text ++ (number cs).rest = cs := by
  unfold number
  split
  · split
    · rw [hexNumber_append]; rfl
    · exact decimalNumber_append _
  · exact decimalNumber_append _

theorem stringBody_append {cs : List Char} {l : Lexeme} (h : stringBody cs = .ok l) :
    l.text ++ l.rest = cs := by
  fun_induction stringBody cs generalizing l with
  | case1 => cases h; rfl
  | case2 => cases h; rfl
  | case3 => cases h; rfl
  | case4 => cases h
  | case5 c rest ih =>
    cases hb : stringBody rest with
    | error e => rw [hb] at h; cases h
    | ok body => rw [hb] at h; cases h; simp [ih hb]
  | case6 c rest _ _ _ _ ih =>
    cases hb : stringBody rest with
    | error e => rw [hb] at h; cases h
    | ok body => rw [hb] at h; cases h; simp [ih hb]

theorem commentBody_append (cs : List Char) :
    (commentBody cs).text ++ (commentBody cs).rest = cs := by
  fun_induction commentBody cs with
  | case1 => rfl
  | case2 => rfl
  | case3 c rest body _ ih => simpa [body] using ih

theorem symbol_append (c : Char) (cs : List Char) :
    (symbol c cs).text ++ (symbol c cs).rest = c :: cs := by
  unfold symbol
  split <;> simp

/-- A lexeme and what follows it make up the text. -/
theorem lexeme_append {aliases : Aliases} {c : Char} {cs : List Char} {l : Lexeme}
    (h : lexeme aliases c cs = .ok l) : l.text ++ l.rest = c :: cs := by
  unfold lexeme at h
  split at h
  · cases h; rfl
  split at h
  · cases h; exact run_append _ _
  split at h
  · cases h; exact number_append _
  split at h
  · cases hb : stringBody cs with
    | error e => rw [hb] at h; cases h
    | ok body => rw [hb] at h; cases h; simp [stringBody_append hb]
  split at h
  · cases h; simp
  split at h
  · next hc =>
    cases h
    cases cs with
    | nil => simp at hc
    | cons d ds => simp_all [commentBody_append]
  · cases h; exact symbol_append c cs

theorem endNumber_text_ne_nil {text : List Char} (h : text ≠ []) (cs : List Char) :
    (endNumber text cs).text ≠ [] := by
  unfold endNumber
  split <;> simp [h]

theorem hexNumber_text_ne_nil {text : List Char} (h : text ≠ []) (cs : List Char) :
    (hexNumber text cs).text ≠ [] := by
  simp only [hexNumber]
  split
  · exact h
  · exact endNumber_text_ne_nil (by simp [h]) _

theorem decimalNumber_text_ne_nil {c : Char} {cs : List Char}
    (h : c.isDigit = true ∨ c = '.') : (decimalNumber (c :: cs)).text ≠ [] := by
  have key :
      (run Char.isDigit (c :: cs)).1 ++ (fraction (run Char.isDigit (c :: cs)).2).1 ≠ [] := by
    rcases h with h | rfl
    · simp [run, h]
    · simp [run, fraction, atMostOne]
  have more {text : List Char}
      (h : text = [] → (run Char.isDigit (c :: cs)).1 ++
        (fraction (run Char.isDigit (c :: cs)).2).1 = []) : text ≠ [] :=
    fun hn => key (h hn)
  unfold decimalNumber
  by_cases hm : (exponentMark (fraction (run Char.isDigit (c :: cs)).2).2).1.isEmpty = true
  · simp only [hm, if_true, Bool.not_true, Bool.false_and, Bool.false_eq_true, if_false]
    exact endNumber_text_ne_nil (more fun hn => by simp at hn; simp [hn]) _
  · simp only [hm, Bool.false_eq_true, if_false]
    split
    · exact more fun hn => by simp at hn; simp [hn]
    · exact endNumber_text_ne_nil (more fun hn => by simp at hn; simp [hn]) _

theorem number_text_ne_nil {c : Char} {cs : List Char} (h : c.isDigit = true ∨ c = '.') :
    (number (c :: cs)).text ≠ [] := by
  unfold number
  split
  · split
    · exact hexNumber_text_ne_nil (by simp) _
    · exact decimalNumber_text_ne_nil h
  · exact decimalNumber_text_ne_nil h

/-- A lexeme is not empty. -/
theorem lexeme_text_ne_nil {aliases : Aliases} {c : Char} {cs : List Char} {l : Lexeme}
    (h : lexeme aliases c cs = .ok l) : l.text ≠ [] := by
  unfold lexeme at h
  split at h
  · cases h; simp
  split at h
  · next hc =>
    cases h
    have : Text.isAsciiWord c = true := by
      simp only [isNameStart, Bool.or_eq_true] at hc
      simp only [Text.isAsciiWord, Char.isAlphanum, Bool.or_eq_true]
      exact hc.imp_left Or.inl
    simp [word, run, this]
  split at h
  · next hc =>
    cases h
    exact number_text_ne_nil (by simp at hc; exact hc.imp_right And.left)
  split at h
  · cases hb : stringBody cs with
    | error e => rw [hb] at h; cases h
    | ok body => rw [hb] at h; cases h; simp
  split at h
  · cases h; simp
  split at h
  · cases h; simp
  · cases h
    unfold symbol
    split <;> simp

/-- What follows a lexeme is shorter than the text it was read from. -/
theorem length_rest_lt {aliases : Aliases} {c : Char} {cs : List Char} {l : Lexeme}
    (h : lexeme aliases c cs = .ok l) : l.rest.length < (c :: cs).length := by
  have hne := List.length_pos_iff.2 (lexeme_text_ne_nil h)
  rw [← lexeme_append h, List.length_append]
  omega

end Lexer

/-- A place in a source text: the number of bytes before it and its line, counted from one. -/
structure Place where
  offset : Nat
  line : Nat

namespace Place

/-- The place where a text begins. -/
def start : Place := ⟨0, 1⟩

/-- The place behind a lexeme. Lines are counted in blanks and comments only: a line feed that a
string takes in does not count. -/
def after (place : Place) (l : Lexeme) : Place :=
  let offset := place.offset + Text.byteLength l.text
  match l.reading with
  | .skip | .flaw .openComment => ⟨offset, place.line + Text.lineFeeds l.text⟩
  | _ => ⟨offset, place.line⟩

/-- The span of a lexeme that begins here. -/
def spanOf (place : Place) (l : Lexeme) : Span :=
  ⟨place.offset, place.offset + Text.byteLength l.text, place.line⟩

end Place

/-- The tokens of a text and what was wrong with it. -/
structure Scan where
  tokens : List Token
  report : Report

namespace Scan

/-- A lexeme put before what was read behind it. -/
def add (place : Place) (l : Lexeme) (scan : Scan) : Scan :=
  let span := place.spanOf l
  match l.reading with
  | .skip => scan
  | .token kind => { scan with tokens := ⟨kind, String.ofList l.text, span⟩ :: scan.tokens }
  | .flaw flaw => { scan with report := .error span (flaw.message l.text) :: scan.report }

/-- Reads the text that begins at a place. -/
def read (aliases : Aliases) (place : Place) : List Char → Checked Scan
  | [] => .ok ⟨[⟨.endOfInput, "", ⟨place.offset, place.offset, place.line⟩⟩], []⟩
  | c :: cs =>
    match _h : Lexer.lexeme aliases c cs with
    | .error fault => .error fault
    | .ok l => (read aliases (place.after l) l.rest).map (add place l)
termination_by cs => cs.length
decreasing_by exact Lexer.length_rest_lt ‹_›

/-- Reads a whole text. The last token, and only the last, is the end of input. -/
def ofSource (aliases : Aliases) (source : String) : Checked Scan :=
  read aliases .start source.toList

end Scan

end KernelWeaver.Snippet
