import KernelWeaver.Text.Blank

/-!
# Code streams

A code stream collects lines of code and indents each by the number of braces open before it. A
finished block can be appended to another stream as a whole: it is shifted to the depth of that
stream, and its braces do not count again.
-/

namespace KernelWeaver.Code

/-- Lines of code, each as indented, and the number of open braces behind them. -/
structure CodeStream where
  lines : List String
  depth : Nat
deriving DecidableEq, Repr, Inhabited

namespace CodeStream

/-- No code. -/
def empty : CodeStream := ⟨[], 0⟩

/-- Whether no line has been written. -/
def isEmpty (s : CodeStream) : Bool := s.lines.isEmpty

/-- The text of all lines. -/
def text (s : CodeStream) : String :=
  String.join (s.lines.map (· ++ "\n"))

/-- The blanks in front of a line at a depth. -/
def indent (depth : Nat) : String :=
  String.ofList (List.replicate (4 * depth) ' ')

/-- Writes an empty line. -/
def blank (s : CodeStream) : CodeStream :=
  { s with lines := s.lines ++ [""] }

/-- The depth at which a line is written and the depth behind it. A brace that closes at the front
of a line counts for that line itself. -/
def depths (depth : Nat) (line : List Char) : Nat × Nat :=
  let opened := line.count '\x7b'
  let closed := line.count '\x7d'
  if line.head? = some '\x7d' then
    (depth - 1, depth - 1 + opened - (closed - 1))
  else (depth, depth + opened - closed)

/-- Writes a text without line feeds as one line. -/
def writeLine (s : CodeStream) (line : String) : CodeStream :=
  let trimmed := Text.trim line
  if trimmed.isEmpty then s.blank
  else
    let (here, after) := depths s.depth trimmed.toList
    ⟨s.lines ++ [indent here ++ trimmed], after⟩

/-- Writes the lines of a text. -/
def line (s : CodeStream) (text : String) : CodeStream :=
  (Text.rawLines text).foldl writeLine s

/-- Writes several texts, each on lines of its own. -/
def writeAll (s : CodeStream) (texts : List String) : CodeStream :=
  texts.foldl line s

/-- A line of a block shifted to a depth. -/
def shifted (depth : Nat) (line : String) : String :=
  if (Text.trim line).isEmpty then "" else indent depth ++ line

/-- Appends a finished block, shifted to the depth of the stream. -/
def appendBlock (s : CodeStream) (block : String) : CodeStream :=
  { s with lines := s.lines ++ (Text.lines block).map (shifted s.depth) }

@[simp] theorem depth_blank (s : CodeStream) : s.blank.depth = s.depth := rfl

@[simp] theorem depth_appendBlock (s : CodeStream) (block : String) :
    (s.appendBlock block).depth = s.depth := rfl

theorem text_append (xs ys : List String) (d : Nat) :
    text ⟨xs ++ ys, d⟩ = text ⟨xs, d⟩ ++ text ⟨ys, d⟩ := by
  simp [text, String.join_append]

end CodeStream

end KernelWeaver.Code
