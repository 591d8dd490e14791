/-!
# Blanks and lines

Blank characters, trimming, the division of a text into lines and blank-separated words, and the
digits of numbers.
-/

namespace KernelWeaver.Text

/-- The blanks between tokens: space, tab, line feed, form feed and carriage return. -/
def isAsciiBlank (c : Char) : Bool :=
  c = ' ' || c = '\t' || c = '\n' || c = '\x0c' || c = '\r'

/-- Characters with the `White_Space` property. -/
def isBlank (c : Char) : Bool :=
  let n := c.toNat
  (0x09 ≤ n && n ≤ 0x0D) || n = 0x20 || n = 0x85 || n = 0xA0 || n = 0x1680 ||
    (0x2000 ≤ n && n ≤ 0x200A) || n = 0x2028 || n = 0x2029 || n = 0x202F || n = 0x205F ||
    n = 0x3000

theorem isBlank_of_isAsciiBlank {c : Char} (h : isAsciiBlank c = true) : isBlank c = true := by
  simp only [isAsciiBlank, Bool.or_eq_true, decide_eq_true_eq] at h
  rcases h with (((rfl | rfl) | rfl) | rfl) | rfl <;> decide

/-- `cs` without the characters at its end that satisfy `p`. -/
def dropTrailing (p : Char → Bool) (cs : List Char) : List Char :=
  (cs.reverse.dropWhile p).reverse

/-- `cs` without the characters at both ends that satisfy `p`. -/
def trimBy (p : Char → Bool) (cs : List Char) : List Char :=
  dropTrailing p (cs.dropWhile p)

/-- `text` without blanks at both ends. -/
def trim (text : String) : String :=
  String.ofList (trimBy isBlank text.toList)

/-- `text` without blanks at its end. -/
def trimEnd (text : String) : String :=
  String.ofList (dropTrailing isBlank text.toList)

/-- `text` without double quotes at both ends. -/
def unquote (text : String) : String :=
  String.ofList (trimBy (· = '"') text.toList)

/-- The pieces of `cs` between occurrences of `separator`; there is always at least one. -/
def pieces (separator : Char) : List Char → List (List Char)
  | [] => [[]]
  | c :: cs =>
    if c = separator then [] :: pieces separator cs
    else
      match pieces separator cs with
      | [] => [[c]]
      | first :: rest => (c :: first) :: rest

/-- The pieces of `text` between line feeds. -/
def rawLines (text : String) : List String :=
  (pieces '\n' text.toList).map String.ofList

/-- The lines among the `pieces` of a text between line feeds: a carriage return right before a
line feed belongs to the line's end, and an empty last piece is no line. -/
def endedLines : List (List Char) → List (List Char)
  | [] => []
  | [last] => if last.isEmpty then [] else [last]
  | line :: rest =>
    (if line.getLast? = some '\r' then line.dropLast else line) :: endedLines rest

/-- The lines of `text`. -/
def lines (text : String) : List String :=
  (endedLines (pieces '\n' text.toList)).map String.ofList

/-- The words of `text` between blanks. -/
def words (text : String) : List String :=
  ((pieces ' ' (text.toList.map fun c => if isBlank c then ' ' else c)).filter
    (! ·.isEmpty)).map String.ofList

/-- Whether `part` occurs in `cs`. -/
def occursIn (part : List Char) : List Char → Bool
  | [] => part.isEmpty
  | c :: cs => part.isPrefixOf (c :: cs) || occursIn part cs

/-- Whether `part` occurs in `text`. -/
def contains (text part : String) : Bool :=
  occursIn part.toList text.toList

/-- The number of bytes that encode `cs`. -/
def byteLength : List Char → Nat
  | [] => 0
  | c :: cs => c.utf8Size + byteLength cs

/-- The number of line feeds in `cs`. -/
def lineFeeds (cs : List Char) : Nat :=
  cs.count '\n'

/-- `parts` with `separator` between neighbours. -/
def join (separator : String) (parts : List String) : String :=
  String.intercalate separator parts

/-- A number is written in digits. -/
theorem isDigit_of_mem_toString {n : Nat} {c : Char} (hc : c ∈ (toString n).toList) :
    c.isDigit = true := by
  rw [Nat.toString_eq_repr, Nat.toList_repr] at hc
  exact Nat.isDigit_of_mem_toDigits (by decide) (by decide) hc

/-- The digits tell the number. -/
theorem eq_of_toList_toString_eq {m n : Nat} (h : (toString m).toList = (toString n).toList) :
    m = n := by
  rw [Nat.toString_eq_repr, Nat.toString_eq_repr, Nat.toList_repr, Nat.toList_repr] at h
  have hread := congrArg (Nat.ofDigitChars 10 · 0) h
  rwa [Nat.ofDigitChars_toDigits (by decide) (by decide),
    Nat.ofDigitChars_toDigits (by decide) (by decide)] at hread

end KernelWeaver.Text
