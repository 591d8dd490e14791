import KernelWeaver.Printing.Stmt
import KernelWeaver.Snippet.Lexer
import KernelWeaver.Snippet.StmtParser
import KernelWeaver.Typing.Stmt

/-!
# Compiling snippets

A snippet is read, checked against the names of the scopes around it, and printed into the innermost
of them. Code is printed only if nothing is wrong with the snippet.
-/

namespace KernelWeaver

open Code Snippet Typing

/-- Rejects a snippet if its report holds an error. -/
def rejectIf (label : String) (report : Report) : Emit Unit :=
  if report.hasError then Emit.fail (.rejected label report) else pure ()

/-- The tokens of a snippet without errors, and the report. -/
def readTokens (aliases : Aliases) (label source : String) : Emit (List Token × Report) := do
  let scan ← Attempt.ofChecked (Scan.ofSource aliases source)
  rejectIf label scan.report
  return (scan.tokens, scan.report)

/-- The setting in which a snippet is checked against a chain of scopes. -/
def settingIn (aliases : Aliases) (chain : Chain)
    (synapseNames : Option (List (String × CType))) : Setting :=
  ⟨chain.typesOf, aliases, synapseNames⟩

/-- Compiles a snippet into the innermost scope. The label names the snippet in errors. Where loops
over synapses are allowed, `loop` is how they are emitted. -/
def compileSnippet (aliases : Aliases) (loop : Option RowLoop) (label source : String) :
    Emit Unit := do
  let (tokens, report) ← readTokens aliases label source
  let (statements, parsing) := parseItems tokens
  let report := report ++ parsing
  rejectIf label report
  let setting := settingIn aliases (← get) (loop.map RowLoop.names)
  let checker := checkSnippet setting statements
  rejectIf label (report ++ checker.report)
  let _ ← Printing.printStmts checker.types loop [] statements

/-- Compiles an expression to its text. -/
def compileExpr (aliases : Aliases) (label source : String) : Emit String := do
  let (tokens, report) ← readTokens aliases label source
  match parseExpr tokens with
  | (none, parsing) => Emit.fail (.rejected label (report ++ parsing))
  | (some e, parsing) =>
    let setting := settingIn aliases (← get) none
    let (_, checker) := checkExpr setting e
    rejectIf label (report ++ parsing ++ checker.report)
    Printing.printExpr checker.types [] e

end KernelWeaver
