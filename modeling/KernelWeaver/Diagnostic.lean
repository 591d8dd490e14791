import KernelWeaver.Span

/-!
# Diagnostics

What is wrong with a snippet. All stages of compiling one snippet add to the same report, which
keeps the diagnostics in the order in which they were found.
-/

namespace KernelWeaver

/-- How grave a diagnostic is. -/
inductive Severity where
  | error
  | warning
deriving DecidableEq, Repr, Inhabited

/-- A remark about a place in a snippet. -/
structure Diagnostic where
  severity : Severity
  message : String
  span : Span
  notes : List String
  help : Option String
deriving DecidableEq, Repr, Inhabited

namespace Diagnostic

/-- An error without notes. -/
def error (span : Span) (message : String) : Diagnostic :=
  ⟨.error, message, span, [], none⟩

/-- A warning without notes. -/
def warning (span : Span) (message : String) : Diagnostic :=
  ⟨.warning, message, span, [], none⟩

/-- The diagnostic with one more note. -/
def withNote (d : Diagnostic) (note : String) : Diagnostic :=
  { d with notes := d.notes ++ [note] }

/-- The diagnostic with advice. -/
def withHelp (d : Diagnostic) (help : String) : Diagnostic :=
  { d with help := some help }

end Diagnostic

/-- The diagnostics of one snippet in the order in which they were found. -/
abbrev Report := List Diagnostic

/-- Whether a report holds an error. -/
def Report.hasError (report : Report) : Bool :=
  report.any (·.severity = .error)

end KernelWeaver
