import KernelWeaver.Code.RowLoop
import KernelWeaver.Printing.Expr

/-!
# Printing statements

Statements are printed into the innermost scope, line by line. The body of a control statement is
always put between braces. While statements are printed, the names declared so far are known, the
innermost first.
-/

namespace KernelWeaver.Printing

open Code Snippet Typing

/-- The base type of a declared name and the star in front of it. -/
def declaredType (t : CType) (star : Option PointerMark) : String × String :=
  match star, t.target? with
  | some star, some target => (target.name, if star.isConst then "* const" else "*")
  | _, _ => (t.name, "")

/-- The text of a declared name with its initialiser, behind its base type where that is wanted, and
the names then known. The name is known to its own initialiser. -/
def printDeclarator (types : NodeTypes) (locals : List String) (withBase : Bool)
    (d : Declarator) : Emit (String × List String) := do
  match types.find? d.id with
  | none => Emit.fail (.untypedDeclaration d.name)
  | some t =>
    let known := d.name :: locals
    let init ←
      match d.init with
      | none => pure ""
      | some e => do
        let a ← printExpr types known e
        pure (" = " ++ a)
    let (base, star) := declaredType t d.pointer
    let name := localName d.name ++ init
    if withBase then return (base ++ star ++ " " ++ name, known)
    else return (star ++ name, known)

/-- Prints the declarations of several names, each as a statement. -/
def printDeclarations (types : NodeTypes) :
    List String → List Declarator → Emit (List String)
  | locals, [] => pure locals
  | locals, d :: ds => do
    let (text, locals) ← printDeclarator types locals true d
    Emit.line (text ++ ";")
    printDeclarations types locals ds

/-- The texts of several declared names, the first behind the base type if `withBase` holds. -/
def declaratorTexts (types : NodeTypes) :
    Bool → List String → List Declarator → Emit (List String × List String)
  | _, locals, [] => pure ([], locals)
  | withBase, locals, d :: ds => do
    let (text, locals) ← printDeclarator types locals withBase d
    let (more, locals) ← declaratorTexts types false locals ds
    return (text :: more, locals)

/-- The first part of the head of a loop, and the names then known. -/
def printForInit (types : NodeTypes) (locals : List String) :
    Option Stmt → Emit (String × List String)
  | some (.declare _ _ names) => do
    let (texts, locals) ← declaratorTexts types true locals names
    return (Text.join ", " texts, locals)
  | some (.expr _ (some e)) => do
    let text ← printExpr types locals e
    return (text, locals)
  | _ => pure ("", locals)

/-- The text of an expression that may be left out. -/
def printOptional (types : NodeTypes) (locals : List String) : Option Expr → Emit String
  | none => pure ""
  | some e => printExpr types locals e

/-- The conversion that prints a value. -/
def formatOf (t : CType) : String :=
  match t.numeric? with
  | some n => n.printFormat
  | none => "%s"

/-- Runs between braces that stand on lines of their own. -/
def braced {α : Type} (m : Emit α) : Emit Unit := do
  Emit.line "\x7b"
  let _ ← m
  Emit.line "\x7d"

mutual

/-- Prints a statement, and gives the names known behind it. -/
def printStmt (types : NodeTypes) (loop : Option RowLoop) (locals : List String) :
    Stmt → Emit (List String)
  | .expr _ none => do
    Emit.line ";"
    return locals
  | .expr _ (some e) => do
    let text ← printExpr types locals e
    Emit.line (text ++ ";")
    return locals
  | .block _ items => do
    braced (printStmts types loop locals items)
    return locals
  | .declare _ _ names => printDeclarations types locals names
  | .ifElse _ condition yes no => do
    let c ← printExpr types locals condition
    Emit.line ("if(" ++ c ++ ")")
    printBody types loop locals yes
    match no with
    | none => return locals
    | some no =>
      Emit.line "else"
      printBody types loop locals no
      return locals
  | .whileLoop _ condition body => do
    let c ← printExpr types locals condition
    Emit.line ("while(" ++ c ++ ")")
    printBody types loop locals body
    return locals
  | .doLoop _ body condition => do
    Emit.line "do"
    printBody types loop locals body
    let c ← printExpr types locals condition
    Emit.line ("while(" ++ c ++ ");")
    return locals
  | .forLoop _ init condition step body => do
    let (i, known) ← printForInit types locals init
    let c ← printOptional types known condition
    let s ← printOptional types known step
    Emit.line ("for(" ++ i ++ "; " ++ c ++ "; " ++ s ++ ")")
    printBody types loop known body
    return locals
  | .switch _ condition body => do
    let c ← printExpr types locals condition
    Emit.line ("switch(" ++ c ++ ")")
    printBody types loop locals body
    return locals
  | .caseLabel _ value body => do
    let v ← printExpr types locals value
    Emit.line ("case " ++ v ++ ":")
    printStmt types loop locals body
  | .defaultLabel _ body => do
    Emit.line "default:"
    printStmt types loop locals body
  | .breakLoop _ => do
    Emit.line "break;"
    return locals
  | .continueLoop _ => do
    Emit.line "continue;"
    return locals
  | .print _ value => do
    let t ← typeOf types value.id
    let v ← printExpr types locals value
    Emit.line ("printf(\"" ++ formatOf t ++ "\\n\", " ++ v ++ ");")
    return locals
  | .eachSynapse _ body =>
    match loop with
    | none => Emit.fail (.undefinedName "for_each_synapse")
    | some l => l.emit (printStmt types none locals body)

/-- Prints the body of a control statement between braces. -/
def printBody (types : NodeTypes) (loop : Option RowLoop) (locals : List String) :
    Stmt → Emit Unit
  | .block _ items => braced (printStmts types loop locals items)
  | s => braced (printStmt types loop locals s)

/-- Prints statements in order, and gives the names known behind them. -/
def printStmts (types : NodeTypes) (loop : Option RowLoop) (locals : List String) :
    List Stmt → Emit (List String)
  | [] => pure locals
  | s :: rest => do
    let locals ← printStmt types loop locals s
    printStmts types loop locals rest

end

end KernelWeaver.Printing
