import KernelWeaver.Proofs.Code.Logged

/-!
# Scripts

A script is what is done with a scope from its opening to its flush: names are bound and looked up,
code is written, and other scopes are opened inside, each with a script of its own. The account of a
script holds what is written to the scopes and what is noted of each of them.
-/

namespace KernelWeaver.Code

namespace Emit

/-- Goes on after an error. -/
def regardless (m : Emit Unit) : Emit Unit :=
  ExceptT.mk fun c => (.ok (), (m.runOn c).2)

/-- Runs in a scope of its own, over a struct or not. -/
def within (fields : Option StructFields) (m : Emit Unit) : Emit Unit :=
  match fields with
  | none => inScope m
  | some fields => do
    let _ ← inStruct fields m

end Emit

/-- Runs in a scope of its own. What is noted of that scope is set apart, and the rest added to the
log. -/
def Logged.within {α : Type} (fields : Option StructFields) (m : Logged α) :
    Logged (List Use × α) := fun log => do
  let level := (← get).scopes.length
  modify (·.push (.empty fields))
  let (a, new) ← Emit.afterwards (m []) Chain.pop
  return ((Log.usesAt new level, a), log ++ new.filter (·.1 ≠ level))

/-- What is done with the innermost scope. -/
inductive Act where
  /-- Binds a name, unless it is bound. -/
  | bind (name : String) (binding : Binding)
  | overload (name : String) (type : CType) (template : String)
  | initialiser (template : String)
  | lookUp (name : String) (wanted : Option CType)
  /-- Looks up what a template refers to. -/
  | expand (template : String)
  | expandLine (template : String)
  | line (text : String)
  | blank
  | append (block : String)

/-- A sequence of acts and of scripts of scopes inside. -/
inductive Script where
  | done
  | act (a : Act) (rest : Script)
  | inside (fields : Option StructFields) (child rest : Script)

/-- What comes of a script: lines that are written, and for a scope inside its uses and its own
account. -/
inductive Account where
  | nothing
  | lines (ls : List String) (rest : Account)
  | scope (uses : List Use) (child rest : Account)

namespace Act

/-- Does the act. Only a lookup can end with an error. -/
def run : Act → Emit Unit
  | bind name binding => Emit.regardless (Emit.changeScope (·.bind name binding))
  | overload name type template => Emit.overload name type template
  | initialiser template => do
    let _ ← Emit.addInitialiser template
  | lookUp name wanted => do
    let _ ← Emit.resolve name wanted
  | expand template => do
    let _ ← Emit.expandText template
  | expandLine template => Emit.expandLine template
  | line text => Emit.line text
  | blank => Emit.write .blank
  | append block => Emit.write (·.appendBlock block)

/-- Does the act with a log, and gives the lines that are written. -/
def record : Act → Logged (List String)
  | lookUp name wanted => do
    let _ ← Logged.resolve name wanted
    return []
  | expand template => do
    let _ ← Logged.expandText template
    return []
  | expandLine template => do
    let text ← Logged.expandText template
    liftM (Emit.line text)
    return Text.rawLines text
  | line text => do
    liftM (line text).run
    return Text.rawLines text
  | blank => do
    liftM blank.run
    return [""]
  | append block => do
    liftM (append block).run
    return Text.lines block
  | a => do
    liftM a.run
    return []

end Act

namespace Script

/-- Runs the script in the innermost scope. -/
def run : Script → Emit Unit
  | done => pure ()
  | act a rest => do
    a.run
    rest.run
  | inside fields child rest => do
    Emit.within fields child.run
    rest.run

/-- Runs the script with a log, and gives its account. -/
def record : Script → Logged Account
  | done => return .nothing
  | act a rest => do
    let ls ← a.record
    return .lines ls (← rest.record)
  | inside fields child rest => do
    let (uses, account) ← Logged.within fields child.record
    return .scope uses account (← rest.record)

/-- The stream after a scope with the script has been flushed into it. -/
def flush (script : Script) (fields : Option StructFields) (sink : CodeStream) :
    Attempt CodeStream :=
  let (r, c) := (Emit.within fields script.run).runOn ⟨[], sink⟩
  r.map fun _ => c.sink

/-- The account of a scope with the script, which is flushed into a stream. -/
def account (script : Script) (fields : Option StructFields) (sink : CodeStream) :
    Attempt Account :=
  let (r, _) := ((Logged.within fields script.record).run []).runOn ⟨[], sink⟩
  r.map fun ((uses, child), _) => .scope uses child .nothing

end Script

namespace Account

/-- The lines of all scopes in order. The code of the initialisers of a scope comes before the lines
of the scope and of the scopes inside. -/
def written : Account → List String
  | nothing => []
  | lines ls rest => ls ++ rest.written
  | scope uses child rest => (texts uses).flatMap Text.lines ++ child.written ++ rest.written

/-- The uses of each scope. -/
def uses : Account → List (List Use)
  | nothing => []
  | lines _ rest => rest.uses
  | scope us child rest => us :: child.uses ++ rest.uses

end Account

/-- A script without a struct is run before a stream. -/
theorem Script.flush_none (script : Script) (sink : CodeStream) :
    script.flush none sink = (script.run.runInto sink).map Prod.snd := by
  change Except.map _ (script.run.runOn (.before sink)).1 =
    Except.map _ (Except.map _ (script.run.runOn (.before sink)).1)
  cases (script.run.runOn (.before sink)).1 <;> rfl

end KernelWeaver.Code
