import KernelWeaver.Code.Scope

/-!
# Emitting code

Code is emitted against a chain of scopes. The code of a name is put together only when the name is
referred to: its field is then registered, its initialisers are emitted, and the markers of its
template are replaced by the code of the names they stand for. An error leaves behind what has been
emitted before it.
-/

namespace KernelWeaver.Code

/-- A computation that emits code. -/
abbrev Emit := ExceptT Failure (StateM Chain)

namespace Emit

/-- Ends with an error. -/
def fail {α : Type} (e : Error) : Emit α := throw (.error e)

/-- Lifts a computation that emits nothing. -/
def ofAttempt {α : Type} : Attempt α → Emit α
  | .ok a => pure a
  | .error f => throw f

instance : MonadLift Attempt Emit := ⟨ofAttempt⟩

/-- Lifts a computation that may only end with an error. -/
def ofError {α : Type} : Except Error α → Emit α
  | .ok a => pure a
  | .error e => fail e

/-- Lifts a computation that may only end with a fault. -/
def ofChecked {α : Type} : Checked α → Emit α
  | .ok a => pure a
  | .error f => throw (.fault f)

/-- The outcome of emitting code, with what it leaves behind in both cases. -/
def runOn {α : Type} (m : Emit α) (c : Chain) : Except Failure α × Chain :=
  (ExceptT.run m).run c

/-- Emits code into a stream by way of one scope. -/
def runInto {α : Type} (m : Emit α) (s : CodeStream) : Attempt (α × CodeStream) :=
  let (r, c) := m.runOn (.before s)
  r.map fun a => (a, c.pop.sink)

/-- Changes the stream of the innermost scope. -/
def write (f : CodeStream → CodeStream) : Emit Unit :=
  modify (·.modifyStream f)

/-- Writes the lines of a text into the innermost scope. -/
def line (text : String) : Emit Unit := write (·.line text)

/-- Writes several texts, each on lines of its own. -/
def lines (texts : List String) : Emit Unit := write (·.writeAll texts)

/-- Changes the innermost scope. -/
def changeScope (f : Scope → Except Error Scope) : Emit Unit := do
  let c ← get
  match c.scopes with
  | [] => return
  | s :: outer =>
    match f s with
    | .ok s => set { c with scopes := s :: outer }
    | .error e => fail e

/-- Binds a name in the innermost scope. -/
def bind (name : String) (type : CType) (template : String) : Emit Unit :=
  changeScope (·.bind name (.ofText type template))

/-- Binds a name whose code depends on initialisers of the innermost scope. -/
def bindAfter (name : String) (type : CType) (template : String) (initialisers : List Nat) :
    Emit Unit :=
  changeScope (·.bind name { Binding.ofText type template with initialisers })

/-- Binds a name whose code reads a field. -/
def bindField (name : String) (type : CType) (template : String) (field : StructField) :
    Emit Unit :=
  changeScope (·.bind name { Binding.ofText type template with field := some field })

/-- Adds one more binding of a name in the innermost scope. -/
def overload (name : String) (type : CType) (template : String) : Emit Unit :=
  changeScope fun s => .ok (s.overload name (.ofText type template))

/-- Adds an initialiser to the innermost scope and gives its number. -/
def addInitialiser (template : String) : Emit Nat := do
  let i := ((← get).scopes.head?.map (·.initialisers.length)).getD 0
  changeScope fun s => .ok
    { s with initialisers := s.initialisers ++ [⟨Template.ofString template, .unused⟩] }
  return i

/-- Runs and then changes the chain, whether an error occurs or not. -/
def afterwards {α : Type} (m : Emit α) (f : Chain → Chain) : Emit α :=
  ExceptT.mk fun c =>
    let (r, c) := m.runOn c
    (r, f c)

/-- Runs in a scope of its own, which is flushed at the end in any case. -/
def inScope {α : Type} (m : Emit α) : Emit α := do
  modify (·.push (.empty none))
  afterwards m Chain.pop

/-- Runs in a scope of its own over a struct, and gives the struct as it is at the end. -/
def inStruct {α : Type} (fields : StructFields) (m : Emit α) : Emit (α × StructFields) := do
  modify (·.push (.empty (some fields)))
  let inside : Emit (α × StructFields) := do
    let a ← m
    return (a, ((← get).scopes.head?.bind Scope.fields).getD fields)
  afterwards inside Chain.pop

/-- Runs with the innermost scopes set aside. -/
def without {α : Type} (inner : List Scope) (m : Emit α) : Emit α := do
  modify fun c => { c with scopes := c.scopes.drop inner.length }
  afterwards m fun c => { c with scopes := inner ++ c.scopes }

/-- Registers a field with the struct of the innermost scope that has one. -/
def registerField (field : StructField) : Emit Unit := do
  let c ← get
  -- the scopes inside the nearest one that has a struct are passed over
  match c.scopes.span (·.fields.isNone) with
  | (inner, s :: outer) =>
    match (s.fields.getD []).register field with
    | .ok fields => set { c with scopes := inner ++ { s with fields := some fields } :: outer }
    | .error e => fail e
  | (_, []) => fail (.inconsistent field.name .noStruct)

/-- Emits an initialiser of the innermost scope, unless that has been done or begun. -/
def require (lookup : String → Emit String) (i : Nat) : Emit Unit := do
  match ((← get).scopes.head?.bind (·.initialisers[i]?)) with
  | none => fail (.undefinedInitialiser i)
  | some ⟨template, .unused⟩ =>
    -- begun before its code is put together, in which the same initialiser may be needed again
    changeScope fun s => .ok (s.setState i .pending)
    let text ← template.render lookup
    changeScope fun s => .ok { s.setState i .emitted with emitted := s.emitted ++ [text] }
  | some _ => return

/-- The code of a binding of the innermost scope. A marker for the name itself stands for its
meaning in the scopes around. -/
def expand (lookup : String → Emit String) (name : String) (binding : Binding) : Emit String := do
  match binding.field with
  | some field => registerField field
  | none => pure ()
  binding.initialisers.forM (require lookup)
  binding.template.render fun marker =>
    if marker = name then do
      let inner := (← get).scopes.take 1
      without inner (lookup marker)
    else lookup marker

/-- The code of a name, as long as fewer than `fuel` names are being resolved at one time. -/
def resolveWithin : (fuel : Nat) → (name : String) → (wanted : Option CType) → Emit String
  | 0, _, _ => throw (.fault .endless)
  | fuel + 1, name, wanted => do
    let (inner, outer) := (← get).splitAt name
    match outer.head?.bind (·.select? name wanted) with
    | none => fail (.undefinedName name)
    | some binding => without inner (expand (resolveWithin fuel · none) name binding)

/-- The code of a name. Of several bindings the one of the wanted type is taken. -/
def resolve (name : String) (wanted : Option CType) : Emit String := do
  resolveWithin (← get).resolutionBound name wanted

/-- The text of a template with every marker replaced by the code of its name. -/
def expandText (template : String) : Emit String :=
  (Template.ofString template).render (resolve · none)

/-- Writes the text of a template as a line. -/
def expandLine (template : String) : Emit Unit := do
  line (← expandText template)

/-- Binds parameters. One that has the same value in all members is bound to its literal; any other
is a field of its name followed by `suffix`. A member without a value has zero. -/
def bindParameters (type : Numeric) (suffix : String) (members : List (Table Float)) :
    (names : List String) → Emit Unit
  | [] => pure ()
  | name :: names => do
    let valueOf (i : Nat) := ((members[i]?).bind (·.find? name)).getD 0.0
    let first := valueOf 0
    if (List.range members.length).tail.all fun i => valueOf i == first then
      bind name (CType.num type).addConst (type.literal first)
    else
      let field := name ++ suffix
      bindField name (CType.num type).addConst ("group->" ++ field)
        ⟨field, .num type, fun i => .ok (type.literal (valueOf i))⟩
    bindParameters type suffix members names

end Emit

end KernelWeaver.Code
