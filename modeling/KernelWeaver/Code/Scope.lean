import KernelWeaver.Code.StructFields
import KernelWeaver.Code.Template
import KernelWeaver.Table

/-!
# Scopes of generated code

A scope binds names to templates, holds the code written into it, and knows initialisers: pieces of
code that a binding can depend on and that go in front of the scope's own code once they are
needed. Scopes form a chain; closing the innermost one flushes its code into the next.
-/

namespace KernelWeaver.Code

/-- What a name stands for. -/
structure Binding where
  type : CType
  template : Template
  /-- The initialisers that the code of the name depends on. -/
  initialisers : List Nat
  /-- The struct field that the code of the name reads. -/
  field : Option StructField

/-- A binding of a name to the code that a text spells. -/
def Binding.ofText (type : CType) (text : String) : Binding :=
  ⟨type, Template.ofString text, [], none⟩

/-- How far the code of an initialiser has got. -/
inductive InitState where
  | unused
  /-- Needed; its code is being put together. -/
  | pending
  | emitted
deriving DecidableEq, Repr, Inhabited

/-- Code that a scope emits once, if it is needed. -/
structure Initialiser where
  template : Template
  state : InitState
deriving DecidableEq, Repr

/-- A scope of generated code. -/
structure Scope where
  /-- The bindings of each name; functions may have several. -/
  bindings : Table (List Binding)
  initialisers : List Initialiser
  /-- The code of the initialisers, in the order in which they were needed. -/
  emitted : List String
  stream : CodeStream
  /-- The struct whose fields the code inside may read. -/
  fields : Option StructFields

namespace Scope

/-- A scope that binds nothing. -/
def empty (fields : Option StructFields) : Scope := ⟨[], [], [], .empty, fields⟩

/-- Whether the scope binds a name. -/
def binds (s : Scope) (name : String) : Bool := s.bindings.has name

/-- Binds a name that the scope does not bind yet. -/
def bind (s : Scope) (name : String) (binding : Binding) : Except Error Scope :=
  if s.binds name then .error (.redeclaration name)
  else .ok { s with bindings := s.bindings.insert name [binding] }

/-- Adds one more binding of a name. -/
def overload (s : Scope) (name : String) (binding : Binding) : Scope :=
  { s with bindings := s.bindings.insert name ((s.bindings.find? name).getD [] ++ [binding]) }

/-- The binding of a name: of several, the first of the wanted type, if there is one, and otherwise
the first. -/
def select? (s : Scope) (name : String) (wanted : Option CType) : Option Binding := do
  let candidates ← s.bindings.find? name
  match wanted, candidates with
  | some t, _ :: _ :: _ => candidates.find? (·.type.sameKind t) <|> candidates.head?
  | _, _ => candidates.head?

/-- Changes how far an initialiser has got. -/
def setState (s : Scope) (i : Nat) (state : InitState) : Scope :=
  { s with initialisers := s.initialisers.modify i fun x => { x with state } }

/-- Writes the code of the scope, its initialisers first, into the stream around it. -/
def flushInto (s : Scope) (target : CodeStream) : CodeStream :=
  (s.emitted.foldl CodeStream.appendBlock target).appendBlock s.stream.text

end Scope

/-- Nested scopes, the innermost first, and the stream that the outermost one is flushed into. -/
structure Chain where
  scopes : List Scope
  sink : CodeStream

namespace Chain

/-- A single scope before a stream. -/
def before (s : CodeStream) : Chain := ⟨[.empty none], s⟩

/-- Opens a scope inside all others. -/
def push (c : Chain) (scope : Scope) : Chain :=
  { c with scopes := scope :: c.scopes }

/-- Changes the stream of the innermost scope. -/
def modifyStream (c : Chain) (f : CodeStream → CodeStream) : Chain :=
  match c.scopes with
  | [] => { c with sink := f c.sink }
  | s :: outer => { c with scopes := { s with stream := f s.stream } :: outer }

/-- Closes the innermost scope. -/
def pop (c : Chain) : Chain :=
  match c.scopes with
  | [] => c
  | s :: outer => modifyStream { c with scopes := outer } s.flushInto

/-- The types of a name, in the innermost scope that binds it. -/
def typesOf (c : Chain) (name : String) : Option (List CType) :=
  c.scopes.findSome? fun s => (s.bindings.find? name).map (·.map Binding.type)

/-- The scopes inside the one that a name belongs to, and that one with all around it. -/
def splitAt (c : Chain) (name : String) : List Scope × List Scope :=
  c.scopes.span fun s => !s.binds name

/-- A bound on the number of names that are being resolved at one time: between two initialisers,
which are needed only once, no name can lead back to itself. -/
def resolutionBound (c : Chain) : Nat :=
  (total (·.initialisers.length) + 1) * (total (·.bindings.length) + 2)
where
  total (count : Scope → Nat) : Nat := c.scopes.foldl (fun n s => n + count s) 0

@[simp] theorem scopes_push (c : Chain) (s : Scope) : (c.push s).scopes = s :: c.scopes := rfl

end Chain

end KernelWeaver.Code
