import KernelWeaver.Code.Random
import KernelWeaver.Merge.SynapseArrays

/-!
# Names that the code of a group sees

Every member of a merged group has arrays, counts, parameters and pointers of its own. The shared
code reaches them through the fields of the member's struct.
-/

namespace KernelWeaver.Generate

open Code

/-- The type of an id or a count. -/
def idType : CType := CType.uint.addConst

/-- A name that stands for one array on the device for each member. -/
structure ArrayBinding where
  name : String
  /-- The type of an element. -/
  type : CType
  readOnly : Bool
  /-- Whether every batch has a copy of its own. -/
  duplicated : Bool
  values : List String
deriving DecidableEq, Repr

namespace ArrayBinding

/-- The type that code sees. -/
def boundType (a : ArrayBinding) : CType :=
  if a.readOnly then a.type.addConst else a.type

/-- The arrays of variables that members own. -/
def ofVars (aliases : Aliases) (owners : List String) (vars : List Var) :
    Except Error (List ArrayBinding) :=
  vars.mapM fun v => do
    let type ← resolveType aliases v.type
    return {
      name := v.name
      type
      readOnly := v.access.isReadOnly
      duplicated := v.access.isDuplicated
      values := owners.map (deviceArray v.name) }

/-- The arrays that fill slots. Whether there are copies is taken from the first member. -/
def ofRefs (aliases : Aliases) (members : List (String × Table VarReference))
    (slots : List RefSlot) : Except Error (List ArrayBinding) :=
  slots.mapM fun slot => do
    let refs ← members.mapM fun (owner, refs) => boundTo owner refs slot
    let type ← resolveType aliases slot.type
    return {
      name := slot.name
      type
      readOnly := slot.readOnly
      duplicated := refs.head?.any (·.duplicated)
      values := refs.map VarReference.array }

end ArrayBinding

/-- The code that reads a field. -/
def fieldCode (field : String) : String := "group->" ++ field

/-- Binds a name to a field that holds a pointer. -/
def bindPointer (name field : String) (pointer : CType) (values : List String) : Emit Unit :=
  Emit.bindField name pointer (fieldCode field) ⟨field, pointer, entry values⟩

/-- Binds a name to a field that holds a count. -/
def bindCount (name field : String) (counts : List Nat) : Emit Unit :=
  Emit.bindField name idType (fieldCode field) ⟨field, .uint, entry (counts.map toString)⟩

/-- Binds the names of arrays to their elements at an index. -/
def bindElements (index : ArrayBinding → String) (arrays : List ArrayBinding) : Emit Unit :=
  arrays.forM fun a =>
    Emit.bindField a.name a.boundType (fieldCode a.name ++ "[" ++ index a ++ "]")
      ⟨a.name, a.type.toPointer, entry a.values⟩

/-- Binds the pointers to arrays, with something in front of their names. -/
def bindPointers (front : String) (arrays : List ArrayBinding) : Emit Unit :=
  arrays.forM fun a => bindPointer (front ++ a.name) a.name a.type.toPointer a.values

/-- Binds global parameters to pointers on the device. -/
def bindGlobals (aliases : Aliases) (owners : List String) (globals : List GlobalParam) :
    Emit Unit :=
  globals.forM fun g => do
    let type ← Emit.ofError (resolveType aliases g.type)
    bindPointer g.name g.name type (owners.map (deviceArray g.name))

/-- Accepts a member that has a value for every parameter. -/
def checkParams (params : List String) (owner : String) (values : Table Float) :
    Except Error Unit :=
  match params.find? fun p => !values.has p with
  | some missing => .error (.inconsistent owner (.noValue missing))
  | none => .ok ()

/-- The values of derived parameters. -/
def derivedValues (derived : List DerivedParam) (dt : Float) (values : Table Float) :
    Table Float :=
  .ofList (derived.map fun d => (d.name, d.value values dt))

/-- Binds parameters and derived parameters. `members` are the values of each member, with its
name. -/
def bindParams (model : Model) (params : List String) (derived : List DerivedParam)
    (members : List (String × Table Float)) : Emit Unit := do
  members.forM fun (owner, values) => Emit.ofError (checkParams params owner values)
  let values := members.map Prod.snd
  Emit.bindParameters model.precision "" values params
  Emit.bindParameters model.precision "" (values.map (derivedValues derived model.dt))
    (derived.map (·.name))

end KernelWeaver.Generate
