import KernelWeaver.Generate.Connectivity

/-!
# Host updates

A connectivity update may have code for the host, which runs for each member after the kernels. The
code sees the pre- and postsynaptic variables and the global parameters as pointers on the host, and
can copy them to and from the device.
-/

namespace KernelWeaver.Generate

open Code

/-- Binds a name to a pointer on the host, and the name with `_d_` in front to the pointer on the
device. -/
def bindHostArray (owners : List String) (name : String) (pointer : CType) : Emit Unit := do
  bindPointer name name pointer (owners.map (name ++ ·))
  let device := "d_" ++ name
  bindPointer ("_" ++ device) device pointer (owners.map (device ++ ·))

/-- Binds the functions that copy `count` elements of an array. -/
def bindCopies (name : String) (element : CType) (args : List CType) (count : String) :
    Emit Unit := do
  let host := "$(" ++ name ++ ")"
  let device := "$(_d_" ++ name ++ ")"
  Emit.bind ("push" ++ name ++ "ToDevice") (.fn .none args) (Cuda.push host device element count)
  Emit.bind ("pull" ++ name ++ "FromDevice") (.fn .none args) (Cuda.pull host device element count)

/-- Binds variables as arrays of `count` elements, which are copied as a whole. -/
def bindHostVars (t : Target) (owners : List String) (count : String) (vars : List Var) :
    Emit Unit :=
  vars.forM fun v => do
    let element ← Emit.ofError (resolveType t.aliases v.type)
    bindHostArray owners v.name element.toPointer
    bindCopies v.name element [] count

/-- Binds global parameters. The functions that copy one take the number of its elements. -/
def bindHostGlobals (t : Target) (owners : List String) (globals : List GlobalParam) :
    Emit Unit :=
  globals.forM fun g => do
    let type ← Emit.ofError (resolveType t.aliases g.type)
    bindHostArray owners g.name type
    match type.target? with
    | some element => bindCopies g.name element [.uint] (slot 0)
    | none => pure ()

/-- Emits the code of a group of host updates for one member. -/
def emitHostUpdate (t : Target) (g : MergedGroup ConnectivityUpdate) : Emit StructFields := do
  let u := g.archetype
  let owners := g.members.map (·.name)
  Emit.bind "t" t.scalarType "t"
  t.bindModel
  let ((), fields) ← Emit.inStruct [] do
    bindNumPre g
    bindNumPost g
    bindParams t.model u.model.params u.model.derived (g.members.map fun m => (m.name, m.params))
    bindHostVars t owners "$(num_pre)" u.model.preVars
    bindHostVars t owners "$(num_post)" u.model.postVars
    bindHostGlobals t owners u.model.globals
    if u.model.usesHostRandom then Random.bindHost t.model.precision
    compileSnippet t.aliases none
      ("custom connectivity update " ++ quoted u.name ++ " host update code") u.model.hostCode
  return fields

/-- Writes the loop over the members of a group of host updates. -/
def writeHostUpdate (t : Target) (g : MergedGroup ConnectivityUpdate) (s : CodeStream) :
    Attempt (GroupStruct × CodeStream) := do
  let head := ["// merged custom connectivity host update group " ++ toString g.id.index,
    "for(unsigned int g = 0; g < " ++ toString g.size ++ "; g++)", "\x7b",
    "const auto *group = &" ++ g.id.hostArray ++ "[g];"]
  let (fields, s) ← (emitHostUpdate t g).runInto (s.writeAll head)
  return (⟨g.id, g.members.map (·.name), fields⟩, s.line "\x7d")

/-- Writes the loops of several groups of host updates. -/
def writeHostUpdates (t : Target) :
    List (MergedGroup ConnectivityUpdate) → CodeStream → Attempt (List GroupStruct × CodeStream)
  | [], s => .ok ([], s)
  | g :: groups, s => do
    let (struct, s) ← writeHostUpdate t g s
    let (structs, s) ← writeHostUpdates t groups s
    return (struct :: structs, s)

end KernelWeaver.Generate
