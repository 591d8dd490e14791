import KernelWeaver.Device.Cuda
import KernelWeaver.Device.Memory
import KernelWeaver.Merge.Group

/-!
# Structs

The struct types of merged groups, their arrays in memory, and the functions that set the struct of
one member.
-/

namespace KernelWeaver.Generate

open Code

/-- Definitions, the functions that set structs, and the calls of these functions. -/
structure StructCode where
  definitions : CodeStream
  runner : CodeStream
  calls : CodeStream
deriving DecidableEq, Repr

namespace StructCode

/-- No code. -/
def empty : StructCode := ⟨.empty, .empty, .empty⟩

/-- The function that sets the struct of one member; `store` puts it in its place. -/
def pushLines (g : GroupStruct) (store : String) : List String :=
  let parameters := "unsigned int idx" ++
    if g.fields.isEmpty then "" else ", " ++ StructFields.parameters g.fields
  let names := (StructFields.sorted g.fields).map (·.name)
  ["void " ++ g.id.pushFunction ++ "(" ++ parameters ++ ")", "\x7b",
    g.id.structName ++ " group = \x7b" ++ Text.join ", " names ++ "\x7d;", store, "\x7d"]

/-- Adds a struct whose array is declared by `array` and set by `store`. -/
def add (c : StructCode) (g : GroupStruct) (array store : String) : Checked StructCode := do
  let calls ← g.pushCalls
  return {
    definitions :=
      ((StructFields.writeDefinition g.fields g.id.structName c.definitions).line array).blank
    runner := (c.runner.writeAll (pushLines g store)).blank
    calls := c.calls.writeAll calls }

/-- Adds a struct on the device, for whose array there must be room. -/
def addDevice (c : StructCode) (spaces : List MemorySpace) (g : GroupStruct) :
    Attempt (StructCode × List MemorySpace) := do
  let name := g.id.structName
  let array := g.id.deviceArray
  let bytes ← g.bytes
  let (space, spaces) ← (MemorySpace.place spaces name bytes).mapError Failure.error
  let declaration := Cuda.structArray space name array g.members.length
  let c ← c.add g declaration (Cuda.structPush name array)
  return (c, spaces)

/-- Adds several structs on the device. -/
def addAll (c : StructCode) (spaces : List MemorySpace) :
    List GroupStruct → Attempt (StructCode × List MemorySpace)
  | [] => .ok (c, spaces)
  | g :: groups => do
    let (c, spaces) ← c.addDevice spaces g
    c.addAll spaces groups

/-- Adds a struct on the host. -/
def addHost (c : StructCode) (g : GroupStruct) : Checked StructCode :=
  let array := g.id.hostArray
  let declaration := g.id.structName ++ " " ++ array ++ "[" ++ toString g.members.length ++ "];"
  c.add g declaration (array ++ "[idx] = group;")

/-- Writes the function that sets the structs of all members of all groups. -/
def finishRunner (c : StructCode) : CodeStream :=
  let s := c.runner.writeAll ["void pushMergedGroups()", "\x7b"]
  (s.appendBlock c.calls.text).line "\x7d"

end StructCode

end KernelWeaver.Generate
