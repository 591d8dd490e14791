import KernelWeaver.Generate.ElementInit
import KernelWeaver.Generate.HostUpdate
import KernelWeaver.Generate.SparseInit
import KernelWeaver.Generate.Structs
import KernelWeaver.Merge.Model

/-!
# Generated programs

The code of a model consists of kernels that update and initialise it, host functions that launch
them, and the structs that the kernels read. Which fields a struct has is known only when the
kernels have been generated, so the structs come last.
-/

namespace KernelWeaver.Generate

open Code

/-- The generated code of a model. -/
structure Program where
  /-- Struct types, arrays, tables and global variables. -/
  definitions : String
  /-- The host functions that set structs. -/
  runner : String
  /-- The kernels that update, and the host functions that launch them. -/
  update : String
  /-- The kernels that initialise, and the host function that launches them. -/
  init : String
deriving DecidableEq, Repr

/-- A table of the first lanes of the members of a group. -/
abbrev StartTable := String × List Nat

/-- The tables of groups. -/
def startTables (dispatched : List Dispatched) : List StartTable :=
  dispatched.filterMap Dispatched.startTable?

/-- What has been generated for updates. -/
structure UpdateCode where
  kernels : CodeStream
  launchers : CodeStream
  updates : List GroupStruct
  connectivity : List GroupStruct
  host : List GroupStruct
  tables : List StartTable

/-- The function that launches the kernels of an update group and then runs its code for the
host. -/
def writeLauncher (t : Target) (name : String) (launches : List Launch) (host s : CodeStream) :
    CodeStream :=
  let s := s.writeAll (["void update" ++ name ++ "(" ++ t.timeParameter ++ ")", "\x7b"] ++
    launchLines "t" launches)
  ((s.appendBlock host.text).line "\x7d").blank

/-- Generates a kernel for groups, unless there are none. -/
def writeIfAny {α : Type}
    (write : List α → CodeStream → Attempt (List Dispatched × Launch × CodeStream))
    (groups : List α) (s : CodeStream) : Attempt (List Dispatched × List Launch × CodeStream) := do
  if groups.isEmpty then return ([], [], s)
  else
    let (dispatched, launch, s) ← write groups s
    return (dispatched, [launch], s)

/-- Generates the code of an update group. -/
def UpdateCode.addGroup (t : Target) (m : MergedModel) (c : UpdateCode) (name : String) :
    Attempt UpdateCode := do
  let updates := (Table.find? m.updates name).getD []
  let connectivity := (Table.find? m.connectivity name).getD []
  let host := (Table.find? m.host name).getD []
  let (first, launch₁, s) ← writeIfAny (writeUpdateKernel t name) updates c.kernels
  let (second, launch₂, s) ← writeIfAny (writeConnectivityKernel t name) connectivity s
  let (structs, hostCode) ← writeHostUpdates t host .empty
  return {
    kernels := s
    launchers := writeLauncher t name (launch₁ ++ launch₂) hostCode c.launchers
    updates := c.updates ++ first.map (·.struct)
    connectivity := c.connectivity ++ second.map (·.struct)
    host := c.host ++ structs
    tables := c.tables ++ startTables first ++ startTables second }

/-- Generates the code of all update groups. -/
def writeUpdates (t : Target) (m : MergedModel) : Attempt UpdateCode :=
  t.model.groups.foldlM (UpdateCode.addGroup t m) ⟨.empty, .empty, [], [], [], []⟩

namespace Target

/-- Whether initialisation draws random numbers. -/
def initUsesRandom (t : Target) : Bool :=
  let any (inits : Table VarInit) := inits.entries.any VarInit.usesRandom
  t.model.updates.any (fun u => any u.inits) ||
    t.model.connectivity.any fun u => any u.inits || any u.preInits || any u.postInits

/-- Whether code for the host draws random numbers. -/
def hostUsesRandom (t : Target) : Bool :=
  t.model.connectivity.any fun u => u.model.hasHostCode && u.model.usesHostRandom

end Target

/-- What has been generated for initialisation. -/
structure InitCode where
  code : CodeStream
  globals : CodeStream
  launches : List Launch
  groups : List GroupStruct
  tables : List StartTable
  /-- The lanes of all kernels so far, except those of synapses. -/
  lanes : Nat

namespace InitCode

/-- The parameter of kernels that initialise. -/
def seedParameter : String := "unsigned long long deviceRNGSeed"

/-- The code before any kernel: where random numbers are drawn, their stream is seeded. -/
def start (t : Target) : InitCode :=
  if t.initUsesRandom then
    { code := (CodeStream.empty.writeAll Cuda.seedKernel).blank
      globals := CodeStream.empty.line Cuda.globalStream
      launches := [⟨Cuda.seedKernelName, 1, 1⟩]
      groups := [], tables := [], lanes := 0 }
  else ⟨.empty, .empty, [], [], [], 0⟩

/-- Adds a kernel that initialises. -/
def add (t : Target) (kernel : Kernel) (preamble : List String)
    (body : (blockSize : Nat) → Emit (List Dispatched × Nat)) (c : InitCode) :
    Attempt (InitCode × Nat) := do
  let name := kernel.name ++ "Kernel"
  let blockSize := t.blockSize kernel
  let ((dispatched, lanes), s) ←
    t.writeKernel kernel name seedParameter preamble (body blockSize) c.code
  let launch ← Launch.ofLanes name lanes blockSize
  let c := { c with
    code := s
    launches := c.launches ++ [launch]
    groups := c.groups ++ dispatched.map (·.struct)
    tables := c.tables ++ startTables dispatched }
  return (c, lanes)

/-- The body of the kernel that initialises populations. The three kinds of groups own consecutive
lanes. -/
def elementsBody (t : Target) (m : MergedModel) (blockSize : Nat) :
    Emit (List Dispatched × Nat) := do
  let (updates, lanes) ← dispatch blockSize CustomUpdate.name (fun u => .ok u.size)
    (fun g => (ElementInit.ofUpdates t g).emit t) 0 m.init
  let (pre, lanes) ← dispatch blockSize ConnectivityUpdate.name
    (fun u => .ok u.synapses.numPre) (fun g => (ElementInit.ofPre g).emit t) lanes m.preInit
  let (post, lanes) ← dispatch blockSize ConnectivityUpdate.name
    (fun u => .ok u.synapses.numPost) (fun g => (ElementInit.ofPost g).emit t) lanes m.postInit
  return (updates ++ pre ++ post, lanes)

/-- Adds the kernel that initialises populations, if there is anything to initialise. -/
def addElements (t : Target) (m : MergedModel) (c : InitCode) : Attempt InitCode := do
  if m.init.isEmpty && m.preInit.isEmpty && m.postInit.isEmpty then return c
  else
    let (c, lanes) ← c.add t .init [] (elementsBody t m)
    return { c with lanes }

/-- The declaration of the row lengths that a block stages. -/
def stagedLengths (blockSize : Nat) : String :=
  Cuda.sharedPrefix ++ "unsigned int shRowLength[" ++ toString blockSize ++ "];"

/-- Adds the kernel that initialises synapses, if there is anything to initialise. Its lanes use
subsequences of random numbers behind those of the lanes so far. -/
def addSynapses (t : Target) (m : MergedModel) (c : InitCode) : Attempt InitCode := do
  if m.sparseInit.isEmpty then return c
  else
    let (c, _) ← c.add t .sparseInit [stagedLengths (t.blockSize .sparseInit)] fun blockSize =>
      dispatch blockSize ConnectivityUpdate.name (fun u => .ok u.synapses.rowStride)
        (emitSparseInit t blockSize c.lanes) 0 m.sparseInit
    return c

/-- Adds the host function that launches the kernels. -/
def addLauncher (t : Target) (c : InitCode) : InitCode :=
  let seed := if t.hostUsesRandom then [Random.hostGenerator ++ ".seed(deviceRNGSeed);"] else []
  { c with code := c.code.writeAll <|
      ["void initialize()", "\x7b",
        "const unsigned long long deviceRNGSeed = " ++ toString t.model.seed ++ "ull;"] ++ seed ++
      launchLines "deviceRNGSeed" c.launches ++ ["\x7d"] }

end InitCode

/-- Generates the code that initialises a model. -/
def writeInit (t : Target) (m : MergedModel) : Attempt InitCode := do
  let c ← (InitCode.start t).addElements t m
  let c ← c.addSynapses t m
  return c.addLauncher t

/-- Generates the code of a model. -/
def Program.ofTarget (t : Target) : Attempt Program := do
  let merged := MergedModel.ofModel t.model
  let updates ← writeUpdates t merged
  let init ← writeInit t merged
  -- all code that reads fields has been generated, so the structs are complete
  let (structs, _) ← StructCode.empty.addAll t.backend.spaces
    (updates.updates ++ updates.connectivity ++ init.groups)
  let structs ← updates.host.foldlM (fun c g => Attempt.ofChecked (c.addHost g)) structs
  let random :=
    if t.hostUsesRandom then
      (structs.definitions.writeAll (Random.hostDeclarations t.model.precision)).blank
    else structs.definitions
  let tables := (updates.tables ++ init.tables).map fun (name, ids) => Cuda.startTable name ids
  return {
    definitions := ((random.writeAll tables).appendBlock init.globals.text).text
    runner := structs.finishRunner.text
    update := (updates.kernels.appendBlock updates.launchers.text).text
    init := init.code.text }

end KernelWeaver.Generate
