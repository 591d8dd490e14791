import KernelWeaver.Generate.Connectivity
import KernelWeaver.Generate.VarInit

/-!
# Initialisation of populations

The variables of custom updates and the pre- and postsynaptic variables of connectivity updates are
initialised by one lane for each element. A connectivity update that draws random numbers has the
stream of each row seeded along with its presynaptic variables.
-/

namespace KernelWeaver.Generate

open Code

/-- What the initialisation of the elements of a group needs. -/
structure ElementInit where
  /-- What the code belongs to, for errors. -/
  label : String
  /-- The name of the number of elements. -/
  countName : String
  countField : String
  counts : List Nat
  owners : List String
  vars : List Var
  /-- How each member initialises its variables. -/
  inits : List (Table VarInit)
  batchSize : Nat
  /-- The arrays of random number streams to be seeded. -/
  streams : Option (List String)

namespace ElementInit

/-- The initialisation of the variables of custom updates. -/
def ofUpdates (t : Target) (g : MergedGroup CustomUpdate) : ElementInit where
  label := "custom update " ++ quoted g.archetype.name
  countName := "size"
  countField := "size"
  counts := g.members.map (·.size)
  owners := g.members.map (·.name)
  vars := g.archetype.model.vars
  inits := g.members.map (·.inits)
  batchSize := if g.archetype.batched then t.model.batchSize else 1
  streams := none

/-- The initialisation of presynaptic variables. -/
def ofPre (g : MergedGroup ConnectivityUpdate) : ElementInit where
  label := "custom connectivity update " ++ quoted g.archetype.name
  countName := "num_pre"
  countField := "numSrcNeurons"
  counts := (synapseGroups g).map (·.numPre)
  owners := g.members.map (·.name)
  vars := g.archetype.model.preVars
  inits := g.members.map (·.preInits)
  batchSize := 1
  streams := if g.archetype.model.usesRandom then some (streamArrays g) else none

/-- The initialisation of postsynaptic variables. -/
def ofPost (g : MergedGroup ConnectivityUpdate) : ElementInit where
  label := "custom connectivity update " ++ quoted g.archetype.name
  countName := "num_post"
  countField := "numTrgNeurons"
  counts := (synapseGroups g).map (·.numPost)
  owners := g.members.map (·.name)
  vars := g.archetype.model.postVars
  inits := g.members.map (·.postInits)
  batchSize := 1
  streams := none

/-- Emits the code for the element of a lane: its stream is seeded and its variables are
initialised. -/
def emitElement (t : Target) (e : ElementInit) : Emit Unit := do
  -- streams of rows are seeded by lane, so that no two rows share one
  if e.streams.isSome then
    Emit.expandLine (Cuda.seedRow "deviceRNGSeed" "id" "$(_array_rng)[$(id)]")
  if anyRandom e.inits e.vars then
    Random.bindLane t.model.precision (Random.laneSequence "id" 0)
  let batches := if 1 < e.batchSize then some (e.batchSize, e.countName) else none
  emitVarInits t ⟨"$(id)", batches⟩ e.label e.inits e.vars

/-- Emits the code that initialises the elements of a group. -/
def emit (t : Target) (e : ElementInit) : Emit StructFields := do
  let arrays ← Emit.ofError (ArrayBinding.ofVars t.aliases e.owners e.vars)
  let lid ← Emit.resolve "id" none
  let ((), fields) ← Emit.inStruct [] do
    bindCount e.countName e.countField e.counts
    Emit.bind "id" idType lid
    bindPointers "_array_" arrays
    match e.streams with
    | some states => bindPointer "_array_rng" "rng" Cuda.rowState.toPointer states
    | none => pure ()
    Emit.expandLine ("if($(id) < $(" ++ e.countName ++ "))")
    Emit.line "\x7b"
    Emit.inScope (e.emitElement t)
    Emit.line "\x7d"
  return fields

end ElementInit

end KernelWeaver.Generate
