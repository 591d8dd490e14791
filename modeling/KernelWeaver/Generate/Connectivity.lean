import KernelWeaver.Generate.Update
import KernelWeaver.Synapses.RowCode

/-!
# Connectivity updates

A connectivity update runs its code for every row of a group of synapses. The code sees variables of
the presynaptic neuron, can loop over the synapses of the row, and there sees variables of the
synapse and of the postsynaptic neuron.
-/

namespace KernelWeaver.Generate

open Code Synapses

/-- The groups of synapses of a merged group. -/
def synapseGroups (g : MergedGroup ConnectivityUpdate) : List SynapseGroup :=
  g.members.map (·.synapses)

/-- The arrays of random number streams of the members. -/
def streamArrays (g : MergedGroup ConnectivityUpdate) : List String :=
  g.members.map fun u => "d_rng" ++ u.name

/-- Binds the numbers of presynaptic neurons. -/
def bindNumPre (g : MergedGroup ConnectivityUpdate) : Emit Unit :=
  bindCount "num_pre" "numSrcNeurons" ((synapseGroups g).map (·.numPre))

/-- Binds the numbers of postsynaptic neurons. -/
def bindNumPost (g : MergedGroup ConnectivityUpdate) : Emit Unit :=
  bindCount "num_post" "numTrgNeurons" ((synapseGroups g).map (·.numPost))

/-- Binds where the rows lie, how long they are, and which neurons they lead to. -/
def bindRowLayout (g : MergedGroup ConnectivityUpdate) : Emit Unit := do
  let groups := synapseGroups g
  bindCount "_row_stride" "rowStride" (groups.map (·.rowStride))
  bindPointer "_row_length" "rowLength" CType.uint.toPointer
    (groups.map fun s => "d_rowLength" ++ s.name)
  bindPointer "_ind" "ind" CType.uint.toPointer (groups.map fun s => "d_ind" ++ s.name)

/-- What the name of a postsynaptic variable stands for in a loop over synapses. -/
def postBinding (a : ArrayBinding) : LoopBinding :=
  ⟨a.name, a.boundType, "$(_post_" ++ a.name ++ ")[$(id_post)]"⟩

/-- Emits the code of a group of connectivity updates. -/
def emitConnectivity (t : Target) (g : MergedGroup ConnectivityUpdate) : Emit StructFields := do
  let u := g.archetype
  let owners := g.members.map (·.name)
  let batchSize := t.model.batchSize
  let arrays ← Emit.ofError (g.synapseArrays t.aliases)
  let preVars ← Emit.ofError (ArrayBinding.ofVars t.aliases owners u.model.preVars)
  let preRefs ← Emit.ofError <|
    ArrayBinding.ofRefs t.aliases (g.members.map fun m => (m.name, m.preRefs)) u.model.preRefs
  let postVars ← Emit.ofError (ArrayBinding.ofVars t.aliases owners u.model.postVars)
  let postRefs ← Emit.ofError <|
    ArrayBinding.ofRefs t.aliases (g.members.map fun m => (m.name, m.postRefs)) u.model.postRefs
  let post := postVars ++ postRefs
  let lid ← Emit.resolve "id" none
  let ((), fields) ← Emit.inStruct [] do
    Emit.bind "id_pre" idType lid
    bindNumPre g
    bindNumPost g
    bindRowLayout g
    bindRows arrays batchSize
    bindParams t.model u.model.params u.model.derived (g.members.map fun m => (m.name, m.params))
    bindGlobals t.aliases owners u.model.globals
    bindElements (fun _ => "$(id_pre)") preVars
    bindElements (fun _ => "$(id_pre)") preRefs
    bindPointers "_post_" post
    if u.model.usesRandom then
      Random.bindRow t.model.precision "$(id_pre)" (streamArrays g)
    Emit.expandLine "if($(id_pre) < $(num_pre))"
    Emit.line "\x7b"
    compileSnippet t.aliases (some (rowLoop arrays batchSize (post.map postBinding)))
      ("custom connectivity update " ++ quoted u.name ++ " row update code") u.model.rowCode
    Emit.line "\x7d"
  return fields

/-- Writes the kernel of the connectivity updates of an update group. -/
def writeConnectivityKernel (t : Target) (name : String)
    (groups : List (MergedGroup ConnectivityUpdate)) (s : CodeStream) :
    Attempt (List Dispatched × Launch × CodeStream) := do
  let kernel := Kernel.connectivity.name ++ name
  let blockSize := t.blockSize .connectivity
  let ((dispatched, lanes), s) ← t.writeKernel .connectivity kernel t.timeParameter []
    (do
      Emit.bind "t" t.scalarType "t"
      dispatch blockSize ConnectivityUpdate.name (fun u => .ok u.synapses.numPre)
        (emitConnectivity t) 0 groups) s
  let launch ← Launch.ofLanes kernel lanes blockSize
  return (dispatched, launch, s)

end KernelWeaver.Generate
