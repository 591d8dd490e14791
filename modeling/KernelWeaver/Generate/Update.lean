import KernelWeaver.Compile
import KernelWeaver.Generate.Dispatch
import KernelWeaver.Generate.Kernel

/-!
# Custom updates

A custom update runs its code for every element of a population. A batched update has lanes for
every batch, each batch padded to whole blocks.
-/

namespace KernelWeaver.Generate

open Code

namespace Target

/-- Whether the lanes of an update are divided among batches. -/
def isBatched (t : Target) (u : CustomUpdate) : Bool := u.batched && 1 < t.model.batchSize

/-- The number of lanes of an update. -/
def updateLanes (t : Target) (blockSize : Nat) (u : CustomUpdate) : Checked Nat := do
  if t.isBatched u then
    let padded ← padSize u.size blockSize
    fit 32 (padded * t.model.batchSize)
  else return u.size

end Target

/-- Binds `id` and `batch` to the element and the batch that a lane works on. -/
def bindBatches (lid : String) (blockSize : Nat) : Emit Unit := do
  let block := toString blockSize
  let padded ← Emit.addInitialiser
    ("const unsigned int paddedSize = " ++ block ++ " * (($(size) + " ++ block ++ " - 1) / " ++
      block ++ ");")
  Emit.bindAfter "_padded_size" idType "paddedSize" [padded]
  let bid ← Emit.addInitialiser ("const unsigned int bid = " ++ lid ++ " % $(_padded_size);")
  Emit.bindAfter "id" idType "bid" [bid]
  let batch ← Emit.addInitialiser ("const unsigned int batch = " ++ lid ++ " / $(_padded_size);")
  Emit.bindAfter "batch" idType "batch" [batch]
  let offset ← Emit.addInitialiser "const unsigned int batchOffset = $(size) * $(batch);"
  Emit.bindAfter "_batch_offset" idType "batchOffset" [offset]

/-- Where the current element of an array lies. -/
def elementIndex (batched : Bool) (a : ArrayBinding) : String :=
  if a.duplicated && batched then "$(_batch_offset) + $(id)" else "$(id)"

/-- Emits the code of a group of custom updates. -/
def emitUpdate (t : Target) (blockSize : Nat) (g : MergedGroup CustomUpdate) :
    Emit StructFields := do
  let u := g.archetype
  let owners := g.members.map (·.name)
  let batched := t.isBatched u
  let vars ← Emit.ofError (ArrayBinding.ofVars t.aliases owners u.model.vars)
  let refs ← Emit.ofError <|
    ArrayBinding.ofRefs t.aliases (g.members.map fun m => (m.name, m.refs)) u.model.refs
  let lid ← Emit.resolve "id" none
  let ((), fields) ← Emit.inStruct [] do
    bindCount "size" "size" (g.members.map (·.size))
    if batched then bindBatches lid blockSize
    else
      Emit.bind "id" idType lid
      Emit.bind "batch" idType "0"
    bindElements (elementIndex batched) vars
    bindElements (elementIndex batched) refs
    bindParams t.model u.model.params u.model.derived (g.members.map fun m => (m.name, m.params))
    bindGlobals t.aliases owners u.model.globals
    Emit.expandLine "if($(id) < $(size))"
    Emit.line "\x7b"
    compileSnippet t.aliases none ("custom update " ++ quoted u.name ++ " update code") u.model.code
    Emit.line "\x7d"
  return fields

/-- Writes the kernel of the custom updates of an update group. -/
def writeUpdateKernel (t : Target) (name : String) (groups : List (MergedGroup CustomUpdate))
    (s : CodeStream) : Attempt (List Dispatched × Launch × CodeStream) := do
  let kernel := Kernel.update.name ++ name
  let blockSize := t.blockSize .update
  let ((dispatched, lanes), s) ← t.writeKernel .update kernel t.timeParameter []
    (do
      Emit.bind "t" t.scalarType "t"
      dispatch blockSize CustomUpdate.name (t.updateLanes blockSize) (emitUpdate t blockSize) 0
        groups) s
  let launch ← Launch.ofLanes kernel lanes blockSize
  return (dispatched, launch, s)

end KernelWeaver.Generate
