import KernelWeaver.Generate.Connectivity
import KernelWeaver.Generate.VarInit

/-!
# Initialisation of synapses

The variables stored with synapses are initialised by one lane for each slot of a row. The lanes
walk over all rows together, block by block; the lengths of the rows of a block are staged in shared
memory.
-/

namespace KernelWeaver.Generate

open Code

/-- Emits the initialisation of the variables of the synapse at `idx`. -/
def emitSynapse (t : Target) (blockSize : Nat) (label : String) (inits : List (Table VarInit))
    (vars : List Var) : Emit Unit := do
  Emit.bind "id_pre" idType ("((r * " ++ toString blockSize ++ ") + i)")
  Emit.bind "id_post" idType "$(_ind)[idx]"
  Emit.bind "id_syn" idType "idx"
  emitVarInits t ⟨"idx", none⟩ label inits vars

/-- Emits the walk of a lane over the rows, around a body for each live slot. -/
def emitRowWalk (blockSize : Nat) (lid : String) (body : Emit Unit) : Emit Unit := do
  let block := toString blockSize
  Emit.expandLine
    ("const unsigned int numBlocks = ($(num_pre) + " ++ block ++ " - 1) / " ++ block ++ ";")
  Emit.line ("unsigned int idx = " ++ lid ++ ";")
  Emit.line "for(unsigned int r = 0; r < numBlocks; r++)"
  Emit.line "\x7b"
  Emit.expandLine
    ("const unsigned int numRowsInBlock = (r == (numBlocks - 1)) ? ((($(num_pre) - 1) % " ++
      block ++ ") + 1) : " ++ block ++ ";")
  Emit.line (Cuda.barrier ++ ";")
  Emit.line ("if(" ++ Cuda.threadId ++ " < numRowsInBlock)")
  Emit.line "\x7b"
  Emit.expandLine
    ("shRowLength[" ++ Cuda.threadId ++ "] = $(_row_length)[(r * " ++ block ++ ") + " ++
      Cuda.threadId ++ "];")
  Emit.line "\x7d"
  Emit.line (Cuda.barrier ++ ";")
  Emit.line "for(unsigned int i = 0; i < numRowsInBlock; i++)"
  Emit.line "\x7b"
  Emit.line ("if(" ++ lid ++ " < shRowLength[i])")
  Emit.line "\x7b"
  Emit.inScope body
  Emit.line "\x7d"
  Emit.expandLine "idx += $(_row_stride);"
  Emit.line "\x7d"
  Emit.line "\x7d"

/-- Emits the code that initialises the synapses of a group. Its lanes draw random numbers from
subsequences behind those of `offset` earlier lanes. -/
def emitSparseInit (t : Target) (blockSize offset : Nat) (g : MergedGroup ConnectivityUpdate) :
    Emit StructFields := do
  let u := g.archetype
  let vars := u.model.vars
  let inits := g.members.map (·.inits)
  let label := "custom connectivity update " ++ quoted u.name
  let arrays ← Emit.ofError (ArrayBinding.ofVars t.aliases (g.members.map (·.name)) vars)
  let lid ← Emit.resolve "id" none
  let ((), fields) ← Emit.inStruct [] do
    bindNumPre g
    bindRowLayout g
    bindPointers "_array_" arrays
    if anyRandom inits vars then
      Random.bindLane t.model.precision (Random.laneSequence "id" offset)
    emitRowWalk blockSize lid (emitSynapse t blockSize label inits vars)
  return fields

end KernelWeaver.Generate
