import KernelWeaver.Code.RowLoop
import KernelWeaver.Device.Cuda
import KernelWeaver.Synapses.Array

/-!
# Code that changes rows

A row owns a stretch of slots in every array stored with the synapses; the first of them are live. A
synapse is added behind the live slots. A synapse is removed by moving the last live one into its
slot. Both touch every array in every copy, so that the arrays stay aligned.

The templates refer to the names `id_pre`, `num_pre`, `_row_stride`, `_row_length` and `_ind`.
-/

namespace KernelWeaver.Synapses

open Code

/-- The lines that store a value into an array at a slot, in every copy. The value may depend on the
name of the offset of the copy. -/
def storeLines (a : SynapseArray) (batchSize : Nat) (slot : String)
    (value : Option String → String) : List String :=
  if a.isBatched batchSize then
    ["for(unsigned int b = 0; b < " ++ toString batchSize ++ "; b++)", "\x7b",
      "const unsigned int batchOffset = b * $(_syn_stride);",
      a.marker ++ "[batchOffset + " ++ slot ++ "] = " ++ value (some "batchOffset") ++ ";", "\x7d"]
  else [a.marker ++ "[" ++ slot ++ "] = " ++ value none ++ ";"]

/-- The text of lines of code without the line feed at the end. -/
def blockText (lines : List String) : String :=
  Text.trimEnd (CodeStream.empty.writeAll lines).text

/-- The type of the function that adds a synapse: it takes the postsynaptic neuron and a value for
every named array. -/
def additionType (arrays : List SynapseArray) : CType :=
  .fn .none (.uint :: (arrays.filter SynapseArray.isArgument).map fun a => a.type.removeConst)

/-- The lines that give a new synapse its values. The next argument has the number `next`; an
argument that is stored more than once is evaluated once. An array without a name is set to zero. -/
def additionStores (batchSize : Nat) (next : Nat) : List SynapseArray → List String
  | [] => []
  | a :: rest =>
    if a.isArgument then
      if a.isBatched batchSize then
        let name := a.field ++ "Val"
        [a.type.addConst.name ++ " " ++ name ++ " = " ++ slot next ++ ";"] ++
          storeLines a batchSize "newIdx" (fun _ => name) ++
          additionStores batchSize (next + 1) rest
      else
        storeLines a batchSize "newIdx" (fun _ => slot next) ++
          additionStores batchSize (next + 1) rest
    else
      storeLines a batchSize "newIdx" (fun _ => "0") ++ additionStores batchSize next rest

/-- The code that adds a synapse, with slots for the arguments. -/
def additionTemplate (arrays : List SynapseArray) (batchSize : Nat) : String :=
  blockText <|
    ["\x7b", "const unsigned int newIdx = $(_row_start_idx) + $(_row_length)[$(id_pre)];",
      Cuda.assertion "$(_row_length)[$(id_pre)] < $(_row_stride)",
      "$(_ind)[newIdx] = $(0);"] ++
    additionStores batchSize 1 arrays ++ ["$(_row_length)[$(id_pre)]++;", "\x7d"]

/-- The lines that move the last synapse of a row into the current slot of an array. -/
def removalStores (batchSize : Nat) (a : SynapseArray) : List String :=
  storeLines a batchSize "$(id_syn)" fun
    | some offset => a.marker ++ "[" ++ offset ++ " + lastIdx]"
    | none => a.marker ++ "[lastIdx]"

/-- The code that removes the current synapse and has the loop visit its slot again. -/
def removalTemplate (arrays : List SynapseArray) (batchSize : Nat) : String :=
  blockText <|
    ["\x7b", "const unsigned int lastIdx = $(_row_start_idx) + $(_row_length)[$(id_pre)] - 1;",
      "$(_ind)[$(id_syn)] = $(_ind)[lastIdx];"] ++
    arrays.flatMap (removalStores batchSize) ++
    ["$(_row_length)[$(id_pre)]--;", "j--;", "\x7d"]

/-- Binds the arrays, where a row begins, and the function that adds a synapse. -/
def bindRows (arrays : List SynapseArray) (batchSize : Nat) : Emit Unit := do
  let start ← Emit.addInitialiser
    "const unsigned int rowStartIdx = $(id_pre) * $(_row_stride);"
  Emit.bindAfter "_row_start_idx" RowLoop.idType "rowStartIdx" [start]
  let stride ← Emit.addInitialiser "const unsigned int synStride = $(num_pre) * $(_row_stride);"
  Emit.bindAfter "_syn_stride" RowLoop.idType "synStride" [stride]
  arrays.forM fun a =>
    Emit.bindField a.pointerName a.pointerType ("group->" ++ a.field)
      ⟨a.field, a.pointerType, entry a.values⟩
  Emit.bind "add_synapse" (additionType arrays) (additionTemplate arrays batchSize)

/-- What a named array with a single copy is bound to in a loop over synapses. A copy for every
batch cannot be told apart there. -/
def loopBinding? (batchSize : Nat) (a : SynapseArray) : Option LoopBinding :=
  match a.binding with
  | none => none
  | some name =>
    if a.isBatched batchSize then none
    else some
      ⟨name, if a.readOnly then a.type.addConst else a.type, a.marker ++ "[$(id_syn)]"⟩

/-- The loop over the synapses of a row, with further names for its body. -/
def rowLoop (arrays : List SynapseArray) (batchSize : Nat) (more : List LoopBinding) : RowLoop :=
  ⟨arrays.filterMap (loopBinding? batchSize) ++ more, removalTemplate arrays batchSize⟩

end KernelWeaver.Synapses
