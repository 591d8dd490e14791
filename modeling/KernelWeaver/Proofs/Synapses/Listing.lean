import KernelWeaver.Proofs.Synapses.Statement

/-!
# The statements of the templates

The templates of the code that changes rows are the texts of statements.
-/

namespace KernelWeaver.Synapses

open Code RowStmt

/-- Stores a value into an array at a slot, in every copy. The value may depend on where the copy
begins. -/
def storeCode (a : SynapseArray) (batchSize : Nat) (place : Constant)
    (value : Option Index → Datum) : RowStmt :=
  if a.isBatched batchSize then
    .loop .copy (.number batchSize) <| .block <|
      .seq (.declare .copyStart (.mul (.counter .copy) (.constant .synStride)))
        (.setElement a (.add (.constant .copyStart) (.constant place))
          (value (some (.constant .copyStart))))
  else .setElement a (.constant place) (value none)

/-- Gives a new synapse its value in an array; the next argument has the number `next`. -/
def additionStore (batchSize next : Nat) (a : SynapseArray) : RowStmt :=
  if a.isArgument then
    if a.isBatched batchSize then
      .seq (.hoist a (.argument next)) (storeCode a batchSize .newSlot fun _ => .hoisted a)
    else storeCode a batchSize .newSlot fun _ => .argument next
  else storeCode a batchSize .newSlot fun _ => .zero

/-- The number of the next argument behind an array. -/
def nextArgument (next : Nat) (a : SynapseArray) : Nat := if a.isArgument then next + 1 else next

def additionCodes (batchSize : Nat) : (next : Nat) → List SynapseArray → List RowStmt
  | _, [] => []
  | next, a :: rest =>
    additionStore batchSize next a :: additionCodes batchSize (nextArgument next a) rest

/-- The statements that add a synapse. -/
def additionCode (arrays : List SynapseArray) (batchSize : Nat) : RowStmt :=
  .block <| all <|
    [.declare .newSlot (.add (.constant .rowStart) .length), .assertLess .length .stride,
      .setPost (.constant .newSlot) .newPost] ++ additionCodes batchSize 1 arrays ++ [.grow]

def removalStore (batchSize : Nat) (a : SynapseArray) : RowStmt :=
  storeCode a batchSize .slot fun
    | some start => .element a (.add start (.constant .lastSlot))
    | none => .element a (.constant .lastSlot)

/-- The statements that remove the current synapse. -/
def removalCode (arrays : List SynapseArray) (batchSize : Nat) : RowStmt :=
  .block <| all <|
    [.declare .lastSlot (.sub (.add (.constant .rowStart) .length) (.number 1)),
      .setPost (.constant .slot) (.post (.constant .lastSlot))] ++
    arrays.map (removalStore batchSize) ++ [.shrink, .decrement .position]

/-- Where the current synapse of a loop is kept. -/
def currentSlot : Index := .add (.constant .rowStart) (.counter .position)

/-- What a loop over the synapses of a row does in each round. -/
def scanBody (body : RowStmt) : RowStmt := .block (.seq (.declare .slot currentSlot) body)

/-- The loop over the synapses of a row. -/
def scanCode (body : RowStmt) : RowStmt := .loop .position .length (scanBody body)

/-- The loop that removes the synapses whose postsynaptic neurons pass a test. -/
def sweepCode (arrays : List SynapseArray) (batchSize : Nat) (condition : String)
    (test : Nat → Bool) : RowStmt :=
  scanCode (.when condition (.post currentSlot) test (removalCode arrays batchSize))

/-- Where a row begins, and how far the copies of an array are apart. -/
def rowStart : Index := .mul .row .stride

def synStride : Index := .mul .rows .stride

/-- Code in the scope of a row. -/
def rowCode (body : RowStmt) : RowStmt :=
  .block (.seq (.declare .rowStart rowStart) (.seq (.declare .synStride synStride) body))

theorem lines_all (stmts : List RowStmt) : (all stmts).lines = stmts.flatMap lines := by
  induction stmts with
  | nil => rfl
  | cons stmt rest ih => rw [all, lines, ih, List.flatMap_cons]

theorem lines_storeCode (a : SynapseArray) (batchSize : Nat) (place : Constant)
    (value : Option Index → Datum) (text : Option String → String)
    (hcopy : text (some "batchOffset") = (value (some (.constant .copyStart))).text)
    (hsingle : text none = (value none).text) :
    (storeCode a batchSize place value).lines = storeLines a batchSize place.text text := by
  have hassign : "] = " = "]" ++ " = " := rfl
  rw [storeCode, storeLines]
  split
  next =>
    have hheader : loopHeader .copy (.number batchSize) =
        "for(unsigned int b = 0; b < " ++ toString batchSize ++ "; b++)" := rfl
    have hindex : (Index.add (.constant .copyStart) (.constant place)).text =
        "batchOffset" ++ " + " ++ place.text := rfl
    have hopen : "[batchOffset + " = "[" ++ ("batchOffset" ++ " + ") := rfl
    simp only [lines, hheader, Datum.text, hindex, hcopy, hopen, hassign, String.append_assoc]
    rfl
  next =>
    simp only [lines, Datum.text, Index.text, hsingle, hassign, String.append_assoc]

theorem lines_additionStore (batchSize next : Nat) (a : SynapseArray) (rest : List SynapseArray) :
    additionStores batchSize next (a :: rest) =
      (additionStore batchSize next a).lines ++
        additionStores batchSize (nextArgument next a) rest := by
  rw [additionStores, additionStore, nextArgument]
  split
  next =>
    split
    next =>
      rw [lines, lines_storeCode a batchSize .newSlot _ (fun _ => a.field ++ "Val") rfl rfl]
      rfl
    next =>
      rw [lines_storeCode a batchSize .newSlot _ (fun _ => slot next) rfl rfl]
      rfl
  next =>
    rw [lines_storeCode a batchSize .newSlot _ (fun _ => "0") rfl rfl]
    rfl

theorem lines_additionCodes (batchSize next : Nat) (arrays : List SynapseArray) :
    (additionCodes batchSize next arrays).flatMap lines =
      additionStores batchSize next arrays := by
  induction arrays generalizing next with
  | nil => rfl
  | cons a rest ih => rw [lines_additionStore, additionCodes, List.flatMap_cons, ih]

/-- The template of the code that adds a synapse is the text of its statements. -/
theorem additionTemplate_eq (arrays : List SynapseArray) (batchSize : Nat) :
    additionTemplate arrays batchSize = blockText (additionCode arrays batchSize).lines := by
  rw [additionTemplate, additionCode, lines, lines_all, List.flatMap_append, List.flatMap_append,
    lines_additionCodes]
  simp only [List.append_assoc]
  rfl

theorem lines_removalStore (batchSize : Nat) (a : SynapseArray) :
    (removalStore batchSize a).lines = removalStores batchSize a := by
  have hindex : (Index.add (.constant .copyStart) (.constant .lastSlot)).text =
      "batchOffset" ++ " + lastIdx" := rfl
  have hlast : " + lastIdx]" = " + lastIdx" ++ "]" := rfl
  refine lines_storeCode a batchSize .slot _ _ ?_ ?_
  · simp only [Datum.text, hindex, hlast, String.append_assoc]
  · have hlast : "[lastIdx]" = "[" ++ ("lastIdx" ++ "]") := rfl
    simp only [Datum.text, hlast, String.append_assoc]
    rfl

/-- The template of the code that removes a synapse is the text of its statements. -/
theorem removalTemplate_eq (arrays : List SynapseArray) (batchSize : Nat) :
    removalTemplate arrays batchSize = blockText (removalCode arrays batchSize).lines := by
  have hstores : (arrays.map (removalStore batchSize)).flatMap lines =
      arrays.flatMap (removalStores batchSize) := by
    rw [List.flatMap_map]
    exact List.flatMap_congr fun a _ => lines_removalStore batchSize a
  rw [removalTemplate, removalCode, lines, lines_all, List.flatMap_append, List.flatMap_append,
    hstores]
  simp only [List.append_assoc]
  rfl

/-- The code that changes rows is emitted as the texts of statements. -/
structure Listed (arrays : List SynapseArray) (batchSize : Nat) : Prop where
  addition : additionTemplate arrays batchSize = blockText (additionCode arrays batchSize).lines
  removal : removalTemplate arrays batchSize = blockText (removalCode arrays batchSize).lines
  /-- In the scope of a row, its start and the distance of the copies are initialisers. -/
  rows : bindRows arrays batchSize = (do
    let start ← Emit.addInitialiser (declaration .rowStart rowStart)
    Emit.bindAfter "_row_start_idx" RowLoop.idType Constant.rowStart.declared [start]
    let stride ← Emit.addInitialiser (declaration .synStride synStride)
    Emit.bindAfter "_syn_stride" RowLoop.idType Constant.synStride.declared [stride]
    arrays.forM fun a =>
      Emit.bindField a.pointerName a.pointerType ("group->" ++ a.field)
        ⟨a.field, a.pointerType, entry a.values⟩
    Emit.bind "add_synapse" (additionType arrays)
      (blockText (additionCode arrays batchSize).lines))
  /-- The body of a loop is emitted between the lines of the statement, with the current slot as an
  initialiser. -/
  loop : ∀ {α : Type} (more : List LoopBinding) (body : Emit α),
    (rowLoop arrays batchSize more).emit body = (do
      Emit.expandLine (loopHeader .position .length)
      Emit.line "\x7b"
      let a ← Emit.inScope do
        Emit.bind "id_post" RowLoop.idType (Index.post currentSlot).text
        let slot ← Emit.addInitialiser (declaration .slot currentSlot)
        Emit.bindAfter "id_syn" RowLoop.idType Constant.slot.declared [slot]
        Emit.bind "remove_synapse" RowLoop.removalType
          (blockText (removalCode arrays batchSize).lines)
        (arrays.filterMap (loopBinding? batchSize) ++ more).forM fun b =>
          Emit.bind b.name b.type b.template
        body
      Emit.line "\x7d"
      return a)

theorem listed (arrays : List SynapseArray) (batchSize : Nat) : Listed arrays batchSize := by
  refine ⟨additionTemplate_eq arrays batchSize, removalTemplate_eq arrays batchSize, ?_, ?_⟩
  · rw [← additionTemplate_eq]
    rfl
  · intro α more body
    rw [← removalTemplate_eq]
    simp only [RowLoop.emit, RowLoop.bindNames, bind_assoc]
    rfl

end KernelWeaver.Synapses
