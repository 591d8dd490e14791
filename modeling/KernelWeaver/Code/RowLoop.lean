import KernelWeaver.Code.Emit

/-!
# Loops over the synapses of a row

A loop over synapses visits the live slots of one row. Its body can name the postsynaptic neuron and
the slot, can remove the synapse, and can name what is stored with it.
-/

namespace KernelWeaver.Code

/-- A name that the body of a loop binds. -/
structure LoopBinding where
  name : String
  type : CType
  template : String
deriving DecidableEq, Repr

/-- A loop over the synapses of a row. -/
structure RowLoop where
  /-- What the body can name besides the slot. -/
  bindings : List LoopBinding
  /-- The template of the code that removes the current synapse. -/
  removal : String
deriving DecidableEq, Repr

namespace RowLoop

/-- The type of an id. -/
def idType : CType := CType.uint.addConst

/-- The type of the function that removes the current synapse. -/
def removalType : CType := .fn .none []

/-- The names that the body binds, with their types. -/
def names (loop : RowLoop) : List (String × CType) :=
  [("id_post", idType), ("id_syn", idType), ("remove_synapse", removalType)] ++
    loop.bindings.map fun b => (b.name, b.type)

/-- Binds the names of the body in the innermost scope. -/
def bindNames (loop : RowLoop) : Emit Unit := do
  Emit.bind "id_post" idType "$(_ind)[$(_row_start_idx) + j]"
  let slot ← Emit.addInitialiser "const unsigned int idx = $(_row_start_idx) + j;"
  Emit.bindAfter "id_syn" idType "idx" [slot]
  Emit.bind "remove_synapse" removalType loop.removal
  loop.bindings.forM fun b => Emit.bind b.name b.type b.template

/-- Emits the loop around a body. -/
def emit {α : Type} (loop : RowLoop) (body : Emit α) : Emit α := do
  Emit.expandLine "for(int j = 0; j < $(_row_length)[$(id_pre)]; j++)"
  Emit.line "\x7b"
  let a ← Emit.inScope do
    loop.bindNames
    body
  Emit.line "\x7d"
  return a

end RowLoop

end KernelWeaver.Code
