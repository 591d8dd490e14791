import KernelWeaver.Digest.Encoding
import KernelWeaver.Model.Basic

/-!
# Encodings of updates

Two updates are merged if their code is the same but for values. What the code depends on is encoded
as bytes, of which a digest is taken; one encoding serves the code of the update itself and others
serve the initialisation of variables.
-/

namespace KernelWeaver

open Encoding

/-- The number of a kind of access. -/
def Access.tag : Access → Nat
  | readWrite => 0
  | readOnly => 1
  | readOnlyDuplicate => 2

/-- Items behind their number. -/
def encodeList {α : Type} (encode : α → Encoding) (items : List α) : Encoding :=
  word64 items.length ++ items.flatMap encode

/-- A declared variable. -/
def Var.encoding (v : Var) : Encoding := text v.name ++ text v.type ++ byte v.access.tag

/-- A declared slot. -/
def RefSlot.encoding (s : RefSlot) : Encoding := text s.name ++ text s.type ++ flag s.readOnly

/-- A global parameter, as it is declared. -/
def GlobalParam.encoding (g : GlobalParam) : Encoding := text (g.type ++ " " ++ g.name)

/-- What fills a slot, as far as code depends on it. -/
def VarReference.encoding (r : VarReference) : Encoding := text r.type ++ flag r.duplicated

/-- What fills each slot, if anything does. -/
def encodeBound (slots : List RefSlot) (refs : Table VarReference) : Encoding :=
  slots.flatMap fun slot =>
    match refs.find? slot.name with
    | some r => byte 1 ++ r.encoding
    | none => byte 0

/-- How a variable is initialised. The value of a constant does not count. -/
def VarInit.encoding : VarInit → Encoding
  | constant _ => byte 0
  | code text _ => byte 1 ++ Encoding.text text
  | uninitialised => byte 2

/-- How several variables are initialised. -/
def encodeInits (vars : List Var) (inits : Table VarInit) : Encoding :=
  vars.flatMap fun v => (initOf inits v).encoding

/-- The description of a custom update. -/
def UpdateModel.encoding (m : UpdateModel) : Encoding :=
  text m.name ++ text m.code ++ texts m.params ++ texts (m.derived.map (·.name)) ++
    encodeList Var.encoding m.vars ++ encodeList RefSlot.encoding m.refs ++
    encodeList GlobalParam.encoding m.globals

/-- The description of a connectivity update. -/
def ConnectivityModel.encoding (m : ConnectivityModel) : Encoding :=
  text m.name ++ text m.rowCode ++ text m.hostCode ++ texts m.params ++
    texts (m.derived.map (·.name)) ++ encodeList Var.encoding m.vars ++
    encodeList Var.encoding m.preVars ++ encodeList Var.encoding m.postVars ++
    encodeList RefSlot.encoding m.refs ++ encodeList RefSlot.encoding m.preRefs ++
    encodeList RefSlot.encoding m.postRefs ++ encodeList GlobalParam.encoding m.globals

namespace CustomUpdate

/-- What the code of the update depends on. -/
def encoding (u : CustomUpdate) : Encoding :=
  u.model.encoding ++ text u.group ++ flag u.batched ++ encodeBound u.model.refs u.refs

/-- What the initialisation of its variables depends on. -/
def initEncoding (u : CustomUpdate) : Encoding :=
  u.model.encoding ++ flag u.batched ++ encodeInits u.model.vars u.inits

end CustomUpdate

/-- The digest by which variables that an update does not name are put in order. -/
def SynapseVar.digest (v : SynapseVar) : Digest :=
  .ofEncoding (text v.type ++ flag v.duplicated)

namespace ConnectivityUpdate

/-- What the code for rows depends on. Of the variables that the update does not name it depends on
types and copies only, in whatever order they are declared. -/
def encoding (u : ConnectivityUpdate) : Encoding :=
  let dependent := (u.dependentVars.map SynapseVar.digest).mergeSort Digest.le
  u.model.encoding ++ text u.group ++ encodeBound u.model.refs u.refs ++
    encodeBound u.model.preRefs u.preRefs ++ encodeBound u.model.postRefs u.postRefs ++
    encodeList Encoding.digest dependent

/-- What the code for the host depends on. -/
def hostEncoding (u : ConnectivityUpdate) : Encoding :=
  u.model.encoding ++ text u.group

/-- What the initialisation of presynaptic variables and of random number streams depends on. -/
def preInitEncoding (u : ConnectivityUpdate) : Encoding :=
  u.model.encoding ++ encodeInits u.model.preVars u.preInits ++ flag u.model.usesRandom

/-- What the initialisation of postsynaptic variables depends on. -/
def postInitEncoding (u : ConnectivityUpdate) : Encoding :=
  u.model.encoding ++ encodeInits u.model.postVars u.postInits

/-- What the initialisation of variables stored with the synapses depends on. -/
def sparseInitEncoding (u : ConnectivityUpdate) : Encoding :=
  u.model.encoding ++ encodeInits u.model.vars u.inits

end ConnectivityUpdate

end KernelWeaver
