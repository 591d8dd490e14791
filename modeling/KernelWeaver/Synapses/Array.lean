import KernelWeaver.CType

/-!
# Arrays stored with synapses

One array holds a value for every synapse of a connectivity, or one for every synapse and batch.
-/

namespace KernelWeaver.Synapses

/-- An array with a value for every synapse. -/
structure SynapseArray where
  /-- The name under which updates know the array, if they do. -/
  binding : Option String
  /-- The struct field that points to the array. -/
  field : String
  type : CType
  /-- Whether every batch has a copy of its own. -/
  duplicated : Bool
  readOnly : Bool
  /-- The array of each member. -/
  values : List String
deriving DecidableEq, Repr

namespace SynapseArray

/-- Whether a new synapse is given a value for the array. -/
def isArgument (a : SynapseArray) : Bool := a.binding.isSome

/-- Whether there is more than one copy of the array. -/
def isBatched (a : SynapseArray) (batchSize : Nat) : Bool := a.duplicated && 1 < batchSize

/-- The name that the pointer to the array is bound to. -/
def pointerName (a : SynapseArray) : String := "_array_" ++ a.field

/-- The marker for the pointer to the array. -/
def marker (a : SynapseArray) : String := "$(" ++ a.pointerName ++ ")"

/-- The type of the pointer to the array. -/
def pointerType (a : SynapseArray) : CType := a.type.removeConst.toPointer

end SynapseArray

end KernelWeaver.Synapses
