import KernelWeaver.Error
import KernelWeaver.Merge.Group
import KernelWeaver.Model.Encoding
import KernelWeaver.Synapses.Array
import KernelWeaver.TypeText

/-!
# The arrays of a merged connectivity update

A change of rows moves every array that is stored with the synapses: the variables of the update
itself, those it refers to, and those it does not name. The members of a group may declare the last
in different orders; a digest of type and copies puts them in the same order for all members.
-/

namespace KernelWeaver

open Synapses

/-- The type that a text spells. -/
def resolveType (aliases : Aliases) (type : String) : Except Error CType :=
  match aliases.parseType? type with
  | some t => .ok t
  | none => .error (.unknownType type)

/-- What fills a slot of an update. -/
def boundTo (owner : String) (refs : Table VarReference) (slot : RefSlot) :
    Except Error VarReference :=
  match refs.find? slot.name with
  | some r => .ok r
  | none => .error (.inconsistent owner (.unboundReference slot.name))

/-- The variables that an update does not name, ordered by their digests. -/
def sortedDependentVars (u : ConnectivityUpdate) : List SynapseVar :=
  u.dependentVars.mergeSort fun a b => a.digest.le b.digest

namespace MergedGroup

variable (g : MergedGroup ConnectivityUpdate) (aliases : Aliases)

/-- The array of a variable of the update itself. -/
def ownArray (v : Var) : Except Error SynapseArray := do
  let type ← resolveType aliases v.type
  return {
    binding := some v.name
    field := v.name
    type
    duplicated := false
    readOnly := v.access.isReadOnly
    values := g.members.map fun u => deviceArray v.name u.name }

/-- The array of a variable that the update refers to. It counts as duplicated if it is so for any
member. -/
def referredArray (slot : RefSlot) : Except Error SynapseArray := do
  let refs ← g.members.mapM fun u => boundTo u.name u.refs slot
  let type ← resolveType aliases slot.type
  return {
    binding := some slot.name
    field := slot.name
    type
    duplicated := refs.any (·.duplicated)
    readOnly := slot.readOnly
    values := refs.map VarReference.array }

/-- Accepts members that have the given number of variables the update does not name. -/
def checkDependent (count : Nat) (u : ConnectivityUpdate) : Except Error Unit :=
  let found := (sortedDependentVars u).length
  if found = count then .ok ()
  else .error (.inconsistent u.name (.dependentCount count found))

/-- The array of the `i`-th variable that the update does not name. -/
def dependentArray (i : Nat) (v : SynapseVar) : Except Error SynapseArray := do
  let type ← resolveType aliases v.type
  return {
    binding := none
    field := "_dependentVar" ++ toString i
    type
    duplicated := v.duplicated
    readOnly := false
    values := g.members.filterMap fun u => (sortedDependentVars u)[i]?.map SynapseVar.array }

/-- All arrays stored with the synapses of a group. -/
def synapseArrays : Except Error (List SynapseArray) := do
  let own ← g.archetype.model.vars.mapM (g.ownArray aliases)
  let referred ← g.archetype.model.refs.mapM (g.referredArray aliases)
  let dependent := sortedDependentVars g.archetype
  -- the members of a group that was not merged by digest may store different numbers of them
  g.members.forM (checkDependent dependent.length)
  let dependent ← dependent.zipIdx.mapM fun (v, i) => g.dependentArray aliases i v
  return own ++ referred ++ dependent

end MergedGroup

end KernelWeaver
