import KernelWeaver.Code.StructFields
import KernelWeaver.Digest.Encoding

/-!
# Merged groups

Updates whose code is the same but for values are merged: they share the code and a struct type, and
each has a struct of its own with its values. Groups and members keep the order in which they were
first seen.
-/

namespace KernelWeaver

open Code

/-- Which merged group of a model is meant. -/
structure GroupId where
  /-- What the group does. -/
  kind : String
  /-- The number of the group among those of its kind. -/
  index : Nat
  /-- Whether its structs are kept on the host. -/
  onHost : Bool
deriving DecidableEq, Repr, Inhabited

namespace GroupId

/-- The kind and the number of the group as the end of a name. -/
def ending (g : GroupId) : String := g.kind ++ "Group" ++ toString g.index

/-- The struct type. -/
def structName (g : GroupId) : String := "Merged" ++ g.ending

/-- The array on the device with a struct for each member. -/
def deviceArray (g : GroupId) : String := "d_merged" ++ g.ending

/-- The array on the host with a struct for each member. -/
def hostArray (g : GroupId) : String := "merged" ++ g.ending

/-- The function that sets the struct of one member. -/
def pushFunction (g : GroupId) : String :=
  "pushMerged" ++ g.ending ++ if g.onHost then "" else "ToDevice"

/-- The table on the device with the first lane of each member. -/
def startTable (g : GroupId) : String :=
  "d_merged" ++ g.kind ++ "GroupStartID" ++ toString g.index

end GroupId

/-- Updates that share their code. There is always a first member, by which decisions about the
shared code are made. -/
structure MergedGroup (α : Type) where
  id : GroupId
  archetype : α
  others : List α
  digest : Digest

namespace MergedGroup

variable {α : Type}

/-- The members in order. -/
def members (g : MergedGroup α) : List α := g.archetype :: g.others

/-- The number of members. -/
def size (g : MergedGroup α) : Nat := g.members.length

/-- The group of all of the given members, of which there must be one. -/
def ofMembers (id : GroupId) (members : List α) (digest : Digest) : Checked (MergedGroup α) :=
  match members with
  | [] => .error .outOfRange
  | first :: others => .ok ⟨id, first, others, digest⟩

/-- Adds an update to the first group with its digest, or as a new group with the next number. -/
def add (kind : String) (onHost : Bool) (index : Nat) (update : α) (digest : Digest) :
    List (MergedGroup α) → List (MergedGroup α)
  | [] => [⟨⟨kind, index, onHost⟩, update, [], digest⟩]
  | group :: groups =>
    if group.digest = digest then { group with others := group.others ++ [update] } :: groups
    else group :: add kind onHost (index + 1) update digest groups

/-- Merges updates by the digests of their encodings. The first group has the number `index`. -/
def merge (kind : String) (onHost : Bool) (index : Nat) (encode : α → Encoding)
    (updates : List α) : List (MergedGroup α) :=
  updates.foldl
    (fun groups u => add kind onHost index u (.ofEncoding (encode u)) groups) []

/-- Merges the updates of each update group on its own, going on with the numbers from one to the
next. Update groups without any of the updates are left out. -/
def mergeByName (kind : String) (onHost : Bool) (encode : α → Encoding) (groupOf : α → String)
    (updates : List α) : (index : Nat) → (names : List String) →
    List (String × List (MergedGroup α))
  | _, [] => []
  | index, name :: names =>
    let merged := merge kind onHost index encode (updates.filter (groupOf · = name))
    let rest := mergeByName kind onHost encode groupOf updates (index + merged.length) names
    if merged.isEmpty then rest else (name, merged) :: rest

end MergedGroup

/-- The struct of a merged group, for which code has been generated. -/
structure GroupStruct where
  id : GroupId
  /-- The names of the members. -/
  members : List String
  fields : StructFields

namespace GroupStruct

/-- The size in bytes of the structs of all members. -/
def bytes (g : GroupStruct) : Checked Nat := do
  let size ← g.fields.structSize
  fit 64 (size * g.members.length)

/-- The calls that set the structs of the members, from the one with the given number on. -/
def pushCallsFrom (g : GroupStruct) : (i : Nat) → (members : List String) →
    Checked (List String)
  | _, [] => .ok []
  | i, member :: rest => do
    let values ← g.fields.values i
    let call := g.id.pushFunction ++ "(" ++ Text.join ", " (toString i :: values) ++ ");"
    let calls ← g.pushCallsFrom (i + 1) rest
    return ("// " ++ member) :: call :: calls

/-- The calls that set the structs of all members, each behind a comment that names the member. -/
def pushCalls (g : GroupStruct) : Checked (List String) := g.pushCallsFrom 0 g.members

end GroupStruct

end KernelWeaver
