import KernelWeaver.Code.Emit
import KernelWeaver.Dispatch.Lanes
import KernelWeaver.Merge.Group

/-!
# Dispatch of lanes to groups

The groups of a kernel own consecutive ranges of lanes. The code tests the ranges in turn, and
within a group with several members it searches the table of their first lanes.
-/

namespace KernelWeaver.Generate

open Code

/-- A group for which code has been generated, with its lanes. -/
structure Dispatched where
  struct : GroupStruct
  range : LaneRange

/-- The table of the first lanes of the members, which a single member does not need. -/
def Dispatched.startTable? (d : Dispatched) : Option (String × List Nat) :=
  if 1 < d.range.starts.length then some (d.struct.id.startTable, d.range.starts) else none

/-- The code that searches a table for the first entry above a lane. -/
def searchLines (id table : String) (members : Nat) : List String :=
  ["unsigned int lo = 0;", "unsigned int hi = " ++ toString members ++ ";", "while(lo < hi)",
    "\x7b", "const unsigned int mid = (lo + hi) / 2;",
    "if(" ++ id ++ " < " ++ table ++ "[mid])", "\x7b", "hi = mid;", "\x7d", "else", "\x7b",
    "lo = mid + 1;", "\x7d", "\x7d"]

/-- The test whether a lane belongs to a range. -/
def guardLine (id : String) (range : LaneRange) : String :=
  if range.start = 0 then "if(" ++ id ++ " < " ++ toString range.size ++ ")"
  else
    "if(" ++ id ++ " >= " ++ toString range.start ++ " && " ++ id ++ " < " ++
      toString range.stop ++ ")"

/-- The code that finds the struct of the member that a lane belongs to. -/
def structLines (id : String) (g : GroupId) (members : Nat) : List String :=
  let struct (index : String) :=
    "struct " ++ g.structName ++ " *group = &" ++ g.deviceArray ++ "[" ++ index ++ "];"
  if 1 < members then searchLines id g.startTable members ++ [struct "lo - 1"]
  else [struct "0"]

/-- The type of an id. -/
def laneType : CType := CType.uint.addConst

/-- Binds `id` to the place of a lane in its member. -/
def bindLane (id : String) (g : GroupId) (range : LaneRange) (members : Nat) : Emit Unit := do
  if 1 < members then
    let start ← Emit.addInitialiser
      ("const unsigned int groupStartID = " ++ g.startTable ++ "[lo - 1];")
    Emit.bindAfter "_group_start_id" laneType "groupStartID" [start]
  else Emit.bind "_group_start_id" laneType (toString range.start)
  let lid ← Emit.addInitialiser ("const unsigned int lid = " ++ id ++ " - $(_group_start_id);")
  Emit.bindAfter "id" laneType "lid" [lid]

/-- Emits the code of one group around a body, which gives the fields that it reads. -/
def dispatchGroup (id : String) (g : GroupId) (range : LaneRange) (members : Nat)
    (body : Emit StructFields) : Emit StructFields := do
  Emit.line ("// merged" ++ toString g.index)
  Emit.line (guardLine id range)
  Emit.line "\x7b"
  Emit.lines (structLines id g members)
  let fields ← Emit.inScope do
    bindLane id g range members
    body
  Emit.line "\x7d"
  return fields

/-- Emits the code of groups whose lanes begin at `start`, and gives the lane behind them. -/
def dispatchFrom {α : Type} (id : String) (blockSize : Nat) (nameOf : α → String)
    (lanes : α → Checked Nat) (body : MergedGroup α → Emit StructFields) :
    (start : Nat) → List (MergedGroup α) → Emit (List Dispatched × Nat)
  | start, [] => pure ([], start)
  | start, g :: groups => do
    let sizes ← Emit.ofChecked (g.members.mapM lanes)
    let range ← Emit.ofChecked (LaneRange.ofSizes start sizes blockSize)
    let fields ← dispatchGroup id g.id range g.size (body g)
    let (rest, stop) ← dispatchFrom id blockSize nameOf lanes body range.stop groups
    return (⟨⟨g.id, g.members.map nameOf, fields⟩, range⟩ :: rest, stop)

/-- Emits the code of groups whose lanes begin at `start`. The lane itself is bound to `id`. -/
def dispatch {α : Type} (blockSize : Nat) (nameOf : α → String) (lanes : α → Checked Nat)
    (body : MergedGroup α → Emit StructFields) (start : Nat) (groups : List (MergedGroup α)) :
    Emit (List Dispatched × Nat) := do
  let id ← Emit.resolve "id" none
  dispatchFrom id blockSize nameOf lanes body start groups

end KernelWeaver.Generate
