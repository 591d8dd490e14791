import KernelWeaver.Fault

/-!
# Lanes

The lanes of a kernel are numbered. Each merged group owns a range of them, and in it each member
owns a range that is padded to whole blocks. A lane finds its member by a binary search among the
first lanes of the members. All numbers are 32-bit words.
-/

namespace KernelWeaver

/-- The least multiple of the block size that is not below `size`. -/
def padSize (size blockSize : Nat) : Checked Nat := do
  let blocks ← quotient (size + blockSize - 1) blockSize
  fit 32 (blocks * blockSize)

/-- The lanes of a merged group. -/
structure LaneRange where
  /-- The first lane. -/
  start : Nat
  /-- The first lane of each member. -/
  starts : List Nat
  /-- The number of lanes. -/
  size : Nat
deriving DecidableEq, Repr

namespace LaneRange

/-- The first lanes of members of the given sizes, and the lane behind them. -/
def startsFrom (blockSize : Nat) : (next : Nat) → (sizes : List Nat) → Checked (List Nat × Nat)
  | next, [] => .ok ([], next)
  | next, size :: sizes => do
    let padded ← padSize size blockSize
    let stop ← fit 32 (next + padded)
    let (starts, last) ← startsFrom blockSize stop sizes
    return (next :: starts, last)

/-- The range of a group that begins at a lane. -/
def ofSizes (start : Nat) (sizes : List Nat) (blockSize : Nat) : Checked LaneRange := do
  let (starts, stop) ← startsFrom blockSize start sizes
  return ⟨start, starts, stop - start⟩

/-- The lane behind the range. -/
def stop (r : LaneRange) : Nat := r.start + r.size

/-- Whether a lane belongs to the range. -/
def contains (r : LaneRange) (id : Nat) : Bool := r.start ≤ id && id < r.stop

/-- The number of entries of an ascending list that are not above `id`, where it is known to lie
between `lo` and `hi`. -/
def search (starts : List Nat) (id : Nat) (lo hi : Nat) : Nat :=
  if h : lo < hi then
    let mid := (lo + hi) / 2
    if id < starts[mid]?.getD 0 then search starts id lo mid
    else search starts id (mid + 1) hi
  else lo
termination_by hi - lo

/-- The member that a lane belongs to, and the place of the lane in it. -/
def resolve (r : LaneRange) (id : Nat) : Option (Nat × Nat) :=
  if !r.contains id then none
  -- a single member needs no search
  else if r.starts.length = 1 then some (0, id - r.start)
  else
    let member := search r.starts id 0 r.starts.length - 1
    some (member, id - r.starts[member]?.getD 0)

/-- The ranges of groups that follow each other from a lane on. -/
def layoutFrom (blockSize : Nat) : (start : Nat) → (groups : List (List Nat)) →
    Checked (List LaneRange)
  | _, [] => .ok []
  | start, sizes :: groups => do
    let range ← ofSizes start sizes blockSize
    let ranges ← layoutFrom blockSize range.stop groups
    return range :: ranges

/-- The ranges of groups with members of the given sizes, from lane zero on. -/
def layout (groups : List (List Nat)) (blockSize : Nat) : Checked (List LaneRange) :=
  layoutFrom blockSize 0 groups

end LaneRange

/-- A group, a member of it and a place in that member. -/
structure LanePlace where
  group : Nat
  member : Nat
  offset : Nat
deriving DecidableEq, Repr

/-- The place of a lane, by the ranges of the groups in order; `group` is the number of the first of
them. -/
def resolveLaneFrom (id : Nat) : (group : Nat) → List LaneRange → Option LanePlace
  | _, [] => none
  | group, range :: ranges =>
    match range.resolve id with
    | some (member, offset) => some ⟨group, member, offset⟩
    | none => resolveLaneFrom id (group + 1) ranges

/-- The place of a lane. -/
def resolveLane (ranges : List LaneRange) (id : Nat) : Option LanePlace :=
  resolveLaneFrom id 0 ranges

/-- Walks the members of one group from the lane `start` on: the place of a lane among them, or the
lane behind them. -/
def walkMembers (blockSize id group : Nat) : (member start : Nat) → (sizes : List Nat) →
    Checked (LanePlace ⊕ Nat)
  | _, start, [] => .ok (.inr start)
  | member, start, size :: sizes => do
    let padded ← padSize size blockSize
    let stop ← fit 32 (start + padded)
    if id < stop then return .inl ⟨group, member, id - start⟩
    else walkMembers blockSize id group (member + 1) stop sizes

/-- Walks the members of all groups from the lane `start` on. -/
def walkGroups (blockSize id : Nat) : (group start : Nat) → (groups : List (List Nat)) →
    Checked (Option LanePlace)
  | _, _, [] => .ok none
  | group, start, sizes :: groups => do
    match ← walkMembers blockSize id group 0 start sizes with
    | .inl place => return some place
    | .inr stop => walkGroups blockSize id (group + 1) stop groups

/-- The place of a lane, by a walk over the members in order. -/
def resolveLaneLinear (groups : List (List Nat)) (blockSize id : Nat) :
    Checked (Option LanePlace) :=
  walkGroups blockSize id 0 0 groups

end KernelWeaver
