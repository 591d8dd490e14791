import KernelWeaver.Error

/-!
# Ragged rows

Synapses are kept in rows. Every row owns the same number of slots, of which the first are live, in
the array of postsynaptic neurons and in every array stored with it. Rows change in the same way as
in the generated code: a synapse is added behind the live slots, and removed by moving the last live
one into its slot.
-/

namespace KernelWeaver.Synapses

/-- An array with a value for every slot, once or once for every batch. -/
structure RowArray where
  name : String
  /-- Whether every batch has a copy of its own. -/
  duplicated : Bool
  values : List Float

/-- Rows of synapses. -/
structure RaggedRows where
  /-- The number of slots that each row owns. -/
  stride : Nat
  /-- The number of copies of a duplicated array. -/
  batches : Nat
  /-- The number of live slots of each row. -/
  lengths : List Nat
  /-- The postsynaptic neuron of each slot. -/
  posts : List Nat
  arrays : List RowArray

namespace RaggedRows

/-- The number of slots of all rows. -/
def slots (r : RaggedRows) : Nat := r.lengths.length * r.stride

/-- Empty rows without arrays. There is always at least one batch. -/
def ofSize (rows stride batches : Nat) : Checked RaggedRows := do
  let slots ← fit 64 (rows * stride)
  return ⟨stride, max batches 1, List.replicate rows 0, List.replicate slots 0, []⟩

/-- The number of copies of an array. -/
def copies (r : RaggedRows) (a : RowArray) : Nat := if a.duplicated then r.batches else 1

/-- The rows with one more array, which holds zeros. -/
def withArray (r : RaggedRows) (name : String) (duplicated : Bool) : Checked RaggedRows := do
  let count ← fit 64 (r.slots * if duplicated then r.batches else 1)
  return { r with arrays := r.arrays ++ [⟨name, duplicated, List.replicate count 0.0⟩] }

/-- The number of live slots of a row. -/
def length (r : RaggedRows) (row : Nat) : Checked Nat := entry r.lengths row

/-- The postsynaptic neurons of the live slots of a row. -/
def row (r : RaggedRows) (row : Nat) : List Nat :=
  (r.posts.drop (row * r.stride)).take (r.lengths[row]?.getD 0)

/-- The array of the given name. -/
def array? (r : RaggedRows) (name : String) : Option RowArray :=
  r.arrays.find? (·.name = name)

/-- The value of a slot of a row in one copy of an array. -/
def value? (r : RaggedRows) (name : String) (batch row slot : Nat) : Checked (Option Float) := do
  match r.array? name with
  | none => return none
  | some a =>
    let offset ← if a.duplicated then fit 64 (batch * r.slots) else pure 0
    let start ← fit 64 (row * r.stride)
    let start ← fit 64 (offset + start)
    let i ← fit 64 (start + slot)
    return a.values[i]?

/-- An array with a slot changed in every copy; `value` tells the new value from the place where the
copy begins. -/
def store (r : RaggedRows) (a : RowArray) (slot : Nat) (value : (start : Nat) → Float) :
    RowArray :=
  let starts := (List.range (r.copies a)).map (· * r.slots)
  { a with values := starts.foldl (fun vs start => vs.set (start + slot) (value start)) a.values }

/-- Adds a synapse to a row and gives its slot. The arrays take the values in order; an array
without one takes zero. -/
def add (r : RaggedRows) (row post : Nat) (values : List Float) : Attempt (Nat × RaggedRows) := do
  let length ← r.length row
  if length ≥ r.stride then Attempt.fail (.rowFull row r.stride)
  else
    let slot := row * r.stride + length
    return (slot,
      { r with
        posts := r.posts.set slot post
        arrays := r.arrays.mapIdx fun i a => r.store a slot fun _ => values[i]?.getD 0.0
        lengths := r.lengths.set row (length + 1) })

/-- Removes a live slot of a row by moving the last live one into it. -/
def remove (r : RaggedRows) (row slot : Nat) : Checked RaggedRows := do
  let length ← r.length row
  if length ≤ slot then .error .precondition
  else
    let target := row * r.stride + slot
    let last := row * r.stride + length - 1
    return { r with
      posts := r.posts.set target (r.posts[last]?.getD 0)
      arrays := r.arrays.map fun a =>
        r.store a target fun start => a.values[start + last]?.getD 0.0
      lengths := r.lengths.set row (length - 1) }

/-- Visits the last `remaining` live slots of a row and removes those that are selected. A slot from
which a synapse has been removed is visited again. -/
def sweep {σ : Type} (select : σ → (post slot : Nat) → Bool × σ) (row : Nat) :
    (remaining slot : Nat) → σ → RaggedRows → Checked (Nat × RaggedRows)
  | 0, _, _, r => .ok (0, r)
  | remaining + 1, slot, s, r => do
    let post := r.posts[row * r.stride + slot]?.getD 0
    let (selected, s) := select s post slot
    if selected then
      -- the last live synapse has moved into the slot, which is visited next
      let r ← r.remove row slot
      let (count, r) ← sweep select row remaining slot s r
      return (count + 1, r)
    else sweep select row remaining (slot + 1) s r

/-- Removes the synapses of a row that are selected and gives their number. What is selected can
depend on what has been visited before. -/
def removeWhere {σ : Type} (r : RaggedRows) (row : Nat) (select : σ → (post slot : Nat) → Bool × σ)
    (s : σ) : Checked (Nat × RaggedRows) := do
  let length ← r.length row
  sweep select row length 0 s r

end RaggedRows

end KernelWeaver.Synapses
