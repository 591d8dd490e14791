import KernelWeaver.Synapses.RowCode
import Mathlib

/-!
# Statements that change rows

The code that changes rows consists of a few forms of statements. Each form has a text and a
meaning: what it does to the lists in memory and to the names that the code declares. A statement
that goes wrong, such as by an access behind the end of a list, and a loop that does not end leave
no state behind.
-/

namespace KernelWeaver.Synapses

open Code

/-- An integer that the code declares and does not change. -/
inductive Constant where
  | rowStart
  | synStride
  | slot
  | newSlot
  | lastSlot
  | copyStart
deriving DecidableEq

namespace Constant

/-- The name in the declaration. -/
def declared : Constant → String
  | rowStart => "rowStartIdx"
  | synStride => "synStride"
  | slot => "idx"
  | newSlot => "newIdx"
  | lastSlot => "lastIdx"
  | copyStart => "batchOffset"

/-- How the code refers to the constant. -/
def text : Constant → String
  | rowStart => "$(_row_start_idx)"
  | synStride => "$(_syn_stride)"
  | slot => "$(id_syn)"
  | newSlot => "newIdx"
  | lastSlot => "lastIdx"
  | copyStart => "batchOffset"

end Constant

/-- The variable of a loop. -/
inductive Counter where
  | copy
  | position
deriving DecidableEq

namespace Counter

def type : Counter → String
  | copy => "unsigned int"
  | position => "int"

def name : Counter → String
  | copy => "b"
  | position => "j"

end Counter

/-- An expression for an unsigned integer. -/
inductive Index where
  | number (n : Nat)
  | constant (c : Constant)
  | counter (c : Counter)
  /-- The number of the row. -/
  | row
  /-- The number of rows. -/
  | rows
  /-- The number of slots of each row. -/
  | stride
  /-- The number of live slots of the row. -/
  | length
  /-- The postsynaptic neuron of a slot. -/
  | post (slot : Index)
  /-- The postsynaptic neuron of the synapse that is added. -/
  | newPost
  | add (i j : Index)
  | sub (i j : Index)
  | mul (i j : Index)

def Index.text : Index → String
  | number n => toString n
  | constant c => c.text
  | counter c => c.name
  | row => "$(id_pre)"
  | rows => "$(num_pre)"
  | stride => "$(_row_stride)"
  | length => "$(_row_length)[$(id_pre)]"
  | post slot => "$(_ind)[" ++ slot.text ++ "]"
  | newPost => slot 0
  | add i j => i.text ++ " + " ++ j.text
  | sub i j => i.text ++ " - " ++ j.text
  | mul i j => i.text ++ " * " ++ j.text

/-- An expression for a value that is stored in an array. -/
inductive Datum where
  | zero
  | argument (k : Nat)
  /-- An argument that has been evaluated for an array before. -/
  | hoisted (a : SynapseArray)
  | element (a : SynapseArray) (i : Index)

def Datum.text : Datum → String
  | zero => "0"
  | argument k => slot k
  | hoisted a => a.field ++ "Val"
  | element a i => a.marker ++ "[" ++ i.text ++ "]"

/-- A statement of the code that changes rows. -/
inductive RowStmt where
  | skip
  | seq (first rest : RowStmt)
  | declare (c : Constant) (value : Index)
  | hoist (a : SynapseArray) (value : Datum)
  | assertLess (i j : Index)
  | setPost (slot value : Index)
  | setElement (a : SynapseArray) (i : Index) (value : Datum)
  /-- Counts one more live slot. -/
  | grow
  /-- Counts one less live slot. -/
  | shrink
  | decrement (c : Counter)
  | block (body : RowStmt)
  /-- Branches on a test of an integer; `condition` is the text of the test. -/
  | when (condition : String) (operand : Index) (test : Nat → Bool) (body : RowStmt)
  | loop (c : Counter) (bound : Index) (body : RowStmt)

namespace RowStmt

/-- The statements one after another. -/
def all : List RowStmt → RowStmt
  | [] => skip
  | stmt :: rest => seq stmt (all rest)

def declaration (c : Constant) (value : Index) : String :=
  "const unsigned int " ++ c.declared ++ " = " ++ value.text ++ ";"

def loopHeader (c : Counter) (bound : Index) : String :=
  "for(" ++ c.type ++ " " ++ c.name ++ " = 0; " ++ c.name ++ " < " ++ bound.text ++
    ("; " ++ c.name ++ "++)")

def lines : RowStmt → List String
  | skip => []
  | seq first rest => first.lines ++ rest.lines
  | declare c value => [declaration c value]
  | hoist a value =>
    [a.type.addConst.name ++ " " ++ (Datum.hoisted a).text ++ " = " ++ value.text ++ ";"]
  | assertLess i j => [Cuda.assertion (i.text ++ " < " ++ j.text)]
  | setPost slot value => [(Index.post slot).text ++ " = " ++ value.text ++ ";"]
  | setElement a i value => [(Datum.element a i).text ++ " = " ++ value.text ++ ";"]
  | grow => [Index.length.text ++ "++;"]
  | shrink => [Index.length.text ++ "--;"]
  | decrement c => [c.name ++ "--;"]
  | block body => "\x7b" :: (body.lines ++ ["\x7d"])
  | when condition _ _ body => ("if(" ++ condition ++ ")") :: body.lines
  | loop c bound body => loopHeader c bound :: body.lines

end RowStmt

/-- The lists that the code works on. -/
structure Memory where
  lengths : List Nat
  posts : List Nat
  /-- The values of the array behind a field. -/
  arrays : String → Option (List Float)

/-- What the code does not change. -/
structure Context where
  /-- Unsigned integers are counted modulo this number, or without bound if it is zero. -/
  modulus : Nat
  row : Nat
  rows : Nat
  stride : Nat
  /-- The postsynaptic neuron of a synapse that is added, and its values. -/
  post : Nat
  argument : Nat → Float

/-- The state that statements change. Names that have not been declared have no value. -/
structure State where
  memory : Memory
  constants : Constant → Option Nat
  hoisted : String → Option Float
  counters : Counter → Option Int

namespace State

def declare (s : State) (c : Constant) (n : Nat) : State :=
  { s with constants := Function.update s.constants c (some n) }

def setCounter (s : State) (c : Counter) (v : Option Int) : State :=
  { s with counters := Function.update s.counters c v }

/-- The state behind a block that was entered in the state `outer`. -/
def leave (s outer : State) : State :=
  { s with constants := outer.constants, hoisted := outer.hoisted }

def setLengths (s : State) (lengths : List Nat) : State :=
  { s with memory := { s.memory with lengths } }

def setPosts (s : State) (posts : List Nat) : State :=
  { s with memory := { s.memory with posts } }

def setArrays (s : State) (arrays : String → Option (List Float)) : State :=
  { s with memory := { s.memory with arrays } }

def setArray (s : State) (field : String) (values : List Float) : State :=
  s.setArrays (Function.update s.memory.arrays field (some values))

def setHoisted (s : State) (hoisted : String → Option Float) : State := { s with hoisted }

variable {s : State}

@[simp] theorem constants_declare_self (c : Constant) (n : Nat) :
    (s.declare c n).constants c = some n := Function.update_self c _ _

theorem constants_declare_of_ne {c c' : Constant} (h : c' ≠ c) (n : Nat) :
    (s.declare c n).constants c' = s.constants c' := Function.update_of_ne h _ _

@[simp] theorem counters_setCounter_self (c : Counter) (v : Option Int) :
    (s.setCounter c v).counters c = v := Function.update_self c _ _

@[simp] theorem counters_leave (outer : State) : (s.leave outer).counters = s.counters := rfl

@[simp] theorem setCounter_setCounter (c : Counter) (v w : Option Int) :
    (s.setCounter c v).setCounter c w = s.setCounter c w := by
  rw [setCounter, setCounter, Function.update_idem, setCounter]

@[simp] theorem setCounter_counters (c : Counter) : s.setCounter c (s.counters c) = s := by
  rw [setCounter, Function.update_eq_self]

@[simp] theorem arrays_setArray_self (field : String) (values : List Float) :
    (s.setArray field values).memory.arrays field = some values := Function.update_self field _ _

theorem setArray_eq_self {field : String} {values : List Float}
    (h : s.memory.arrays field = some values) : s.setArray field values = s := by
  rw [setArray, ← h, Function.update_eq_self]
  rfl

end State

/-- The unsigned integer for a number. -/
def Context.wrap (x : Context) (v : Int) : Option Nat := (v % x.modulus).toNat?

/-- The value that the variable of a loop takes when a number is assigned to it. A signed integer
has 32 bits. -/
def Counter.fit (x : Context) : Counter → Int → Option Int
  | copy, v => (x.wrap v).map fun n => (n : Int)
  | position, v => if -2 ^ 31 ≤ v ∧ v < 2 ^ 31 then some v else none

def Index.eval (x : Context) (s : State) : Index → Option Nat
  | number n => some n
  | constant c => s.constants c
  | counter c => (s.counters c).bind x.wrap
  | row => some x.row
  | rows => some x.rows
  | stride => some x.stride
  | length => s.memory.lengths[x.row]?
  | post slot => do s.memory.posts[← slot.eval x s]?
  | newPost => some x.post
  | add i j => do x.wrap ((← i.eval x s) + (← j.eval x s))
  | sub i j => do x.wrap ((← i.eval x s) - (← j.eval x s))
  | mul i j => do x.wrap ((← i.eval x s) * (← j.eval x s))

def Datum.eval (x : Context) (s : State) : Datum → Option Float
  | zero => some 0.0
  | argument k => some (x.argument k)
  | hoisted a => s.hoisted a.field
  | element a i => do (← s.memory.arrays a.field)[← i.eval x s]?

section Iterate

variable {guard : State → Option Bool} {body : State → Option State} {s t u : State}

/-- Running `body` as long as `guard` holds ends in a state. -/
inductive Iterates (guard : State → Option Bool) (body : State → Option State) :
    State → State → Prop where
  | done {s : State} (h : guard s = some false) : Iterates guard body s s
  | step {s t u : State} (h : guard s = some true) (hbody : body s = some t)
      (hrest : Iterates guard body t u) : Iterates guard body s u

theorem Iterates.unique (h : Iterates guard body s t) (h' : Iterates guard body s u) : t = u := by
  induction h with
  | done hguard =>
      cases h' with
      | done => rfl
      | step hguard' => cases hguard.symm.trans hguard'
  | step hguard hbody _ ih =>
      cases h' with
      | done hguard' => cases hguard.symm.trans hguard'
      | step _ hbody' hrest' =>
          cases hbody.symm.trans hbody'
          exact ih hrest'

open Classical in
/-- The state in which running `body` as long as `guard` holds ends, if it ends. -/
noncomputable def iterate (guard : State → Option Bool) (body : State → Option State) (s : State) :
    Option State :=
  if h : ∃ t, Iterates guard body s t then some h.choose else none

theorem iterate_eq_some_iff : iterate guard body s = some t ↔ Iterates guard body s t := by
  rw [iterate]
  constructor
  · intro h
    split at h
    next hends =>
      cases h
      exact hends.choose_spec
    next => cases h
  · intro h
    have hends : ∃ t, Iterates guard body s t := ⟨t, h⟩
    rw [dif_pos hends, hends.choose_spec.unique h]

theorem iterate_done (h : guard s = some false) : iterate guard body s = some s :=
  iterate_eq_some_iff.mpr (.done h)

theorem iterate_step (h : guard s = some true) (hbody : body s = some t) :
    iterate guard body s = iterate guard body t := by
  apply Option.ext
  intro u
  rw [iterate_eq_some_iff, iterate_eq_some_iff]
  constructor
  · intro hiter
    cases hiter with
    | done hguard => cases h.symm.trans hguard
    | step _ hbody' hrest =>
        cases hbody.symm.trans hbody'
        exact hrest
  · exact .step h hbody

/-- A loop that passes through the states of a sequence. -/
theorem iterate_sequence {n : Nat} (states : Nat → State)
    (hstep : ∀ k < n, guard (states k) = some true ∧ body (states k) = some (states (k + 1)))
    (hdone : guard (states n) = some false) :
    iterate guard body (states 0) = some (states n) := by
  have hrest : ∀ remaining ≤ n,
      iterate guard body (states (n - remaining)) = some (states n) := by
    intro remaining
    induction remaining with
    | zero => exact fun _ => iterate_done hdone
    | succ remaining ih =>
        intro hle
        obtain ⟨hguard, hbody⟩ := hstep (n - (remaining + 1)) (by omega)
        have hnext : n - (remaining + 1) + 1 = n - remaining := by omega
        rw [iterate_step hguard hbody, hnext]
        exact ih (Nat.le_of_succ_le hle)
  have hall := hrest n (Nat.le_refl n)
  rwa [Nat.sub_self] at hall

end Iterate

namespace RowStmt

/-- Whether the variable of a loop is below its bound. -/
def isBelow (x : Context) (c : Counter) (bound : Index) (s : State) : Option Bool := do
  return decide ((← (Index.counter c).eval x s) < (← bound.eval x s))

/-- Counts the variable of a loop up. -/
def advance (x : Context) (c : Counter) (s : State) : Option State := do
  return s.setCounter c (← c.fit x ((← s.counters c) + 1))

/-- The state behind a statement. -/
noncomputable def exec (x : Context) : RowStmt → State → Option State
  | skip, s => some s
  | seq first rest, s => do rest.exec x (← first.exec x s)
  | declare c value, s => do return s.declare c (← value.eval x s)
  | hoist a value, s => do
    return s.setHoisted (Function.update s.hoisted a.field (some (← value.eval x s)))
  | assertLess i j, s => do if (← i.eval x s) < (← j.eval x s) then return s else none
  | setPost slot value, s => do
    let i ← slot.eval x s
    let n ← value.eval x s
    if i < s.memory.posts.length then return s.setPosts (s.memory.posts.set i n) else none
  | setElement a i value, s => do
    let i ← i.eval x s
    let v ← value.eval x s
    let values ← s.memory.arrays a.field
    if i < values.length then return s.setArray a.field (values.set i v) else none
  | grow, s => do
    let n ← x.wrap ((← s.memory.lengths[x.row]?) + 1)
    return s.setLengths (s.memory.lengths.set x.row n)
  | shrink, s => do
    let n ← x.wrap ((← s.memory.lengths[x.row]?) - 1)
    return s.setLengths (s.memory.lengths.set x.row n)
  | decrement c, s => do return s.setCounter c (← c.fit x ((← s.counters c) - 1))
  | block body, s => do return (← body.exec x s).leave s
  | when _ operand test body, s => do if test (← operand.eval x s) then body.exec x s else return s
  | loop c bound body, s => do
    let t ← iterate (isBelow x c bound) (fun s => do advance x c (← body.exec x s))
      (s.setCounter c (some 0))
    return t.setCounter c (s.counters c)

variable {x : Context} {s t : State} {first rest body : RowStmt}

theorem exec_seq (h : first.exec x s = some t) : (seq first rest).exec x s = rest.exec x t := by
  rw [exec, h]
  rfl

end RowStmt

end KernelWeaver.Synapses
