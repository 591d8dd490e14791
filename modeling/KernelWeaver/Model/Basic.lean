import KernelWeaver.Numeric
import KernelWeaver.Table

/-!
# Models

A model consists of updates. A custom update changes the elements of a population; a connectivity
update changes the rows of a group of synapses. Each is an instance of an update model, which
declares parameters, variables and references to variables of others, and gives the code.
-/

namespace KernelWeaver

/-- How a variable may be used and whether every batch has a copy of its own. -/
inductive Access where
  | readWrite
  /-- Read by all batches. -/
  | readOnly
  | readOnlyDuplicate
deriving DecidableEq, Repr, Inhabited

/-- Whether every batch has a copy of its own. -/
def Access.isDuplicated : Access → Bool
  | readWrite | readOnlyDuplicate => true
  | readOnly => false

/-- Whether code may only read the variable. -/
def Access.isReadOnly : Access → Bool
  | readWrite => false
  | readOnly | readOnlyDuplicate => true

/-- A variable that an update model declares. -/
structure Var where
  name : String
  /-- The type as written. -/
  type : String
  access : Access
deriving DecidableEq, Repr, Inhabited

/-- A place for a variable of another owner. -/
structure RefSlot where
  name : String
  /-- The type as written. -/
  type : String
  readOnly : Bool
deriving DecidableEq, Repr, Inhabited

/-- A parameter that is computed from the others and the time step. -/
structure DerivedParam where
  name : String
  value : Table Float → (dt : Float) → Float

/-- A pointer that the user of the generated code provides. -/
structure GlobalParam where
  name : String
  /-- The type as written. -/
  type : String
deriving DecidableEq, Repr, Inhabited

/-- How a variable gets its first values. -/
inductive VarInit where
  /-- All elements get the same value. -/
  | constant (value : Float)
  /-- The value of each element is computed by code, which may draw random numbers. -/
  | code (text : String) (drawsRandom : Bool)
  | uninitialised

namespace VarInit

/-- What the names of the functions that draw random numbers begin with. -/
def drawMark : String := "gennrand"

/-- Initialisation by code that draws random numbers if it names one of the functions for that. -/
def ofCode (text : String) : VarInit := code text (Text.contains text drawMark)

/-- Whether the variable gets values. -/
def isInitialised : VarInit → Bool
  | uninitialised => false
  | constant _ | code .. => true

/-- Whether random numbers are drawn. -/
def usesRandom : VarInit → Bool
  | code _ drawsRandom => drawsRandom
  | constant _ | uninitialised => false

/-- The code that assigns `value`. A constant is a parameter of its own, so that variables with
different constants have the same code. -/
def snippet? : VarInit → Option String
  | constant _ => some "value = constant;"
  | code text _ => some text
  | uninitialised => none

/-- The constant value. -/
def constantValue : VarInit → Float
  | constant value => value
  | code .. | uninitialised => 0.0

end VarInit

/-- The description of custom updates. -/
structure UpdateModel where
  name : String
  params : List String
  derived : List DerivedParam
  vars : List Var
  refs : List RefSlot
  globals : List GlobalParam
  code : String

/-- The description of connectivity updates. -/
structure ConnectivityModel where
  name : String
  params : List String
  derived : List DerivedParam
  vars : List Var
  preVars : List Var
  postVars : List Var
  refs : List RefSlot
  preRefs : List RefSlot
  postRefs : List RefSlot
  globals : List GlobalParam
  /-- The code that runs on the device for every row. -/
  rowCode : String
  /-- The code that runs on the host after all rows. -/
  hostCode : String

namespace ConnectivityModel

/-- Whether the code for rows draws random numbers. -/
def usesRandom (m : ConnectivityModel) : Bool := Text.contains m.rowCode VarInit.drawMark

/-- Whether there is code for rows. -/
def hasRowCode (m : ConnectivityModel) : Bool := !(Text.trim m.rowCode).isEmpty

/-- Whether there is code for the host. -/
def hasHostCode (m : ConnectivityModel) : Bool := !(Text.trim m.hostCode).isEmpty

/-- Whether the code for the host draws random numbers. -/
def usesHostRandom (m : ConnectivityModel) : Bool := Text.contains m.hostCode VarInit.drawMark

end ConnectivityModel

/-- The name of the array on the device that holds a variable of an owner. -/
def deviceArray (var owner : String) : String := "d_" ++ var ++ owner

/-- A variable of another owner that fills a slot. -/
structure VarReference where
  target : String
  var : String
  /-- The type as written. -/
  type : String
  duplicated : Bool
deriving DecidableEq, Repr, Inhabited

/-- The array that the reference stands for. -/
def VarReference.array (r : VarReference) : String := deviceArray r.var r.target

/-- A variable that is stored with synapses. -/
structure SynapseVar where
  owner : String
  name : String
  /-- The type as written. -/
  type : String
  duplicated : Bool
deriving DecidableEq, Repr, Inhabited

/-- The array of the variable. -/
def SynapseVar.array (v : SynapseVar) : String := deviceArray v.name v.owner

/-- A group of synapses, kept in rows. -/
structure SynapseGroup where
  name : String
  numPre : Nat
  numPost : Nat
  /-- The number of slots of a row. -/
  rowStride : Nat
  /-- Every variable stored with the synapses. -/
  vars : List SynapseVar
deriving DecidableEq, Repr, Inhabited

/-- An update of the elements of a population. -/
structure CustomUpdate where
  name : String
  /-- The update group, whose updates run together. -/
  group : String
  model : UpdateModel
  params : Table Float
  inits : Table VarInit
  refs : Table VarReference
  size : Nat
  /-- Whether every batch is updated. -/
  batched : Bool

/-- An update of the rows of a group of synapses. -/
structure ConnectivityUpdate where
  name : String
  /-- The update group, whose updates run together. -/
  group : String
  model : ConnectivityModel
  params : Table Float
  synapses : SynapseGroup
  inits : Table VarInit
  preInits : Table VarInit
  postInits : Table VarInit
  refs : Table VarReference
  preRefs : Table VarReference
  postRefs : Table VarReference

/-- How a variable is initialised. -/
def initOf (inits : Table VarInit) (var : Var) : VarInit :=
  (inits.find? var.name).getD .uninitialised

/-- Whether any of the variables gets values. -/
def anyInitialised (inits : Table VarInit) (vars : List Var) : Bool :=
  vars.any fun v => (initOf inits v).isInitialised

/-- The variables stored with the synapses that the update keeps aligned although it does not name
them. -/
def ConnectivityUpdate.dependentVars (u : ConnectivityUpdate) : List SynapseVar :=
  u.synapses.vars.filter fun v =>
    v.owner ≠ u.name && !u.refs.entries.any fun r => r.target = v.owner && r.var = v.name

/-- A model. -/
structure Model where
  name : String
  /-- The type that `scalar` stands for. -/
  precision : Numeric
  batchSize : Nat
  seed : Nat
  dt : Float
  updates : List CustomUpdate
  connectivity : List ConnectivityUpdate

/-- The names of the update groups in the order of their first use. -/
def Model.groups (m : Model) : List String :=
  (m.updates.map (·.group) ++ m.connectivity.map (·.group)).foldl
    (fun names name => if names.contains name then names else names ++ [name]) []

end KernelWeaver
