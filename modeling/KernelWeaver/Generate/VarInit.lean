import KernelWeaver.Compile
import KernelWeaver.Generate.Kernel

/-!
# Initialisation of variables

The first value of a variable is put together in `initVal` and then stored. A constant is a
parameter of the code, so that members with different constants share it.
-/

namespace KernelWeaver.Generate

open Code

/-- Where the value of a variable is stored. -/
structure StorePlace where
  /-- The index of the element. -/
  index : String
  /-- The number of batches and the name of the distance between them, where duplicated variables
  are stored for every batch. -/
  batches : Option (Nat × String)
deriving DecidableEq, Repr

/-- Stores `initVal` into the array of a variable. -/
def storeInitial (place : StorePlace) (v : Var) : Emit Unit := do
  let target := "$(_array_" ++ v.name ++ ")"
  match place.batches, v.access.isDuplicated with
  | some (count, distance), true =>
    Emit.line ("for(unsigned int b = 0; b < " ++ toString count ++ "; b++)")
    Emit.line "\x7b"
    Emit.expandLine
      (target ++ "[(b * $(" ++ distance ++ ")) + " ++ place.index ++ "] = initVal;")
    Emit.line "\x7d"
  | _, _ => Emit.expandLine (target ++ "[" ++ place.index ++ "] = initVal;")

/-- Emits the initialisation of a variable; `inits` says for each member how it is initialised, and
the first member decides about the code. -/
def emitVarInit (t : Target) (place : StorePlace) (label : String) (v : Var)
    (inits : List VarInit) : Emit Unit := do
  let init := inits.headD .uninitialised
  match init.snippet? with
  | none => return
  | some snippet =>
    let type ← Emit.ofError (resolveType t.aliases v.type)
    Emit.line "\x7b"
    Emit.inScope do
      Emit.line (type.name ++ " initVal;")
      Emit.bind "value" type "initVal"
      match init with
      | .constant _ =>
        Emit.bindParameters (type.numeric?.getD t.model.precision) v.name
          (inits.map fun i => [("constant", i.constantValue)]) ["constant"]
      | _ => pure ()
      compileSnippet t.aliases none
        (label ++ " variable " ++ quoted v.name ++ " initialisation") snippet
      storeInitial place v
    Emit.line "\x7d"

/-- Emits the initialisation of variables; `members` are the initialisations of each member. -/
def emitVarInits (t : Target) (place : StorePlace) (label : String)
    (members : List (Table VarInit)) (vars : List Var) : Emit Unit :=
  vars.forM fun v => emitVarInit t place label v (members.map (initOf · v))

/-- Whether any member draws random numbers for any of the variables. -/
def anyRandom (members : List (Table VarInit)) (vars : List Var) : Bool :=
  members.any fun inits => vars.any fun v => (initOf inits v).usesRandom

end KernelWeaver.Generate
