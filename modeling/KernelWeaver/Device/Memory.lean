import KernelWeaver.Error

/-!
# Memory spaces

Struct arrays are placed in memory spaces, the fastest of which come first. An array goes into the
first space that has more room left than the array takes.
-/

namespace KernelWeaver

/-- A memory space and the bytes left in it. -/
structure MemorySpace where
  name : String
  remaining : Nat
deriving DecidableEq, Repr

namespace MemorySpace

/-- Takes bytes from the first space that has more than that left, and gives its name. -/
def take? (bytes : Nat) : List MemorySpace → Option (String × List MemorySpace)
  | [] => none
  | space :: rest =>
    if bytes < space.remaining then
      some (space.name, { space with remaining := space.remaining - bytes } :: rest)
    else (take? bytes rest).map fun (name, rest) => (name, space :: rest)

/-- Places an array of structs and gives the name of its space. -/
def place (spaces : List MemorySpace) (struct : String) (bytes : Nat) :
    Except Error (String × List MemorySpace) :=
  match take? bytes spaces with
  | some placed => .ok placed
  | none => .error (.noRoom struct bytes)

end MemorySpace

end KernelWeaver
