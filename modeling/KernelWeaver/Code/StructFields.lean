import KernelWeaver.Code.Stream
import KernelWeaver.Error

/-!
# Fields of a struct

The code of a merged group reads what differs between its members from the fields of a struct. A
field comes into being when code first refers to it. In memory the largest fields come first.
-/

namespace KernelWeaver.Code

/-- A field, with the text of its value for each member. -/
structure StructField where
  name : String
  type : CType
  value : Nat → Checked String

/-- The space that a field takes up; a field without a size takes up one byte. -/
def StructField.space (field : StructField) : Nat := max field.type.size 1

/-- The fields of a struct in the order in which they were registered. -/
abbrev StructFields := List StructField

namespace StructFields

/-- The field of the given name. -/
def find? (fields : StructFields) (name : String) : Option StructField :=
  List.find? (fun f => f.name = name) fields

/-- Whether there is a field of the given name. -/
def has (fields : StructFields) (name : String) : Bool :=
  (fields.find? name).isSome

/-- Adds a field, unless there is one of its name already, which must then have the same type. -/
def register (fields : StructFields) (field : StructField) : Except Error StructFields :=
  match fields.find? field.name with
  | none => .ok (fields ++ [field])
  | some old =>
    if old.type.sameKind field.type then .ok fields
    else .error (.fieldConflict field.name old.type field.type)

/-- The fields in the order in which they are laid out: the largest first, and fields of one size as
they were registered. -/
def sorted (fields : StructFields) : StructFields :=
  fields.mergeSort fun a b => b.type.size ≤ a.type.size

/-- The least multiple of `unit` that is not below `n`, as a 64-bit word. -/
def alignUp (n unit : Nat) : Checked Nat :=
  fit 64 ((n + unit - 1) / unit * unit)

/-- The end of the fields laid out from `offset` on, and the strictest alignment among them and
`align`. -/
def layOut : StructFields → (offset align : Nat) → Checked (Nat × Nat)
  | [], offset, align => .ok (offset, align)
  | field :: rest, offset, align => do
    let start ← alignUp offset field.space
    let stop ← fit 64 (start + field.space)
    layOut rest stop (max align field.space)

/-- The size of the struct in bytes. -/
def structSize (fields : StructFields) : Checked Nat := do
  let (offset, align) ← layOut fields.sorted 0 1
  alignUp offset align

/-- Writes the definition of the struct. -/
def writeDefinition (fields : StructFields) (name : String) (s : CodeStream) : CodeStream :=
  s.line ("struct " ++ name)
    |>.line "\x7b"
    |>.writeAll (fields.sorted.map fun f => f.type.name ++ " " ++ f.name ++ ";")
    |>.line "\x7d;"

/-- The parameters of the function that sets the fields of one member. -/
def parameters (fields : StructFields) : String :=
  Text.join ", " (fields.sorted.map fun f => f.type.name ++ " " ++ f.name)

/-- The values of the fields for a member, as laid out. -/
def values (fields : StructFields) (member : Nat) : Checked (List String) :=
  fields.sorted.mapM fun f => f.value member

end StructFields

end KernelWeaver.Code
