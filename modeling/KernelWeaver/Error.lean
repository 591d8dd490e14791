import KernelWeaver.CType
import KernelWeaver.Device.Kernel
import KernelWeaver.Diagnostic
import KernelWeaver.Fault
import KernelWeaver.Snippet.Tree

/-!
# Errors

What can be wrong with a model, a snippet or a configuration so that no code is generated. Each
error is a cause; its wording is given by `Error.message`.
-/

namespace KernelWeaver

/-- How the members of a merged group fail to fit together. -/
inductive Mismatch where
  /-- A field is used where no struct encloses the code. -/
  | noStruct
  | unboundReference (name : String)
  /-- Members store different numbers of variables that the update does not name. -/
  | dependentCount (expected found : Nat)
  | noValue (parameter : String)
deriving DecidableEq, Repr

/-- What is wrong with a configuration. -/
inductive ConfigFlaw where
  /-- A line is neither a section, a comment nor an assignment. -/
  | notAssignment (line : String)
  | badValue (key value : String)
  | unknownKernel (name : String)
  | badBlockSize (kernel : Kernel) (size : Nat)
  | unknownKey (key area : String)
  | noWarp
  /-- A block is smaller than one warp. -/
  | narrowBlock
deriving DecidableEq, Repr

/-- Why a file cannot be read. -/
inductive ReadFailure where
  | notFound
  | notDirectory
  | isDirectory
  /-- The path, or a name in it, is longer than the file system allows. -/
  | nameTooLong
  /-- The path contains the character of code zero. -/
  | zeroByte
deriving DecidableEq, Repr

/-- Why no code is generated. -/
inductive Error where
  | undefinedName (name : String)
  /-- A binding depends on an initialiser that its scope does not have. -/
  | undefinedInitialiser (index : Nat)
  | untypedNode (id : Snippet.NodeId)
  | untypedDeclaration (name : String)
  | unknownType (text : String)
  | redeclaration (name : String)
  | fieldConflict (name : String) (existing requested : CType)
  /-- No memory space has room for a struct array. -/
  | noRoom (name : String) (bytes : Nat)
  | inconsistent (group : String) (mismatch : Mismatch)
  | rowFull (row stride : Nat)
  /-- A snippet was rejected. -/
  | rejected (label : String) (report : Report)
  | config (origin : String) (flaw : ConfigFlaw)
  | unreadable (path : String) (cause : ReadFailure)
deriving DecidableEq, Repr

/-- `text` between single quotes. -/
def quoted (text : String) : String := "'" ++ text ++ "'"

/-- The wording of a mismatch. -/
def Mismatch.message : Mismatch → String
  | noStruct => "field referenced outside a merged struct scope"
  | unboundReference name => "variable reference " ++ quoted name ++ " is not bound"
  | dependentCount expected found =>
    "expected " ++ toString expected ++ " dependent variables, found " ++ toString found
  | noValue parameter => "parameter " ++ quoted parameter ++ " has no value"

/-- The wording of a configuration flaw. -/
def ConfigFlaw.message : ConfigFlaw → String
  | notAssignment line => "expected 'key = value', found " ++ quoted line
  | badValue key value => "invalid " ++ key ++ ": " ++ value
  | unknownKernel name => "unknown kernel " ++ quoted name ++ " in [block_sizes]"
  | badBlockSize kernel size =>
    "block size for " ++ kernel.name ++ " must be a non-zero multiple of 32, got " ++ toString size
  | unknownKey key area => "unknown key " ++ quoted key ++ " in [" ++ area ++ "]"
  | noWarp => "device.warp_size must be > 0"
  | narrowBlock => "device.max_threads_per_block must be at least one warp"

/-- The wording of a read failure, with its number. -/
def ReadFailure.message : ReadFailure → String
  | notFound => "No such file or directory (os error 2)"
  | notDirectory => "Not a directory (os error 20)"
  | isDirectory => "Is a directory (os error 21)"
  | nameTooLong => "File name too long (os error 36)"
  | zeroByte => "file name contained an unexpected NUL byte"

/-- The wording of an error. -/
def Error.message : Error → String
  | undefinedName name => "Undefined identifier " ++ quoted name
  | undefinedInitialiser index =>
    "Undefined identifier " ++ quoted ("initialiser #" ++ toString index)
  | untypedNode id => untyped ("expression node " ++ toString id)
  | untypedDeclaration name => untyped ("declaration of " ++ quoted name)
  | unknownType text => "unknown type " ++ quoted text
  | redeclaration name => "Redeclaration of " ++ quoted name
  | fieldConflict name existing requested =>
    "struct field " ++ quoted name ++ " registered with conflicting types " ++
      quoted existing.name ++ " and " ++ quoted requested.name
  | noRoom name bytes =>
    "no memory space has room for " ++ toString bytes ++ " bytes of merged struct " ++ quoted name
  | inconsistent group mismatch =>
    "merged group " ++ group ++ " is inconsistent: " ++ mismatch.message
  | rowFull row stride =>
    "row " ++ toString row ++ " is full (" ++ toString stride ++ " synapses)"
  | rejected label report =>
    label ++ ": compilation failed with " ++ toString report.length ++ " error(s)"
  | config origin flaw => "configuration error in " ++ origin ++ ": " ++ flaw.message
  | unreadable path cause => "cannot read " ++ quoted path ++ ": " ++ cause.message
where
  untyped (what : String) : String :=
    "no resolved type for " ++ what ++ "; snippet was not type checked"

/-- How a computation ends without a result. -/
inductive Failure where
  | error (error : Error)
  | fault (fault : Fault)
deriving DecidableEq, Repr

/-- A computation that may end with an error or a fault. -/
abbrev Attempt (α : Type) := Except Failure α

namespace Attempt

/-- Ends with an error. -/
def fail {α : Type} (e : Error) : Attempt α := .error (.error e)

/-- A computation in which only faults can occur. -/
def ofChecked {α : Type} : Checked α → Attempt α
  | .ok a => .ok a
  | .error f => .error (.fault f)

instance : MonadLift Checked Attempt := ⟨ofChecked⟩

end Attempt

end KernelWeaver
