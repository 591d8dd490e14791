/-!
# Kernels

The kernels of a generated program.
-/

namespace KernelWeaver

/-- A kernel of the generated program. -/
inductive Kernel where
  | update
  | connectivity
  | init
  | sparseInit
deriving DecidableEq, Repr, Inhabited

namespace Kernel

/-- All kernels in the order in which tables list them. -/
def all : List Kernel := [update, connectivity, init, sparseInit]

/-- The name of the kernel. -/
def name : Kernel → String
  | update => "customUpdate"
  | connectivity => "customConnectivityUpdate"
  | init => "initialize"
  | sparseInit => "initializeSparse"

/-- The kernel of the given name. -/
def ofName? (name : String) : Option Kernel :=
  all.find? (·.name = name)

theorem ofName?_name (k : Kernel) : ofName? k.name = some k := by
  cases k <;> decide +kernel

end Kernel

end KernelWeaver
