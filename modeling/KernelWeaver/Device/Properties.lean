import KernelWeaver.Device.Kernel

/-!
# Devices and preferences

What code generation knows of a device, and what it is asked to prefer.
-/

namespace KernelWeaver

/-- What is known of a device. -/
structure Device where
  name : String
  warpSize : Nat
  maxThreadsPerBlock : Nat
  maxThreadsPerMultiprocessor : Nat
  maxBlocksPerMultiprocessor : Nat
  registersPerMultiprocessor : Nat
  sharedMemPerMultiprocessor : Nat
  sharedMemPerBlock : Nat
  totalConstMem : Nat
  totalGlobalMem : Nat
  multiprocessorCount : Nat
deriving DecidableEq, Repr

/-- The device that is assumed where none is described. -/
def Device.reference : Device where
  name := "reference"
  warpSize := 32
  maxThreadsPerBlock := 1024
  maxThreadsPerMultiprocessor := 2048
  maxBlocksPerMultiprocessor := 32
  registersPerMultiprocessor := 65536
  sharedMemPerMultiprocessor := 167936
  sharedMemPerBlock := 49152
  totalConstMem := 65536
  totalGlobalMem := 40 * Nat.pow 2 30
  multiprocessorCount := 108

/-- The block size of each kernel. -/
structure BlockSizes where
  update : Nat
  connectivity : Nat
  init : Nat
  sparseInit : Nat
deriving DecidableEq, Repr

namespace BlockSizes

/-- The same block size for all kernels. -/
def uniform (size : Nat) : BlockSizes := ⟨size, size, size, size⟩

/-- The block size of a kernel. -/
def get (sizes : BlockSizes) : Kernel → Nat
  | .update => sizes.update
  | .connectivity => sizes.connectivity
  | .init => sizes.init
  | .sparseInit => sizes.sparseInit

/-- The block sizes with that of one kernel replaced. -/
def set (sizes : BlockSizes) (kernel : Kernel) (size : Nat) : BlockSizes :=
  match kernel with
  | .update => { sizes with update := size }
  | .connectivity => { sizes with connectivity := size }
  | .init => { sizes with init := size }
  | .sparseInit => { sizes with sparseInit := size }

theorem get_set (sizes : BlockSizes) (k j : Kernel) (size : Nat) :
    (sizes.set k size).get j = if j = k then size else sizes.get j := by
  cases k <;> cases j <;> rfl

end BlockSizes

/-- How block sizes are chosen. -/
inductive BlockSizeChoice where
  /-- By the number of warps that a multiprocessor holds at once. -/
  | occupancy
  /-- As the configuration says. -/
  | manual
deriving DecidableEq, Repr

/-- Which of several equally good block sizes is chosen. -/
inductive TieBreak where
  | smallest
  | largest
deriving DecidableEq, Repr

/-- What code generation is asked to prefer. -/
structure Preferences where
  choice : BlockSizeChoice
  manual : BlockSizes
  tieBreak : TieBreak
  /-- The bytes of constant memory that are left to the compiler. -/
  constantOverhead : Nat
deriving DecidableEq, Repr

/-- The preferences where none are given. -/
def Preferences.standard : Preferences := ⟨.occupancy, .uniform 32, .smallest, 360⟩

end KernelWeaver
