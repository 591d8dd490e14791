import KernelWeaver.Code.MathLibrary
import KernelWeaver.Device.Backend
import KernelWeaver.Generate.Bindings

/-!
# Kernels and their launches

A kernel numbers its lanes and runs a body for each. It is launched with a number of blocks of one
size.
-/

namespace KernelWeaver.Generate

open Code

/-- A model and the back end that code is generated for. -/
structure Target where
  backend : Backend
  model : Model

namespace Target

/-- The aliases that the model's types may use. -/
def aliases (t : Target) : Aliases := .ofPrecision t.model.precision

/-- The type of numbers of the model's precision that code may only read. -/
def scalarType (t : Target) : CType := (CType.num t.model.precision).addConst

/-- The block size of a kernel. -/
def blockSize (t : Target) (kernel : Kernel) : Nat := t.backend.blockSizes.get kernel

/-- The parameter of kernels that run at a time. -/
def timeParameter (t : Target) : String := t.model.precision.name ++ " t"

/-- Binds the time step, the number of batches and the mathematical library. -/
def bindModel (t : Target) : Emit Unit := do
  Emit.bind "dt" t.scalarType (t.model.precision.literal t.model.dt)
  Emit.bind "batch_size" idType (toString t.model.batchSize ++ "u")
  MathLibrary.bindAll

/-- Writes a kernel around a body. -/
def writeKernel {α : Type} (t : Target) (kernel : Kernel) (name parameters : String)
    (preamble : List String) (body : Emit α) (s : CodeStream) : Attempt (α × CodeStream) := do
  let head := [Cuda.kernelPrefix ++ name ++ "(" ++ parameters ++ ")", "\x7b",
    "const unsigned int id = " ++ toString (t.blockSize kernel) ++ " * " ++ Cuda.blockId ++ " + " ++
      Cuda.threadId ++ ";"]
  let whole : Emit α := do
    Emit.bind "id" idType "id"
    t.bindModel
    body
  let (a, s) ← whole.runInto (s.writeAll (head ++ preamble))
  return (a, (s.line "\x7d").blank)

end Target

/-- A launch of a kernel. -/
structure Launch where
  kernel : String
  blocks : Nat
  blockSize : Nat
deriving DecidableEq, Repr

/-- The launch that gives a kernel its lanes. -/
def Launch.ofLanes (kernel : String) (lanes blockSize : Nat) : Checked Launch := do
  let blocks ← quotient lanes blockSize
  return ⟨kernel, blocks, blockSize⟩

/-- The statements of several launches with the same arguments. -/
def launchLines (args : String) (launches : List Launch) : List String :=
  launches.flatMap fun l => Cuda.launch l.kernel l.blocks l.blockSize args

end KernelWeaver.Generate
