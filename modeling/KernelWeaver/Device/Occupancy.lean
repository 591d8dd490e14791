import KernelWeaver.Device.Properties
import KernelWeaver.Fault

/-!
# Block sizes

The occupancy of a multiprocessor is the number of warps that it holds at once. It is limited by the
blocks, threads, registers and shared memory of the multiprocessor. A block size is chosen that
makes it as large as possible.
-/

namespace KernelWeaver

/-- What one thread of a kernel needs. -/
structure Resources where
  registers : Nat
  sharedMem : Nat
deriving DecidableEq, Repr

/-- What one thread of each kernel is taken to need. The lengths of rows are staged in shared memory
when synapses are initialised. -/
def Resources.estimate : Kernel → Resources
  | .update => ⟨32, 0⟩
  | .connectivity => ⟨40, 0⟩
  | .init => ⟨48, 0⟩
  | .sparseInit => ⟨48, 4⟩

namespace Device

/-- The number of blocks that `available` allows if each takes `taken`; a block that takes nothing
is not limited. -/
def limit (blocks available taken : Nat) : Nat :=
  if taken = 0 then blocks else min blocks (available / taken)

/-- The number of warps that a multiprocessor holds at once, in blocks of a size. -/
def occupancy (device : Device) (resources : Resources) (blockSize : Nat) : Checked Nat := do
  if blockSize = 0 ∨ device.maxThreadsPerBlock < blockSize then return 0
  else
    let blocks := min device.maxBlocksPerMultiprocessor
      (device.maxThreadsPerMultiprocessor / blockSize)
    let registers ← fit 32 (resources.registers * blockSize)
    let blocks := limit blocks device.registersPerMultiprocessor registers
    let shared ← fit 32 (resources.sharedMem * blockSize)
    if device.sharedMemPerBlock < shared then return 0
    else
      let blocks := limit blocks device.sharedMemPerMultiprocessor shared
      let threads ← fit 32 (blocks * blockSize)
      quotient threads device.warpSize

/-- A block size and the occupancy that it reaches. -/
structure Choice where
  blockSize : Nat
  warps : Nat
deriving DecidableEq, Repr

/-- The better of the best choice so far and a later one. One without any warps is no choice. -/
def better (tieBreak : TieBreak) (best : Option Choice) (next : Choice) : Option Choice :=
  if next.warps = 0 then best
  else
    match best with
    | none => some next
    | some old =>
      if old.warps < next.warps ∨ (next.warps = old.warps ∧ tieBreak = .largest) then some next
      else some old

/-- The best of `count` block sizes from `size` on, each one warp larger than the one before, going
on from the best so far. -/
def bestFrom (device : Device) (resources : Resources) (tieBreak : TieBreak) :
    (count size : Nat) → Option Choice → Checked (Option Choice)
  | 0, _, best => .ok best
  | count + 1, size, best => do
    let warps ← device.occupancy resources size
    bestFrom device resources tieBreak count (size + device.warpSize)
      (better tieBreak best ⟨size, warps⟩)

/-- The block size of the greatest occupancy among the whole warps up to the largest block; one warp
if no block fits. -/
def bestBlockSize (device : Device) (resources : Resources) (tieBreak : TieBreak) :
    Checked Nat := do
  if device.warpSize = 0 then .error .precondition
  else
    let best ← device.bestFrom resources tieBreak
      (device.maxThreadsPerBlock / device.warpSize) device.warpSize none
    return (best.map Choice.blockSize).getD device.warpSize

/-- The block size of every kernel, by its estimated resources. -/
def bestBlockSizes (device : Device) (tieBreak : TieBreak) : Checked BlockSizes := do
  let best (kernel : Kernel) := device.bestBlockSize (.estimate kernel) tieBreak
  let update ← best .update
  let connectivity ← best .connectivity
  let init ← best .init
  let sparseInit ← best .sparseInit
  return ⟨update, connectivity, init, sparseInit⟩

/-- The block sizes that the preferences lead to. -/
def blockSizes (device : Device) (preferences : Preferences) : Checked BlockSizes :=
  match preferences.choice with
  | .manual => .ok preferences.manual
  | .occupancy => device.bestBlockSizes preferences.tieBreak

end Device

end KernelWeaver
