import KernelWeaver.Device.Config
import KernelWeaver.Device.Cuda
import KernelWeaver.Device.Memory
import KernelWeaver.Device.Occupancy

/-!
# The back end

The back end is what code is generated for: a device and the block sizes chosen for it.
-/

namespace KernelWeaver

/-- A device for which code is generated, with the block size of each kernel. -/
structure Backend where
  device : Device
  preferences : Preferences
  blockSizes : BlockSizes
deriving DecidableEq, Repr

namespace Backend

/-- The back end of a configuration. -/
def ofConfig (config : Config) : Checked Backend := do
  let blockSizes ← config.device.blockSizes config.preferences
  return ⟨config.device, config.preferences, blockSizes⟩

/-- The memory spaces that struct arrays can be placed in. Some constant memory is left to the
compiler. -/
def spaces (b : Backend) : List MemorySpace :=
  [⟨Cuda.constantSpace, b.device.totalConstMem - b.preferences.constantOverhead⟩,
    ⟨Cuda.globalSpace, b.device.totalGlobalMem⟩]

end Backend

end KernelWeaver
