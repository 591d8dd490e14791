import KernelWeaver.Device.Properties
import KernelWeaver.Error
import KernelWeaver.Text.Blank

/-!
# Configurations

A configuration is a text of assignments under the headings of areas. It starts from the built-in
values, and every assignment replaces one of them.
-/

namespace KernelWeaver

/-- A device and what is preferred for it. -/
structure Config where
  preferences : Preferences
  device : Device
deriving DecidableEq, Repr

namespace Config

/-- The configuration that assigns nothing. -/
def standard : Config := ⟨.standard, .reference⟩

/-- The number that digits spell, behind an optional plus sign. -/
def digits? (cs : List Char) : Option Nat :=
  let digits := if cs.head? = some '+' then cs.tail else cs
  if digits.isEmpty || !digits.all Char.isDigit then none
  else some (Nat.ofDigitChars 10 digits 0)

/-- The number that a text spells as a word of `width` bits. Underscores may stand anywhere. -/
def number (width : Nat) (key value : String) : Except ConfigFlaw Nat :=
  match digits? (value.toList.filter (· ≠ '_')) with
  -- too large a number is no number of that width
  | some n => if n < Nat.pow 2 width then .ok n else .error (.badValue key value)
  | none => .error (.badValue key value)

/-- What a line of a configuration says. -/
inductive Line where
  /-- A blank line or a comment. -/
  | nothing
  | area (name : String)
  | assignment (key value : String)
deriving DecidableEq, Repr

/-- Reads a line. The value of an assignment ends where a comment begins. -/
def Line.ofString (line : String) : Except ConfigFlaw Line :=
  let trimmed := Text.trim line
  let cs := trimmed.toList
  if cs.isEmpty ∨ cs.head? = some '#' then .ok .nothing
  else if cs.head? = some '[' ∧ cs.getLast? = some ']' then
    .ok (.area (Text.trim (String.ofList cs.tail.dropLast)))
  else if cs.contains '=' then
    let key := String.ofList (cs.takeWhile (· ≠ '='))
    let value := String.ofList ((cs.dropWhile (· ≠ '=')).tail.takeWhile (· ≠ '#'))
    .ok (.assignment (Text.trim key) (Text.trim value))
  else .error (.notAssignment trimmed)

/-- Assigns a preference. -/
def assignPreference (p : Preferences) (key value : String) :
    Except ConfigFlaw Preferences := do
  match key with
  | "block_size_select" =>
    match Text.unquote value with
    | "occupancy" => return { p with choice := .occupancy }
    | "manual" => return { p with choice := .manual }
    | other => throw (.badValue "backend.block_size_select" other)
  | "tie_break" =>
    match Text.unquote value with
    | "smallest" => return { p with tieBreak := .smallest }
    | "largest" => return { p with tieBreak := .largest }
    | other => throw (.badValue "backend.tie_break" other)
  | "constant_cache_overhead" =>
    let n ← number 64 "backend.constant_cache_overhead" value
    return { p with constantOverhead := n }
  | _ => throw (.unknownKey key "backend")

/-- Assigns the block size of a kernel. -/
def assignBlockSize (sizes : BlockSizes) (key value : String) : Except ConfigFlaw BlockSizes := do
  match Kernel.ofName? key with
  | none => throw (.unknownKernel key)
  | some kernel =>
    let size ← number 32 kernel.name value
    if size = 0 ∨ size % 32 ≠ 0 then throw (.badBlockSize kernel size)
    else return sizes.set kernel size

/-- Assigns a property of the device. -/
def assignDevice (d : Device) (key value : String) : Except ConfigFlaw Device := do
  let word (width : Nat) := number width ("device." ++ key) value
  match key with
  | "name" => return { d with name := Text.unquote value }
  | "warp_size" => return { d with warpSize := ← word 32 }
  | "max_threads_per_block" => return { d with maxThreadsPerBlock := ← word 32 }
  | "max_threads_per_multiprocessor" => return { d with maxThreadsPerMultiprocessor := ← word 32 }
  | "max_blocks_per_multiprocessor" => return { d with maxBlocksPerMultiprocessor := ← word 32 }
  | "registers_per_multiprocessor" => return { d with registersPerMultiprocessor := ← word 32 }
  | "shared_mem_per_multiprocessor" => return { d with sharedMemPerMultiprocessor := ← word 32 }
  | "shared_mem_per_block" => return { d with sharedMemPerBlock := ← word 32 }
  | "total_const_mem" => return { d with totalConstMem := ← word 64 }
  | "total_global_mem" => return { d with totalGlobalMem := ← word 64 }
  | "multiprocessor_count" => return { d with multiprocessorCount := ← word 32 }
  | _ => throw (.unknownKey key "device")

/-- Assigns a value to a key of an area. -/
def assign (config : Config) (area key value : String) : Except ConfigFlaw Config := do
  match area with
  | "backend" =>
    let preferences ← assignPreference config.preferences key value
    return { config with preferences }
  | "block_sizes" =>
    let manual ← assignBlockSize config.preferences.manual key value
    return { config with preferences := { config.preferences with manual } }
  | "device" =>
    let device ← assignDevice config.device key value
    return { config with device }
  | _ => throw (.unknownKey key area)

/-- Takes over the assignments of lines that follow the heading of an area. -/
def readLines (config : Config) (area : String) : List String → Except ConfigFlaw Config
  | [] => .ok config
  | line :: rest => do
    match ← Line.ofString line with
    | .nothing => readLines config area rest
    | .area name => readLines config name rest
    | .assignment key value =>
      let config ← config.assign area key value
      readLines config area rest

/-- Accepts a configuration whose device can run at least one warp. -/
def checkDevice (config : Config) : Except ConfigFlaw Config :=
  if config.device.warpSize = 0 then .error .noWarp
  else if config.device.maxThreadsPerBlock < config.device.warpSize then .error .narrowBlock
  else .ok config

/-- The configuration that a text spells. `origin` names the text in errors. -/
def ofText (origin text : String) : Except Error Config :=
  (do checkDevice (← readLines standard "" (Text.lines text))).mapError (Error.config origin)

end Config

/-- What is found at a path: the text of a file, or why there is none. -/
abbrev FileView := String → Except ReadFailure String

/-- The configuration in the file at a path. -/
def Config.ofFile (files : FileView) (path : String) : Except Error Config := do
  let text ← (files path).mapError (Error.unreadable path)
  ofText path text

end KernelWeaver
