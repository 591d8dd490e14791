import KernelWeaver.Code.Stream
import KernelWeaver.CType

/-!
# The CUDA dialect

How kernels, copies, launches and random number streams are spelled in CUDA.
-/

namespace KernelWeaver.Cuda

open Code

/-- The name of the dialect. -/
def name : String := "CUDA"

/-- What stands before the name of a kernel. -/
def kernelPrefix : String := "extern \"C\" __global__ void "

/-- The number of a thread in its block. -/
def threadId : String := "threadIdx.x"

/-- The number of a block. -/
def blockId : String := "blockIdx.x"

/-- What stands before a variable that the threads of a block share. -/
def sharedPrefix : String := "__shared__ "

/-- The call at which the threads of a block wait for each other. -/
def barrier : String := "__syncthreads()"

/-- The qualifier of constant memory. -/
def constantSpace : String := "__device__ __constant__"

/-- The qualifier of global memory. -/
def globalSpace : String := "__device__"

/-- A call whose failure ends the program. -/
def checkedCall (call : String) : String := "CHECK_CUDA_ERRORS(" ++ call ++ ")"

/-- An assertion. -/
def assertion (condition : String) : String := "assert(" ++ condition ++ ");"

/-- The declaration of an array of structs. -/
def structArray (space struct array : String) (count : Nat) : String :=
  space ++ " " ++ struct ++ " " ++ array ++ "[" ++ toString count ++ "];"

/-- The statement that copies the struct of one member to the device. -/
def structPush (struct array : String) : String :=
  checkedCall ("cudaMemcpyToSymbolAsync(" ++ array ++ ", &group, sizeof(" ++ struct ++
    "), idx * sizeof(" ++ struct ++ "))") ++ ";"

/-- The declaration of a table of the first lanes of members. -/
def startTable (name : String) (ids : List Nat) : String :=
  constantSpace ++ " unsigned int " ++ name ++ "[] = \x7b" ++
    Text.join ", " (ids.map toString) ++ "\x7d;"

/-- The size of a copy: a number of elements times the size of one. -/
def copySize (element : CType) (count : String) : String :=
  count ++ " * sizeof(" ++ element.name ++ ")"

/-- The call that copies elements to the device. -/
def push (host device : String) (element : CType) (count : String) : String :=
  checkedCall ("cudaMemcpy(" ++ device ++ ", " ++ host ++ ", " ++ copySize element count ++
    ", cudaMemcpyHostToDevice)")

/-- The call that copies elements from the device. -/
def pull (host device : String) (element : CType) (count : String) : String :=
  checkedCall ("cudaMemcpy(" ++ host ++ ", " ++ device ++ ", " ++ copySize element count ++
    ", cudaMemcpyDeviceToHost)")

/-- The statements that launch a kernel. -/
def launch (kernel : String) (blocks blockSize : Nat) (args : String) : List String :=
  ["\x7b", "const dim3 threads(" ++ toString blockSize ++ ", 1);",
    "const dim3 grid(" ++ toString blocks ++ ", 1);",
    kernel ++ "<<<grid, threads>>>(" ++ args ++ ");",
    checkedCall "cudaPeekAtLastError()" ++ ";", "\x7d"]

/-- The state of the stream from which initialisation draws. -/
def laneState : CType := .named "curandStatePhilox4_32_10_t" 64

/-- The state of a stream that a row keeps. -/
def rowState : CType := .named "curandState" 48

/-- The declaration of the stream from which all lanes of initialisation skip ahead. -/
def globalStream : String := "__device__ " ++ laneState.name ++ " d_rng;"

/-- The kernel that seeds the stream of initialisation. -/
def seedKernelName : String := "initializeRNGKernel"

/-- The code of the kernel that seeds the stream of initialisation. -/
def seedKernel : List String :=
  [kernelPrefix ++ seedKernelName ++ "(unsigned long long deviceRNGSeed)", "\x7b",
    "if(threadIdx.x == 0)", "\x7b", laneState.name ++ " rng;",
    "curand_init(deviceRNGSeed, 0, 0, &rng);", "d_rng = rng;", "\x7d", "\x7d"]

/-- The statements that give a lane its own subsequence of the stream of initialisation. -/
def skipAhead (lane : String) : String :=
  "curandStatePhilox4_32_10_t initRNG = d_rng;\nskipahead_sequence((unsigned long long)(" ++
    lane ++ "), &initRNG);"

/-- The statement that seeds the stream of a row. -/
def seedRow (seed lane state : String) : String :=
  "curand_init(" ++ seed ++ ", " ++ lane ++ ", 0, &" ++ state ++ ");"

/-- The functions that draw random numbers of a precision, each with a type and its code. -/
def drawFunctions (precision : Numeric) : List (String × CType × String) :=
  let scalar := CType.num precision
  let suffix := if precision = .double then "_double" else ""
  let log := if precision = .double then "log" else "logf"
  [("gennrand_uniform", .fn scalar [], "curand_uniform" ++ suffix ++ "(&$(_rng))"),
    ("gennrand_normal", .fn scalar [], "curand_normal" ++ suffix ++ "(&$(_rng))"),
    ("gennrand_exponential", .fn scalar [],
      "(-" ++ log ++ "(curand_uniform" ++ suffix ++ "(&$(_rng))))"),
    ("gennrand_log_normal", .fn scalar [scalar, scalar],
      "curand_log_normal" ++ suffix ++ "(&$(_rng), $(0), $(1))")]

end KernelWeaver.Cuda
