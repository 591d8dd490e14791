import KernelWeaver.Code.Emit
import KernelWeaver.Device.Cuda

/-!
# Random numbers in generated code

All lanes of initialisation draw from one stream, each from a subsequence of its own. A connectivity
update that draws random numbers keeps one stream for each row. Code on the host draws from a
generator of the host.
-/

namespace KernelWeaver.Code.Random

/-- The generator of the host. -/
def hostGenerator : String := "hostRNG"

/-- The number of subsequences that initialisation can use. -/
def streamCount : Nat := Nat.pow 2 64

/-- The subsequence of a lane in a kernel that comes after `offset` lanes of earlier kernels. -/
def laneSequence (id : String) (offset : Nat) : String :=
  if offset = 0 then id else id ++ " + " ++ toString offset

/-- Binds functions in the innermost scope. -/
def bindFunctions (functions : List (String × CType × String)) : Emit Unit :=
  functions.forM fun (name, type, code) => Emit.bind name type code

/-- Binds the functions that draw from the stream of a lane. The lane skips ahead only if one of
them is called. -/
def bindLane (precision : Numeric) (lane : String) : Emit Unit := do
  let skip ← Emit.addInitialiser (Cuda.skipAhead lane)
  Emit.bindAfter "_rng" Cuda.laneState "initRNG" [skip]
  bindFunctions (Cuda.drawFunctions precision)

/-- Binds the functions that draw from the stream of a row. `states` are the arrays of streams of
the members. -/
def bindRow (precision : Numeric) (index : String) (states : List String) : Emit Unit := do
  Emit.bindField "_rng" Cuda.rowState ("group->rng[" ++ index ++ "]")
    ⟨"rng", Cuda.rowState.toPointer, entry states⟩
  bindFunctions (Cuda.drawFunctions precision)

/-- The declarations of the generator and the distributions of the host. -/
def hostDeclarations (precision : Numeric) : List String :=
  let scalar := precision.name
  let zero := precision.literal 0.0
  let one := precision.literal 1.0
  ["std::mt19937 " ++ hostGenerator ++ ";",
    "std::uniform_real_distribution<" ++ scalar ++ "> standardUniformDistribution(" ++ zero ++
      ", " ++ one ++ ");",
    "std::normal_distribution<" ++ scalar ++ "> standardNormalDistribution(" ++ zero ++ ", " ++
      one ++ ");",
    "std::exponential_distribution<" ++ scalar ++ "> standardExponentialDistribution(" ++ one ++
      ");"]

/-- The functions that draw random numbers on the host, each with a type and its code. -/
def hostFunctions (precision : Numeric) : List (String × CType × String) :=
  let scalar := CType.num precision
  [("gennrand_uniform", .fn scalar [], "standardUniformDistribution($(_rng))"),
    ("gennrand_normal", .fn scalar [], "standardNormalDistribution($(_rng))"),
    ("gennrand_exponential", .fn scalar [], "standardExponentialDistribution($(_rng))"),
    ("gennrand_log_normal", .fn scalar [scalar, scalar],
      "std::lognormal_distribution<" ++ precision.name ++ ">($(0), $(1))($(_rng))")]

/-- Binds the functions that draw from the generator of the host. -/
def bindHost (precision : Numeric) : Emit Unit := do
  Emit.bind "_rng" (.named "std::mt19937" 0) hostGenerator
  bindFunctions (hostFunctions precision)

end KernelWeaver.Code.Random
