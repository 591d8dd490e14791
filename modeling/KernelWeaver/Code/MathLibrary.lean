import KernelWeaver.Code.Emit

/-!
# The mathematical library

The functions that every snippet may call. Most exist in single and in double precision; the name of
the former ends in `f`.
-/

namespace KernelWeaver.Code.MathLibrary

/-- Functions of one number. -/
def unary : List String :=
  ["cos", "sin", "tan", "acos", "asin", "atan", "cosh", "sinh", "tanh", "exp", "expm1", "exp2",
    "log", "log1p", "log2", "log10", "sqrt", "cbrt", "erf", "erfc", "fabs", "floor", "ceil",
    "round", "trunc"]

/-- Functions of two numbers. -/
def binary : List String :=
  ["pow", "atan2", "fmod", "fmin", "fmax", "hypot", "fdim"]

/-- The type of a function of `arity` numbers of one type. -/
def uniform (n : Numeric) (arity : Nat) : CType :=
  .fn (.num n) (List.replicate arity (.num n))

/-- The two precisions of a function. -/
def precisions (arity : Nat) (name : String) : List (String × CType × String) :=
  [(name, uniform .float arity, name ++ "f"), (name, uniform .double arity, name)]

/-- The names of the library, each with a type and its code. -/
def functions : List (String × CType × String) :=
  unary.flatMap (precisions 1) ++ binary.flatMap (precisions 2) ++ precisions 3 "fma" ++
    [("abs", uniform .int32 1, "abs"), ("min", uniform .uint32 2, "min"),
      ("max", uniform .uint32 2, "max")]

/-- Binds the library in the innermost scope. -/
def bindAll : Emit Unit :=
  functions.forM fun (name, type, code) => Emit.overload name type code

end KernelWeaver.Code.MathLibrary
