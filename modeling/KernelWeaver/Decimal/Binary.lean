/-!
# Binary floats

A finite binary float is a mantissa times a power of two. This module takes a double apart, rounds
it to a narrower format and cuts off its fraction, all in exact integer arithmetic.
-/

namespace KernelWeaver.Decimal

/-- A binary floating-point format. -/
structure BinaryFormat where
  /-- The number of bits of a mantissa. -/
  precision : Nat
  /-- The exponent of the smallest positive number. -/
  leastExponent : Int
  /-- Numbers of magnitude two to this power and above are infinite. -/
  limitExponent : Int
deriving DecidableEq, Repr

/-- Single precision. -/
def BinaryFormat.single : BinaryFormat := ⟨24, -149, 128⟩

/-- Double precision. -/
def BinaryFormat.double : BinaryFormat := ⟨53, -1074, 1024⟩

/-- A binary float. -/
inductive Binary where
  | nan
  | infinite (negative : Bool)
  /-- The mantissa times two to the exponent, with a sign that zero has too. -/
  | finite (negative : Bool) (mantissa : Nat) (exponent : Int)
deriving DecidableEq, Repr

/-- Two to the power of `e` where `e` is positive, and one elsewhere. -/
def twoTo (e : Int) : Nat := Nat.pow 2 e.toNat

/-- Ten to the power of `e` where `e` is positive, and one elsewhere. -/
def tenTo (e : Int) : Nat := Nat.pow 10 e.toNat

/-- `n / d` rounded to the nearest integer, a half going to the even one. -/
def divideToEven (n d : Nat) : Nat :=
  let q := n / d
  let r := 2 * (n % d)
  if r < d || (r = d && q % 2 = 0) then q else q + 1

namespace Binary

/-- The parts of a double. -/
def ofFloat (x : Float) : Binary :=
  let bits := x.toBits.toNat
  let negative := bits / Nat.pow 2 63 = 1
  let exponent : Nat := bits / Nat.pow 2 52 % 2048
  let fraction : Nat := bits % Nat.pow 2 52
  if exponent = 2047 then
    if fraction = 0 then .infinite negative else .nan
  else if exponent = 0 then .finite negative fraction (-1074)
  else .finite negative (Nat.pow 2 52 + fraction) ((exponent : Int) - 1075)

/-- The nearest float of a format, a half going to the even mantissa. -/
def roundTo (format : BinaryFormat) : Binary → Binary
  | .nan => .nan
  | .infinite negative => .infinite negative
  | .finite negative 0 _ => .finite negative 0 format.leastExponent
  | .finite negative m q =>
    let length : Int := m.log2 + 1
    let target := max (q + length - format.precision) format.leastExponent
    let rounded := divideToEven (m * twoTo (q - target)) (twoTo (target - q))
    let (m, q) :=
      if rounded = Nat.pow 2 format.precision then (Nat.pow 2 (format.precision - 1), target + 1)
      else (rounded, target)
    if q + format.precision > format.limitExponent then .infinite negative
    else .finite negative m q

/-- The integer part, moved into the range from `low` to `high`; no number counts as zero. -/
def toInt (low high : Int) : Binary → Int
  | .nan => 0
  | .infinite negative => if negative then low else high
  | .finite negative m q =>
    let n : Int := m * twoTo q / twoTo (-q)
    max low (min high (if negative then -n else n))

end Binary

end KernelWeaver.Decimal
