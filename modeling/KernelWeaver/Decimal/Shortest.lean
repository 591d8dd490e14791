import KernelWeaver.Decimal.Binary

/-!
# Shortest decimals

The decimal with the fewest digits among those that round to a given binary float, the nearest of
these where there are several, and its text.
-/

namespace KernelWeaver.Decimal

/-- The decimal `0.d₁d₂d₃… · 10 ^ point` that has the digits of a number. -/
structure Numeral where
  digits : Nat
  point : Int
deriving DecidableEq, Repr

/-- The positive real `value / scale` between the bounds of the reals that round to it. -/
structure Interval where
  scale : Nat
  low : Nat
  value : Nat
  high : Nat
  /-- Whether the bounds themselves round to the value. -/
  closed : Bool
deriving Repr

/-- The reals that round to the float `m · 2 ^ q` of a format. -/
def Interval.around (format : BinaryFormat) (m : Nat) (q : Int) : Interval :=
  let unit := twoTo q
  -- below a power of two the neighbours lie twice as close
  let below := if m = Nat.pow 2 (format.precision - 1) && q > format.leastExponent then 1 else 2
  { scale := 4 * twoTo (-q)
    low := (4 * m - below) * unit
    value := 4 * m * unit
    high := (4 * m + 2) * unit
    closed := m % 2 = 0 }

/-- The number of decimal digits of `n`. -/
def decimalLength (n : Nat) : Nat := (Nat.toDigits 10 n).length

namespace Interval

/-- The power of ten `p` with `10 ^ (p - 1) ≤ value < 10 ^ p`. -/
def point (i : Interval) : Int :=
  if i.scale ≤ i.value then decimalLength (i.value / i.scale)
  else 1 - decimalLength ((i.scale - 1) / i.value)

/-- Whether `n · 10 ^ unit` rounds to the value. -/
def holds (i : Interval) (unit : Int) (n : Nat) : Bool :=
  let n := n * tenTo unit * i.scale
  let low := i.low * tenTo (-unit)
  let high := i.high * tenTo (-unit)
  if i.closed then low ≤ n && n ≤ high else low < n && n < high

/-- The multiple of `10 ^ unit` that rounds to the value and is nearest to it, of two equally near
ones the larger. -/
def onGrid? (i : Interval) (unit : Int) : Option Nat :=
  let value := i.value * tenTo (-unit)
  let step := i.scale * tenTo unit
  let n := value / step
  let upNearer := decide (step ≤ 2 * (value % step))
  match i.holds unit n, i.holds unit (n + 1) with
  | true, true => some (if upNearer then n + 1 else n)
  | true, false => some n
  | false, true => some (n + 1)
  | false, false => none

/-- The first of the grids with `count`, `count + 1`, … digits that has a point in the interval. -/
def search (i : Interval) (point : Int) : Nat → Nat → Numeral
  -- not reached: some decimal of seventeen digits always reads back
  | 0, count => ⟨i.value * tenTo (count - point) / (i.scale * tenTo (point - count)), point⟩
  | more + 1, count =>
    match i.onGrid? (point - count) with
    | some n => ⟨n, point + (decimalLength n - count)⟩
    | none => search i point more (count + 1)

/-- The shortest decimal that rounds to the value; seventeen digits are always enough. -/
def shortest (i : Interval) : Numeral :=
  i.search i.point 17 1

end Interval

/-- Where a decimal is written without an exponent. -/
structure TextStyle where
  /-- The least power of ten behind the first digit. -/
  leastPoint : Int
  /-- The greatest power of ten behind the first digit. -/
  greatestPoint : Int

/-- Decimals from `1e-4` to below `1e16` are written without an exponent. -/
def literalStyle : TextStyle := ⟨-3, 16⟩

/-- The digits of a positive number without the zeros at their end. -/
def significantDigits (n : Nat) : List Char :=
  ((Nat.toDigits 10 n).reverse.dropWhile (· = '0')).reverse

/-- The text of a positive decimal. A text without exponent has digits on both sides of its
point; one with exponent has a point only where there is more than one digit. -/
def Numeral.text (style : TextStyle) (d : Numeral) : List Char :=
  let digits := significantDigits d.digits
  if style.leastPoint ≤ d.point ∧ d.point ≤ style.greatestPoint then
    let digits := List.replicate (1 - d.point).toNat '0' ++ digits
    let whole := max d.point.toNat 1
    let padded := digits ++ List.replicate (whole - digits.length) '0'
    let fraction := padded.drop whole
    padded.take whole ++ '.' :: (if fraction.isEmpty then ['0'] else fraction)
  else
    digits.take 1 ++ (if digits.length > 1 then '.' :: digits.drop 1 else []) ++
      'e' :: (toString (d.point - 1)).toList

/-- The text of a float of the given format: the shortest decimal that reads back as it. -/
def Binary.text (format : BinaryFormat) (style : TextStyle) : Binary → String
  | .nan => "NaN"
  | .infinite negative => if negative then "-inf" else "inf"
  | .finite negative m q =>
    let magnitude :=
      if m = 0 then ['0', '.', '0'] else (Interval.around format m q).shortest.text style
    String.ofList (if negative then '-' :: magnitude else magnitude)

/-- The text of a double. -/
def doubleText (x : Float) : String :=
  (Binary.ofFloat x).text .double literalStyle

/-- The text of a double rounded to single precision. -/
def singleText (x : Float) : String :=
  ((Binary.ofFloat x).roundTo .single).text .single literalStyle

end KernelWeaver.Decimal
