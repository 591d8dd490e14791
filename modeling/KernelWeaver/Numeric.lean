import KernelWeaver.Decimal.Shortest
import KernelWeaver.Text.Blank

/-!
# Numeric types

The numeric types of the snippet language, in increasing conversion rank, with their usual
arithmetic conversions and the text of their literals.
-/

namespace KernelWeaver

/-- A numeric type. -/
inductive Numeric where
  | bool | int8 | uint8 | int16 | uint16 | int32 | uint32 | float | double
deriving DecidableEq, Repr, Inhabited

namespace Numeric

/-- All numeric types in increasing rank. -/
def all : List Numeric :=
  [bool, int8, uint8, int16, uint16, int32, uint32, float, double]

/-- The spelling of the type. -/
def name : Numeric → String
  | bool => "bool"
  | int8 => "char"
  | uint8 => "unsigned char"
  | int16 => "short"
  | uint16 => "unsigned short"
  | int32 => "int"
  | uint32 => "unsigned int"
  | float => "float"
  | double => "double"

/-- The conversion rank; floating types rank above all integers. -/
def rank : Numeric → Nat
  | bool => 0
  | int8 | uint8 => 10
  | int16 | uint16 => 20
  | int32 | uint32 => 30
  | float => 50
  | double => 60

/-- The size in bytes. -/
def size : Numeric → Nat
  | bool | int8 | uint8 => 1
  | int16 | uint16 => 2
  | int32 | uint32 | float => 4
  | double => 8

/-- Whether the type has negative numbers. -/
def isSigned : Numeric → Bool
  | int8 | int16 | int32 | float | double => true
  | bool | uint8 | uint16 | uint32 => false

/-- Whether the type has whole numbers only. -/
def isIntegral : Numeric → Bool
  | float | double => false
  | _ => true

/-- The least finite number of the type. -/
def least : Numeric → Float
  | int8 => -128.0
  | int16 => -32768.0
  | int32 => -2147483648.0
  | float => -3.4028234663852886e38
  | double => -1.7976931348623157e308
  | _ => 0.0

/-- The greatest finite number of the type. -/
def greatest : Numeric → Float
  | bool => 1.0
  | int8 => 127.0
  | uint8 => 255.0
  | int16 => 32767.0
  | uint16 => 65535.0
  | int32 => 2147483647.0
  | uint32 => 4294967295.0
  | float => 3.4028234663852886e38
  | double => 1.7976931348623157e308

/-- What follows the digits of a literal of the type. -/
def suffix : Numeric → String
  | float => "f"
  | uint32 => "U"
  | _ => ""

/-- The conversion that prints a value of the type. -/
def printFormat : Numeric → String
  | bool | int8 | int16 | int32 => "%d"
  | uint8 | uint16 | uint32 => "%u"
  | float | double => "%f"

/-- The least and greatest 64-bit integers, between which integer literals are kept. -/
def integerBounds : Int × Int := (-9223372036854775808, 9223372036854775807)

/-- The literal of the type for a value. Fractions of integers are cut off. -/
def literal (n : Numeric) (value : Float) : String :=
  match n with
  | bool => if value != 0.0 then "true" else "false"
  | float => Decimal.singleText value ++ n.suffix
  | double => Decimal.doubleText value ++ n.suffix
  | _ =>
    toString ((Decimal.Binary.ofFloat value).toInt integerBounds.1 integerBounds.2) ++ n.suffix

/-- The type in which arithmetic is done on values of this type alone. -/
def promoted (n : Numeric) : Numeric :=
  if n.isIntegral ∧ n.rank < int32.rank then int32 else n

/-- The type in which arithmetic is done on values of two types. -/
def common (a b : Numeric) : Numeric :=
  if a = double ∨ b = double then double
  else if a = float ∨ b = float then float
  else if a.promoted = b.promoted then a.promoted
  else uint32

theorem common_comm (a b : Numeric) : a.common b = b.common a := by
  cases a <;> cases b <;> rfl

/-- The type that a list of specifier words spells in any order. -/
def ofSpecifiers? (words : List String) : Option Numeric :=
  match Text.join " " (words.mergeSort (fun a b => !decide (b < a))) with
  | "bool" => some bool
  | "char" | "char signed" => some int8
  | "char unsigned" => some uint8
  | "short" | "int short" | "short signed" | "int short signed" => some int16
  | "short unsigned" | "int short unsigned" => some uint16
  | "int" | "signed" | "int signed" => some int32
  | "unsigned" | "int unsigned" => some uint32
  | "float" => some float
  | "double" => some double
  | _ => none

end Numeric

end KernelWeaver
