import KernelWeaver.Digest.Blake3

/-!
# Structural digests

A description is encoded as bytes, each text behind its length, so that neighbouring fields cannot
run into each other. Two descriptions with equal digests count as equal.
-/

namespace KernelWeaver

/-- A 256-bit digest. -/
structure Digest where
  bytes : List UInt8
deriving DecidableEq, Repr, Inhabited

/-- An encoded description. -/
abbrev Encoding := List UInt8

namespace Encoding

/-- The lowest `count` bytes of `n`, lowest first. -/
def littleEndian : Nat → Nat → Encoding
  | 0, _ => []
  | count + 1, n => UInt8.ofNat n :: littleEndian count (n / 256)

@[simp] theorem length_littleEndian (count n : Nat) : (littleEndian count n).length = count := by
  induction count generalizing n with
  | zero => rfl
  | succ count ih => simp [littleEndian, ih]

/-- A single byte. -/
def byte (n : Nat) : Encoding := littleEndian 1 n

/-- A 32-bit word. -/
def word32 (n : Nat) : Encoding := littleEndian 4 n

/-- A 64-bit word. -/
def word64 (n : Nat) : Encoding := littleEndian 8 n

/-- A truth value. -/
def flag (b : Bool) : Encoding := byte b.toNat

/-- A double, as the word of its bits. -/
def float (x : Float) : Encoding := word64 x.toBits.toNat

/-- A text behind its length in bytes. -/
def text (s : String) : Encoding :=
  word64 s.utf8ByteSize ++ s.toUTF8.data.toList

/-- Texts behind their number. -/
def texts (items : List String) : Encoding :=
  word64 items.length ++ items.flatMap text

/-- A digest. -/
def digest (d : Digest) : Encoding := d.bytes

end Encoding

namespace Digest

/-- The digest of an encoded description. -/
def ofEncoding (bytes : Encoding) : Digest := ⟨Blake3.hash bytes⟩

/-- The hexadecimal digit for a value below 16. -/
def hexDigit (n : Nat) : Char :=
  if n < 10 then Char.ofNat ('0'.toNat + n) else Char.ofNat ('a'.toNat + (n - 10))

/-- Two hexadecimal digits a byte. -/
def hexOf (bytes : List UInt8) : String :=
  String.ofList (bytes.flatMap fun b => [hexDigit (b.toNat / 16), hexDigit (b.toNat % 16)])

/-- All bytes in hexadecimal. -/
def hex (d : Digest) : String := hexOf d.bytes

/-- The first eight bytes in hexadecimal. -/
def short (d : Digest) : String := hexOf (d.bytes.take 8)

/-- Whether the first list of bytes is not after the second in lexicographic order. -/
def notAfter : List UInt8 → List UInt8 → Bool
  | [], _ => true
  | _ :: _, [] => false
  | a :: as, b :: bs => a < b || (a == b && notAfter as bs)

/-- Digests are ordered by their bytes, the first difference deciding. -/
def le (a b : Digest) : Bool := notAfter a.bytes b.bytes

end Digest

end KernelWeaver
