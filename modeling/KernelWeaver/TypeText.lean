import KernelWeaver.CType
import KernelWeaver.Table

/-!
# Types as a model writes them

A model may name numeric types by aliases, such as `scalar` for its precision. The types of its
variables are written as specifier words with an optional `const` and an optional star.
-/

namespace KernelWeaver

/-- Names for numeric types. -/
abbrev Aliases := Table Numeric

namespace Aliases

/-- The aliases of a model: `scalar` is its precision. -/
def ofPrecision (precision : Numeric) : Aliases := [("scalar", precision)]

/-- The type that specifier words spell; a single word may be an alias. -/
def resolve? (aliases : Aliases) (words : List String) : Option Numeric :=
  match words with
  | [word] =>
    match Table.find? aliases word with
    | some n => some n
    | none => Numeric.ofSpecifiers? words
  | _ => Numeric.ofSpecifiers? words

/-- A word without a star at its end, and whether it had one. -/
def splitStar (word : String) : String × Bool :=
  let cs := word.toList
  if cs.getLast? = some '*' then (String.ofList cs.dropLast, true) else (word, false)

/-- The type that a text of blank-separated words spells. A star may end any word and `const` may
stand anywhere: it belongs to the number, behind the pointer if there is one. -/
def parseType? (aliases : Aliases) (text : String) : Option CType :=
  let parts := (Text.words text).map splitStar
  let names := parts.map Prod.fst
  let isConst := names.contains "const"
  let words := names.filter fun word => word != "const" && word != ""
  (resolve? aliases words).map fun n =>
    let t := CType.value n isConst
    if parts.any Prod.snd then t.toPointer else t

end Aliases

end KernelWeaver
