import KernelWeaver.Numeric

/-!
# Types of the generated code

A type is `void`, a number, a pointer, a function or a type of the device that snippets cannot
spell, each with its own constness. For a pointer the constness is that of the pointer itself; that
of the values behind it belongs to its target.
-/

namespace KernelWeaver

/-- A type of the generated code. The flag in each case is its constness. -/
inductive CType where
  | void (isConst : Bool)
  | value (type : Numeric) (isConst : Bool)
  | pointer (target : CType) (isConst : Bool)
  | function (returns : CType) (args : List CType) (variadic isConst : Bool)
  /-- A device type, such as the state of a random number generator. -/
  | device (name : String) (size : Nat) (isConst : Bool)
deriving Repr, Inhabited

namespace CType

mutual

/-- Decides whether two types are equal. -/
def decEq : (a b : CType) → Decidable (a = b)
  | void c, void d => decidable_of_iff (c = d) (by simp)
  | value n c, value m d => decidable_of_iff (n = m ∧ c = d) (by simp)
  | pointer s c, pointer t d =>
    match decEq s t with
    | .isTrue h => decidable_of_iff (c = d) (by simp [h])
    | .isFalse h => .isFalse (by simp [h])
  | function r as v c, function s bs w d =>
    match decEq r s, decEqList as bs with
    | .isTrue h, .isTrue g => decidable_of_iff (v = w ∧ c = d) (by simp [h, g])
    | .isFalse h, _ => .isFalse (by simp [h])
    | _, .isFalse g => .isFalse (by simp [g])
  | device n k c, device m l d => decidable_of_iff (n = m ∧ k = l ∧ c = d) (by simp)
  | void _, value .. | void _, pointer .. | void _, function .. | void _, device ..
  | value .., void _ | value .., pointer .. | value .., function .. | value .., device ..
  | pointer .., void _ | pointer .., value .. | pointer .., function .. | pointer .., device ..
  | function .., void _ | function .., value .. | function .., pointer .. | function .., device ..
  | device .., void _ | device .., value .. | device .., pointer .. | device .., function .. =>
    .isFalse (by simp)

/-- Decides whether two lists of types are equal. -/
def decEqList : (as bs : List CType) → Decidable (as = bs)
  | [], [] => .isTrue rfl
  | [], _ :: _ | _ :: _, [] => .isFalse (by simp)
  | a :: as, b :: bs =>
    match decEq a b, decEqList as bs with
    | .isTrue h, .isTrue g => .isTrue (by simp [h, g])
    | .isFalse h, _ => .isFalse (by simp [h])
    | _, .isFalse g => .isFalse (by simp [g])

end

instance : DecidableEq CType := decEq

/-- The size of a pointer in bytes. -/
def pointerSize : Nat := 8

/-- A plain number. -/
def num (n : Numeric) : CType := value n false

/-- The type of no value. -/
def none : CType := void false

/-- A signed integer. -/
def int : CType := num .int32

/-- An unsigned integer, the type of ids and counts. -/
def uint : CType := num .uint32

/-- A function with a fixed number of arguments. -/
def fn (returns : CType) (args : List CType) : CType := function returns args false false

/-- A device type of `size` bytes. -/
def named (name : String) (size : Nat) : CType := device name size false

/-- Whether the type is const. -/
def isConst : CType → Bool
  | void c | value _ c | pointer _ c | function _ _ _ c | device _ _ c => c

/-- The type with the given constness. -/
def withConst (c : Bool) : CType → CType
  | void _ => void c
  | value n _ => value n c
  | pointer t _ => pointer t c
  | function r as v _ => function r as v c
  | device n k _ => device n k c

/-- The type made const. -/
def addConst (t : CType) : CType := t.withConst true

/-- The type without its constness. -/
def removeConst (t : CType) : CType := t.withConst false

/-- A pointer to the type. -/
def toPointer (t : CType) : CType := pointer t false

/-- Whether two types are the same apart from their own constness. -/
def sameKind (a b : CType) : Bool := a.removeConst = b.removeConst

/-- The numeric type of a number. -/
def numeric? : CType → Option Numeric
  | value n _ => some n
  | _ => Option.none

/-- What a pointer points to. -/
def target? : CType → Option CType
  | pointer t _ => some t
  | _ => Option.none

/-- Whether the type is a number. -/
def isNumeric (t : CType) : Bool := t.numeric?.isSome

/-- Whether the type is a pointer. -/
def isPointer (t : CType) : Bool := t.target?.isSome

/-- Whether the type is a whole number. -/
def isIntegral (t : CType) : Bool := t.numeric?.any Numeric.isIntegral

/-- Whether the type is a function. -/
def isFunction : CType → Bool
  | function .. => true
  | _ => false

/-- The size in bytes of a value stored in a struct. -/
def size : CType → Nat
  | value n _ => n.size
  | pointer .. => pointerSize
  | device _ k _ => k
  | void _ | function .. => 0

mutual

/-- The spelling of the type, such as `const float*` or `int* const`. -/
def name : CType → String
  | void _ => "void"
  | value n c => if c then "const " ++ n.name else n.name
  | pointer t c => if c then t.name ++ "* const" else t.name ++ "*"
  | function r as v _ =>
    r.name ++ "(" ++ Text.join ", " (names as ++ if v then ["..."] else []) ++ ")"
  | device n _ _ => n

/-- The spellings of several types. -/
def names : List CType → List String
  | [] => []
  | t :: ts => t.name :: names ts

end

@[simp] theorem isConst_withConst (c : Bool) (t : CType) : (t.withConst c).isConst = c := by
  cases t <;> rfl

@[simp] theorem withConst_withConst (c d : Bool) (t : CType) :
    (t.withConst d).withConst c = t.withConst c := by
  cases t <;> rfl

theorem withConst_isConst (t : CType) : t.withConst t.isConst = t := by
  cases t <;> rfl

end CType

end KernelWeaver
