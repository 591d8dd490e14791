import KernelWeaver.Snippet.ExprParser
import Mathlib.Data.List.Infix

/-!
# The grammar of expressions

Which tokens spell which expression, as rules: assignments associate to the right and have
something that can be assigned to on their left, then come conditionals, the levels of binary
operators, each associating to the left, operators before an operand and casts, what can follow an
operand, and at last names, literals and parentheses. The rules do not mention a cursor, and they
leave the numbers of nodes open.
-/

namespace KernelWeaver.Snippet

open KernelWeaver.Snippet.Parser (binaryOp? assignOp? unaryOp? stepOp?)

/-- A level of the expression grammar, the loosest first. -/
inductive Level where
  | assignment
  | conditional
  /-- Operands joined by operators that bind at least as tightly as `least`. -/
  | binary (least : Nat)
  | unary
  /-- An operand with the subscripts, calls and steps behind it. -/
  | suffixed
  | primary

/-- What tokens can spell. -/
inductive Phrase where
  | expr (level : Level) (e : Expr)
  /-- Arguments of a call, at least one. -/
  | arguments (es : List Expr)

/-- Tokens that spell a star and the `const` behind it, or nothing. -/
inductive SpellsPointer : Option PointerMark → List Token → Prop where
  | none : SpellsPointer none []
  | plain {star : Token} : star.kind = .star → SpellsPointer (some ⟨false⟩) [star]
  | const {star qualifier : Token} : star.kind = .star → qualifier.kind = .typeQualifier →
      SpellsPointer (some ⟨true⟩) [star, qualifier]

/-- Tokens that spell the specifiers of a type: at least one word, and `const` anywhere. -/
structure SpellsSpecifiers (type : TypeSpec) (ts : List Token) : Prop where
  kinds : ∀ t ∈ ts, t.kind.startsType
  words : type.words = (ts.filter (·.kind = .typeSpecifier)).map Token.lexeme
  words_ne_nil : type.words ≠ []
  isConst : type.isConst = ts.any (·.kind = .typeQualifier)

/-- The tokens that an expression is spelled with. What is known of the place of a node in relation
to the tokens of the node is left open: it is said by `Place`. -/
inductive Derives (Place : Span → List Token → Prop) : Phrase → List Token → Prop where
  | number {node : Node} {t : Token} : t.kind = .number → Place node.span [t] →
      Derives Place (.expr .primary (.number node t.lexeme (numberType t.lexeme))) [t]
  | trueWord {node : Node} {t : Token} : t.kind = .trueWord → Place node.span [t] →
      Derives Place (.expr .primary (.bool node true)) [t]
  | falseWord {node : Node} {t : Token} : t.kind = .falseWord → Place node.span [t] →
      Derives Place (.expr .primary (.bool node false)) [t]
  | string {node : Node} {t : Token} : t.kind = .string → Place node.span [t] →
      Derives Place (.expr .primary (.string node t.lexeme)) [t]
  | name {node : Node} {t : Token} : t.kind = .identifier → Place node.span [t] →
      Derives Place (.expr .primary (.name node t.lexeme)) [t]
  | group {node : Node} {left right : Token} {ts : List Token} {e : Expr} :
      left.kind = .leftParen → Derives Place (.expr .assignment e) ts →
      right.kind = .rightParen → Place node.span (left :: ts ++ [right]) →
      Derives Place (.expr .primary (.group node e)) (left :: ts ++ [right])
  | ofPrimary {ts : List Token} {e : Expr} :
      Derives Place (.expr .primary e) ts → Derives Place (.expr .suffixed e) ts
  | subscript {node : Node} {left right : Token} {ts us : List Token} {array index : Expr} :
      Derives Place (.expr .suffixed array) ts → left.kind = .leftBracket →
      Derives Place (.expr .assignment index) us → right.kind = .rightBracket →
      Place node.span (ts ++ left :: us ++ [right]) →
      Derives Place (.expr .suffixed (.subscript node array index)) (ts ++ left :: us ++ [right])
  | callNone {node : Node} {left right : Token} {ts : List Token} {callee : Expr} :
      Derives Place (.expr .suffixed callee) ts → left.kind = .leftParen →
      right.kind = .rightParen → Place node.span (ts ++ [left, right]) →
      Derives Place (.expr .suffixed (.call node callee [])) (ts ++ [left, right])
  | call {node : Node} {left right : Token} {ts us : List Token} {callee : Expr}
      {args : List Expr} :
      Derives Place (.expr .suffixed callee) ts → left.kind = .leftParen →
      Derives Place (.arguments args) us → right.kind = .rightParen →
      Place node.span (ts ++ left :: us ++ [right]) →
      Derives Place (.expr .suffixed (.call node callee args)) (ts ++ left :: us ++ [right])
  | stepAfter {node : Node} {t : Token} {op : StepOp} {ts : List Token} {target : Expr} :
      Derives Place (.expr .suffixed target) ts → stepOp? t.kind = some op →
      Place node.span (ts ++ [t]) →
      Derives Place (.expr .suffixed (.stepAfter node op target)) (ts ++ [t])
  | lastArgument {ts : List Token} {e : Expr} :
      Derives Place (.expr .assignment e) ts → Derives Place (.arguments [e]) ts
  | moreArguments {comma : Token} {ts us : List Token} {e : Expr} {es : List Expr} :
      Derives Place (.expr .assignment e) ts → comma.kind = .comma →
      Derives Place (.arguments es) us → Derives Place (.arguments (e :: es)) (ts ++ comma :: us)
  | ofSuffixed {ts : List Token} {e : Expr} :
      Derives Place (.expr .suffixed e) ts → Derives Place (.expr .unary e) ts
  | stepBefore {node : Node} {t : Token} {op : StepOp} {ts : List Token} {target : Expr} :
      stepOp? t.kind = some op → Derives Place (.expr .unary target) ts →
      Place node.span (t :: ts) →
      Derives Place (.expr .unary (.stepBefore node op target)) (t :: ts)
  | unary {node : Node} {t : Token} {op : UnaryOp} {ts : List Token} {operand : Expr} :
      unaryOp? t.kind = some op → Derives Place (.expr .unary operand) ts →
      Place node.span (t :: ts) →
      Derives Place (.expr .unary (.unary node op operand)) (t :: ts)
  | cast {node : Node} {left right : Token} {ss ps ts : List Token} {type : TypeSpec}
      {operand : Expr} :
      left.kind = .leftParen → SpellsSpecifiers type ss → SpellsPointer type.pointer ps →
      Place type.span (ss ++ ps) → right.kind = .rightParen →
      Derives Place (.expr .unary operand) ts →
      Place node.span (left :: (ss ++ ps) ++ right :: ts) →
      Derives Place (.expr .unary (.cast node type operand)) (left :: (ss ++ ps) ++ right :: ts)
  | ofUnary {least : Nat} {ts : List Token} {e : Expr} :
      Derives Place (.expr .unary e) ts → Derives Place (.expr (.binary least) e) ts
  | binary {least : Nat} {node : Node} {t : Token} {op : BinaryOp} {ts us : List Token}
      {left right : Expr} :
      least ≤ op.level → Derives Place (.expr (.binary op.level) left) ts →
      binaryOp? t.kind = some op → Derives Place (.expr (.binary (op.level + 1)) right) us →
      Place node.span (ts ++ t :: us) →
      Derives Place (.expr (.binary least) (.binary node op left right)) (ts ++ t :: us)
  | ofBinary {ts : List Token} {e : Expr} :
      Derives Place (.expr (.binary 0) e) ts → Derives Place (.expr .conditional e) ts
  | conditional {node : Node} {question colon : Token} {ts us vs : List Token}
      {condition yes no : Expr} :
      Derives Place (.expr (.binary 0) condition) ts → question.kind = .question →
      Derives Place (.expr .assignment yes) us → colon.kind = .colon →
      Derives Place (.expr .conditional no) vs →
      Place node.span (ts ++ question :: us ++ colon :: vs) →
      Derives Place (.expr .conditional (.conditional node condition yes no))
        (ts ++ question :: us ++ colon :: vs)
  | ofConditional {ts : List Token} {e : Expr} :
      Derives Place (.expr .conditional e) ts → Derives Place (.expr .assignment e) ts
  | assign {node : Node} {t : Token} {op : AssignOp} {ts us : List Token} {target value : Expr} :
      Derives Place (.expr .unary target) ts → target.isAssignable = true →
      assignOp? t.kind = some op → Derives Place (.expr .assignment value) us →
      Place node.span (ts ++ t :: us) →
      Derives Place (.expr .assignment (.assign node op target value)) (ts ++ t :: us)

namespace Expr

/-- Whether the expression is an operand: neither an assignment nor a conditional nor joined by a
binary operator. -/
def isOperand : Expr → Bool
  | assign .. | conditional .. | binary .. => false
  | _ => true

mutual

/-- The levels of nesting inside an expression, the level that it has as an operand left out. Every
operand, every conditional tail and every assigned value is one level. -/
def innerNesting : Expr → Nat
  | number .. | bool .. | string .. | name .. => 0
  | unary _ _ e | cast _ _ e | stepBefore _ _ e | group _ e => e.innerNesting + e.isOperand.toNat
  | stepAfter _ _ e => e.innerNesting
  | subscript _ array index => max array.innerNesting (index.innerNesting + index.isOperand.toNat)
  | call _ callee args => max callee.innerNesting (nestingOfAll args)
  | binary _ _ left right =>
    max (left.innerNesting + left.isOperand.toNat) (right.innerNesting + right.isOperand.toNat)
  | conditional _ condition yes no =>
    max (condition.innerNesting + condition.isOperand.toNat)
      (1 + max (yes.innerNesting + yes.isOperand.toNat) (no.innerNesting + no.isOperand.toNat))
  | assign _ _ target value =>
    max (target.innerNesting + target.isOperand.toNat)
      (1 + (value.innerNesting + value.isOperand.toNat))

/-- The levels of nesting of several expressions. -/
def nestingOfAll : List Expr → Nat
  | [] => 0
  | e :: es => max (e.innerNesting + e.isOperand.toNat) (nestingOfAll es)

end

/-- The levels of nesting of an expression. -/
def nesting (e : Expr) : Nat := e.innerNesting + e.isOperand.toNat

theorem nesting_of_isOperand {e : Expr} (h : e.isOperand = true) :
    e.nesting = e.innerNesting + 1 := by
  rw [nesting, h]
  rfl

mutual

/-- The expression without the numbers and places of its nodes. -/
def shape : Expr → Expr
  | number _ lexeme type => number default lexeme type
  | bool _ value => bool default value
  | string _ lexeme => string default lexeme
  | .name _ text => .name default text
  | unary _ op e => unary default op e.shape
  | binary _ op left right => binary default op left.shape right.shape
  | call _ callee args => call default callee.shape (shapes args)
  | cast _ type e => cast default { type with span := default } e.shape
  | assign _ op target value => assign default op target.shape value.shape
  | conditional _ condition yes no => conditional default condition.shape yes.shape no.shape
  | subscript _ array index => subscript default array.shape index.shape
  | group _ e => group default e.shape
  | stepBefore _ op target => stepBefore default op target.shape
  | stepAfter _ op target => stepAfter default op target.shape

/-- Several expressions without the numbers and places of their nodes. -/
def shapes : List Expr → List Expr
  | [] => []
  | e :: es => e.shape :: shapes es

end

theorem isAssignable_shape : (e : Expr) → e.shape.isAssignable = e.isAssignable
  | group _ inner => by
      rw [shape, isAssignable, isAssignable, isAssignable_shape inner]
  | unary _ op _ => by cases op <;> rfl
  | number .. | bool .. | string .. | .name .. | binary .. | call .. | cast .. | assign ..
  | conditional .. | subscript .. | stepBefore .. | stepAfter .. => rfl

end Expr

/-- The tokens without an end of input. -/
def sentence (tokens : List Token) : List Token := tokens.filter (·.kind ≠ .endOfInput)

/-- Nothing is said of places. -/
def Anywhere (_ : Span) (_ : List Token) : Prop := True

/-- Tokens in the order of their places: none starts or stops before one in front of it does. -/
structure Ordered (ts : List Token) : Prop where
  starts : ts.Pairwise fun a b => a.span.start ≤ b.span.start
  stops : ts.Pairwise fun a b => a.span.stop ≤ b.span.stop

/-- A place that runs from the start of the first token to the end of the last. -/
def Covers (span : Span) (ts : List Token) : Prop :=
  ∃ first last, ts.head? = some first ∧ ts.getLast? = some last ∧
    span.start = first.span.start ∧ span.stop = last.span.stop

/-- A place that covers tokens which are in order. -/
def CoversOrdered (span : Span) (ts : List Token) : Prop := Ordered ts → Covers span ts

/-- A property of tokens that is passed on to parts of them. -/
structure OfParts (C : List Token → Prop) : Prop where
  left : ∀ {xs ys}, C (xs ++ ys) → C xs
  right : ∀ {xs ys}, C (xs ++ ys) → C ys
  tail : ∀ {x xs}, C (x :: xs) → C xs

theorem ofParts_ordered : OfParts Ordered where
  left h := ⟨h.starts.sublist (List.sublist_append_left _ _),
    h.stops.sublist (List.sublist_append_left _ _)⟩
  right h := ⟨h.starts.sublist (List.sublist_append_right _ _),
    h.stops.sublist (List.sublist_append_right _ _)⟩
  tail h := ⟨h.starts.tail, h.stops.tail⟩

/-- What is said of places may be replaced by what follows from it for parts of the tokens. -/
theorem Derives.imp {P Q : Span → List Token → Prop} {C : List Token → Prop} {phrase : Phrase}
    {ts : List Token} (hC : OfParts C) (hPQ : ∀ {span us}, C us → P span us → Q span us)
    (h : Derives P phrase ts) (hts : C ts) : Derives Q phrase ts := by
  induction h with
  | number hk hp => exact .number hk (hPQ hts hp)
  | trueWord hk hp => exact .trueWord hk (hPQ hts hp)
  | falseWord hk hp => exact .falseWord hk (hPQ hts hp)
  | string hk hp => exact .string hk (hPQ hts hp)
  | name hk hp => exact .name hk (hPQ hts hp)
  | group hl _ hr hp ih => exact .group hl (ih (hC.tail (hC.left hts))) hr (hPQ hts hp)
  | ofPrimary _ ih => exact .ofPrimary (ih hts)
  | subscript _ hl _ hr hp iha ihi =>
      have hinner := hC.left hts
      exact .subscript (iha (hC.left hinner)) hl (ihi (hC.tail (hC.right hinner))) hr (hPQ hts hp)
  | callNone _ hl hr hp ih => exact .callNone (ih (hC.left hts)) hl hr (hPQ hts hp)
  | call _ hl _ hr hp ihc iha =>
      have hinner := hC.left hts
      exact .call (ihc (hC.left hinner)) hl (iha (hC.tail (hC.right hinner))) hr (hPQ hts hp)
  | stepAfter _ ho hp ih => exact .stepAfter (ih (hC.left hts)) ho (hPQ hts hp)
  | lastArgument _ ih => exact .lastArgument (ih hts)
  | moreArguments _ hc _ ihe ihs =>
      exact .moreArguments (ihe (hC.left hts)) hc (ihs (hC.tail (hC.right hts)))
  | ofSuffixed _ ih => exact .ofSuffixed (ih hts)
  | stepBefore ho _ hp ih => exact .stepBefore ho (ih (hC.tail hts)) (hPQ hts hp)
  | unary ho _ hp ih => exact .unary ho (ih (hC.tail hts)) (hPQ hts hp)
  | cast hl hs hptr htype hr _ hp ih =>
      exact .cast hl hs hptr (hPQ (hC.tail (hC.left hts)) htype) hr (ih (hC.tail (hC.right hts)))
        (hPQ hts hp)
  | ofUnary _ ih => exact .ofUnary (ih hts)
  | binary hle _ ho _ hp ihl ihr =>
      exact .binary hle (ihl (hC.left hts)) ho (ihr (hC.tail (hC.right hts))) (hPQ hts hp)
  | ofBinary _ ih => exact .ofBinary (ih hts)
  | conditional _ hq _ hc _ hp ihc ihy ihn =>
      have hhead := hC.left hts
      exact .conditional (ihc (hC.left hhead)) hq (ihy (hC.tail (hC.right hhead))) hc
        (ihn (hC.tail (hC.right hts))) (hPQ hts hp)
  | ofConditional _ ih => exact .ofConditional (ih hts)
  | assign _ ha ho _ hp iht ihv =>
      exact .assign (iht (hC.left hts)) ha ho (ihv (hC.tail (hC.right hts))) (hPQ hts hp)

end KernelWeaver.Snippet
