import KernelWeaver.Proofs.Snippet.Expansion
import KernelWeaver.Proofs.Snippet.Rescan

/-!
# Expressions with other names

An expression with other names in the place of its own has the same form in all else, and it is
spelled by the tokens of the original with the other names in them.
-/

namespace KernelWeaver.Snippet

variable {other : String → String} {P : Span → List Token → Prop}

/-- Another name in the place of a name. -/
def otherName (other : String → String) (node : Node) (name : String) : Expr :=
  .name node (other name)

namespace Expr

theorem isAssignable_otherName :
    (e : Expr) → (e.expand (otherName other)).isAssignable = e.isAssignable
  | group _ inner => isAssignable_otherName inner
  | unary _ op _ => by cases op <;> rfl
  | number .. | bool .. | string .. | .name .. | binary .. | call .. | cast .. | assign ..
  | conditional .. | subscript .. | stepBefore .. | stepAfter .. => rfl

theorem isOperand_otherName (e : Expr) :
    (e.expand (otherName other)).isOperand = e.isOperand := by
  cases e <;> rfl

mutual

theorem innerNesting_otherName (e : Expr) :
    (e.expand (otherName other)).innerNesting = e.innerNesting := by
  cases e with
  | number | bool | string | name => rfl
  | unary _ _ e | cast _ _ e | stepBefore _ _ e | group _ e =>
      simp only [expand, innerNesting, isOperand_otherName, innerNesting_otherName e]
  | stepAfter _ _ e => simp only [expand, innerNesting, innerNesting_otherName e]
  | subscript _ a b | binary _ _ a b | assign _ _ a b =>
      simp only [expand, innerNesting, isOperand_otherName, innerNesting_otherName a,
        innerNesting_otherName b]
  | call _ callee args =>
      simp only [expand, innerNesting, innerNesting_otherName callee, nestingOfAll_otherName args]
  | conditional _ a b c =>
      simp only [expand, innerNesting, isOperand_otherName, innerNesting_otherName a,
        innerNesting_otherName b, innerNesting_otherName c]

theorem nestingOfAll_otherName (es : List Expr) :
    nestingOfAll (expandAll (otherName other) es) = nestingOfAll es := by
  cases es with
  | nil => rfl
  | cons e es =>
      simp only [expandAll, nestingOfAll, isOperand_otherName, innerNesting_otherName e,
        nestingOfAll_otherName es]

end

theorem nesting_otherName (e : Expr) : (e.expand (otherName other)).nesting = e.nesting := by
  rw [nesting, nesting, isOperand_otherName, innerNesting_otherName]

end Expr

namespace Token

/-- The token with another name if it is one. -/
def rename (other : String → String) (t : Token) : Token :=
  if t.kind = .identifier then { t with lexeme := other t.lexeme } else t

theorem rename_of_ne {t : Token} (h : t.kind ≠ .identifier) : t.rename other = t := if_neg h

theorem kind_rename (t : Token) : (t.rename other).kind = t.kind := by
  rw [rename]
  split <;> rfl

theorem lexeme_rename (other : String → String) {t : Token} (h : t.kind = .identifier) :
    (t.rename other).lexeme = other t.lexeme := by
  rw [rename, if_pos h]

theorem map_rename_of_ne {ts : List Token} (h : ∀ t ∈ ts, t.kind ≠ .identifier) :
    ts.map (rename other) = ts :=
  (List.map_congr_left fun t ht => rename_of_ne (h t ht)).trans (List.map_id ts)

end Token

theorem SpellsSpecifiers.map_rename {type : TypeSpec} {ts : List Token}
    (h : SpellsSpecifiers type ts) : ts.map (Token.rename other) = ts :=
  Token.map_rename_of_ne fun t ht hname => by
    have hstarts := h.kinds t ht
    rw [hname] at hstarts
    cases hstarts

theorem SpellsPointer.map_rename {pointer : Option PointerMark} {ts : List Token}
    (h : SpellsPointer pointer ts) : ts.map (Token.rename other) = ts := by
  refine Token.map_rename_of_ne fun t ht => ?_
  cases h with
  | none => exact absurd ht List.not_mem_nil
  | plain hstar =>
      obtain rfl := List.mem_singleton.mp ht
      rw [hstar]
      decide
  | const hstar hqualifier =>
      obtain rfl | ht := List.mem_cons.mp ht
      · rw [hstar]
        decide
      · obtain rfl := List.mem_singleton.mp ht
        rw [hqualifier]
        decide

/-- What tokens spell, with other names. -/
def Phrase.rename (other : String → String) : Phrase → Phrase
  | .expr level e => .expr level (e.expand (otherName other))
  | .arguments es => .arguments (Expr.expandAll (otherName other) es)

/-- The tokens with other names in them spell the phrase with the other names. -/
theorem Derives.rename {phrase : Phrase} {ts : List Token} (other : String → String)
    (h : Derives P phrase ts) :
    Derives Anywhere (phrase.rename other) (ts.map (Token.rename other)) := by
  induction h with
  | number hk _ =>
      rw [List.map_singleton, Token.rename_of_ne (by rw [hk]; decide)]
      exact .number hk trivial
  | trueWord hk _ => exact .trueWord ((Token.kind_rename _).trans hk) trivial
  | falseWord hk _ => exact .falseWord ((Token.kind_rename _).trans hk) trivial
  | string hk _ =>
      rw [List.map_singleton, Token.rename_of_ne (by rw [hk]; decide)]
      exact .string hk trivial
  | @name node t hk _ =>
      rw [Phrase.rename, Expr.expand, otherName, ← Token.lexeme_rename other hk]
      exact .name ((Token.kind_rename _).trans hk) trivial
  | group hleft _ hright _ ih =>
      simp only [List.map_append, List.map_cons, List.map_nil]
      exact .group ((Token.kind_rename _).trans hleft) ih ((Token.kind_rename _).trans hright)
        trivial
  | ofPrimary _ ih => exact .ofPrimary ih
  | subscript _ hleft _ hright _ iha ihi =>
      simp only [List.map_append, List.map_cons, List.map_nil]
      exact .subscript iha ((Token.kind_rename _).trans hleft) ihi
        ((Token.kind_rename _).trans hright) trivial
  | callNone _ hleft hright _ ih =>
      simp only [List.map_append, List.map_cons, List.map_nil]
      exact .callNone ih ((Token.kind_rename _).trans hleft) ((Token.kind_rename _).trans hright)
        trivial
  | call _ hleft _ hright _ ihc iha =>
      simp only [List.map_append, List.map_cons, List.map_nil]
      exact .call ihc ((Token.kind_rename _).trans hleft) iha ((Token.kind_rename _).trans hright)
        trivial
  | stepAfter _ hop _ ih =>
      rw [List.map_append, List.map_singleton]
      exact .stepAfter ih (by rwa [Token.kind_rename]) trivial
  | lastArgument _ ih => exact .lastArgument ih
  | moreArguments _ hcomma _ ihe ihs =>
      rw [List.map_append, List.map_cons]
      exact .moreArguments ihe ((Token.kind_rename _).trans hcomma) ihs
  | ofSuffixed _ ih => exact .ofSuffixed ih
  | stepBefore hop _ _ ih => exact .stepBefore (by rwa [Token.kind_rename]) ih trivial
  | unary hop _ _ ih => exact .unary (by rwa [Token.kind_rename]) ih trivial
  | cast hleft hspecifiers hpointer _ hright _ _ ih =>
      simp only [List.map_append, List.map_cons, hspecifiers.map_rename, hpointer.map_rename]
      exact .cast ((Token.kind_rename _).trans hleft) hspecifiers hpointer trivial
        ((Token.kind_rename _).trans hright) ih trivial
  | ofUnary _ ih => exact .ofUnary ih
  | binary hle _ hop _ _ ihl ihr =>
      rw [List.map_append, List.map_cons]
      exact .binary hle ihl (by rwa [Token.kind_rename]) ihr trivial
  | ofBinary _ ih => exact .ofBinary ih
  | conditional _ hquestion _ hcolon _ _ ihc ihy ihn =>
      simp only [List.map_append, List.map_cons]
      exact .conditional ihc ((Token.kind_rename _).trans hquestion) ihy
        ((Token.kind_rename _).trans hcolon) ihn trivial
  | ofConditional _ ih => exact .ofConditional ih
  | assign _ hassignable hop _ _ iht ihv =>
      rw [List.map_append, List.map_cons]
      exact .assign iht ((Expr.isAssignable_otherName _).trans hassignable)
        (by rwa [Token.kind_rename]) ihv trivial

end KernelWeaver.Snippet
