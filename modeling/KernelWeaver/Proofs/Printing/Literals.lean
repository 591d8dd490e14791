import KernelWeaver.Numeric
import KernelWeaver.Proofs.Decimal.Text
import KernelWeaver.Proofs.Printing.Inlining

/-!
# Literals in printed expressions

The literal of a finite value is a truth value or a number with at most a minus in front. It spells
an operand with an operator, and can stand in the place of a name that is bound to a constant
number.
-/

namespace KernelWeaver

open Snippet Snippet.Lexer Typing Decimal

/-- The value is a finite one of the type. Whole numbers are always kept in bounds. -/
def Numeric.IsFinite : Numeric → Float → Prop
  | .float, value => ∃ negative m q,
      (Binary.ofFloat value).roundTo .single = .finite negative m q
  | .double, value => ∃ negative m q, Binary.ofFloat value = .finite negative m q
  | _, _ => True

/-- A truth value, or a decimal number with at most a minus in front. -/
inductive IsLiteral : List Char → Prop where
  | truth (value : Bool) : IsLiteral (if value then "true" else "false").toList
  | number {magnitude : List Char} : StartsNumber magnitude → IsDecimal magnitude →
      IsLiteral magnitude
  | negative {magnitude : List Char} : StartsNumber magnitude → IsDecimal magnitude →
      IsLiteral ('-' :: magnitude)

theorem IsLiteral.of_sign {sign magnitude : List Char} (hsign : sign = [] ∨ sign = ['-'])
    (h : StartsNumber magnitude ∧ IsDecimal magnitude) : IsLiteral (sign ++ magnitude) := by
  rcases hsign with rfl | rfl
  · exact .number h.1 h.2
  · exact .negative h.1 h.2

/-- What a number begins with. -/
theorem ne_of_startsNumber {c : Char} {magnitude : List Char}
    (h : StartsNumber (c :: magnitude)) :
    c ≠ '-' ∧ c ≠ '&' ∧ c ≠ 't' ∧ c ≠ 'f' := by
  obtain ⟨d, more, heq, hstart⟩ := h
  obtain ⟨rfl, -⟩ := List.cons.inj heq
  refine ⟨?_, ?_, ?_, ?_⟩ <;> rintro rfl <;> cases hstart

theorem IsLiteral.not_address {cs : List Char} (h : IsLiteral cs) : ¬ ['&'] <+: cs := by
  cases h with
  | truth value => cases value <;> decide
  | number hstarts =>
      obtain ⟨c, more, rfl, -⟩ := id hstarts
      exact fun hbegins =>
        (ne_of_startsNumber hstarts).2.1 (List.cons_prefix_cons.mp hbegins).1.symm
  | negative => exact fun hbegins => absurd (List.cons_prefix_cons.mp hbegins).1 (by decide)

theorem IsLiteral.ne_nil {cs : List Char} (h : IsLiteral cs) : cs ≠ [] := by
  cases h with
  | truth value => cases value <;> decide
  | number hstarts =>
      obtain ⟨c, more, rfl, -⟩ := hstarts
      exact List.cons_ne_nil c more
  | negative => exact List.cons_ne_nil _ _

/-- There are no markers in a literal. -/
theorem IsLiteral.not_mem_dollar {cs : List Char} (h : IsLiteral cs) : '$' ∉ cs := by
  have hdecimal {magnitude : List Char} (h : IsDecimal magnitude) : '$' ∉ magnitude := by
    intro hmem
    have hchar := h.chars hmem
    revert hchar
    decide
  cases h with
  | truth value => cases value <;> decide
  | number _ h => exact hdecimal h
  | negative _ h =>
      rw [List.mem_cons, not_or]
      exact ⟨by decide, hdecimal h⟩

theorem IsLiteral.of_toString {suffix : String} (z : Int)
    (hsuffix : suffix.toList = [] ∨ suffix.toList = ['U']) :
    IsLiteral (toString z ++ suffix).toList := by
  obtain ⟨sign, digits, htext, hsign, hdigits⟩ := toList_toString_int z
  rw [String.toList_append, htext, List.append_assoc]
  exact .of_sign hsign (hdigits.isDecimal hsuffix)

theorem IsLiteral.of_text {suffix : String} {format : BinaryFormat} {style : TextStyle}
    {binary : Binary} (h : ∃ negative m q, binary = .finite negative m q)
    (hsuffix : suffix.toList = [] ∨ suffix.toList = ['f']) :
    IsLiteral (binary.text format style ++ suffix).toList := by
  obtain ⟨negative, m, q, rfl⟩ := h
  obtain ⟨sign, magnitude, htext, hsign, hmagnitude⟩ :=
    Binary.toList_text_finite format style negative m q
  rw [String.toList_append, htext, List.append_assoc]
  exact .of_sign hsign (hmagnitude.isDecimal hsuffix)

/-- What is written for a finite value is a literal. -/
theorem Numeric.isLiteral_literal {n : Numeric} {value : Float} (h : n.IsFinite value) :
    IsLiteral (n.literal value).toList := by
  cases n with
  | bool =>
      have htruth := IsLiteral.truth (value != 0.0)
      exact htruth
  | float => exact .of_text h (.inr rfl)
  | double => exact .of_text h (.inl rfl)
  | uint32 => exact .of_toString _ (.inr rfl)
  | _ => exact .of_toString _ (.inl rfl)

namespace Printing

/-- The expression that the text of a literal spells. -/
def literalExpr (node : Node) (text : String) : Expr :=
  if text = "true" then .bool node true
  else if text = "false" then .bool node false
  else match text.toList with
  | '-' :: magnitude =>
    .unary node .minus
      (.number node (String.ofList magnitude) (numberType (String.ofList magnitude)))
  | _ => .number node text (numberType text)

variable {aliases : Aliases} {types : NodeTypes} {n : Numeric} {text : String}
  {magnitude : List Char}

theorem literalExpr_truth (node : Node) (value : Bool) :
    literalExpr node (if value then "true" else "false") = .bool node value := by
  cases value <;> rfl

theorem literalExpr_number (node : Node) (h : StartsNumber magnitude) :
    literalExpr node (String.ofList magnitude) =
      .number node (String.ofList magnitude) (numberType (String.ofList magnitude)) := by
  obtain ⟨c, more, rfl, -⟩ := id h
  obtain ⟨hminus, -, htrue, hfalse⟩ := ne_of_startsNumber h
  rw [literalExpr, if_neg, if_neg]
  · rw [String.toList_ofList]
    split
    next heq =>
      cases heq
      exact absurd rfl hminus
    next => rfl
  · intro heq
    rw [String.ofList_eq] at heq
    cases heq
    exact hfalse rfl
  · intro heq
    rw [String.ofList_eq] at heq
    cases heq
    exact htrue rfl

theorem literalExpr_negative (node : Node) (magnitude : List Char) :
    literalExpr node (String.ofList ('-' :: magnitude)) = .unary node .minus
      (.number node (String.ofList magnitude) (numberType (String.ofList magnitude))) := by
  rw [literalExpr, if_neg, if_neg]
  · rw [String.toList_ofList]
    rfl
  · intro heq
    rw [String.ofList_eq] at heq
    cases heq
  · intro heq
    rw [String.ofList_eq] at heq
    cases heq

theorem spelled_number (node : Node) (hstarts : StartsNumber magnitude)
    (hdecimal : IsDecimal magnitude) : Spelled aliases (.expr .unary
      (.number node (String.ofList magnitude) (numberType (String.ofList magnitude)))) := by
  let t : Token := ⟨.number, String.ofList magnitude, default⟩
  have hprimary : Derives Anywhere
      (.expr .primary (.number node t.lexeme (numberType t.lexeme))) [t] := .number rfl trivial
  have htext : IsText aliases .number (String.ofList magnitude).toList := by
    rw [String.toList_ofList]
    exact .number ⟨hstarts, .inr hdecimal⟩
  exact ⟨[t], .ofSuffixed (.ofPrimary hprimary), List.forall_mem_singleton.mpr (.inr htext)⟩

theorem spelled_negative (node : Node) (hstarts : StartsNumber magnitude)
    (hdecimal : IsDecimal magnitude) : Spelled aliases (.expr .unary (.unary node .minus
      (.number node (String.ofList magnitude) (numberType (String.ofList magnitude))))) := by
  obtain ⟨ts, hderives, hformed⟩ := spelled_number node hstarts hdecimal
  have hminus : Token.Formed aliases ⟨.minus, "-", default⟩ := .inl (by decide)
  exact ⟨⟨.minus, "-", default⟩ :: ts, .unary rfl hderives trivial,
    List.forall_mem_cons.mpr ⟨hminus, hformed⟩⟩

theorem spelled_truth (node : Node) (value : Bool) :
    Spelled aliases (.expr .unary (.bool node value)) := by
  cases value with
  | true =>
      have hword : IsText aliases .trueWord "true".toList :=
        isText_of_ofWord? aliases (isWord_of_all (by decide) (by decide)) rfl
      exact ⟨[⟨.trueWord, "true", default⟩], .ofSuffixed (.ofPrimary (.trueWord rfl trivial)),
        List.forall_mem_singleton.mpr (.inr hword)⟩
  | false =>
      have hword : IsText aliases .falseWord "false".toList :=
        isText_of_ofWord? aliases (isWord_of_all (by decide) (by decide)) rfl
      exact ⟨[⟨.falseWord, "false", default⟩], .ofSuffixed (.ofPrimary (.falseWord rfl trivial)),
        List.forall_mem_singleton.mpr (.inr hword)⟩

/-- A minus in front of a number can be read back. -/
theorem readable_negative {node inner : Node} {lexeme : String} {type : Numeric}
    (h : StartsNumber lexeme.toList) :
    Readable types (Expr.unary node .minus (.number inner lexeme type)).parts := by
  have hnumber : Readable types (Expr.number inner lexeme type).parts :=
    readable_of_isAtom (List.forall_mem_singleton.mpr rfl)
  constructor
  · intro node callee args hmem
    rcases List.mem_cons.mp hmem with heq | hmem
    · cases heq
    · exact hnumber.callees node callee args hmem
  · intro node op operand hmem hop
    rcases List.mem_cons.mp hmem with heq | hmem
    · -- the number behind the minus does not begin with one
      cases heq
      obtain ⟨c, more, htext, -⟩ := id h
      rw [htext] at h
      rw [plainText, htext]
      exact fun hbegins => (ne_of_startsNumber h).1 (List.cons_prefix_cons.mp hbegins).1.symm
    · exact hnumber.signs node op operand hmem hop
  · intro node operand hmem
    rcases List.mem_cons.mp hmem with heq | hmem
    · cases heq
    · exact hnumber.addresses node operand hmem
  · intro node type operand hmem
    rcases List.mem_cons.mp hmem with heq | hmem
    · cases heq
    · exact hnumber.casts node type operand hmem

/-- A literal is the text of the expression that it spells. -/
theorem plainText_literalExpr (h : IsLiteral text.toList) (node : Node) :
    plainText types (literalExpr node text) = text := by
  obtain ⟨cs, rfl⟩ : ∃ cs, text = String.ofList cs := ⟨_, String.ofList_toList.symm⟩
  rw [String.toList_ofList] at h
  cases h with
  | truth value => rw [String.ofList_toList, literalExpr_truth, plainText]
  | number hstarts => rw [literalExpr_number node hstarts, plainText]
  | negative => rw [literalExpr_negative, plainText, plainText, String.ofList_cons]; rfl

/-- A literal can stand for a name that is bound to a constant number. -/
theorem standsFor_literalExpr (h : IsLiteral text.toList) (node : Node) :
    StandsFor aliases types (some [.value n true]) (literalExpr node text) := by
  have hbegins : ¬ ['&'] <+: (plainText types (literalExpr node text)).toList := by
    rw [plainText_literalExpr h]
    exact h.not_address
  obtain ⟨cs, rfl⟩ : ∃ cs, text = String.ofList cs := ⟨_, String.ofList_toList.symm⟩
  rw [String.toList_ofList] at h
  cases h with
  | truth value =>
      rw [String.ofList_toList, literalExpr_truth] at hbegins ⊢
      refine .constant rfl (spelled_truth node value) ?_ hbegins
      exact readable_of_isAtom (List.forall_mem_singleton.mpr rfl)
  | number hstarts hdecimal =>
      rw [literalExpr_number node hstarts] at hbegins ⊢
      refine .constant rfl (spelled_number node hstarts hdecimal) ?_ hbegins
      exact readable_of_isAtom (List.forall_mem_singleton.mpr rfl)
  | negative hstarts hdecimal =>
      rw [literalExpr_negative] at hbegins ⊢
      refine .constant rfl (spelled_negative node hstarts hdecimal) ?_ hbegins
      exact readable_negative (by rwa [String.toList_ofList])

end Printing

end KernelWeaver
