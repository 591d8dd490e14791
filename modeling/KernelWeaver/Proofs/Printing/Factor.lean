import KernelWeaver.Device.Cuda
import KernelWeaver.Proofs.Code.Slots
import KernelWeaver.Proofs.Printing.ReadBack
import KernelWeaver.Proofs.Snippet.ExprSoundness

/-!
# A factor behind an expression

The size of a copy is the text of a count with a factor written behind it. What is read there is the
count with its last factor multiplied; it is the product of the whole count and the factor exactly
if what stands outermost in the count binds at least as tightly as a product.
-/

namespace KernelWeaver

namespace Snippet

open KernelWeaver.Snippet.Parser (binaryOp?)

/-- How tightly what stands outermost in an expression binds: a binary operator by its level,
assignments and conditionals more loosely, and operands more tightly. -/
def Expr.binding : Expr → Nat
  | assign .. | conditional .. => 0
  | binary _ op .. => op.level
  | _ => BinaryOp.mul.level + 1

/-- The expression with the last of its factors multiplied by one more. -/
def Expr.timesLast : Expr → Expr → Expr
  | assign n op target value, factor => assign n op target (value.timesLast factor)
  | conditional n condition yes no, factor => conditional n condition yes (no.timesLast factor)
  | binary n op left right, factor =>
    if op.level < BinaryOp.mul.level then binary n op left (right.timesLast factor)
    else binary default .mul (binary n op left right) factor
  | e, factor => binary default .mul e factor

theorem Expr.binding_of_isOperand {e : Expr} (h : e.isOperand = true) :
    e.binding = BinaryOp.mul.level + 1 := by
  cases e with
  | assign | conditional | binary => cases h
  | _ => rfl

theorem Expr.timesLast_of_isOperand {e : Expr} (h : e.isOperand = true) (factor : Expr) :
    e.timesLast factor = .binary default .mul e factor := by
  cases e with
  | assign | conditional | binary => cases h
  | _ => rfl

theorem BinaryOp.level_pos (op : BinaryOp) : 0 < op.level := by
  cases op <;> decide

/-- The factor becomes one of the whole exactly if the whole is a product or an operand. -/
theorem Expr.timesLast_eq_iff (e factor : Expr) :
    e.timesLast factor = .binary default .mul e factor ↔ BinaryOp.mul.level ≤ e.binding := by
  cases e with
  | assign | conditional => exact ⟨nofun, nofun⟩
  | binary node op left right =>
      rw [timesLast, binding]
      split
      next hloose =>
        refine ⟨fun h => ?_, fun h => absurd hloose (Nat.not_lt.mpr h)⟩
        injection h with _ hop
        exact (congrArg BinaryOp.level hop).ge
      next htight => exact ⟨fun _ => Nat.not_lt.mp htight, fun _ => rfl⟩
  | _ => exact ⟨fun _ => Nat.le_succ _, fun _ => rfl⟩

variable {P : Span → List Token → Prop} {e factor : Expr} {ts us : List Token} {star : Token}

/-- What stands at a level of operators binds as tightly as the level tells. -/
theorem Derives.le_binding {least : Nat} (h : Derives P (.expr (.binary least) e) ts)
    (hleast : least ≤ BinaryOp.mul.level + 1) : least ≤ e.binding := by
  cases h with
  | ofUnary h => exact hleast.trans (Expr.binding_of_isOperand h.isOperand).ge
  | binary hle => exact hle

/-- What binds tightly enough stands at a level of operators without parentheses. -/
theorem Derives.of_le_binding {least : Nat} (h : Derives P (.expr .assignment e) ts)
    (hpos : 0 < least) (hle : least ≤ e.binding) : Derives P (.expr (.binary least) e) ts := by
  cases h with
  | assign => exact absurd hpos (Nat.not_lt.mpr hle)
  | ofConditional h =>
      cases h with
      | conditional => exact absurd hpos (Nat.not_lt.mpr hle)
      | ofBinary h =>
          cases h with
          | ofUnary h => exact .ofUnary h
          | binary _ hleft hop hright hplace => exact .binary hle hleft hop hright hplace

theorem binaryOp?_star (h : star.kind = .star) : binaryOp? star.kind = some .mul := by
  rw [h]
  rfl

/-- An expression in front of a factor is multiplied as a whole exactly if it is a product or an
operand. -/
theorem derives_product_iff (h : Derives Anywhere (.expr .assignment e) ts)
    (hstar : star.kind = .star) (hfactor : Derives Anywhere (.expr .unary factor) us)
    (node : Node) :
    Derives Anywhere (.expr .assignment (.binary node .mul e factor)) (ts ++ star :: us) ↔
      BinaryOp.mul.level ≤ e.binding := by
  constructor
  · intro hproduct
    cases hproduct with
    | ofConditional h =>
        cases h with
        | ofBinary h =>
            generalize hts : ts ++ star :: us = vs at h
            cases h with
            | ofUnary h => exact absurd h.isOperand Bool.false_ne_true
            | binary _ hleft _ _ _ => exact hleft.le_binding (Nat.le_succ _)
  · intro hle
    have hleft := h.of_le_binding (BinaryOp.level_pos .mul) hle
    have hright : Derives Anywhere (.expr (.binary (BinaryOp.mul.level + 1)) factor) us :=
      .ofUnary hfactor
    exact .ofConditional (.ofBinary (.binary (Nat.zero_le _) hleft (binaryOp?_star hstar) hright
      trivial))

/-- The levels at which a product can stand. -/
def Level.TakesProducts : Level → Prop
  | .assignment | .conditional => True
  | .binary least => least ≤ BinaryOp.mul.level
  | .unary | .suffixed | .primary => False

/-- A factor behind tokens that spell an expression is one of its last factor. -/
theorem Derives.timesLast {phrase : Phrase} (h : Derives Anywhere phrase ts)
    (hstar : star.kind = .star) (hfactor : Derives Anywhere (.expr .unary factor) us) :
    ∀ {level e}, phrase = .expr level e → level.TakesProducts →
      Derives Anywhere (.expr level (e.timesLast factor)) (ts ++ star :: us) := by
  have hright : Derives Anywhere (.expr (.binary (BinaryOp.mul.level + 1)) factor) us :=
    .ofUnary hfactor
  have hop := binaryOp?_star hstar
  induction h with
  | ofUnary h _ =>
      rintro _ e ⟨⟩ hlevel
      rw [Expr.timesLast_of_isOperand h.isOperand]
      exact .binary hlevel (.ofUnary h) hop hright trivial
  | @binary least node t op ts vs left right hle hleft hop' hvs _ _ ih =>
      rintro _ e ⟨⟩ hlevel
      rw [Expr.timesLast]
      split
      next hloose =>
        rw [List.append_assoc, List.cons_append]
        exact .binary hle hleft hop' (ih rfl hloose) trivial
      next htight =>
        exact .binary hlevel (.binary (Nat.not_lt.mp htight) hleft hop' hvs trivial) hop hright
          trivial
  | ofBinary _ ih =>
      rintro _ e ⟨⟩ -
      exact .ofBinary (ih rfl (Nat.zero_le _))
  | conditional hcondition hquestion hyes hcolon _ _ _ _ ih =>
      rintro _ e ⟨⟩ -
      rw [Expr.timesLast, List.append_assoc, List.cons_append]
      exact .conditional hcondition hquestion hyes hcolon (ih rfl trivial) trivial
  | ofConditional _ ih =>
      rintro _ e ⟨⟩ -
      exact .ofConditional (ih rfl trivial)
  | assign htarget hassignable hassign _ _ _ ih =>
      rintro _ e ⟨⟩ -
      rw [Expr.timesLast, List.append_assoc, List.cons_append]
      exact .assign htarget hassignable hassign (ih rfl trivial) trivial
  | lastArgument | moreArguments => rintro _ _ ⟨⟩
  | _ =>
      rintro _ _ ⟨⟩ hlevel
      exact hlevel.elim

end Snippet

namespace Printing

open Code Snippet Typing

variable {aliases : Aliases} {types : NodeTypes}

/-! ### Texts with a slot -/

theorem occursIn_append (before part after : List Char) :
    Text.occursIn part (before ++ (part ++ after)) = true := by
  induction before with
  | nil =>
      have hprefix : part.isPrefixOf (part ++ after) = true :=
        List.isPrefixOf_iff_prefix.mpr (List.prefix_append part after)
      rw [List.nil_append]
      generalize part ++ after = cs at hprefix
      cases cs with
      | nil => rw [List.prefix_nil.mp (List.isPrefixOf_iff_prefix.mp hprefix)]; rfl
      | cons c cs => rw [Text.occursIn, hprefix, Bool.true_or]
  | cons c before ih => rw [List.cons_append, Text.occursIn, ih, Bool.or_true]

/-- The code of a call puts the text of the argument in the place of the slot, as it is. -/
theorem callText_slot {before after : String} (hbefore : '$' ∉ before.toList)
    (hafter : '$' ∉ after.toList) (arg : String) :
    callText (before ++ slot 0 ++ after) [arg] = before ++ arg ++ after := by
  have hslot : (slot 0).toList = '$' :: ['(', '0', ')'] := by decide
  have htext : (before ++ slot 0 ++ after).toList =
      before.toList ++ ('$' :: ['(', '0', ')'] ++ after.toList) := by
    rw [String.toList_append, String.toList_append, hslot, List.append_assoc]
  have hslots : hasSlots (before ++ slot 0 ++ after) = true := by
    rw [hasSlots, Text.contains, htext, hslot]
    exact occursIn_append _ _ _
  have hnone := replaceFrom_append_of_not_mem ['(', '0', ')'] arg.toList hafter []
  rw [callText, if_pos hslots, fillSlots]
  change String.ofList (replaceFrom (slot 0).toList arg.toList 0
    (before ++ slot 0 ++ after).toList) = _
  rw [htext, hslot, replaceFrom_append_of_not_mem _ _ hbefore, replaceFrom_part]
  rw [List.append_nil] at hnone
  rw [hnone, replaceFrom, List.append_nil, String.ofList_append, String.ofList_append,
    String.ofList_toList, String.ofList_toList, String.ofList_toList, String.append_assoc]

/-! ### The size of a copy -/

/-- A call that copies elements is the copy with the text of the count as it is. -/
theorem callText_push {host device : String} {element : CType} (hhost : '$' ∉ host.toList)
    (hdevice : '$' ∉ device.toList) (helement : '$' ∉ element.name.toList) (count : String) :
    callText (Cuda.push host device element (slot 0)) [count] =
      Cuda.push host device element count := by
  have hsplit (text : String) : Cuda.push host device element text =
      ("CHECK_CUDA_ERRORS(" ++ ("cudaMemcpy(" ++ device ++ ", " ++ host ++ ", ")) ++ text ++
        (" * sizeof(" ++ element.name ++ ")" ++ ", cudaMemcpyHostToDevice)" ++ ")") := by
    unfold Cuda.push Cuda.checkedCall Cuda.copySize
    simp only [String.append_assoc]
  rw [hsplit, hsplit, callText_slot]
  · simp [hhost, hdevice]
  · simp [helement]

theorem callText_pull {host device : String} {element : CType} (hhost : '$' ∉ host.toList)
    (hdevice : '$' ∉ device.toList) (helement : '$' ∉ element.name.toList) (count : String) :
    callText (Cuda.pull host device element (slot 0)) [count] =
      Cuda.pull host device element count := by
  have hsplit (text : String) : Cuda.pull host device element text =
      ("CHECK_CUDA_ERRORS(" ++ ("cudaMemcpy(" ++ host ++ ", " ++ device ++ ", ")) ++ text ++
        (" * sizeof(" ++ element.name ++ ")" ++ ", cudaMemcpyDeviceToHost)" ++ ")") := by
    unfold Cuda.pull Cuda.checkedCall Cuda.copySize
    simp only [String.append_assoc]
  rw [hsplit, hsplit, callText_slot]
  · simp [hhost, hdevice]
  · simp [helement]

/-- The text of a count with a factor behind it, as in the size of a copy, is read as the count with
its last factor multiplied. It can be read as the product of the whole count and the factor exactly
if the count is a product or an operand. -/
theorem readsAs_times {Place : Span → List Token → Prop} {e factor : Expr} {ts : List Token}
    {size : List Char} (h : Derives Place (.expr .assignment e) ts)
    (hts : ∀ t ∈ ts, t.Formed aliases) (hreadable : Readable types e.parts)
    (hsize : ReadsAs aliases size (Derives Anywhere (.expr .unary factor))) :
    ReadsAs aliases ((plainText types e).toList ++ ' ' :: ("*".toList ++ ' ' :: size)) fun ts =>
      let count := e.respell (castSpelling types)
      Derives Anywhere (.expr .assignment (count.timesLast factor)) ts ∧
        ∀ node, Derives Anywhere (.expr .assignment (.binary node .mul count factor)) ts ↔
          BinaryOp.mul.level ≤ e.binding := by
  have hmul : ("*", TokenKind.star) ∈ TokenKind.symbols := by decide
  have hbinding : (e.respell (castSpelling types)).binding = e.binding := by
    cases e <;> rfl
  refine ((readsBack h hts hreadable).reads.spaced hmul hsize).imp ?_
  rintro _ ⟨us, star, vs, rfl, hus, hstar, hvs⟩
  refine ⟨hus.timesLast hstar hvs rfl trivial, fun node => ?_⟩
  rw [derives_product_iff hus hstar hvs, hbinding]

end Printing

end KernelWeaver
