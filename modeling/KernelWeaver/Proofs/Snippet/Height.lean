import KernelWeaver.Proofs.Snippet.ParseExpr

/-!
# The height of trees

The limit on nesting bounds how far a reader goes down, and with it every way of making a tree
higher but two. Operators of one level are read in a loop, and so are the subscripts, calls and steps
behind an operand: each turn of a loop puts what was read so far below a new node, at no deeper
nesting. So the trees that are read have no bound on their height, and a tree that is higher than
the limit allows for has a long chain of such nodes.
-/

namespace KernelWeaver.Snippet

open KernelWeaver.Snippet.Parser

namespace Expr

mutual

/-- How many expressions are inside one another. -/
def height : Expr → Nat
  | number .. | bool .. | string .. | .name .. => 1
  | unary _ _ e | cast _ _ e | group _ e | stepBefore _ _ e | stepAfter _ _ e => e.height + 1
  | binary _ _ a b | assign _ _ a b | subscript _ a b => max a.height b.height + 1
  | call _ callee args => max callee.height (heightOfAll args) + 1
  | conditional _ a b c => max a.height (max b.height c.height) + 1

/-- The height of the highest of several expressions. -/
def heightOfAll : List Expr → Nat
  | [] => 0
  | e :: es => max e.height (heightOfAll es)

end

/-- Whether the left operand is itself joined by an operator of the same level. -/
def continues (op : BinaryOp) : Expr → Bool
  | binary _ first _ _ => first.level = op.level
  | _ => false

mutual

/-- The greatest number of steps that loops have made on a way down the tree: from an operator to
one of its level on the left, and from a subscript, a call or a step to what it stands behind. -/
def chain : Expr → Nat
  | number .. | bool .. | string .. | .name .. => 0
  | unary _ _ e | cast _ _ e | group _ e | stepBefore _ _ e => e.chain
  | stepAfter _ _ e => e.chain + 1
  | subscript _ array index => max (array.chain + 1) index.chain
  | call _ callee args => max (callee.chain + 1) (chainOfAll args)
  | binary _ op left right => max (left.chain + (left.continues op).toNat) right.chain
  | assign _ _ target value => max target.chain value.chain
  | conditional _ condition yes no => max condition.chain (max yes.chain no.chain)

/-- The greatest number of such steps in several expressions. -/
def chainOfAll : List Expr → Nat
  | [] => 0
  | e :: es => max e.chain (chainOfAll es)

end

mutual

theorem height_shape : (e : Expr) → e.shape.height = e.height
  | number .. | bool .. | string .. | .name .. => rfl
  | unary _ _ e | cast _ _ e | group _ e | stepBefore _ _ e | stepAfter _ _ e => by
      rw [shape, height, height, height_shape e]
  | binary _ _ a b | assign _ _ a b | subscript _ a b => by
      rw [shape, height, height, height_shape a, height_shape b]
  | call _ callee args => by
      rw [shape, height, height, height_shape callee, height_shapes args]
  | conditional _ a b c => by
      rw [shape, height, height, height_shape a, height_shape b, height_shape c]

theorem height_shapes : (es : List Expr) → heightOfAll (shapes es) = heightOfAll es
  | [] => rfl
  | e :: es => by
      rw [shapes, heightOfAll, heightOfAll, height_shape e, height_shapes es]

end

/-- How much higher than its nesting and its chains account for an expression can be: there are ten
levels of binary operators between an operand and a conditional. -/
def slack : Expr → Nat
  | binary _ op .. => 11 - op.level
  | conditional .. => 11
  | assign .. => 1
  | _ => 0

theorem slack_le (e : Expr) : e.slack ≤ 11 := by
  cases e <;> simp [slack]

theorem slack_of_isOperand {e : Expr} (h : e.isOperand = true) : e.slack = 0 := by
  cases e <;> first | rfl | cases h

end Expr

theorem BinaryOp.level_bounds (op : BinaryOp) : 1 ≤ op.level ∧ op.level ≤ 10 := by
  cases op <;> decide

variable {P : Span → List Token → Prop} {ts : List Token} {e : Expr} {level : Level} {least : Nat}
  {op : BinaryOp}

theorem Derives.isOperand_or_binary (h : Derives P (.expr (.binary least) e) ts) :
    e.isOperand = true ∨
      ∃ node op left right, e = .binary node op left right ∧ least ≤ op.level := by
  cases h with
  | ofUnary h => exact .inl h.isOperand
  | binary hle => exact .inr ⟨_, _, _, _, rfl, hle⟩

theorem Derives.slack_le (h : Derives P (.expr (.binary least) e) ts) :
    e.slack ≤ 10 ∧ e.slack ≤ 11 - least := by
  rcases h.isOperand_or_binary with hoperand | ⟨node, op, left, right, rfl, hle⟩
  · simp [Expr.slack_of_isOperand hoperand]
  · have hlevel := op.level_bounds
    rw [Expr.slack]
    omega

/-- A left operand that does not continue a chain binds more tightly. -/
theorem Derives.slack_lt (h : Derives P (.expr (.binary op.level) e) ts)
    (hends : e.continues op = false) : e.slack < 11 - op.level := by
  have hlevel := op.level_bounds
  rcases h.isOperand_or_binary with hoperand | ⟨node, op', left, right, rfl, hle⟩
  · rw [Expr.slack_of_isOperand hoperand]
    omega
  · have hne : op'.level ≠ op.level := by simpa [Expr.continues] using hends
    have hlevel' := op'.level_bounds
    rw [Expr.slack]
    omega

/-- The height is accounted for by chains and by nesting. -/
def Phrase.Accounted : Phrase → Prop
  | .expr _ e => e.height ≤ e.chain + 12 * e.nesting + e.slack
  | .arguments es => Expr.heightOfAll es ≤ Expr.chainOfAll es + 12 * Expr.nestingOfAll es + 11

/-- What is put around an operand, or around an expression in parentheses, is one level more. -/
theorem accounted_of_inner {inner : Expr} (h : Phrase.Accounted (.expr level inner)) :
    inner.height + 1 ≤ inner.chain + 12 * (inner.nesting + 1) := by
  have hslack := inner.slack_le
  change inner.height ≤ _ at h
  omega

theorem Derives.accounted {phrase : Phrase} (h : Derives P phrase ts) : phrase.Accounted := by
  induction h with
  | number | trueWord | falseWord | string | name => exact Nat.le_of_ble_eq_true rfl
  | ofPrimary _ ih | ofSuffixed _ ih | ofUnary _ ih | ofBinary _ ih | ofConditional _ ih =>
      exact ih
  | group _ _ _ _ ih => exact accounted_of_inner ih
  | stepBefore _ _ _ ih | unary _ _ _ ih | cast _ _ _ _ _ _ _ ih => exact accounted_of_inner ih
  | @subscript node left right ts us array index h _ _ _ _ iha ihi =>
      have harray := Expr.nesting_of_isOperand h.isOperand_of_suffixed
      have hslack := Expr.slack_of_isOperand h.isOperand_of_suffixed
      have hindex := accounted_of_inner ihi
      change array.height ≤ _ at iha
      change max array.height index.height + 1 ≤
        max (array.chain + 1) index.chain + 12 * (max array.innerNesting index.nesting + 1)
      omega
  | @callNone node left right ts callee h _ _ _ ih =>
      have hcallee := Expr.nesting_of_isOperand h.isOperand_of_suffixed
      have hslack := Expr.slack_of_isOperand h.isOperand_of_suffixed
      change callee.height ≤ _ at ih
      change max callee.height 0 + 1 ≤
        max (callee.chain + 1) 0 + 12 * (max callee.innerNesting 0 + 1)
      omega
  | @call node left right ts us callee args h _ _ _ _ ihc iha =>
      have hcallee := Expr.nesting_of_isOperand h.isOperand_of_suffixed
      have hslack := Expr.slack_of_isOperand h.isOperand_of_suffixed
      change callee.height ≤ _ at ihc
      change Expr.heightOfAll args ≤ _ at iha
      change max callee.height (Expr.heightOfAll args) + 1 ≤
        max (callee.chain + 1) (Expr.chainOfAll args) +
          12 * (max callee.innerNesting (Expr.nestingOfAll args) + 1)
      omega
  | @stepAfter node t op ts target h _ _ ih =>
      have hslack := Expr.slack_of_isOperand h.isOperand_of_suffixed
      have htarget := Expr.nesting_of_isOperand h.isOperand_of_suffixed
      change target.height ≤ _ at ih
      change target.height + 1 ≤ target.chain + 1 + 12 * (target.innerNesting + 1)
      omega
  | @lastArgument ts e _ ih =>
      have hslack := e.slack_le
      change e.height ≤ _ at ih
      change max e.height 0 ≤ max e.chain 0 + 12 * max e.nesting 0 + 11
      omega
  | @moreArguments comma ts us e es _ _ _ ihe ihs =>
      have hslack := e.slack_le
      change e.height ≤ _ at ihe
      change Expr.heightOfAll es ≤ _ at ihs
      change max e.height (Expr.heightOfAll es) ≤ max e.chain (Expr.chainOfAll es) +
        12 * max e.nesting (Expr.nestingOfAll es) + 11
      omega
  | @binary least node t op ts us left right _ hl _ hr _ ihl ihr =>
      have hlevel := op.level_bounds
      have hleft := hl.slack_le
      have hright := hr.slack_le
      change left.height ≤ _ at ihl
      change right.height ≤ _ at ihr
      change max left.height right.height + 1 ≤
        max (left.chain + (left.continues op).toNat) right.chain +
          12 * max left.nesting right.nesting + (11 - op.level)
      -- a left operand of the same level makes the chain longer, any other has less slack
      cases hends : left.continues op with
      | true =>
          rw [Bool.toNat_true]
          omega
      | false =>
          have hlt := hl.slack_lt hends
          rw [Bool.toNat_false]
          omega
  | @conditional node question colon ts us vs condition yes no hc _ hy _ hn _ ihc ihy ihn =>
      have hcondition := hc.slack_le
      have hyes := accounted_of_inner ihy
      have hno := accounted_of_inner ihn
      change condition.height ≤ _ at ihc
      change max condition.height (max yes.height no.height) + 1 ≤
        max condition.chain (max yes.chain no.chain) +
          12 * max condition.nesting (1 + max yes.nesting no.nesting) + 11
      omega
  | @assign node t op ts us target value h _ _ _ _ iht ihv =>
      have hslack := Expr.slack_of_isOperand h.isOperand
      have hvalue := accounted_of_inner ihv
      change target.height ≤ _ at iht
      change max target.height value.height + 1 ≤
        max target.chain value.chain + 12 * max target.nesting (1 + value.nesting) + 1
      omega

/-! ### Trees that are read -/

/-- The height that nesting within the limit accounts for. -/
def accountedHeight : Nat := 12 * maxDepth + 11

theorem height_le_of_expression {c c' : Cursor} (hc : c.Closed)
    (h : expression c = .done e c') : e.height ≤ e.chain + accountedHeight := by
  have hsound := sound_expression hc
  rw [h] at hsound
  obtain ⟨ts, -, hread⟩ := hsound
  have haccounted := hread.derives.accounted
  have hnesting := hread.nesting
  have hslack := e.slack_le
  change e.height ≤ _ at haccounted
  rw [accountedHeight]
  omega

/-- A tree that is read is no higher than the limit on nesting allows for, but for its chains. -/
theorem height_le_of_parseExpr {tokens : List Token} {report : Report}
    (h : parseExpr tokens = (some e, report)) : e.height ≤ e.chain + accountedHeight := by
  rw [parseExpr] at h
  cases hrun : expression (.ofTokens tokens) with
  | failed c =>
      rw [hrun] at h
      cases h
  | done e₀ c =>
      rw [hrun] at h
      dsimp only at h
      split at h
      next =>
        cases h
        exact height_le_of_expression (Cursor.closed_ofTokens tokens) hrun
      next => cases h

/-! ### Chains of any length -/

/-- A token of the kind with the text. -/
def unplaced (kind : TokenKind) (text : String) : Token := ⟨kind, text, .zero⟩

/-- The tokens of a sum of one term more than the number says, each a `1`. -/
def sumTokens : Nat → List Token
  | 0 => [unplaced .number "1"]
  | n + 1 => sumTokens n ++ unplaced .plus "+" :: [unplaced .number "1"]

/-- The term of these sums. -/
def one : Expr := .number default "1" (numberType "1")

/-- A sum of ones. -/
def sumOfOnes : Nat → Expr
  | 0 => one
  | n + 1 => .binary default .add (sumOfOnes n) one

/-- The tokens of a name that is called as often as the number says. -/
def callTokens : Nat → List Token
  | 0 => [unplaced .identifier "f"]
  | n + 1 => callTokens n ++ [unplaced .leftParen "(", unplaced .rightParen ")"]

/-- A name that is called again and again. -/
def repeatedCall : Nat → Expr
  | 0 => .name default "f"
  | n + 1 => .call default (repeatedCall n) []

theorem derives_sumOfOnes (n : Nat) {least : Nat} (h : least ≤ 9) :
    Derives Anywhere (.expr (.binary least) (sumOfOnes n)) (sumTokens n) := by
  have hone : Derives Anywhere (.expr .unary one) [unplaced .number "1"] :=
    .ofSuffixed (.ofPrimary (.number (t := unplaced .number "1") rfl trivial))
  induction n generalizing least with
  | zero => exact .ofUnary hone
  | succ n ih =>
      have hlevel : BinaryOp.add.level = 9 := rfl
      exact .binary (hlevel ▸ h) (ih (hlevel ▸ le_rfl)) rfl (.ofUnary hone) trivial

theorem derives_repeatedCall (n : Nat) :
    Derives Anywhere (.expr .suffixed (repeatedCall n)) (callTokens n) := by
  induction n with
  | zero => exact .ofPrimary (.name (t := unplaced .identifier "f") rfl trivial)
  | succ n ih => exact .callNone ih rfl rfl trivial

theorem nesting_sumOfOnes (n : Nat) : (sumOfOnes n).nesting = 1 := by
  induction n with
  | zero => rfl
  | succ n ih =>
      change max (sumOfOnes n).nesting 1 = 1
      rw [ih, max_self]

theorem nesting_repeatedCall (n : Nat) : (repeatedCall n).nesting = 1 := by
  have hinner : (repeatedCall n).innerNesting = 0 := by
    induction n with
    | zero => rfl
    | succ n ih =>
        change max (repeatedCall n).innerNesting 0 = 0
        rw [ih, max_self]
  rw [Expr.nesting_of_isOperand (derives_repeatedCall n).isOperand_of_suffixed, hinner]

theorem height_sumOfOnes (n : Nat) : (sumOfOnes n).height = n + 1 := by
  induction n with
  | zero => rfl
  | succ n ih =>
      change max (sumOfOnes n).height 1 + 1 = n + 1 + 1
      omega

theorem height_repeatedCall (n : Nat) : (repeatedCall n).height = n + 1 := by
  induction n with
  | zero => rfl
  | succ n ih =>
      change max (repeatedCall n).height 0 + 1 = n + 1 + 1
      omega

/-- Tokens that spell an expression within the limit are read as one of its height. -/
theorem exists_parseExpr_of_derives (h : Derives Anywhere (.expr .assignment e) ts)
    (hnesting : e.nesting ≤ maxDepth) (hkinds : ∀ t ∈ ts, t.kind ≠ .endOfInput) :
    ∃ e', parseExpr ts = (some e', []) ∧ e'.height = e.height := by
  have hend : ∀ t ∈ ts.dropLast, t.kind ≠ .endOfInput :=
    fun t ht => hkinds t (List.dropLast_subset ts ht)
  have hsentence : sentence ts = ts := List.filter_eq_self.mpr (by simpa using hkinds)
  obtain ⟨e', report, hrun⟩ := parseExpr_of_spells hend ⟨hsentence.symm ▸ h, hnesting⟩
  have hshape := shape_eq_of_parseExpr hend hrun (hsentence.symm ▸ h)
  obtain ⟨rfl, -⟩ := derives_of_parseExpr hend hrun
  refine ⟨e', hrun, ?_⟩
  rw [← Expr.height_shape e', hshape, Expr.height_shape]

theorem parseExpr_sumTokens (n : Nat) :
    ∃ e, parseExpr (sumTokens n) = (some e, []) ∧ e.height = n + 1 := by
  have hkinds : ∀ t ∈ sumTokens n, t.kind ≠ .endOfInput := by
    induction n with
    | zero => decide
    | succ n ih =>
        rw [sumTokens, List.forall_mem_append]
        exact ⟨ih, by decide⟩
  rw [← height_sumOfOnes n]
  exact exists_parseExpr_of_derives
    (.ofConditional (.ofBinary (derives_sumOfOnes n (Nat.zero_le 9))))
    ((nesting_sumOfOnes n).trans_le (by decide)) hkinds

theorem parseExpr_callTokens (n : Nat) :
    ∃ e, parseExpr (callTokens n) = (some e, []) ∧ e.height = n + 1 := by
  have hkinds : ∀ t ∈ callTokens n, t.kind ≠ .endOfInput := by
    induction n with
    | zero => decide
    | succ n ih =>
        rw [callTokens, List.forall_mem_append]
        exact ⟨ih, by decide⟩
  rw [← height_repeatedCall n]
  exact exists_parseExpr_of_derives
    (.ofConditional (.ofBinary (.ofUnary (.ofSuffixed (derives_repeatedCall n)))))
    ((nesting_repeatedCall n).trans_le (by decide)) hkinds

/-- Trees that are read can have any height. -/
theorem not_exists_height_bound : ¬ ∃ bound, ∀ tokens e report,
    parseExpr tokens = (some e, report) → e.height ≤ bound := by
  rintro ⟨bound, hbound⟩
  obtain ⟨e, hrun, hheight⟩ := parseExpr_sumTokens bound
  have hle := hbound _ _ _ hrun
  omega

end KernelWeaver.Snippet
