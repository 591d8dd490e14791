import KernelWeaver.Proofs.Snippet.ExprSoundness
import KernelWeaver.Snippet.StmtParser

/-!
# Laws of reading

All reading is made of a few steps: a token is passed, a number is given out, an error is reported,
a level of nesting is entered or left, and in a list of items what cannot be read is skipped. What
holds of these steps, and of one step after another, holds of everything that is read, also where
reading is given up.
-/

namespace KernelWeaver.Snippet

open KernelWeaver.Snippet.Parser

/-- What is said when forms nest too deep. -/
def tooDeepText : String :=
  "Nesting depth exceeded (maximum " ++ toString maxDepth ++ " levels)"

theorem ne_tooDeepText {text : String} (h : text.toList.head? = some 'E') :
    text ≠ tooDeepText := by
  have hhead : tooDeepText.toList.head? = some 'N' := by decide +kernel
  rintro rfl
  rw [hhead] at h
  cases h

/-- What is said when another token was expected. -/
theorem expected_ne_tooDeepText (what why : String) :
    "Expected " ++ what ++ " " ++ why ≠ tooDeepText :=
  ne_tooDeepText (by simp only [String.toList_append]; rfl)

/-- Whether a block begins or ends with a token of the kind. -/
def TokenKind.isBrace : TokenKind → Bool
  | .leftBrace | .rightBrace => true
  | _ => false

/-- The cursor outside a nested form. -/
def Cursor.shallower (c : Cursor) : Cursor := { c with depth := c.depth - 1 }

/-- How a cursor may change: up to where something was read, up to where reading was given up, and
over a list of items. -/
structure Law where
  done : Cursor → Cursor → Prop
  failed : Cursor → Cursor → Prop
  items : Cursor → Cursor → Prop

/-- Every step of reading keeps to the law. -/
structure Law.Holds (L : Law) : Prop where
  refl (c : Cursor) : L.done c c
  trans {c c' c'' : Cursor} : L.done c c' → L.done c' c'' → L.done c c''
  trans_failed {c c' c'' : Cursor} : L.done c c' → L.failed c' c'' → L.failed c c''
  fresh (c : Cursor) : L.done c { c with nextId := c.nextId + 1 }
  advance {c : Cursor} : c.kind.isBrace = false → L.done c c.advance
  stop (c : Cursor) : L.failed c c
  fail (c : Cursor) {message : String} : message ≠ tooDeepText → L.failed c (c.reportHere message)
  tooDeep (c : Cursor) : maxDepth < c.depth + 1 → L.failed c (c.deeper.reportHere tooDeepText)
  leave {c c' : Cursor} : L.done c.deeper c' → L.done c c'.shallower
  leave_failed {c c' : Cursor} : L.failed c.deeper c' → L.failed c c'.shallower
  block {c c' : Cursor} : c.kind = .leftBrace → L.items c.advance c' → c'.kind = .rightBrace →
    L.done c c'.advance
  unclosed {c c' : Cursor} {message : String} : message ≠ tooDeepText → c.kind = .leftBrace →
    L.items c.advance c' → c'.kind ≠ .rightBrace → L.failed c (c'.reportHere message)
  items_refl (c : Cursor) : L.items c c
  item {c c' c'' : Cursor} : L.done c c' → L.items c' c'' → L.items c c''
  skip {c c' c'' : Cursor} : c.atEnd = false → L.failed c c' → L.items c'.resume c'' →
    L.items c c''

/-- Reading kept to the law. -/
def Outcome.Keeps {α : Type} (L : Law) (c : Cursor) : Outcome α → Prop
  | .done _ c' => L.done c c'
  | .failed c' => L.failed c c'

namespace Law.Holds

variable {α β : Type} {L : Law} {c c' : Cursor} (hL : L.Holds)
include hL

theorem pure (a : α) : ((Pure.pure a : Parser α) c).Keeps L c := hL.refl c

theorem error {message : String} (h : message ≠ tooDeepText) :
    ((Parser.fail message : Parser α) c).Keeps L c := hL.fail c h

/-- Reading that goes on where something was read. -/
theorem after {o : Outcome α} (h : L.done c c') (ho : o.Keeps L c') : o.Keeps L c := by
  cases o with
  | done a c'' => exact hL.trans h ho
  | failed c'' => exact hL.trans_failed h ho

theorem bind {p : Parser α} {f : α → Parser β} (hp : (p c).Keeps L c)
    (hf : ∀ a c', (f a c').Keeps L c') : ((p >>= f) c).Keeps L c := by
  cases hrun : p c with
  | done a c' =>
      rw [hrun] at hp
      rw [bind_of_done hrun]
      exact hL.after hp (hf a c')
  | failed c' =>
      rw [hrun] at hp
      rw [bind_of_failed hrun]
      exact hp

theorem map {p : Parser α} {f : α → β} (hp : (p c).Keeps L c) : ((f <$> p) c).Keeps L c :=
  hL.bind hp fun _ _ => hL.pure _

theorem take {kind : TokenKind} {f : Token → Parser β} (hkind : c.kind = kind)
    (hbrace : kind.isBrace = false) (hf : ∀ token c', (f token c').Keeps L c') :
    ((Parser.take >>= f) c).Keeps L c := by
  rw [take_bind]
  exact hL.after (hL.advance (hkind ▸ hbrace)) (hf _ _)

/-- Taking a token that spells an operator, as no brace does. -/
theorem takeOp {γ : Type} {op? : TokenKind → Option γ} {op : γ} {f : Token → Parser β}
    (hop : op? c.kind = some op) (hleft : op? .leftBrace = none) (hright : op? .rightBrace = none)
    (hf : ∀ token c', (f token c').Keeps L c') : ((Parser.take >>= f) c).Keeps L c := by
  refine hL.take rfl ?_ hf
  cases hkind : c.kind with
  | leftBrace =>
      rw [hkind, hleft] at hop
      cases hop
  | rightBrace =>
      rw [hkind, hright] at hop
      cases hop
  | _ => rfl

theorem accept {kind : TokenKind} {f : Bool → Parser β} (hbrace : kind.isBrace = false)
    (hf : ∀ b c', (f b c').Keeps L c') : ((Parser.accept kind >>= f) c).Keeps L c := by
  rw [accept_bind]
  split
  next hkind => exact hL.after (hL.advance (hkind ▸ hbrace)) (hf _ _)
  next => exact hf _ _

theorem expect {kind : TokenKind} {context : String} {f : Span → Parser β}
    (hbrace : kind.isBrace = false) (hf : ∀ span c', (f span c').Keeps L c') :
    ((Parser.expect kind context >>= f) c).Keeps L c := by
  by_cases hkind : c.kind = kind
  · rw [expect_bind context f hkind]
    exact hL.after (hL.advance (hkind ▸ hbrace)) (hf _ _)
  · rw [bind_of_failed (by rw [Parser.expect, if_neg hkind])]
    exact hL.fail c (expected_ne_tooDeepText _ _)

theorem expectName {context : String} {f : String → Parser β}
    (hf : ∀ name c', (f name c').Keeps L c') :
    ((Parser.expectName context >>= f) c).Keeps L c := by
  by_cases hkind : c.kind = .identifier
  · rw [bind_of_done (by rw [Parser.expectName, if_pos hkind])]
    exact hL.after (hL.advance (hkind ▸ rfl)) (hf _ _)
  · rw [bind_of_failed (by rw [Parser.expectName, if_neg hkind])]
    exact hL.fail c (ne_tooDeepText (by simp only [String.toList_append]; rfl))

theorem freshId {f : NodeId → Parser β} (hf : ∀ id c', (f id c').Keeps L c') :
    ((Parser.freshId >>= f) c).Keeps L c := by
  rw [freshId_bind]
  exact hL.after (hL.fresh c) (hf _ _)

theorem node {span : Span} {f : Node → Parser β} (hf : ∀ node c', (f node c').Keeps L c') :
    ((Parser.node span >>= f) c).Keeps L c := by
  rw [node_bind]
  exact hL.after (hL.fresh c) (hf _ _)

theorem nested {p : Parser α} (hp : ∀ c, (p c).Keeps L c) (c : Cursor) :
    (Parser.nested p c).Keeps L c := by
  have hinside := hp c.deeper
  rw [Cursor.deeper] at hinside
  rw [Parser.nested]
  split
  next hdepth => exact hL.tooDeep c hdepth
  next =>
    split
    next hrun =>
      rw [hrun] at hinside
      exact hL.leave hinside
    next hrun =>
      rw [hrun] at hinside
      exact hL.leave_failed hinside

/-- Specifiers are passed one by one. -/
theorem advanceBy {n : Nat} (h : ∀ t ∈ c.rest.take n, t.kind.startsType = true) :
    L.done c (Parser.advanceBy n c) := by
  induction n generalizing c with
  | zero => exact hL.refl c
  | succ n ih =>
      cases hrest : c.rest with
      | nil =>
          have hsame : c.advance = c := by rw [Cursor.advance, hrest]
          rw [Parser.advanceBy, hsame]
          exact ih (by simp [hrest])
      | cons t rest =>
          rw [hrest, List.take_succ_cons] at h
          have ht := h t List.mem_cons_self
          refine hL.trans (hL.advance ?_) (ih fun u hu => ?_)
          · rw [Cursor.kind_of_rest hrest]
            cases hkind : t.kind with
            | leftBrace | rightBrace =>
                rw [hkind] at ht
                cases ht
            | _ => rfl
          · rw [Cursor.advance_of_rest hrest] at hu
            exact h u (List.mem_cons_of_mem _ hu)

theorem specifiers (c : Cursor) : (Parser.specifiers c).Keeps L c := by
  have htokens : ∀ t ∈ c.rest.take (specifierTokens c).length, t.kind.startsType = true := by
    have hprefix : specifierTokens c <+: c.rest := List.takeWhile_prefix _
    rw [← List.prefix_iff_eq_take.mp hprefix]
    exact List.all_eq_true.mp List.all_takeWhile
  have hpassed := hL.advanceBy htokens
  rw [specifiers_eq]
  dsimp only
  split
  next => exact hL.trans_failed hpassed (hL.fail _ (by decide +kernel))
  next => exact hpassed

theorem pointerMark (c : Cursor) : (Parser.pointerMark c).Keeps L c := by
  rw [Parser.pointerMark]
  refine hL.accept rfl fun star c₁ => ?_
  cases star with
  | false => exact hL.pure _
  | true => exact hL.accept rfl fun _ c₂ => hL.pure _

theorem typeName (c : Cursor) : (Parser.typeName c).Keeps L c := by
  rw [Parser.typeName]
  refine hL.bind (hL.specifiers c) fun type c₁ => hL.bind (hL.pointerMark c₁) fun pointer c₂ => ?_
  exact hL.bind (hL.refl c₂) fun span c₃ => hL.pure _

end Law.Holds

/-- Reading of expressions with at most `n` steps keeps to the law. -/
structure Law.KeptWithin (L : Law) (n : Nat) : Prop where
  assignment (c : Cursor) : (assignment n c).Keeps L c
  conditional (c : Cursor) : (conditional n c).Keeps L c
  binary (level : Nat) (c : Cursor) : (binary n level c).Keeps L c
  binaryRest (level : Nat) (left : Expr) (c : Cursor) : (binaryRest n level left c).Keeps L c
  unary (c : Cursor) : (unary n c).Keeps L c
  operand (c : Cursor) : (operand n c).Keeps L c
  operandRest (first : Expr) (c : Cursor) : (operandRest n first c).Keeps L c
  arguments (c : Cursor) : (arguments n c).Keeps L c
  primary (c : Cursor) : (primary n c).Keeps L c

namespace Law.KeptWithin

variable {L : Law} {n : Nat} (hL : L.Holds)
include hL

theorem zero : L.KeptWithin 0 where
  assignment := hL.stop
  conditional := hL.stop
  binary _ := hL.stop
  binaryRest _ _ := hL.stop
  unary := hL.stop
  operand := hL.stop
  operandRest _ := hL.stop
  arguments := hL.stop
  primary := hL.stop

variable (ih : L.KeptWithin n)
include ih

theorem assignment_succ (c : Cursor) : (Parser.assignment (n + 1) c).Keeps L c := by
  rw [Parser.assignment]
  refine hL.bind (ih.conditional c) fun target c₁ => ?_
  rw [here_bind]
  cases hop : assignOp? c₁.kind with
  | none => exact hL.pure _
  | some op =>
      dsimp only
      split
      next => exact hL.error (by decide +kernel)
      next =>
        refine hL.takeOp hop rfl rfl fun _ c₂ => ?_
        refine hL.bind (hL.nested ih.assignment c₂) fun value c₃ => hL.node fun node c₄ => ?_
        exact hL.pure _

theorem conditional_succ (c : Cursor) : (Parser.conditional (n + 1) c).Keeps L c := by
  have hbranches : ∀ c, Outcome.Keeps L c ((do
      let yes ← Parser.assignment n
      let _ ← expect .colon "in conditional expression"
      return (yes, ← Parser.conditional n) : Parser (Expr × Expr)) c) := fun c =>
    hL.bind (ih.assignment c) fun yes c₁ => hL.expect rfl fun _ c₂ =>
      hL.bind (ih.conditional c₂) fun no c₃ => hL.pure _
  rw [Parser.conditional]
  refine hL.bind (ih.binary 0 c) fun test c₁ => hL.accept rfl fun question c₂ => ?_
  cases question with
  | false => exact hL.pure _
  | true =>
      refine hL.bind (hL.nested hbranches c₂) fun branches c₃ => hL.node fun node c₄ => ?_
      exact hL.pure _

theorem binaryRest_succ (level : Nat) (left : Expr) (c : Cursor) :
    (Parser.binaryRest (n + 1) level left c).Keeps L c := by
  rw [Parser.binaryRest, here_bind]
  cases hop : binaryOp? c.kind with
  | none => exact hL.pure _
  | some op =>
      dsimp only
      split
      next => exact hL.pure _
      next =>
        refine hL.takeOp hop rfl rfl fun _ c₁ => hL.bind (ih.binary _ c₁) fun right c₂ => ?_
        exact hL.node fun node c₃ => ih.binaryRest level _ c₃

theorem operand_succ (c : Cursor) : (Parser.operand (n + 1) c).Keeps L c := by
  rw [Parser.operand, hereSpan_bind, here_bind]
  cases hstep : stepOp? c.kind with
  | some op =>
      refine hL.takeOp hstep rfl rfl fun _ c₁ => hL.bind (ih.unary c₁) fun target c₂ => ?_
      exact hL.node fun node c₃ => hL.pure _
  | none =>
      cases hop : unaryOp? c.kind with
      | some op =>
          refine hL.takeOp hop rfl rfl fun _ c₁ => hL.bind (ih.unary c₁) fun inner c₂ => ?_
          exact hL.node fun node c₃ => hL.pure _
      | none =>
          dsimp only
          split
          next hcast =>
            refine hL.take hcast.1 rfl fun _ c₁ => hL.bind (hL.typeName c₁) fun type c₂ => ?_
            refine hL.expect rfl fun _ c₃ => ?_
            refine hL.bind (ih.unary c₃) fun inner c₄ => hL.node fun node c₅ => hL.pure _
          next => exact hL.bind (ih.primary c) fun first c₁ => ih.operandRest first c₁

theorem operandRest_succ (first : Expr) (c : Cursor) :
    (Parser.operandRest (n + 1) first c).Keeps L c := by
  rw [Parser.operandRest, here_bind]
  cases hkind : c.kind with
  | leftBracket =>
      refine hL.take hkind rfl fun _ c₁ => ?_
      refine hL.bind (ih.assignment c₁) fun index c₂ => hL.expect rfl fun _ c₃ => ?_
      exact hL.bind (hL.refl c₃) fun span c₄ => hL.node fun node c₅ => ih.operandRest _ c₅
  | leftParen =>
      have hcall : ∀ args c', Outcome.Keeps L c' ((do
          let _ ← expect .rightParen "after arguments"
          Parser.operandRest n (.call (← node (← spanFrom first.span)) first args) :
            Parser Expr) c') := fun args c₂ =>
        hL.expect rfl fun _ c₃ => hL.bind (hL.refl c₃) fun span c₄ =>
          hL.node fun node c₅ => ih.operandRest _ c₅
      refine hL.take hkind rfl fun _ c₁ => ?_
      rw [here_bind]
      split
      next => exact hcall [] c₁
      next => exact hL.bind (ih.arguments c₁) hcall
  | plusPlus | minusMinus =>
      refine hL.take hkind rfl fun _ c₁ => ?_
      exact hL.bind (hL.refl c₁) fun span c₂ => hL.node fun node c₃ => ih.operandRest _ c₃
  | _ => exact hL.pure _

theorem arguments_succ (c : Cursor) : (Parser.arguments (n + 1) c).Keeps L c := by
  rw [Parser.arguments]
  refine hL.bind (ih.assignment c) fun first c₁ => hL.accept rfl fun comma c₂ => ?_
  cases comma with
  | false => exact hL.pure _
  | true => exact hL.bind (ih.arguments c₂) fun more c₃ => hL.pure _

theorem primary_succ (c : Cursor) : (Parser.primary (n + 1) c).Keeps L c := by
  rw [Parser.primary, here_bind]
  cases hkind : c.current.kind with
  | number | trueWord | falseWord | string | identifier =>
      refine hL.take hkind rfl fun _ c₁ => ?_
      exact hL.node fun node c₂ => hL.pure _
  | leftParen =>
      refine hL.take hkind rfl fun _ c₁ => ?_
      refine hL.bind (ih.assignment c₁) fun inner c₂ => hL.expect rfl fun _ c₃ => ?_
      exact hL.bind (hL.refl c₃) fun span c₄ => hL.node fun node c₅ => hL.pure _
  | _ => exact hL.error (by decide +kernel)

theorem succ : L.KeptWithin (n + 1) where
  assignment := ih.assignment_succ hL
  conditional := ih.conditional_succ hL
  binary level c := by
    rw [Parser.binary]
    exact hL.bind (ih.unary c) fun left c₁ => ih.binaryRest level left c₁
  binaryRest := ih.binaryRest_succ hL
  unary := by
    rw [Parser.unary]
    exact hL.nested ih.operand
  operand := ih.operand_succ hL
  operandRest := ih.operandRest_succ hL
  arguments := ih.arguments_succ hL
  primary := ih.primary_succ hL

end Law.KeptWithin

namespace Law.Holds

variable {L : Law} (hL : L.Holds)
include hL

theorem keptWithin (n : Nat) : L.KeptWithin n := by
  induction n with
  | zero => exact .zero hL
  | succ n ih => exact ih.succ hL

theorem expression (c : Cursor) : (Parser.expression c).Keeps L c :=
  (hL.keptWithin _).assignment c

theorem declarators (n : Nat) (c : Cursor) : (Parser.declarators n c).Keeps L c := by
  induction n generalizing c with
  | zero => exact hL.stop c
  | succ n ih =>
      rw [Parser.declarators, hereSpan_bind]
      refine hL.bind (hL.pointerMark c) fun pointer c₁ => hL.expectName fun name c₂ => ?_
      have hmore : ∀ init c', Outcome.Keeps L c' ((do
          let span ← Parser.spanFrom c.current.span
          let declarator : Declarator := { id := ← Parser.freshId, name, pointer, init, span }
          if ← Parser.accept .comma then return declarator :: (← Parser.declarators n)
          else return [declarator] : Parser (List Declarator)) c') := by
        intro init c₃
        refine hL.bind (hL.refl c₃) fun span c₄ => hL.freshId fun id c₅ => ?_
        refine hL.accept rfl fun comma c₆ => ?_
        cases comma with
        | false => exact hL.pure _
        | true => exact hL.bind (ih c₆) fun more c₇ => hL.pure _
      refine hL.accept rfl fun equal c₃ => ?_
      cases equal with
      | false => exact hmore none c₃
      | true => exact hL.bind (hL.map (hL.expression c₃)) hmore

theorem declaration (c : Cursor) : (Parser.declaration c).Keeps L c := by
  rw [Parser.declaration, hereSpan_bind]
  refine hL.bind (hL.specifiers c) fun type c₁ => ?_
  rw [here_bind]
  refine hL.bind (hL.declarators _ c₁) fun names c₂ => hL.expect rfl fun _ c₃ => ?_
  exact hL.bind (hL.refl c₃) fun span c₄ => hL.pure _

theorem exprStatement (c : Cursor) : (Parser.exprStatement c).Keeps L c := by
  rw [Parser.exprStatement, hereSpan_bind]
  refine hL.accept rfl fun semicolon c₁ => ?_
  cases semicolon with
  | true => exact hL.pure _
  | false =>
      refine hL.bind (hL.expression c₁) fun value c₂ => hL.expect rfl fun _ c₃ => ?_
      exact hL.bind (hL.refl c₃) fun span c₄ => hL.pure _

theorem condition (keyword : String) (c : Cursor) : (Parser.condition keyword c).Keeps L c := by
  rw [Parser.condition]
  refine hL.expect rfl fun _ c₁ => hL.bind (hL.expression c₁) fun value c₂ => ?_
  exact hL.expect rfl fun _ c₃ => hL.pure _

theorem forInit (c : Cursor) : (Parser.forInit c).Keeps L c := by
  rw [Parser.forInit, here_bind]
  split
  next hkind => exact hL.take hkind rfl fun _ c₁ => hL.pure _
  next =>
    split
    next => exact hL.map (hL.declaration c)
    next => exact hL.map (hL.exprStatement c)

theorem optionalBefore (kind : TokenKind) (c : Cursor) :
    (Parser.optionalBefore kind c).Keeps L c := by
  rw [Parser.optionalBefore, here_bind]
  split
  next => exact hL.pure _
  next => exact hL.map (hL.expression c)

end Law.Holds

/-- Whether a statement of a form of its own begins with a token of the kind, other than a block. -/
def TokenKind.isKeyword : TokenKind → Bool
  | .ifWord | .whileWord | .doWord | .forWord | .switchWord | .caseWord | .defaultWord
  | .breakWord | .continueWord | .printWord | .forEachSynapse => true
  | _ => false

/-- A statement is one of a keyword, a block or an expression before a semicolon. -/
theorem bareStatement_cases (n : Nat) (c : Cursor) :
    c.kind.isKeyword = true ∨ c.kind = .leftBrace ∨
      (c.kind.startsType = true ∧
        bareStatement (n + 1) c = fail "Declarations are only allowed as block items" c) ∨
      (c.kind.startsType = false ∧ bareStatement (n + 1) c = exprStatement c) := by
  rw [bareStatement, hereSpan_bind, here_bind]
  cases c.kind with
  | ifWord | whileWord | doWord | forWord | switchWord | caseWord | defaultWord | breakWord
  | continueWord | printWord | forEachSynapse => exact .inl rfl
  | leftBrace => exact .inr (.inl rfl)
  | typeSpecifier | typeQualifier => exact .inr (.inr (.inl ⟨rfl, rfl⟩))
  | _ => exact .inr (.inr (.inr ⟨rfl, rfl⟩))

/-- A block ends at the brace where its items end. -/
theorem bareStatement_of_leftBrace (n : Nat) {c : Cursor} (hkind : c.kind = .leftBrace) :
    bareStatement (n + 1) c =
      let run := items n true c.advance
      if run.2.kind = .rightBrace then
        .done (.block (c.current.span.merge run.2.advance.previous.span) run.1) run.2.advance
      else
        .failed (run.2.reportHere
          ("Expected " ++ TokenKind.rightBrace.description ++ " " ++ "after block")) := by
  rw [bareStatement, hereSpan_bind, here_bind, hkind]
  change (do
    let _ ← expect .rightBrace "after block"
    return Stmt.block (← spanFrom c.current.span) (items n true c.advance).1 : Parser Stmt)
      (items n true c.advance).2 = _
  dsimp only
  split
  next hclose => rw [expect_bind _ _ hclose]; rfl
  next hclose => rw [bind_of_failed (by rw [expect, if_neg hclose])]

/-- Reading of items stops, or goes on behind an item or behind what is skipped. -/
theorem items_cases (n : Nat) (inBlock : Bool) (c : Cursor) :
    ((c.atEnd = true ∨ inBlock = true ∧ c.kind = .rightBrace) ∧
      items (n + 1) inBlock c = ([], c)) ∨
    (∃ s c', blockItem n c = .done s c' ∧
      items (n + 1) inBlock c = (s :: (items n inBlock c').1, (items n inBlock c').2)) ∨
    ∃ c', c.atEnd = false ∧ blockItem n c = .failed c' ∧
      items (n + 1) inBlock c = items n inBlock c'.resume := by
  rw [items]
  split
  next hstop => exact .inl ⟨by simpa using hstop, rfl⟩
  next hgoes =>
    have hend := (Bool.or_eq_false_iff.mp (Bool.eq_false_iff.mpr hgoes)).1
    cases blockItem n c with
    | done s c' => exact .inr (.inl ⟨s, c', rfl, rfl⟩)
    | failed c' => exact .inr (.inr ⟨c', hend, rfl, rfl⟩)

/-- Reading of statements with at most `n` steps keeps to the law. -/
structure Law.StmtKeptWithin (L : Law) (n : Nat) : Prop where
  blockItem (c : Cursor) : (blockItem n c).Keeps L c
  statement (c : Cursor) : (statement n c).Keeps L c
  bareStatement (c : Cursor) : (bareStatement n c).Keeps L c
  items (inBlock : Bool) (c : Cursor) : L.items c (Parser.items n inBlock c).2

namespace Law.StmtKeptWithin

variable {L : Law} {n : Nat} {c : Cursor} (hL : L.Holds)
include hL

theorem zero : L.StmtKeptWithin 0 where
  blockItem := hL.stop
  statement := hL.stop
  bareStatement := hL.stop
  items _ := hL.items_refl

variable (ih : L.StmtKeptWithin n)
include ih

theorem items_succ (inBlock : Bool) (c : Cursor) :
    L.items c (Parser.items (n + 1) inBlock c).2 := by
  have hitem := ih.blockItem c
  rcases items_cases n inBlock c with ⟨-, hitems⟩ | ⟨s, c₁, hrun, hitems⟩ | ⟨c₁, hend, hrun, hitems⟩
  · rw [hitems]
    exact hL.items_refl c
  · rw [hrun] at hitem
    rw [hitems]
    exact hL.item hitem (ih.items inBlock c₁)
  · rw [hrun] at hitem
    rw [hitems]
    exact hL.skip hend hitem (ih.items inBlock c₁.resume)

/-- A block ends where its items do, or is given up there. -/
theorem block (hkind : c.kind = .leftBrace) : (Parser.bareStatement (n + 1) c).Keeps L c := by
  have hitems := ih.items true c.advance
  rw [bareStatement_of_leftBrace n hkind]
  dsimp only
  split
  next hclose => exact hL.block hkind hitems hclose
  next hclose => exact hL.unclosed (expected_ne_tooDeepText _ _) hkind hitems hclose

/-- A statement that begins with a keyword takes it first. -/
theorem keyword (hkeyword : c.kind.isKeyword = true) :
    ∃ f : Token → Parser Stmt, Parser.bareStatement (n + 1) c = (Parser.take >>= f) c ∧
      ∀ token c', (f token c').Keeps L c' := by
  rw [Parser.bareStatement, hereSpan_bind, here_bind]
  cases hkind : c.kind with
  | ifWord =>
      refine ⟨_, rfl, fun _ c₁ => ?_⟩
      refine hL.bind (hL.condition _ c₁) fun test c₂ => hL.bind (ih.statement c₂) fun yes c₃ => ?_
      refine hL.accept rfl fun elseWord c₄ => ?_
      cases elseWord with
      | false => exact hL.bind (hL.refl c₄) fun span c₅ => hL.pure _
      | true =>
          refine hL.bind (hL.map (ih.statement c₄)) fun no c₅ => ?_
          exact hL.bind (hL.refl c₅) fun span c₆ => hL.pure _
  | whileWord | switchWord =>
      refine ⟨_, rfl, fun _ c₁ => ?_⟩
      refine hL.bind (hL.condition _ c₁) fun test c₂ => hL.bind (ih.statement c₂) fun body c₃ => ?_
      exact hL.bind (hL.refl c₃) fun span c₄ => hL.pure _
  | doWord =>
      refine ⟨_, rfl, fun _ c₁ => ?_⟩
      refine hL.bind (ih.statement c₁) fun body c₂ => hL.expect rfl fun _ c₃ => ?_
      refine hL.bind (hL.condition _ c₃) fun test c₄ => hL.expect rfl fun _ c₅ => ?_
      exact hL.bind (hL.refl c₅) fun span c₆ => hL.pure _
  | forWord =>
      refine ⟨_, rfl, fun _ c₁ => ?_⟩
      refine hL.expect rfl fun _ c₂ => hL.bind (hL.forInit c₂) fun init c₃ => ?_
      refine hL.bind (hL.optionalBefore _ c₃) fun test c₄ => hL.expect rfl fun _ c₅ => ?_
      refine hL.bind (hL.optionalBefore _ c₅) fun step c₆ => hL.expect rfl fun _ c₇ => ?_
      refine hL.bind (ih.statement c₇) fun body c₈ => ?_
      exact hL.bind (hL.refl c₈) fun span c₉ => hL.pure _
  | caseWord =>
      refine ⟨_, rfl, fun _ c₁ => ?_⟩
      refine hL.bind (hL.expression c₁) fun value c₂ => hL.expect rfl fun _ c₃ => ?_
      refine hL.bind (ih.statement c₃) fun body c₄ => ?_
      exact hL.bind (hL.refl c₄) fun span c₅ => hL.pure _
  | defaultWord =>
      refine ⟨_, rfl, fun _ c₁ => ?_⟩
      refine hL.expect rfl fun _ c₂ => hL.bind (ih.statement c₂) fun body c₃ => ?_
      exact hL.bind (hL.refl c₃) fun span c₄ => hL.pure _
  | breakWord | continueWord =>
      refine ⟨_, rfl, fun _ c₁ => hL.expect rfl fun _ c₂ => ?_⟩
      exact hL.bind (hL.refl c₂) fun span c₃ => hL.pure _
  | printWord =>
      refine ⟨_, rfl, fun _ c₁ => ?_⟩
      refine hL.bind (hL.expression c₁) fun value c₂ => hL.expect rfl fun _ c₃ => ?_
      exact hL.bind (hL.refl c₃) fun span c₄ => hL.pure _
  | forEachSynapse =>
      refine ⟨_, rfl, fun _ c₁ => hL.bind (ih.statement c₁) fun body c₂ => ?_⟩
      exact hL.bind (hL.refl c₂) fun span c₃ => hL.pure _
  | _ =>
      rw [hkind] at hkeyword
      cases hkeyword

theorem bareStatement_succ (c : Cursor) : (Parser.bareStatement (n + 1) c).Keeps L c := by
  rcases bareStatement_cases n c with hkeyword | hblock | ⟨-, hfail⟩ | ⟨-, hvalue⟩
  · obtain ⟨f, hrun, hf⟩ := ih.keyword hL hkeyword
    rw [hrun]
    refine hL.take rfl ?_ hf
    cases hkind : c.kind with
    | leftBrace | rightBrace =>
        rw [hkind] at hkeyword
        cases hkeyword
    | _ => rfl
  · exact ih.block hL hblock
  · rw [hfail]
    exact hL.error (by decide +kernel)
  · rw [hvalue]
    exact hL.exprStatement c

theorem succ : L.StmtKeptWithin (n + 1) where
  blockItem c := by
    rw [Parser.blockItem, here_bind]
    split
    next => exact hL.declaration c
    next => exact ih.statement c
  statement := by
    rw [Parser.statement]
    exact hL.nested ih.bareStatement
  bareStatement := ih.bareStatement_succ hL
  items := ih.items_succ hL

end Law.StmtKeptWithin

theorem Law.Holds.stmtKeptWithin {L : Law} (hL : L.Holds) (n : Nat) : L.StmtKeptWithin n := by
  induction n with
  | zero => exact .zero hL
  | succ n ih => exact ih.succ hL

end KernelWeaver.Snippet
