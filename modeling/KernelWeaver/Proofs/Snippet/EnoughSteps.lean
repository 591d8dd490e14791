import KernelWeaver.Proofs.Snippet.Recovery

/-!
# Enough steps

The number of steps that reading may take never decides what is read: more steps than it is given
change nothing. So what reads a list of tokens step by step is the same as what reads it without a
limit, and comes to an end after a number of steps that grows with the number of tokens only.
-/

namespace KernelWeaver.Snippet

open KernelWeaver.Snippet.Parser

/-- At most `k` tokens are left in front of the end of input. -/
structure Cursor.Within (k : Nat) (c : Cursor) : Prop where
  closed : c.Closed
  length_le : c.rest.length ≤ k

namespace Cursor.Within

variable {k : Nat} {c c' : Cursor}

theorem moves (h : c.Within k) (hm : c.Moves c') : c'.Within k :=
  ⟨hm.closed h.closed, hm.length_le.trans h.length_le⟩

theorem of_lt (h : c.Within k) (hm : c.Moves c') (hlt : c'.rest.length < c.rest.length) :
    ∃ j, k = j + 1 ∧ c'.Within j := by
  have hle := h.length_le
  exact ⟨k - 1, by omega, hm.closed h.closed, by omega⟩

theorem deeper (h : c.Within k) : c.deeper.Within k := ⟨h.closed, h.length_le⟩

theorem fresh (h : c.Within k) : Within k { c with nextId := c.nextId + 1 } :=
  ⟨h.closed, h.length_le⟩

theorem advance (h : c.Within k) (hkind : c.kind ≠ .endOfInput) :
    ∃ j, k = j + 1 ∧ c.advance.Within j :=
  h.of_lt (.advance c) (length_advance h.closed hkind)

end Cursor.Within

namespace Parser

variable {α β γ : Type} {c : Cursor} {k n : Nat}

/-! ### Reading that goes on alike -/

theorem bind_alike {p p' : Parser α} {f f' : α → Parser β} (hp : p c = p' c)
    (hmoves : (p c).Keeps Law.moves c) (hf : ∀ a c', c.Moves c' → f a c' = f' a c') :
    (p >>= f) c = (p' >>= f') c := by
  cases hrun : p c with
  | done a c' =>
      rw [hrun] at hmoves
      rw [bind_of_done hrun, bind_of_done (hp.symm.trans hrun), hf a c' hmoves]
  | failed c' => rw [bind_of_failed hrun, bind_of_failed (hp.symm.trans hrun)]

theorem take_alike {f f' : Token → Parser β} (hc : c.Within k) (hkind : c.kind ≠ .endOfInput)
    (h : ∀ j, k = j + 1 → c.advance.Within j → f c.current c.advance = f' c.current c.advance) :
    (take >>= f) c = (take >>= f') c := by
  obtain ⟨j, hk, hadvance⟩ := hc.advance hkind
  rw [take_bind, take_bind, h j hk hadvance]

/-- Taking a token that spells an operator, as the end of input does not. -/
theorem takeOp_alike {op? : TokenKind → Option γ} {op : γ} {f f' : Token → Parser β}
    (hc : c.Within k) (hop : op? c.kind = some op) (hend : op? .endOfInput = none)
    (h : ∀ j, k = j + 1 → c.advance.Within j → f c.current c.advance = f' c.current c.advance) :
    (take >>= f) c = (take >>= f') c := by
  apply take_alike hc _ h
  intro hkind
  rw [hkind, hend] at hop
  cases hop

theorem accept_alike {kind : TokenKind} {f f' : Bool → Parser β} (hc : c.Within k)
    (hkind : kind ≠ .endOfInput)
    (hyes : ∀ j, k = j + 1 → c.advance.Within j → f true c.advance = f' true c.advance)
    (hno : f false c = f' false c) : (accept kind >>= f) c = (accept kind >>= f') c := by
  rw [accept_bind, accept_bind]
  split
  next hsame =>
    obtain ⟨j, hk, hadvance⟩ := hc.advance (hsame ▸ hkind)
    exact hyes j hk hadvance
  next => exact hno

theorem expect_alike {kind : TokenKind} {context : String} {f f' : Span → Parser β}
    (hc : c.Within k) (hkind : kind ≠ .endOfInput)
    (h : ∀ j, k = j + 1 → c.advance.Within j →
      f c.current.span c.advance = f' c.current.span c.advance) :
    (expect kind context >>= f) c = (expect kind context >>= f') c := by
  by_cases hsame : c.kind = kind
  · obtain ⟨j, hk, hadvance⟩ := hc.advance (hsame ▸ hkind)
    rw [expect_bind context f hsame, expect_bind context f' hsame, h j hk hadvance]
  · obtain ⟨c', hrun⟩ : ∃ c', expect kind context c = .failed c' :=
      ⟨_, by rw [expect, if_neg hsame]⟩
    rw [bind_of_failed hrun, bind_of_failed hrun]

theorem nested_alike {p p' : Parser α} (h : p c.deeper = p' c.deeper) :
    nested p c = nested p' c := by
  rw [Cursor.deeper] at h
  rw [nested, nested, h]

/-! ### Expressions -/

/-- Where the tokens are few enough for `n` steps, one step more changes nothing. -/
structure SettledWithin (n : Nat) : Prop where
  -- with the same tokens left, a reader needs more steps than those that it calls first
  assignment {k : Nat} {c : Cursor} : c.Within k → 8 * k + 6 ≤ n →
    assignment n c = assignment (n + 1) c
  conditional {k : Nat} {c : Cursor} : c.Within k → 8 * k + 5 ≤ n →
    conditional n c = conditional (n + 1) c
  binary (level : Nat) {k : Nat} {c : Cursor} : c.Within k → 8 * k + 4 ≤ n →
    binary n level c = binary (n + 1) level c
  binaryRest (level : Nat) (left : Expr) {k : Nat} {c : Cursor} : c.Within k → 8 * k + 1 ≤ n →
    binaryRest n level left c = binaryRest (n + 1) level left c
  unary {k : Nat} {c : Cursor} : c.Within k → 8 * k + 3 ≤ n → unary n c = unary (n + 1) c
  operand {k : Nat} {c : Cursor} : c.Within k → 8 * k + 2 ≤ n → operand n c = operand (n + 1) c
  operandRest (first : Expr) {k : Nat} {c : Cursor} : c.Within k → 8 * k + 1 ≤ n →
    operandRest n first c = operandRest (n + 1) first c
  arguments {k : Nat} {c : Cursor} : c.Within k → 8 * k + 7 ≤ n →
    arguments n c = arguments (n + 1) c
  primary {k : Nat} {c : Cursor} : c.Within k → 8 * k + 1 ≤ n → primary n c = primary (n + 1) c

namespace SettledWithin

theorem zero : SettledWithin 0 := by
  constructor <;> intros <;> omega

variable (ih : SettledWithin n)
include ih

theorem assignment_succ (hc : c.Within k) (hn : 8 * k + 6 ≤ n + 1) :
    Parser.assignment (n + 1) c = Parser.assignment (n + 2) c := by
  have hkept := holds_moves.keptWithin n
  rw [Parser.assignment, Parser.assignment]
  refine bind_alike (ih.conditional hc (by omega)) (hkept.conditional c) fun target c₁ h₁ => ?_
  rw [here_bind, here_bind]
  cases hop : assignOp? c₁.kind with
  | none => rfl
  | some op =>
      dsimp only
      split
      next => rfl
      next =>
        refine takeOp_alike (hc.moves h₁) hop rfl fun j hk h₂ => ?_
        exact bind_alike (nested_alike (ih.assignment h₂.deeper (by omega)))
          (holds_moves.nested hkept.assignment _) fun value c₃ h₃ => rfl

theorem conditional_succ (hc : c.Within k) (hn : 8 * k + 5 ≤ n + 1) :
    Parser.conditional (n + 1) c = Parser.conditional (n + 2) c := by
  have hkept := holds_moves.keptWithin n
  rw [Parser.conditional, Parser.conditional]
  refine bind_alike (ih.binary 0 hc (by omega)) (hkept.binary 0 c) fun test c₁ h₁ => ?_
  refine accept_alike (hc.moves h₁) (by decide) (fun j hk h₂ => ?_) rfl
  have hbranches : ∀ c, Outcome.Keeps Law.moves c ((do
      let yes ← Parser.assignment n
      let _ ← expect .colon "in conditional expression"
      return (yes, ← Parser.conditional n) : Parser (Expr × Expr)) c) := fun c =>
    holds_moves.bind (hkept.assignment c) fun yes c₁ => holds_moves.expect rfl fun _ c₂ =>
      holds_moves.bind (hkept.conditional c₂) fun no c₃ => holds_moves.pure _
  refine bind_alike (nested_alike ?_) (holds_moves.nested hbranches _) fun branches c₃ h₃ => rfl
  refine bind_alike (ih.assignment h₂.deeper (by omega)) (hkept.assignment _) fun yes c₃ h₃ => ?_
  refine expect_alike (h₂.deeper.moves h₃) (by decide) fun i hj h₄ => ?_
  exact bind_alike (ih.conditional h₄ (by omega)) (hkept.conditional _) fun no c₅ h₅ => rfl

theorem binary_succ (level : Nat) (hc : c.Within k) (hn : 8 * k + 4 ≤ n + 1) :
    Parser.binary (n + 1) level c = Parser.binary (n + 2) level c := by
  rw [Parser.binary, Parser.binary]
  exact bind_alike (ih.unary hc (by omega)) ((holds_moves.keptWithin n).unary c)
    fun left c₁ h₁ => ih.binaryRest level left (hc.moves h₁) (by omega)

theorem binaryRest_succ (level : Nat) (left : Expr) (hc : c.Within k) (hn : 8 * k + 1 ≤ n + 1) :
    Parser.binaryRest (n + 1) level left c = Parser.binaryRest (n + 2) level left c := by
  rw [Parser.binaryRest, Parser.binaryRest, here_bind, here_bind]
  cases hop : binaryOp? c.kind with
  | none => rfl
  | some op =>
      dsimp only
      split
      next => rfl
      next =>
        refine takeOp_alike hc hop rfl fun j hk h₁ => ?_
        refine bind_alike (ih.binary _ h₁ (by omega)) ((holds_moves.keptWithin n).binary _ _)
          fun right c₂ h₂ => ?_
        rw [node_bind, node_bind]
        exact ih.binaryRest level _ (h₁.moves h₂).fresh (by omega)

theorem operand_succ (hc : c.Within k) (hn : 8 * k + 2 ≤ n + 1) :
    Parser.operand (n + 1) c = Parser.operand (n + 2) c := by
  have hkept := holds_moves.keptWithin n
  rw [Parser.operand, Parser.operand, hereSpan_bind, hereSpan_bind, here_bind, here_bind]
  cases hstep : stepOp? c.kind with
  | some op =>
      refine takeOp_alike hc hstep rfl fun j hk h₁ => ?_
      exact bind_alike (ih.unary h₁ (by omega)) (hkept.unary _) fun target c₂ h₂ => rfl
  | none =>
      cases hop : unaryOp? c.kind with
      | some op =>
          refine takeOp_alike hc hop rfl fun j hk h₁ => ?_
          exact bind_alike (ih.unary h₁ (by omega)) (hkept.unary _) fun inner c₂ h₂ => rfl
      | none =>
          dsimp only
          split
          next hcast =>
            refine take_alike hc (by rw [hcast.1]; decide) fun j hk h₁ => ?_
            refine bind_alike rfl (holds_moves.typeName _) fun type c₂ h₂ => ?_
            refine expect_alike (h₁.moves h₂) (by decide) fun i hj h₃ => ?_
            exact bind_alike (ih.unary h₃ (by omega)) (hkept.unary _) fun inner c₄ h₄ => rfl
          next =>
            exact bind_alike (ih.primary hc (by omega)) (hkept.primary c) fun first c₁ h₁ =>
              ih.operandRest first (hc.moves h₁) (by omega)

theorem operandRest_succ (first : Expr) (hc : c.Within k) (hn : 8 * k + 1 ≤ n + 1) :
    Parser.operandRest (n + 1) first c = Parser.operandRest (n + 2) first c := by
  have hkept := holds_moves.keptWithin n
  rw [Parser.operandRest, Parser.operandRest, here_bind, here_bind]
  cases hkind : c.kind with
  | leftBracket =>
      refine take_alike hc (by rw [hkind]; decide) fun j hk h₁ => ?_
      refine bind_alike (ih.assignment h₁ (by omega)) (hkept.assignment _) fun index c₂ h₂ => ?_
      refine expect_alike (h₁.moves h₂) (by decide) fun i hj h₃ => ?_
      rw [spanFrom_bind, spanFrom_bind, node_bind, node_bind]
      exact ih.operandRest _ h₃.fresh (by omega)
  | leftParen =>
      refine take_alike hc (by rw [hkind]; decide) fun j hk h₁ => ?_
      have hcall : ∀ args c', c'.Within j → ((do
          let _ ← expect .rightParen "after arguments"
          Parser.operandRest n (.call (← node (← spanFrom first.span)) first args) :
            Parser Expr) c') = (do
          let _ ← expect .rightParen "after arguments"
          Parser.operandRest (n + 1) (.call (← node (← spanFrom first.span)) first args) :
            Parser Expr) c' := by
        intro args c₂ h₂
        refine expect_alike h₂ (by decide) fun i hj h₃ => ?_
        rw [spanFrom_bind, spanFrom_bind, node_bind, node_bind]
        exact ih.operandRest _ h₃.fresh (by omega)
      rw [here_bind, here_bind]
      split
      next => exact hcall [] _ h₁
      next =>
        exact bind_alike (ih.arguments h₁ (by omega)) (hkept.arguments _) fun args c₂ h₂ =>
          hcall args c₂ (h₁.moves h₂)
  | plusPlus | minusMinus =>
      refine take_alike hc (by rw [hkind]; decide) fun j hk h₁ => ?_
      rw [spanFrom_bind, spanFrom_bind, node_bind, node_bind]
      exact ih.operandRest _ h₁.fresh (by omega)
  | _ => rfl

theorem arguments_succ (hc : c.Within k) (hn : 8 * k + 7 ≤ n + 1) :
    Parser.arguments (n + 1) c = Parser.arguments (n + 2) c := by
  have hkept := holds_moves.keptWithin n
  rw [Parser.arguments, Parser.arguments]
  refine bind_alike (ih.assignment hc (by omega)) (hkept.assignment c) fun first c₁ h₁ => ?_
  refine accept_alike (hc.moves h₁) (by decide) (fun j hk h₂ => ?_) rfl
  exact bind_alike (ih.arguments h₂ (by omega)) (hkept.arguments _) fun more c₃ h₃ => rfl

theorem primary_succ (hc : c.Within k) (hn : 8 * k + 1 ≤ n + 1) :
    Parser.primary (n + 1) c = Parser.primary (n + 2) c := by
  rw [Parser.primary, Parser.primary, here_bind, here_bind]
  cases hkind : c.current.kind with
  | leftParen =>
      have hkind' : c.kind = .leftParen := hkind
      refine take_alike hc (by rw [hkind']; decide) fun j hk h₁ => ?_
      exact bind_alike (ih.assignment h₁ (by omega)) ((holds_moves.keptWithin n).assignment _)
        fun inner c₂ h₂ => rfl
  | _ => rfl

theorem succ : SettledWithin (n + 1) where
  assignment := ih.assignment_succ
  conditional := ih.conditional_succ
  binary level _ _ hc hn := ih.binary_succ level hc hn
  binaryRest level left _ _ hc hn := ih.binaryRest_succ level left hc hn
  unary hc hn := by
    rw [Parser.unary, Parser.unary]
    exact nested_alike (ih.operand hc.deeper (by omega))
  operand := ih.operand_succ
  operandRest first _ _ hc hn := ih.operandRest_succ first hc hn
  arguments := ih.arguments_succ
  primary := ih.primary_succ

end SettledWithin

theorem settledWithin (n : Nat) : SettledWithin n := by
  induction n with
  | zero => exact .zero
  | succ n ih => exact ih.succ

/-! ### Statements -/

theorem moves_expectName (context : String) (c : Cursor) :
    (expectName context c).Keeps Law.moves c := by
  rw [expectName]
  split
  next => exact .advance c
  next => exact .fail c (ne_tooDeepText (by simp only [String.toList_append]; rfl))

theorem declarators_settled (hc : c.Within k) (hn : k + 1 ≤ n) :
    declarators n c = declarators (n + 1) c := by
  induction n generalizing c k with
  | zero => omega
  | succ n ih =>
      rw [declarators, declarators, hereSpan_bind, hereSpan_bind]
      refine bind_alike rfl (holds_moves.pointerMark c) fun pointer c₁ h₁ => ?_
      refine bind_alike rfl (moves_expectName _ c₁) fun name c₂ h₂ => ?_
      have hmore : ∀ init c', c'.Within k → ((do
          let span ← spanFrom c.current.span
          let declarator : Declarator := { id := ← freshId, name, pointer, init, span }
          if ← accept .comma then return declarator :: (← declarators n)
          else return [declarator] : Parser (List Declarator)) c') = (do
          let span ← spanFrom c.current.span
          let declarator : Declarator := { id := ← freshId, name, pointer, init, span }
          if ← accept .comma then return declarator :: (← declarators (n + 1))
          else return [declarator] : Parser (List Declarator)) c' := by
        intro init c₃ h₃
        rw [spanFrom_bind, spanFrom_bind, freshId_bind, freshId_bind]
        refine accept_alike h₃.fresh (by decide) (fun j hk h₄ => ?_) rfl
        exact bind_alike (ih h₄ (by omega)) (holds_moves.declarators n _) fun more c₅ h₅ => rfl
      have hwithin := (hc.moves h₁).moves h₂
      refine accept_alike hwithin (by decide) (fun j hk h₃ => ?_) (hmore none c₂ hwithin)
      exact bind_alike rfl (holds_moves.map (holds_moves.expression _)) fun init c₄ h₄ =>
        hmore init c₄ ⟨h₄.closed h₃.closed, h₄.length_le.trans (h₃.length_le.trans (by omega))⟩

/-- Where the tokens are few enough for `n` steps, one step more changes nothing in statements. -/
structure SettledStmtWithin (n : Nat) : Prop where
  blockItem {k : Nat} {c : Cursor} : c.Within k → 4 * k + 3 ≤ n →
    blockItem n c = blockItem (n + 1) c
  statement {k : Nat} {c : Cursor} : c.Within k → 4 * k + 2 ≤ n →
    statement n c = statement (n + 1) c
  bareStatement {k : Nat} {c : Cursor} : c.Within k → 4 * k + 1 ≤ n →
    bareStatement n c = bareStatement (n + 1) c
  items (inBlock : Bool) {k : Nat} {c : Cursor} : c.Within k → 4 * k + 4 ≤ n →
    items n inBlock c = items (n + 1) inBlock c

namespace SettledStmtWithin

theorem zero : SettledStmtWithin 0 := by
  constructor <;> intros <;> omega

variable (ih : SettledStmtWithin n)
include ih

theorem blockItem_succ (hc : c.Within k) (hn : 4 * k + 3 ≤ n + 1) :
    Parser.blockItem (n + 1) c = Parser.blockItem (n + 2) c := by
  rw [Parser.blockItem, Parser.blockItem, here_bind, here_bind]
  split
  next => rfl
  next => exact ih.statement hc (by omega)

/-- Each item passes a token, also one that cannot be read. -/
theorem items_succ (inBlock : Bool) (hc : c.Within k) (hn : 4 * k + 4 ≤ n + 1) :
    Parser.items (n + 1) inBlock c = Parser.items (n + 2) inBlock c := by
  have hitem := ih.blockItem hc (by omega)
  have hmoves := moves_blockItem n c
  rw [Parser.items, Parser.items]
  split
  next => rfl
  next hgoes =>
    rw [← hitem]
    cases hrun : Parser.blockItem n c with
    | done s c₁ =>
        rw [hrun] at hmoves
        obtain ⟨j, rfl, h₁⟩ := hc.of_lt hmoves (length_blockItem hc.closed hrun)
        have hrest : Parser.items n inBlock c₁ = Parser.items (n + 1) inBlock c₁ :=
          ih.items inBlock h₁ (by omega)
        dsimp only
        rw [hrest]
    | failed c₁ =>
        rw [hrun] at hmoves
        have hatEnd := (Bool.or_eq_false_iff.mp (Bool.eq_false_iff.mpr hgoes)).1
        obtain ⟨j, rfl, h₁⟩ := hc.of_lt (hmoves.trans (.resume c₁))
          (length_resume_lt hc.closed hatEnd hmoves)
        exact ih.items inBlock h₁ (by omega)

/-- A keyword with a condition and a body. -/
theorem conditioned (make : Span → Expr → Stmt → Stmt) (keyword : String) (start : Span)
    (hc : c.Within k) (hn : 4 * k + 2 ≤ n) :
    ((do
        let test ← condition keyword
        let body ← Parser.statement n
        return make (← spanFrom start) test body) : Parser Stmt) c = (do
        let test ← condition keyword
        let body ← Parser.statement (n + 1)
        return make (← spanFrom start) test body : Parser Stmt) c := by
  refine bind_alike rfl (holds_moves.condition _ c) fun test c₁ h₁ => ?_
  exact bind_alike (ih.statement (hc.moves h₁) hn) ((holds_moves.stmtKeptWithin n).statement c₁)
    fun body c₂ h₂ => rfl

theorem bareStatement_succ (hc : c.Within k) (hn : 4 * k + 1 ≤ n + 1) :
    Parser.bareStatement (n + 1) c = Parser.bareStatement (n + 2) c := by
  have hkept := holds_moves.stmtKeptWithin n
  -- the items of a block never fail, so a block goes on behind them and not by the rules above
  by_cases hblock : c.kind = .leftBrace
  · obtain ⟨j, rfl, h₁⟩ := hc.advance (by rw [hblock]; decide)
    rw [bareStatement_of_leftBrace n hblock, bareStatement_of_leftBrace (n + 1) hblock,
      ih.items true h₁ (by omega)]
  rw [Parser.bareStatement, Parser.bareStatement, hereSpan_bind, hereSpan_bind, here_bind, here_bind]
  cases hkind : c.kind with
  | leftBrace => exact absurd hkind hblock
  | ifWord =>
      refine take_alike hc (by rw [hkind]; decide) fun j hk h₁ => ?_
      refine bind_alike rfl (holds_moves.condition _ _) fun test c₂ h₂ => ?_
      have hwithin := h₁.moves h₂
      refine bind_alike (ih.statement hwithin (by omega)) (hkept.statement c₂) fun yes c₃ h₃ => ?_
      refine accept_alike (hwithin.moves h₃) (by decide) (fun i hj h₄ => ?_) rfl
      refine bind_alike ?_ (holds_moves.map (hkept.statement _)) fun no c₅ h₅ => rfl
      exact bind_alike (ih.statement h₄ (by omega)) (hkept.statement _) fun no c₅ h₅ => rfl
  | whileWord =>
      refine take_alike hc (by rw [hkind]; decide) fun j hk h₁ => ?_
      exact ih.conditioned .whileLoop "while" _ h₁ (by omega)
  | switchWord =>
      refine take_alike hc (by rw [hkind]; decide) fun j hk h₁ => ?_
      exact ih.conditioned .switch "switch" _ h₁ (by omega)
  | doWord =>
      refine take_alike hc (by rw [hkind]; decide) fun j hk h₁ => ?_
      exact bind_alike (ih.statement h₁ (by omega)) (hkept.statement _) fun body c₂ h₂ => rfl
  | forWord =>
      refine take_alike hc (by rw [hkind]; decide) fun j hk h₁ => ?_
      refine expect_alike h₁ (by decide) fun i hj h₂ => ?_
      refine bind_alike rfl (holds_moves.forInit _) fun init c₃ h₃ => ?_
      refine bind_alike rfl (holds_moves.optionalBefore _ c₃) fun test c₄ h₄ => ?_
      refine expect_alike ((h₂.moves h₃).moves h₄) (by decide) fun m hi h₅ => ?_
      refine bind_alike rfl (holds_moves.optionalBefore _ _) fun step c₆ h₆ => ?_
      refine expect_alike (h₅.moves h₆) (by decide) fun l hm h₇ => ?_
      exact bind_alike (ih.statement h₇ (by omega)) (hkept.statement _) fun body c₈ h₈ => rfl
  | caseWord =>
      refine take_alike hc (by rw [hkind]; decide) fun j hk h₁ => ?_
      refine bind_alike rfl (holds_moves.expression _) fun value c₂ h₂ => ?_
      refine expect_alike (h₁.moves h₂) (by decide) fun i hj h₃ => ?_
      exact bind_alike (ih.statement h₃ (by omega)) (hkept.statement _) fun body c₄ h₄ => rfl
  | defaultWord =>
      refine take_alike hc (by rw [hkind]; decide) fun j hk h₁ => ?_
      refine expect_alike h₁ (by decide) fun i hj h₂ => ?_
      exact bind_alike (ih.statement h₂ (by omega)) (hkept.statement _) fun body c₃ h₃ => rfl
  | forEachSynapse =>
      refine take_alike hc (by rw [hkind]; decide) fun j hk h₁ => ?_
      exact bind_alike (ih.statement h₁ (by omega)) (hkept.statement _) fun body c₂ h₂ => rfl
  | _ => rfl

theorem succ : SettledStmtWithin (n + 1) where
  blockItem := ih.blockItem_succ
  statement hc hn := by
    rw [Parser.statement, Parser.statement]
    exact nested_alike (ih.bareStatement hc.deeper (by omega))
  bareStatement := ih.bareStatement_succ
  items inBlock _ _ hc hn := ih.items_succ inBlock hc hn

end SettledStmtWithin

theorem settledStmtWithin (n : Nat) : SettledStmtWithin n := by
  induction n with
  | zero => exact .zero
  | succ n ih => exact ih.succ

/-- Reading of items ends at the end of input or, in a block, at its brace. -/
theorem items_end (inBlock : Bool) (hc : c.Closed) (hn : 4 * c.rest.length + 4 ≤ n) :
    (items n inBlock c).2.atEnd = true ∨
      inBlock = true ∧ (items n inBlock c).2.kind = .rightBrace := by
  induction n generalizing c with
  | zero => omega
  | succ n ih =>
      have hmoves := moves_blockItem n c
      rcases items_cases n inBlock c with
        ⟨hstop, hitems⟩ | ⟨s, c₁, hrun, hitems⟩ | ⟨c₁, hend, hrun, hitems⟩
      · rw [hitems]
        exact hstop
      · rw [hrun] at hmoves
        rw [hitems]
        have hlength := length_blockItem hc hrun
        exact ih (hmoves.closed hc) (by omega)
      · rw [hrun] at hmoves
        rw [hitems]
        have hlength : c₁.resume.rest.length < c.rest.length := length_resume_lt hc hend hmoves
        exact ih ((hmoves.trans (.resume c₁)).closed hc) (by omega)

/-! ### Coming to an end -/

theorem eq_of_settled {f : Nat → α} {steps : Nat} (hsettled : ∀ n, steps ≤ n → f n = f (n + 1))
    (hn : steps ≤ n) : f n = f steps := by
  induction n, hn using Nat.le_induction with
  | base => rfl
  | succ n hn ih => rw [← hsettled n hn, ih]

/-- Reading comes to an end by itself: more steps than these change nothing, and it is given up for
a reason that is on record, not for want of steps. -/
structure EndsWithin (p : Nat → Parser α) (steps : Nat) (c : Cursor) : Prop where
  eq {n : Nat} : steps ≤ n → p n c = p steps c
  remark {n : Nat} {c' : Cursor} : steps ≤ n → p n c = .failed c' →
    c.report.length < c'.report.length

theorem EndsWithin.of_clean {p : Nat → Parser α} {steps : Nat}
    {Q : α → List Token → Cursor → Prop} (hsettled : ∀ n, steps ≤ n → p n c = p (n + 1) c)
    (hclean : ∀ n, steps ≤ n → (p n c).Clean c Q) : EndsWithin p steps c where
  eq := eq_of_settled hsettled
  remark hn hrun := by
    have hfailed := hclean _ hn
    rw [hrun] at hfailed
    exact hfailed

end Parser

/-- Whatever is read step by step from the cursor comes to an end. -/
structure Cursor.Finishes (c : Cursor) : Prop where
  expression : EndsWithin assignment (exprSteps c.rest.length) c
  names : EndsWithin declarators (c.rest.length + 1) c
  item : EndsWithin blockItem (itemSteps c.rest.length) c
  items (inBlock : Bool) {n : Nat} : itemSteps c.rest.length ≤ n →
    items n inBlock c = items (itemSteps c.rest.length) inBlock c
  items_end (inBlock : Bool) {n : Nat} : itemSteps c.rest.length ≤ n →
    (Parser.items n inBlock c).2.atEnd = true ∨
      inBlock = true ∧ (Parser.items n inBlock c).2.kind = .rightBrace

theorem Cursor.Closed.finishes {c : Cursor} (hc : c.Closed) : c.Finishes where
  expression := by
    have hsteps {n : Nat} (hn : exprSteps c.rest.length ≤ n) : 8 * c.rest.length + 6 ≤ n := by
      rw [exprSteps] at hn
      omega
    exact .of_clean (fun n hn => (settledWithin n).assignment ⟨hc, le_rfl⟩ (hsteps hn))
      (fun n hn => ((soundWithin n).assignment c hc (hsteps hn)).clean)
  names :=
    .of_clean (fun _ hn => declarators_settled ⟨hc, le_rfl⟩ hn)
      (fun n hn => (sound_declarators n c hc hn).clean)
  item := by
    have hsteps {n : Nat} (hn : itemSteps c.rest.length ≤ n) : 4 * c.rest.length + 3 ≤ n := by
      rw [itemSteps] at hn
      omega
    exact .of_clean (fun n hn => (settledStmtWithin n).blockItem ⟨hc, le_rfl⟩ (hsteps hn))
      (fun n hn => (soundStmtWithin n).blockItem c hc (hsteps hn))
  items inBlock n hn := by
    refine eq_of_settled (f := fun n => Parser.items n inBlock c) (fun n hn => ?_) hn
    rw [itemSteps] at hn
    exact (settledStmtWithin n).items inBlock ⟨hc, le_rfl⟩ (by omega)
  items_end inBlock n hn := by
    rw [itemSteps] at hn
    exact Parser.items_end inBlock hc (by omega)

end KernelWeaver.Snippet
