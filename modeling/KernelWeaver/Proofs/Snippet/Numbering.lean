import KernelWeaver.Proofs.Snippet.PostOrder
import KernelWeaver.Proofs.Snippet.StmtReading

/-!
# Numbers of nodes

Every node of what is read has a number of its own, so a table by numbers can hold what is known of
each node. The counter only rises, and a node gets its number behind its parts.
-/

namespace KernelWeaver.Snippet

/-- Numbers that were given out one after another while the counter rose from `lo` to `hi`. -/
structure Fresh (lo : Nat) (ids : List Nat) (hi : Nat) : Prop where
  le : lo ≤ hi
  ascending : ids.Pairwise (· < ·)
  within : ∀ id ∈ ids, lo ≤ id ∧ id < hi

namespace Fresh

variable {lo mid hi : Nat} {xs ys : List Nat}

theorem nil (lo : Nat) : Fresh lo [] lo := ⟨le_rfl, .nil, by simp⟩

theorem append (h : Fresh lo xs mid) (h' : Fresh mid ys hi) : Fresh lo (xs ++ ys) hi where
  le := h.le.trans h'.le
  ascending := by
    refine List.pairwise_append.mpr ⟨h.ascending, h'.ascending, fun x hx y hy => ?_⟩
    exact (h.within x hx).2.trans_le (h'.within y hy).1
  within id hid := by
    have hle := h.le
    have hle' := h'.le
    rcases List.mem_append.mp hid with hx | hy
    · have hwithin := h.within id hx
      omega
    · have hwithin := h'.within id hy
      omega

/-- The next number is a new one. -/
theorem concat (h : Fresh lo xs hi) : Fresh lo (xs ++ [hi]) (hi + 1) :=
  h.append ⟨Nat.le_succ hi, List.pairwise_singleton .., by simp⟩

end Fresh

/-- The nodes of what was read have numbers from `lo` on, all of them different. Where reading was
given up, the counter has not fallen. -/
def Outcome.Numbered {α : Type} (lo : NodeId) (nodes : α → List NodeId) : Outcome α → Prop
  | .done a c => Fresh lo (nodes a) c.nextId
  | .failed c => lo ≤ c.nextId

namespace Parser

variable {α β : Type}

/-- Whatever is read, its nodes have numbers of their own. -/
def Numbers (p : Parser α) (nodes : α → List NodeId) : Prop :=
  ∀ c, (p c).Numbered c.nextId nodes

/-- No number is given out. -/
class KeepsCount (p : Parser α) : Prop where
  nextId : ∀ c, (p c).cursor.nextId = c.nextId

theorem nextId_advance (c : Cursor) : c.advance.nextId = c.nextId := by
  rw [Cursor.advance]
  split <;> rfl

theorem nextId_advanceBy (n : Nat) (c : Cursor) : (advanceBy n c).nextId = c.nextId := by
  induction n generalizing c with
  | zero => rfl
  | succ n ih => rw [advanceBy, ih, nextId_advance]

theorem nextId_resume (c : Cursor) : c.resume.nextId = c.nextId := by
  rw [Cursor.resume]
  split <;> rfl

instance (a : α) : KeepsCount (pure a : Parser α) := ⟨fun _ => rfl⟩

instance : KeepsCount here := ⟨fun _ => rfl⟩

instance : KeepsCount hereSpan := ⟨fun _ => rfl⟩

instance (start : Span) : KeepsCount (spanFrom start) := ⟨fun _ => rfl⟩

instance (message : String) : KeepsCount (fail message : Parser α) := ⟨fun _ => rfl⟩

instance : KeepsCount take := ⟨nextId_advance⟩

instance (kind : TokenKind) : KeepsCount (accept kind) := by
  refine ⟨fun c => ?_⟩
  rw [accept]
  split
  · exact nextId_advance c
  · rfl

instance (kind : TokenKind) (context : String) : KeepsCount (expect kind context) := by
  refine ⟨fun c => ?_⟩
  rw [expect]
  split
  · exact nextId_advance c
  · rfl

instance (context : String) : KeepsCount (expectName context) := by
  refine ⟨fun c => ?_⟩
  rw [expectName]
  split
  · exact nextId_advance c
  · rfl

instance KeepsCount.bind (p : Parser α) (f : α → Parser β) [KeepsCount p] [∀ a, KeepsCount (f a)] :
    KeepsCount (p >>= f) := by
  refine ⟨fun c => ?_⟩
  have hp := KeepsCount.nextId (p := p) c
  cases hrun : p c with
  | done a c' =>
      rw [hrun] at hp
      rw [bind_of_done hrun]
      exact (KeepsCount.nextId (p := f a) c').trans hp
  | failed c' =>
      rw [hrun] at hp
      rw [bind_of_failed hrun]
      exact hp

instance (b : Prop) [Decidable b] (p q : Parser α) [KeepsCount p] [KeepsCount q] :
    KeepsCount (if b then p else q) := by
  split <;> assumption

instance : KeepsCount pointerMark := by
  rw [pointerMark]; infer_instance

instance : KeepsCount specifiers := by
  rw [specifiers]
  refine @KeepsCount.bind _ _ _ _ _ fun start => @KeepsCount.bind _ _ _ _ _ fun c => ?_
  rcases specifierWords c.rest with ⟨words, isConst, count⟩
  exact @KeepsCount.bind _ _ _ _ ⟨nextId_advanceBy count⟩ fun _ => inferInstance

instance : KeepsCount typeName := by
  rw [typeName]; infer_instance

end Parser

namespace Outcome.Numbered

open KernelWeaver.Snippet.Parser

variable {α β : Type} {lo : NodeId} {xs : List NodeId} {c : Cursor}
  {nodes : α → List NodeId} {more : β → List NodeId}

theorem pure {a : α} (hx : Fresh lo (nodes a) c.nextId) :
    ((Pure.pure a : Parser α) c).Numbered lo nodes := hx

/-- Reading something without nodes. -/
theorem skip {p : Parser α} {f : α → Parser β} [KeepsCount p] (hx : Fresh lo xs c.nextId)
    (hf : ∀ a c', Fresh lo xs c'.nextId → (f a c').Numbered lo more) :
    ((p >>= f) c).Numbered lo more := by
  have hkeeps := KeepsCount.nextId (p := p) c
  cases hrun : p c with
  | done a c' =>
      rw [hrun, Outcome.cursor] at hkeeps
      rw [bind_of_done hrun]
      exact hf a c' (hkeeps ▸ hx)
  | failed c' =>
      rw [hrun, Outcome.cursor] at hkeeps
      rw [bind_of_failed hrun, Numbered, hkeeps]
      exact hx.le

/-- Reading something behind what was read so far. -/
theorem read {p : Parser α} {f : α → Parser β} (hx : Fresh lo xs c.nextId)
    (hp : Numbers p nodes)
    (hf : ∀ a c', Fresh lo (xs ++ nodes a) c'.nextId → (f a c').Numbered lo more) :
    ((p >>= f) c).Numbered lo more := by
  have hread := hp c
  cases hrun : p c with
  | done a c' =>
      rw [hrun] at hread
      rw [bind_of_done hrun]
      exact hf a c' (hx.append hread)
  | failed c' =>
      rw [hrun] at hread
      rw [bind_of_failed hrun]
      exact hx.le.trans hread

/-- A node is made of what was read so far. -/
theorem node {span : Span} {f : Node → Parser β} (hx : Fresh lo xs c.nextId)
    (hf : ∀ c', Fresh lo (xs ++ [c.nextId]) c'.nextId →
      (f ⟨c.nextId, span⟩ c').Numbered lo more) :
    ((Parser.node span >>= f) c).Numbered lo more := by
  rw [node_bind]
  exact hf _ hx.concat

/-- A number is taken for what was read so far. -/
theorem fresh {f : NodeId → Parser β} (hx : Fresh lo xs c.nextId)
    (hf : ∀ c', Fresh lo (xs ++ [c.nextId]) c'.nextId → (f c.nextId c').Numbered lo more) :
    ((freshId >>= f) c).Numbered lo more := by
  rw [freshId_bind]
  exact hf _ hx.concat

theorem fail (message : String) (hx : Fresh lo xs c.nextId) :
    ((Parser.fail message : Parser α) c).Numbered lo nodes := hx.le

end Outcome.Numbered

namespace Parser

variable {α β : Type} {nodes : α → List NodeId}

theorem Numbers.option {p : Parser α} (hp : Numbers p nodes) (more : Option α → List NodeId)
    (hmore : ∀ a, more (some a) = nodes a) : Numbers (some <$> p) more := fun _ =>
  .read (.nil _) hp fun a _ hx => .pure ((hmore a).symm ▸ hx)

theorem Numbers.nested {p : Parser α} (hp : Numbers p nodes) : Numbers (nested p) nodes := by
  intro c
  have hread := hp c.deeper
  rw [Cursor.deeper] at hread
  rw [Parser.nested]
  dsimp only
  split
  next => exact Nat.le_refl _
  next =>
    split
    next hrun =>
      rw [hrun] at hread
      exact hread
    next hrun =>
      rw [hrun] at hread
      exact hread

/-- The expressions that are read with at most `n` steps have numbers of their own, also together
with an operand that was read before. -/
structure NumbersWithin (n : Nat) : Prop where
  assignment : Numbers (assignment n) Expr.numbers
  conditional : Numbers (conditional n) Expr.numbers
  binary (level : Nat) : Numbers (binary n level) Expr.numbers
  binaryRest (level lo : Nat) (left : Expr) (c : Cursor) : Fresh lo left.numbers c.nextId →
    (binaryRest n level left c).Numbered lo Expr.numbers
  unary : Numbers (unary n) Expr.numbers
  operand : Numbers (operand n) Expr.numbers
  operandRest (lo : Nat) (first : Expr) (c : Cursor) : Fresh lo first.numbers c.nextId →
    (operandRest n first c).Numbered lo Expr.numbers
  arguments : Numbers (arguments n) Expr.numbersOfAll
  primary : Numbers (primary n) Expr.numbers

namespace NumbersWithin

variable {n : Nat}

theorem zero : NumbersWithin 0 where
  assignment _ := Nat.le_refl _
  conditional _ := Nat.le_refl _
  binary _ _ := Nat.le_refl _
  binaryRest _ _ _ _ h := h.le
  unary _ := Nat.le_refl _
  operand _ := Nat.le_refl _
  operandRest _ _ _ h := h.le
  arguments _ := Nat.le_refl _
  primary _ := Nat.le_refl _

variable (ih : NumbersWithin n)
include ih

theorem assignment_succ : Numbers (Parser.assignment (n + 1)) Expr.numbers := by
  intro c
  rw [Parser.assignment]
  refine .read (.nil _) ih.conditional fun target c₁ h₁ => .skip h₁ fun next c₂ h₂ => ?_
  cases assignOp? next.kind with
  | none => exact .pure h₂
  | some op =>
      dsimp only
      split
      next => exact .fail _ h₂
      next =>
        refine .skip h₂ fun _ c₃ h₃ => .read h₃ ih.assignment.nested fun value c₄ h₄ => ?_
        exact .node h₄ fun c₅ h₅ => .pure h₅

theorem conditional_succ : Numbers (Parser.conditional (n + 1)) Expr.numbers := by
  intro c
  rw [Parser.conditional]
  have hbranches : Numbers (do
      let yes ← Parser.assignment n
      let _ ← expect .colon "in conditional expression"
      return (yes, ← Parser.conditional n)) fun branches =>
        branches.1.numbers ++ branches.2.numbers := by
    intro c
    refine .read (.nil _) ih.assignment fun yes c₁ h₁ => .skip h₁ fun _ c₂ h₂ => ?_
    exact .read h₂ ih.conditional fun no c₃ h₃ => .pure h₃
  refine .read (.nil _) (ih.binary 0) fun test c₁ h₁ => .skip h₁ fun question c₂ h₂ => ?_
  cases question with
  | false => exact .pure h₂
  | true =>
      refine .read h₂ hbranches.nested fun branches c₃ h₃ => .node h₃ fun c₄ h₄ => .pure ?_
      rw [List.nil_append, ← List.append_assoc] at h₄
      exact h₄

theorem binary_succ (level : Nat) : Numbers (Parser.binary (n + 1) level) Expr.numbers := by
  intro c
  rw [Parser.binary]
  have hleft := ih.unary c
  cases hrun : Parser.unary n c with
  | done left c₁ =>
      rw [hrun] at hleft
      rw [bind_of_done hrun]
      exact ih.binaryRest level _ left c₁ hleft
  | failed c₁ =>
      rw [hrun] at hleft
      rw [bind_of_failed hrun]
      exact hleft

theorem binaryRest_succ (level lo : Nat) (left : Expr) (c : Cursor)
    (hleft : Fresh lo left.numbers c.nextId) :
    (Parser.binaryRest (n + 1) level left c).Numbered lo Expr.numbers := by
  rw [Parser.binaryRest]
  refine .skip hleft fun next c₁ h₁ => ?_
  cases binaryOp? next.kind with
  | none => exact .pure h₁
  | some op =>
      dsimp only
      split
      next => exact .pure h₁
      next =>
        refine .skip h₁ fun _ c₂ h₂ => .read h₂ (ih.binary _) fun right c₃ h₃ => ?_
        exact .node h₃ fun c₄ h₄ => ih.binaryRest level lo _ c₄ h₄

theorem operand_succ : Numbers (Parser.operand (n + 1)) Expr.numbers := by
  intro c
  rw [Parser.operand]
  refine .skip (.nil _) fun start c₁ h₁ => .skip h₁ fun next c₂ h₂ => ?_
  cases stepOp? next.kind with
  | some op =>
      refine .skip h₂ fun _ c₃ h₃ => .read h₃ ih.unary fun target c₄ h₄ => ?_
      exact .node h₄ fun c₅ h₅ => .pure h₅
  | none =>
      cases unaryOp? next.kind with
      | some op =>
          refine .skip h₂ fun _ c₃ h₃ => .read h₃ ih.unary fun inner c₄ h₄ => ?_
          exact .node h₄ fun c₅ h₅ => .pure h₅
      | none =>
          dsimp only
          split
          next =>
            refine .skip h₂ fun _ c₃ h₃ => .skip h₃ fun type c₄ h₄ => .skip h₄ fun _ c₅ h₅ => ?_
            refine .read h₅ ih.unary fun inner c₆ h₆ => ?_
            exact .node h₆ fun c₇ h₇ => .pure h₇
          next => exact .read h₂ ih.primary fun first c₃ h₃ => ih.operandRest _ first c₃ h₃

theorem operandRest_succ (lo : Nat) (first : Expr) (c : Cursor)
    (hfirst : Fresh lo first.numbers c.nextId) :
    (Parser.operandRest (n + 1) first c).Numbered lo Expr.numbers := by
  rw [Parser.operandRest]
  refine .skip hfirst fun next c₁ h₁ => ?_
  cases next.kind with
  | leftBracket =>
      refine .skip h₁ fun _ c₂ h₂ => .read h₂ ih.assignment fun index c₃ h₃ => ?_
      refine .skip h₃ fun _ c₄ h₄ => .skip h₄ fun _ c₅ h₅ => .node h₅ fun c₆ h₆ => ?_
      exact ih.operandRest lo _ c₆ h₆
  | leftParen =>
      refine .skip h₁ fun _ c₂ h₂ => .skip h₂ fun next c₃ h₃ => ?_
      have hcall : ∀ args c', Fresh lo (first.numbers ++ Expr.numbersOfAll args) c'.nextId →
          Outcome.Numbered lo Expr.numbers ((do
            let _ ← expect .rightParen "after arguments"
            Parser.operandRest n (.call (← node (← spanFrom first.span)) first args) :
              Parser Expr) c') := by
        intro args c₄ h₄
        refine .skip h₄ fun _ c₅ h₅ => .skip h₅ fun _ c₆ h₆ => .node h₆ fun c₇ h₇ => ?_
        exact ih.operandRest lo _ c₇ h₇
      dsimp only
      split
      next =>
        rw [← List.append_nil first.numbers] at h₃
        exact hcall [] c₃ h₃
      next => exact .read h₃ ih.arguments hcall
  | plusPlus | minusMinus =>
      refine .skip h₁ fun _ c₂ h₂ => .skip h₂ fun _ c₃ h₃ => .node h₃ fun c₄ h₄ => ?_
      exact ih.operandRest lo _ c₄ h₄
  | _ => exact .pure h₁

theorem arguments_succ : Numbers (Parser.arguments (n + 1)) Expr.numbersOfAll := by
  intro c
  rw [Parser.arguments]
  refine .read (.nil _) ih.assignment fun first c₁ h₁ => .skip h₁ fun comma c₂ h₂ => ?_
  cases comma with
  | false =>
      rw [← List.append_nil (_ ++ _)] at h₂
      exact .pure h₂
  | true => exact .read h₂ ih.arguments fun more c₃ h₃ => .pure h₃

theorem primary_succ : Numbers (Parser.primary (n + 1)) Expr.numbers := by
  intro c
  rw [Parser.primary]
  refine .skip (.nil _) fun next c₁ h₁ => ?_
  cases next.current.kind with
  | number | trueWord | falseWord | string | identifier =>
      exact .skip h₁ fun _ c₂ h₂ => .node h₂ fun c₃ h₃ => .pure h₃
  | leftParen =>
      refine .skip h₁ fun _ c₂ h₂ => .read h₂ ih.assignment fun inner c₃ h₃ => ?_
      exact .skip h₃ fun _ c₄ h₄ => .skip h₄ fun _ c₅ h₅ => .node h₅ fun c₆ h₆ => .pure h₆
  | _ => exact .fail _ h₁

theorem succ : NumbersWithin (n + 1) where
  assignment := ih.assignment_succ
  conditional := ih.conditional_succ
  binary := ih.binary_succ
  binaryRest := ih.binaryRest_succ
  unary := by
    rw [Parser.unary]
    exact ih.operand.nested
  operand := ih.operand_succ
  operandRest := ih.operandRest_succ
  arguments := ih.arguments_succ
  primary := ih.primary_succ

end NumbersWithin

theorem numbersWithin (n : Nat) : NumbersWithin n := by
  induction n with
  | zero => exact .zero
  | succ n ih => exact ih.succ

theorem numbers_expression : Numbers expression Expr.numbers :=
  fun c => (numbersWithin _).assignment c

theorem numbers_declarators (n : Nat) : Numbers (declarators n) Declarator.numbersOfAll := by
  induction n with
  | zero => exact fun _ => Nat.le_refl _
  | succ n ih =>
      intro c
      rw [declarators]
      refine .skip (.nil _) fun start c₁ h₁ => .skip h₁ fun pointer c₂ h₂ => ?_
      refine .skip h₂ fun name c₃ h₃ => .skip h₃ fun equal c₄ h₄ => ?_
      have hrest : ∀ init c', Fresh c.nextId (Expr.numbersOfOption init) c'.nextId →
          Outcome.Numbered c.nextId Declarator.numbersOfAll ((do
            let span ← spanFrom start
            let declarator : Declarator := { id := ← freshId, name, pointer, init, span }
            if ← accept .comma then return declarator :: (← declarators n)
            else return [declarator] : Parser (List Declarator)) c') := by
        intro init c₅ h₅
        refine .skip h₅ fun span c₆ h₆ => .fresh h₆ fun c₇ h₇ => .skip h₇ fun comma c₈ h₈ => ?_
        cases comma with
        | false =>
            rw [← List.append_nil (_ ++ [c₆.nextId])] at h₈
            exact .pure h₈
        | true => exact .read h₈ ih fun more c₉ h₉ => .pure h₉
      cases equal with
      | false => exact hrest none c₄ h₄
      | true => exact .read h₄ (numbers_expression.option _ fun _ => rfl) hrest

theorem numbers_declaration : Numbers declaration Stmt.numbers := by
  intro c
  rw [declaration]
  refine .skip (.nil _) fun start c₁ h₁ => .skip h₁ fun type c₂ h₂ => .skip h₂ fun next c₃ h₃ => ?_
  refine .read h₃ (numbers_declarators _) fun names c₄ h₄ => .skip h₄ fun _ c₅ h₅ => ?_
  exact .skip h₅ fun span c₆ h₆ => .pure h₆

theorem numbers_exprStatement : Numbers exprStatement Stmt.numbers := by
  intro c
  rw [exprStatement]
  refine .skip (.nil _) fun start c₁ h₁ => .skip h₁ fun semicolon c₂ h₂ => ?_
  cases semicolon with
  | true => exact .pure h₂
  | false =>
      refine .read h₂ numbers_expression fun value c₃ h₃ => .skip h₃ fun _ c₄ h₄ => ?_
      exact .skip h₄ fun span c₅ h₅ => .pure h₅

theorem numbers_condition (keyword : String) : Numbers (condition keyword) Expr.numbers := by
  intro c
  rw [condition]
  refine .skip (.nil _) fun _ c₁ h₁ => .read h₁ numbers_expression fun value c₂ h₂ => ?_
  exact .skip h₂ fun _ c₃ h₃ => .pure h₃

theorem numbers_forInit : Numbers forInit Stmt.numbersOfOption := by
  intro c
  rw [forInit, here_bind]
  split
  next => exact .skip (.nil _) fun _ c₁ h₁ => .pure h₁
  next =>
    split
    next => exact numbers_declaration.option Stmt.numbersOfOption (fun _ => rfl) c
    next => exact numbers_exprStatement.option Stmt.numbersOfOption (fun _ => rfl) c

theorem numbers_optionalBefore (kind : TokenKind) :
    Numbers (optionalBefore kind) Expr.numbersOfOption := by
  intro c
  rw [optionalBefore, here_bind]
  split
  next => exact .pure (.nil _)
  next => exact numbers_expression.option Expr.numbersOfOption (fun _ => rfl) c

/-- The statements that are read with at most `n` steps have numbers of their own. -/
structure NumbersStmtWithin (n : Nat) : Prop where
  blockItem : Numbers (blockItem n) Stmt.numbers
  statement : Numbers (statement n) Stmt.numbers
  bareStatement : Numbers (bareStatement n) Stmt.numbers
  items (inBlock : Bool) (c : Cursor) :
    Fresh c.nextId (Stmt.numbersOfItems (items n inBlock c).1) (items n inBlock c).2.nextId

namespace NumbersStmtWithin

variable {n : Nat}

theorem zero : NumbersStmtWithin 0 where
  blockItem _ := Nat.le_refl _
  statement _ := Nat.le_refl _
  bareStatement _ := Nat.le_refl _
  items _ c := .nil c.nextId

variable (ih : NumbersStmtWithin n)
include ih

theorem blockItem_succ : Numbers (Parser.blockItem (n + 1)) Stmt.numbers := by
  intro c
  rw [Parser.blockItem, here_bind]
  split
  next => exact numbers_declaration c
  next => exact ih.statement c

/-- An item that cannot be read leaves out numbers, but none is given out again. -/
theorem items_succ (inBlock : Bool) (c : Cursor) :
    Fresh c.nextId (Stmt.numbersOfItems (Parser.items (n + 1) inBlock c).1)
      (Parser.items (n + 1) inBlock c).2.nextId := by
  have hitem := ih.blockItem c
  rw [Parser.items]
  split
  next => exact .nil c.nextId
  next =>
    cases hrun : Parser.blockItem n c with
    | done s c₁ =>
        rw [hrun] at hitem
        exact hitem.append (ih.items inBlock c₁)
    | failed c₁ =>
        rw [hrun] at hitem
        have hmore := ih.items inBlock c₁.resume
        rw [nextId_resume] at hmore
        have hskipped : Fresh c.nextId [] c₁.nextId := ⟨hitem, .nil, by simp⟩
        exact hskipped.append hmore

theorem bareStatement_succ : Numbers (Parser.bareStatement (n + 1)) Stmt.numbers := by
  intro c
  rw [Parser.bareStatement, hereSpan_bind, here_bind]
  have hbody : Numbers (fun c => .done (Parser.items n true c).1 (Parser.items n true c).2)
      Stmt.numbersOfItems := fun c => ih.items true c
  have h₁ := Fresh.nil c.nextId
  cases c.kind with
  | leftBrace =>
      refine .skip h₁ fun _ c₂ h₂ => .read h₂ hbody fun items c₃ h₃ => .skip h₃ fun _ c₄ h₄ => ?_
      exact .skip h₄ fun span c₅ h₅ => .pure h₅
  | ifWord =>
      refine .skip h₁ fun _ c₂ h₂ => .read h₂ (numbers_condition _) fun test c₃ h₃ => ?_
      refine .read h₃ ih.statement fun yes c₄ h₄ => .skip h₄ fun elseWord c₅ h₅ => ?_
      have hnone : Numbers (pure none) Stmt.numbersOfOption := fun c => .nil c.nextId
      cases elseWord with
      | false => exact .read h₅ hnone fun no c₆ h₆ => .skip h₆ fun span c₇ h₇ => .pure h₇
      | true =>
          refine .read h₅ (ih.statement.option Stmt.numbersOfOption fun _ => rfl) fun no c₆ h₆ => ?_
          exact .skip h₆ fun span c₇ h₇ => .pure h₇
  | whileWord | switchWord =>
      refine .skip h₁ fun _ c₂ h₂ => .read h₂ (numbers_condition _) fun test c₃ h₃ => ?_
      exact .read h₃ ih.statement fun body c₄ h₄ => .skip h₄ fun span c₅ h₅ => .pure h₅
  | doWord =>
      refine .skip h₁ fun _ c₂ h₂ => .read h₂ ih.statement fun body c₃ h₃ => ?_
      refine .skip h₃ fun _ c₄ h₄ => .read h₄ (numbers_condition _) fun test c₅ h₅ => ?_
      exact .skip h₅ fun _ c₆ h₆ => .skip h₆ fun span c₇ h₇ => .pure h₇
  | forWord =>
      refine .skip h₁ fun _ c₂ h₂ => .skip h₂ fun _ c₃ h₃ => ?_
      refine .read h₃ numbers_forInit fun init c₄ h₄ => ?_
      refine .read h₄ (numbers_optionalBefore _) fun test c₅ h₅ => .skip h₅ fun _ c₆ h₆ => ?_
      refine .read h₆ (numbers_optionalBefore _) fun step c₇ h₇ => .skip h₇ fun _ c₈ h₈ => ?_
      exact .read h₈ ih.statement fun body c₉ h₉ => .skip h₉ fun span c₁₀ h₁₀ => .pure h₁₀
  | caseWord =>
      refine .skip h₁ fun _ c₂ h₂ => .read h₂ numbers_expression fun value c₃ h₃ => ?_
      refine .skip h₃ fun _ c₄ h₄ => .read h₄ ih.statement fun body c₅ h₅ => ?_
      exact .skip h₅ fun span c₆ h₆ => .pure h₆
  | defaultWord =>
      refine .skip h₁ fun _ c₂ h₂ => .skip h₂ fun _ c₃ h₃ => ?_
      exact .read h₃ ih.statement fun body c₄ h₄ => .skip h₄ fun span c₅ h₅ => .pure h₅
  | breakWord | continueWord =>
      refine .skip h₁ fun _ c₂ h₂ => .skip h₂ fun _ c₃ h₃ => ?_
      exact .skip h₃ fun span c₄ h₄ => .pure h₄
  | printWord =>
      refine .skip h₁ fun _ c₂ h₂ => .read h₂ numbers_expression fun value c₃ h₃ => ?_
      exact .skip h₃ fun _ c₄ h₄ => .skip h₄ fun span c₅ h₅ => .pure h₅
  | forEachSynapse =>
      refine .skip h₁ fun _ c₂ h₂ => .read h₂ ih.statement fun body c₃ h₃ => ?_
      exact .skip h₃ fun span c₄ h₄ => .pure h₄
  | typeSpecifier | typeQualifier => exact .fail _ h₁
  | _ => exact numbers_exprStatement c

theorem succ : NumbersStmtWithin (n + 1) where
  blockItem := ih.blockItem_succ
  statement := by
    rw [Parser.statement]
    exact ih.bareStatement.nested
  bareStatement := ih.bareStatement_succ
  items := ih.items_succ

end NumbersStmtWithin

theorem numbersStmtWithin (n : Nat) : NumbersStmtWithin n := by
  induction n with
  | zero => exact .zero
  | succ n ih => exact ih.succ

end Parser

/-- The numbers of an expression that is read rise. -/
theorem ascending_parseExpr {tokens : List Token} {e : Expr} {report : Report}
    (h : parseExpr tokens = (some e, report)) : e.numbers.Pairwise (· < ·) := by
  have hnumbered := Parser.numbers_expression (.ofTokens tokens)
  rw [parseExpr] at h
  cases hrun : Parser.expression (.ofTokens tokens) with
  | failed c =>
      rw [hrun] at h
      cases h
  | done e₀ c =>
      rw [hrun] at h hnumbered
      dsimp only at h
      split at h
      next =>
        cases h
        exact hnumbered.ascending
      next => cases h

/-- The numbers of a list of tokens that is read as items rise. -/
theorem ascending_parseItems (tokens : List Token) :
    (Stmt.numbersOfItems (parseItems tokens).1).Pairwise (· < ·) :=
  let c := Cursor.ofTokens tokens
  ((Parser.numbersStmtWithin (Parser.itemSteps c.rest.length)).items false c).ascending

/-- No two nodes of an expression that is read have the same number. -/
theorem nodup_parseExpr {tokens : List Token} {e : Expr} {report : Report}
    (h : parseExpr tokens = (some e, report)) : e.nodes.Nodup :=
  e.numbers_perm.nodup_iff.mp ((ascending_parseExpr h).imp Nat.ne_of_lt)

/-- No two nodes of a list of tokens that is read as items have the same number. -/
theorem nodup_parseItems (tokens : List Token) :
    (Stmt.nodesOfItems (parseItems tokens).1).Nodup :=
  (Stmt.numbersOfItems_perm _).nodup_iff.mp ((ascending_parseItems tokens).imp Nat.ne_of_lt)

/-- In what is read from a list of tokens, whether or not some of its items had to be left out, no
two expressions or declared names have the same number, and the number of every expression is
greater than those of the expressions in it. -/
theorem nodes_differ_and_exceed_parts (tokens : List Token) :
    ((Stmt.nodesOfItems (parseItems tokens).1).Nodup ∧
      ∀ x e, (x, e) ∈ Stmt.sitesOfItems .initial (parseItems tokens).1 → e.ExceedsParts) ∧
    ∀ e ∈ (parseExpr tokens).1, e.nodes.Nodup ∧ e.ExceedsParts := by
  refine ⟨⟨nodup_parseItems tokens, fun x e he => ?_⟩, fun e he => ?_⟩
  · exact .of_ascending ((ascending_parseItems tokens).sublist (numbers_sublist_items he))
  · have hparse : parseExpr tokens = (some e, (parseExpr tokens).2) := Prod.ext he rfl
    exact ⟨nodup_parseExpr hparse, .of_ascending (ascending_parseExpr hparse)⟩

/-- The name in the first item has the number zero, and the item is left out. -/
example :
    let token kind lexeme : Token := ⟨kind, lexeme, ⟨0, 0, 1⟩⟩
    let tokens := [token .identifier "a", token .rightParen ")", token .semicolon ";",
      token .identifier "b", token .plus "+", token .identifier "c", token .semicolon ";"]
    Stmt.numbersOfItems (parseItems tokens).1 = [1, 2, 3] := by cbv

end KernelWeaver.Snippet
