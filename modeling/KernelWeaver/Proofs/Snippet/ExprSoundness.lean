import KernelWeaver.Proofs.Snippet.Reading

/-!
# What is read as an expression is one

Reading an expression ends behind tokens that spell the expression which is returned, at a nesting
within the limit and with every node at the place of its tokens, or it ends with exactly one remark.
-/

namespace KernelWeaver.Snippet

section Places

variable {a b : Span} {xs zs ts : List Token}

theorem coversOrdered_single (t : Token) : CoversOrdered t.span [t] :=
  fun _ => ⟨t, t, rfl, rfl, rfl, rfl⟩

/-- In tokens that are in order, the start of a first part and the end of a last part are the start
and the end of the whole. -/
theorem CoversOrdered.merge (ha : CoversOrdered a xs) (hb : CoversOrdered b zs) (hx : xs <+: ts)
    (hz : zs <:+ ts) : CoversOrdered (a.merge b) ts := by
  intro h
  obtain ⟨ys, rfl⟩ := hx
  obtain ⟨ws, hws⟩ := hz
  obtain ⟨first, lastA, hfirst, hlastA, hastart, hastop⟩ := ha (ofParts_ordered.left h)
  obtain ⟨firstB, last, hfirstB, hlast, hbstart, hbstop⟩ :=
    hb (ofParts_ordered.right (hws.symm ▸ h))
  have hhead : (xs ++ ys).head? = some first := by
    rw [List.head?_append, hfirst]
    rfl
  have hend : (xs ++ ys).getLast? = some last := by
    rw [← hws, List.getLast?_append, hlast]
    rfl
  refine ⟨first, last, hhead, hend, ?_, ?_⟩
  · -- nothing starts before the first token
    have hmem : firstB ∈ xs ++ ys := by
      rw [← hws]
      exact List.mem_append_right _ (List.mem_of_mem_head? hfirstB)
    have hle : first.span.start ≤ firstB.span.start := by
      obtain ⟨rest, hrest⟩ := List.head?_eq_some_iff.mp hhead
      rw [hrest] at hmem h
      rcases List.mem_cons.mp hmem with rfl | hin
      · exact le_rfl
      · exact (List.pairwise_cons.mp h.starts).1 _ hin
    change min a.start b.start = _
    omega
  · -- nothing stops behind the last token
    have hmem : lastA ∈ xs ++ ys := List.mem_append_left _ (List.mem_of_getLast? hlastA)
    have hle : lastA.span.stop ≤ last.span.stop := by
      obtain ⟨rest, hrest⟩ := List.getLast?_eq_some_iff.mp hend
      rw [hrest] at hmem h
      rcases List.mem_append.mp hmem with hin | hin
      · exact (List.pairwise_append.mp h.stops).2.2 _ hin _ (by simp)
      · rw [List.mem_singleton.mp hin]
    change max a.stop b.stop = _
    omega

/-- The last token that was read ends the whole. -/
theorem CoversOrdered.merge_previous {c c' : Cursor} {us : List Token} (ha : CoversOrdered a xs)
    (hx : xs <+: ts) (hr : c.Reads us c') (hne : us ≠ []) (hus : us <:+ ts) :
    CoversOrdered (a.merge c'.previous.span) ts := by
  obtain ⟨front, last, rfl⟩ : ∃ front last, us = front ++ [last] :=
    ⟨us.dropLast, us.getLast hne, (List.dropLast_append_getLast hne).symm⟩
  rw [hr.previous_concat]
  exact ha.merge (coversOrdered_single last) hx ((List.suffix_append _ _).trans hus)

theorem Cursor.Reads.covers_current {c c' : Cursor} (hr : c.Reads ts c') (hne : ts ≠ []) :
    CoversOrdered (c.current.span.merge c'.previous.span) ts := by
  obtain ⟨t, us, rfl⟩ := List.exists_cons_of_ne_nil hne
  rw [current_of_rest hr.rest]
  exact (coversOrdered_single t).merge_previous ⟨us, rfl⟩ hr hne List.suffix_rfl

/-- Every expression is where its tokens are. -/
theorem Derives.place {P : Span → List Token → Prop} {phrase : Phrase} (h : Derives P phrase ts) :
    ∀ {level e}, phrase = .expr level e → P e.span ts := by
  induction h with
  | ofPrimary _ ih | ofSuffixed _ ih | ofUnary _ ih | ofBinary _ ih | ofConditional _ ih =>
      rintro _ _ ⟨⟩
      exact ih rfl
  | lastArgument | moreArguments =>
      rintro _ _ ⟨⟩
  | _ =>
      rintro _ _ ⟨⟩
      assumption

end Places

variable {P : Span → List Token → Prop} {e : Expr} {ts : List Token}

theorem SpellsSpecifiers.ne_nil {type : TypeSpec} (h : SpellsSpecifiers type ts) : ts ≠ [] := by
  rintro rfl
  exact h.words_ne_nil h.words

theorem Derives.ne_nil {phrase : Phrase} (h : Derives P phrase ts) : ts ≠ [] := by
  induction h with
  | ofPrimary _ ih | lastArgument _ ih | ofSuffixed _ ih | ofUnary _ ih | ofBinary _ ih
  | ofConditional _ ih => exact ih
  | _ => simp

theorem Derives.isOperand_of_primary (h : Derives P (.expr .primary e) ts) :
    e.isOperand = true := by
  cases h <;> rfl

theorem Derives.isOperand_of_suffixed (h : Derives P (.expr .suffixed e) ts) :
    e.isOperand = true := by
  cases h with
  | ofPrimary h => exact h.isOperand_of_primary
  | _ => rfl

theorem Derives.isOperand (h : Derives P (.expr .unary e) ts) : e.isOperand = true := by
  cases h with
  | ofSuffixed h => exact h.isOperand_of_suffixed
  | _ => rfl

/-- What can be assigned to is an operand. -/
theorem Derives.unary_of_isAssignable (h : Derives P (.expr .conditional e) ts)
    (ha : e.isAssignable = true) : Derives P (.expr .unary e) ts := by
  cases h with
  | ofBinary h =>
      cases h with
      | ofUnary h => exact h
      | binary => cases ha
  | conditional => cases ha

namespace Parser

variable {c : Cursor}

/-- The tokens at the front of a cursor that can belong to specifiers. -/
def specifierTokens (c : Cursor) : List Token := c.rest.takeWhile (·.kind.startsType)

theorem reads_specifierTokens (c : Cursor) :
    c.Reads (specifierTokens c) (advanceBy (specifierTokens c).length c) := by
  have hprefix : specifierTokens c <+: c.rest := List.takeWhile_prefix _
  have hr := Cursor.reads_advanceBy _ c hprefix.length_le
  rwa [← List.prefix_iff_eq_take.mp hprefix] at hr

/-- The words among tokens that spell specifiers. -/
def specifierLexemes (ts : List Token) : List String :=
  (ts.filter (·.kind = .typeSpecifier)).map Token.lexeme

theorem specifiers_eq (c : Cursor) :
    specifiers c =
      let c' := advanceBy (specifierTokens c).length c
      if specifierLexemes (specifierTokens c) = [] then
        .failed (c'.reportHere "Expected type specifier")
      else
        .done ⟨specifierLexemes (specifierTokens c),
          (specifierTokens c).any (·.kind = .typeQualifier), none,
          c.current.span.merge c'.previous.span⟩ c' := by
  rw [specifiers, hereSpan_bind, here_bind, specifierWords_eq]
  change (if (specifierLexemes (specifierTokens c)).isEmpty then
      fail "Expected type specifier"
    else do
      let span ← spanFrom c.current.span
      return ⟨specifierLexemes (specifierTokens c),
        (specifierTokens c).any (·.kind = .typeQualifier), none, span⟩ : Parser TypeSpec)
    (advanceBy (specifierTokens c).length c) = _
  by_cases hempty : specifierLexemes (specifierTokens c) = []
  · rw [if_pos (List.isEmpty_iff.mpr hempty), if_pos hempty]
    rfl
  · rw [if_neg (mt List.isEmpty_iff.mp hempty), if_neg hempty]
    rfl

theorem sound_specifiers (c : Cursor) :
    (specifiers c).Sound c fun type ss _ =>
      type.pointer = none ∧ SpellsSpecifiers type ss ∧ CoversOrdered type.span ss := by
  have hr := reads_specifierTokens c
  rw [specifiers_eq]
  split
  next => exact ⟨hr.ending, _, by rw [Cursor.reportHere, hr.report]⟩
  next hwords =>
    refine ⟨specifierTokens c, hr, rfl, ⟨?_, rfl, hwords, rfl⟩, ?_⟩
    · exact List.all_eq_true.mp List.all_takeWhile
    · refine hr.covers_current fun hnil => hwords ?_
      rw [hnil]
      rfl

theorem sound_pointerMark (hc : c.Closed) :
    (pointerMark c).Sound c fun pointer ps _ => SpellsPointer pointer ps := by
  refine Outcome.Sound.accept hc (by decide) (fun hstar hr => ?_) fun _ => ?_
  · refine Outcome.Sound.accept (hr.closed hc) (by decide) (fun hconst _ => ?_) fun _ => ?_
    · exact .pure (.const hstar hconst)
    · exact .pure (.plain hstar)
  · exact .pure .none

theorem sound_typeName (hc : c.Closed) :
    (typeName c).Sound c fun type ts _ => ∃ ss ps, ts = ss ++ ps ∧ SpellsSpecifiers type ss ∧
      SpellsPointer type.pointer ps ∧ CoversOrdered type.span (ss ++ ps) := by
  refine Outcome.Sound.bind (sound_specifiers c) ?_
  rintro type ss c₁ hr₁ ⟨-, hwords, hspan⟩
  refine Outcome.Sound.bind (sound_pointerMark (hr₁.closed hc)) ?_
  intro pointer ps c₂ hr₂ hpointer
  rw [spanFrom_bind]
  refine .pure ⟨ss, ps, by simp, ⟨hwords.kinds, hwords.words, hwords.words_ne_nil, hwords.isConst⟩,
    hpointer, ?_⟩
  exact hspan.merge_previous (List.prefix_append _ _) (hr₁.trans hr₂) (by simp [hwords.ne_nil])
    List.suffix_rfl

/-- An expression that was read at a level of the grammar. -/
structure ReadAt (level : Level) (depth : Nat) (e : Expr) (ts : List Token) : Prop where
  derives : Derives CoversOrdered (.expr level e) ts
  nesting : depth + e.nesting ≤ maxDepth

/-- An operand that was read; its own level has been entered before. -/
structure OperandAt (level : Level) (depth : Nat) (e : Expr) (ts : List Token) : Prop where
  derives : Derives CoversOrdered (.expr level e) ts
  nesting : depth + e.innerNesting ≤ maxDepth

/-- The next token is no binary operator of the given level or a tighter one. -/
def StopsBelow (least : Nat) (c : Cursor) : Prop :=
  ∀ op, binaryOp? c.kind = some op → op.level < least

/-- What is read with `n` steps at most, if the tokens are few enough, is what it should be. -/
structure SoundWithin (n : Nat) : Prop where
  assignment (c : Cursor) : c.Closed → 8 * c.rest.length + 6 ≤ n →
    (assignment n c).Sound c fun e ts _ => ReadAt .assignment c.depth e ts
  conditional (c : Cursor) : c.Closed → 8 * c.rest.length + 5 ≤ n →
    (conditional n c).Sound c fun e ts _ => ReadAt .conditional c.depth e ts
  binary (c : Cursor) (least : Nat) : c.Closed → 8 * c.rest.length + 4 ≤ n →
    (binary n least c).Sound c fun e ts c' => ReadAt (.binary least) c.depth e ts ∧ StopsBelow least c'
  binaryRest (c : Cursor) (least : Nat) (left : Expr) (ts : List Token) : c.Closed →
    8 * c.rest.length + 1 ≤ n → ReadAt (.binary least) c.depth left ts →
    (∀ op, binaryOp? c.kind = some op → ReadAt (.binary op.level) c.depth left ts) →
    (binaryRest n least left c).Sound c fun e us c' =>
      ReadAt (.binary least) c.depth e (ts ++ us) ∧ StopsBelow least c'
  unary (c : Cursor) : c.Closed → 8 * c.rest.length + 3 ≤ n →
    (unary n c).Sound c fun e ts _ => ReadAt .unary c.depth e ts
  operand (c : Cursor) : c.Closed → 8 * c.rest.length + 2 ≤ n → c.depth ≤ maxDepth →
    (operand n c).Sound c fun e ts _ => OperandAt .unary c.depth e ts
  operandRest (c : Cursor) (first : Expr) (ts : List Token) : c.Closed →
    8 * c.rest.length + 1 ≤ n → OperandAt .suffixed c.depth first ts →
    (operandRest n first c).Sound c fun e us _ => OperandAt .suffixed c.depth e (ts ++ us)
  arguments (c : Cursor) : c.Closed → 8 * c.rest.length + 7 ≤ n →
    (arguments n c).Sound c fun es ts _ =>
      Derives CoversOrdered (.arguments es) ts ∧ c.depth + Expr.nestingOfAll es ≤ maxDepth
  primary (c : Cursor) : c.Closed → 8 * c.rest.length + 1 ≤ n → c.depth ≤ maxDepth →
    (primary n c).Sound c fun e ts _ => OperandAt .primary c.depth e ts

namespace SoundWithin

variable {n : Nat} (ih : SoundWithin n)
include ih

theorem assignment_succ (hc : c.Closed) (hn : 8 * c.rest.length + 6 ≤ n + 1) :
    (Parser.assignment (n + 1) c).Sound c fun e ts _ => ReadAt .assignment c.depth e ts := by
  rw [Parser.assignment]
  refine .bind (ih.conditional c hc (by omega)) ?_
  intro target ts c₁ hr₁ htarget
  have hc₁ := hr₁.closed hc
  have hlen₁ := hr₁.length_le
  rw [here_bind]
  cases hop : assignOp? c₁.kind with
  | none =>
      exact .pure ⟨by simpa using .ofConditional htarget.derives, htarget.nesting⟩
  | some op =>
      dsimp only
      split
      next => exact .fail _
      next hassignable =>
        have ha : target.isAssignable = true := by simpa using hassignable
        refine .take hc₁ (by rintro heq; rw [heq] at hop; cases hop) fun hr₂ => ?_
        have hlen₂ := hr₂.length_cons
        refine .bind (.nested (fun _ => ih.assignment c₁.advance.deeper (hr₂.closed hc₁)
          (by rw [Cursor.rest_deeper]; omega)) fun _ _ _ h => h) ?_
        intro value us c₃ hr₃ hvalue
        refine .node (.pure ⟨?_, ?_⟩)
        · rw [List.append_nil]
          exact .assign (htarget.derives.unary_of_isAssignable ha) ha hop hvalue.derives
            ((htarget.derives.place rfl).merge (hvalue.derives.place rfl)
              (List.prefix_append _ _) ⟨ts ++ [c₁.current], by simp⟩)
        · have h₁ := htarget.nesting
          have h₂ := hvalue.nesting
          rw [Cursor.depth_deeper, hr₂.depth, hr₁.depth] at h₂
          simp only [Expr.nesting, Expr.innerNesting, Expr.isOperand, Bool.toNat_false] at *
          omega

theorem conditional_succ (hc : c.Closed) (hn : 8 * c.rest.length + 5 ≤ n + 1) :
    (Parser.conditional (n + 1) c).Sound c fun e ts _ => ReadAt .conditional c.depth e ts := by
  rw [Parser.conditional]
  refine .bind (ih.binary c 0 hc (by omega)) ?_
  rintro condition ts c₁ hr₁ ⟨hcondition, -⟩
  have hc₁ := hr₁.closed hc
  have hlen₁ := hr₁.length_le
  refine .accept hc₁ (by decide) (fun hquestion hr₂ => ?_) fun _ => ?_
  · have hlen₂ := hr₂.length_cons
    have hc₂ := hr₂.closed hc₁
    rw [if_pos rfl]
    have hbranches : (nested (do
        let yes ← Parser.assignment n
        let _ ← Parser.expect .colon "in conditional expression"
        return (yes, ← Parser.conditional n)) c₁.advance).Sound c₁.advance
          fun branches us _ => ∃ vs colon ws, us = vs ++ colon :: ws ∧ colon.kind = .colon ∧
            ReadAt .assignment c₁.advance.deeper.depth branches.1 vs ∧
            ReadAt .conditional c₁.advance.deeper.depth branches.2 ws := by
      refine .nested (fun _ => ?_) fun _ _ _ h => h
      refine .bind (ih.assignment c₁.advance.deeper hc₂ (by rw [Cursor.rest_deeper]; omega)) ?_
      intro yes vs c₃ hr₃ hyes
      have hlen₃ := hr₃.length_le
      rw [Cursor.rest_deeper] at hlen₃
      refine .expect (hr₃.closed hc₂) (by decide) fun hcolon hr₄ => ?_
      have hlen₄ := hr₄.length_cons
      refine .bind (ih.conditional c₃.advance (hr₄.closed (hr₃.closed hc₂)) (by omega)) ?_
      intro no ws c₅ hr₅ hno
      refine .pure ⟨vs, c₃.current, ws, by simp, hcolon, hyes, hno.derives, ?_⟩
      rw [← hr₃.depth, ← hr₄.depth]
      exact hno.nesting
    refine .bind hbranches ?_
    rintro ⟨yes, no⟩ us c₃ hr₃ ⟨vs, colon, ws, rfl, hcolon, hyes, hno⟩
    refine .node (.pure ⟨?_, ?_⟩)
    · have hplace : CoversOrdered (condition.span.merge no.span)
          (ts ++ c₁.current :: vs ++ colon :: ws) :=
        (hcondition.derives.place rfl).merge (hno.derives.place rfl)
          ⟨c₁.current :: vs ++ colon :: ws, by simp⟩
          ⟨ts ++ c₁.current :: vs ++ [colon], by simp⟩
      have hderives : Derives CoversOrdered
          (.expr .conditional (.conditional ⟨c₃.nextId, condition.span.merge no.span⟩
            condition yes no)) _ :=
        .conditional hcondition.derives hquestion hyes.derives hcolon hno.derives hplace
      simpa using hderives
    · have h₁ := hcondition.nesting
      have h₂ := hyes.nesting
      have h₃ := hno.nesting
      rw [Cursor.depth_deeper, hr₂.depth, hr₁.depth] at h₂ h₃
      simp only [Expr.nesting, Expr.innerNesting, Expr.isOperand, Bool.toNat_false] at *
      omega
  · rw [if_neg (by decide)]
    exact .pure ⟨by simpa using .ofBinary hcondition.derives, hcondition.nesting⟩

theorem binary_succ (least : Nat) (hc : c.Closed) (hn : 8 * c.rest.length + 4 ≤ n + 1) :
    (Parser.binary (n + 1) least c).Sound c fun e ts c' =>
      ReadAt (.binary least) c.depth e ts ∧ StopsBelow least c' := by
  rw [Parser.binary]
  refine .bind (ih.unary c hc (by omega)) ?_
  intro left ts c₁ hr₁ hleft
  have hlen₁ := hr₁.length_le
  have hat : ∀ k, ReadAt (.binary k) c₁.depth left ts := fun k =>
    ⟨.ofUnary hleft.derives, hr₁.depth ▸ hleft.nesting⟩
  refine .imp (ih.binaryRest c₁ least left ts (hr₁.closed hc) (by omega) (hat least)
    fun op _ => hat op.level) ?_
  rintro e us c' - ⟨he, hstop⟩
  exact ⟨⟨he.derives, hr₁.depth ▸ he.nesting⟩, hstop⟩

theorem binaryRest_succ {least : Nat} {left : Expr} {ts : List Token} (hc : c.Closed)
    (hn : 8 * c.rest.length + 1 ≤ n + 1) (hleft : ReadAt (.binary least) c.depth left ts)
    (hnext : ∀ op, binaryOp? c.kind = some op → ReadAt (.binary op.level) c.depth left ts) :
    (Parser.binaryRest (n + 1) least left c).Sound c fun e us c' =>
      ReadAt (.binary least) c.depth e (ts ++ us) ∧ StopsBelow least c' := by
  rw [Parser.binaryRest, here_bind]
  cases hop : binaryOp? c.kind with
  | none =>
      refine .pure ⟨by simpa using hleft, ?_⟩
      rw [StopsBelow, hop]
      exact fun _ h => nomatch h
  | some op =>
      dsimp only
      split
      next hlow =>
        refine .pure ⟨by simpa using hleft, ?_⟩
        rw [StopsBelow, hop]
        rintro _ ⟨⟩
        exact hlow
      next hhigh =>
        refine .take hc (by rintro heq; rw [heq] at hop; cases hop) fun hr₁ => ?_
        have hlen₁ := hr₁.length_cons
        have hc₁ := hr₁.closed hc
        refine .bind (ih.binary c.advance (op.level + 1) hc₁ (by omega)) ?_
        rintro right us c₂ hr₂ ⟨hright, hstop⟩
        have hlen₂ := hr₂.length_le
        have hc₂ := hr₂.closed hc₁
        refine .node ?_
        -- the operators left of the next one bind at least as tightly as it does
        have hat : ∀ k ≤ op.level, ReadAt (.binary k) c₂.depth
            (.binary ⟨c₂.nextId, left.span.merge right.span⟩ op left right)
            (ts ++ c.current :: us) := by
          intro k hk
          refine ⟨.binary hk (hnext op hop).derives hop hright.derives
            ((hleft.derives.place rfl).merge (hright.derives.place rfl) (List.prefix_append _ _)
              ⟨ts ++ [c.current], by simp⟩), ?_⟩
          have h₁ := hleft.nesting
          have h₂ := hright.nesting
          rw [hr₂.depth, hr₁.depth]
          rw [hr₁.depth] at h₂
          simp only [Expr.nesting, Expr.innerNesting, Expr.isOperand, Bool.toNat_false] at *
          omega
        refine .imp (ih.binaryRest _ least _ (ts ++ c.current :: us) hc₂ (by simp only; omega)
          (hat least (Nat.le_of_not_lt hhigh)) fun o ho => hat o.level ?_) ?_
        · exact Nat.le_of_lt_succ (hstop o ho)
        · rintro e vs c' - ⟨he, hstop'⟩
          refine ⟨⟨by simpa using he.derives, ?_⟩, hstop'⟩
          rw [← hr₁.depth, ← hr₂.depth]
          exact he.nesting

theorem unary_succ (hc : c.Closed) (hn : 8 * c.rest.length + 3 ≤ n + 1) :
    (Parser.unary (n + 1) c).Sound c fun e ts _ => ReadAt .unary c.depth e ts := by
  rw [Parser.unary]
  refine .imp (.nested (fun hdepth => ih.operand c.deeper hc (by rw [Cursor.rest_deeper]; omega)
    hdepth) fun _ _ _ h => h) ?_
  intro e ts c' _ he
  refine ⟨he.derives, ?_⟩
  have h₁ := he.nesting
  rw [Cursor.depth_deeper] at h₁
  rw [Expr.nesting_of_isOperand he.derives.isOperand]
  omega

/-- An operand behind a token that begins an operator before it. -/
theorem unary_behind {t : Token} {us : List Token} {c' : Cursor} (hc : c.Closed)
    (hr : c.Reads (t :: us) c') (hn : 8 * c.rest.length + 2 ≤ n + 1) :
    (Parser.unary n c').Sound c' fun e ts _ => ReadAt .unary c.depth e ts := by
  have hlen := hr.length_cons
  rw [← hr.depth]
  exact ih.unary c' (hr.closed hc) (by omega)

theorem operand_succ (hc : c.Closed) (hn : 8 * c.rest.length + 2 ≤ n + 1)
    (hdepth : c.depth ≤ maxDepth) :
    (Parser.operand (n + 1) c).Sound c fun e ts _ => OperandAt .unary c.depth e ts := by
  rw [Parser.operand, hereSpan_bind, here_bind]
  cases hstep : stepOp? c.kind with
  | some op =>
      refine .take hc (by rintro heq; rw [heq] at hstep; cases hstep) fun hr₁ => ?_
      refine .bind (ih.unary_behind hc hr₁ hn) fun target us c₂ hr₂ htarget => ?_
      refine .node (.pure ⟨?_, htarget.nesting⟩)
      rw [List.append_nil]
      exact .stepBefore hstep htarget.derives ((coversOrdered_single c.current).merge
        (htarget.derives.place rfl) ⟨us, rfl⟩ (List.suffix_cons _ _))
  | none =>
      dsimp only
      cases hunary : unaryOp? c.kind with
      | some op =>
          refine .take hc (by rintro heq; rw [heq] at hunary; cases hunary) fun hr₁ => ?_
          refine .bind (ih.unary_behind hc hr₁ hn) fun inner us c₂ hr₂ hinner => ?_
          refine .node (.pure ⟨?_, hinner.nesting⟩)
          rw [List.append_nil]
          exact .unary hunary hinner.derives ((coversOrdered_single c.current).merge
            (hinner.derives.place rfl) ⟨us, rfl⟩ (List.suffix_cons _ _))
      | none =>
          dsimp only
          split
          next hcast =>
            have hparen := hcast.1
            refine .take hc (by rw [hparen]; decide) fun hr₁ => ?_
            have hc₁ := hr₁.closed hc
            refine .bind (sound_typeName hc₁) ?_
            rintro type ts c₂ hr₂ ⟨ss, ps, rfl, hwords, hpointer, hspan⟩
            refine .expect (hr₂.closed hc₁) (by decide) fun hright hr₃ => ?_
            refine .bind (ih.unary_behind hc (hr₁.trans (hr₂.trans hr₃)) hn)
              fun inner us c₄ hr₄ hinner => ?_
            refine .node (.pure ⟨?_, hinner.nesting⟩)
            have hplace : CoversOrdered (c.current.span.merge inner.span)
                (c.current :: (ss ++ ps) ++ c₂.current :: us) :=
              (coversOrdered_single c.current).merge (hinner.derives.place rfl)
                ⟨ss ++ ps ++ c₂.current :: us, by simp⟩
                ⟨c.current :: (ss ++ ps) ++ [c₂.current], by simp⟩
            have hderives : Derives CoversOrdered (.expr .unary
                (.cast ⟨c₄.nextId, c.current.span.merge inner.span⟩ type inner)) _ :=
              .cast hparen hwords hpointer hspan hright hinner.derives hplace
            simpa using hderives
          next =>
            refine .bind (ih.primary c hc (by omega) hdepth) ?_
            intro first ts c₁ hr₁ hfirst
            have hlen₁ := hr₁.length_lt hfirst.derives.ne_nil
            refine .imp (ih.operandRest c₁ first ts (hr₁.closed hc) (by omega)
              ⟨.ofPrimary hfirst.derives, hr₁.depth ▸ hfirst.nesting⟩) ?_
            rintro e us c' - he
            exact ⟨.ofSuffixed he.derives, hr₁.depth ▸ he.nesting⟩

theorem arguments_succ (hc : c.Closed) (hn : 8 * c.rest.length + 7 ≤ n + 1) :
    (Parser.arguments (n + 1) c).Sound c fun es ts _ =>
      Derives CoversOrdered (.arguments es) ts ∧ c.depth + Expr.nestingOfAll es ≤ maxDepth := by
  rw [Parser.arguments]
  refine .bind (ih.assignment c hc (by omega)) ?_
  intro first ts c₁ hr₁ hfirst
  have hlen₁ := hr₁.length_le
  have hc₁ := hr₁.closed hc
  have hdepth := hfirst.nesting
  rw [Expr.nesting] at hdepth
  refine .accept hc₁ (by decide) (fun hcomma hr₂ => ?_) fun _ => ?_
  · have hlen₂ := hr₂.length_cons
    rw [if_pos rfl]
    refine .bind (ih.arguments c₁.advance (hr₂.closed hc₁) (by omega)) ?_
    rintro es us c₃ hr₃ ⟨hes, hmore⟩
    rw [hr₂.depth, hr₁.depth] at hmore
    refine .pure ⟨by simpa using .moreArguments hfirst.derives hcomma hes, ?_⟩
    rw [Expr.nestingOfAll]
    omega
  · rw [if_neg (by decide)]
    refine .pure ⟨by simpa using .lastArgument hfirst.derives, ?_⟩
    rw [Expr.nestingOfAll, Expr.nestingOfAll]
    omega

theorem primary_succ (hc : c.Closed) (hn : 8 * c.rest.length + 1 ≤ n + 1)
    (hdepth : c.depth ≤ maxDepth) :
    (Parser.primary (n + 1) c).Sound c fun e ts _ => OperandAt .primary c.depth e ts := by
  rw [Parser.primary, here_bind]
  cases hk : c.current.kind with
  | number =>
      refine .take hc (by rw [Cursor.kind, hk]; decide) fun _ => .node (.pure ⟨?_, hdepth⟩)
      exact .number hk (coversOrdered_single _)
  | trueWord =>
      refine .take hc (by rw [Cursor.kind, hk]; decide) fun _ => .node (.pure ⟨?_, hdepth⟩)
      exact .trueWord hk (coversOrdered_single _)
  | falseWord =>
      refine .take hc (by rw [Cursor.kind, hk]; decide) fun _ => .node (.pure ⟨?_, hdepth⟩)
      exact .falseWord hk (coversOrdered_single _)
  | string =>
      refine .take hc (by rw [Cursor.kind, hk]; decide) fun _ => .node (.pure ⟨?_, hdepth⟩)
      exact .string hk (coversOrdered_single _)
  | identifier =>
      refine .take hc (by rw [Cursor.kind, hk]; decide) fun _ => .node (.pure ⟨?_, hdepth⟩)
      exact .name hk (coversOrdered_single _)
  | leftParen =>
      refine .take hc (by rw [Cursor.kind, hk]; decide) fun hr₁ => ?_
      have hlen₁ := hr₁.length_cons
      have hc₁ := hr₁.closed hc
      refine .bind (ih.assignment c.advance hc₁ (by omega)) ?_
      intro inner ts c₂ hr₂ hinner
      refine .expect (hr₂.closed hc₁) (by decide) fun hright hr₃ => ?_
      rw [spanFrom_bind]
      refine .node (.pure ⟨?_, hr₁.depth ▸ hinner.nesting⟩)
      exact .group hk hinner.derives hright ((coversOrdered_single c.current).merge_previous
        ⟨ts ++ [c₂.current], rfl⟩ hr₃ (by simp) (List.suffix_append _ _))
  | _ => exact .fail _

/-- Once the tokens of one suffix have been read, the operand with this suffix is the first part of
what may have more of them. -/
theorem suffixed_behind {first : Expr} {ts us : List Token} {c' : Cursor} (make : Node → Expr)
    (hc : c.Closed) (hn : 8 * c.rest.length + 1 ≤ n + 1) (hr : c.Reads us c') (hus : us ≠ [])
    (hfirst : OperandAt .suffixed c.depth first ts)
    (hmake : ∀ node : Node, CoversOrdered node.span (ts ++ us) →
      OperandAt .suffixed c.depth (make node) (ts ++ us)) :
    ((do Parser.operandRest n (make (← node (← spanFrom first.span)))) c').Sound c'
      fun e vs _ => OperandAt .suffixed c.depth e (ts ++ (us ++ vs)) := by
  rw [spanFrom_bind]
  refine .node ?_
  have hlen := hr.length_lt hus
  have hnode := hmake ⟨c'.nextId, first.span.merge c'.previous.span⟩
    ((hfirst.derives.place rfl).merge_previous (List.prefix_append _ _) hr hus
      (List.suffix_append _ _))
  rw [← hr.depth] at hnode
  refine .imp (ih.operandRest _ _ _ (hr.closed hc) (by simp only; omega) hnode) ?_
  rintro e vs c'' - he
  rw [← List.append_assoc, ← hr.depth]
  exact he

theorem operandRest_succ {first : Expr} {ts : List Token} (hc : c.Closed)
    (hn : 8 * c.rest.length + 1 ≤ n + 1) (hfirst : OperandAt .suffixed c.depth first ts) :
    (Parser.operandRest (n + 1) first c).Sound c fun e us _ =>
      OperandAt .suffixed c.depth e (ts ++ us) := by
  have hdepth := hfirst.nesting
  have hstep : ∀ op, stepOp? c.kind = some op → c.Reads [c.current] c.advance →
      ((do Parser.operandRest n (.stepAfter (← node (← spanFrom first.span)) op first))
        c.advance).Sound c.advance
          fun e us _ => OperandAt .suffixed c.depth e (ts ++ c.current :: us) :=
    fun op hop hr => ih.suffixed_behind (.stepAfter · op first) hc hn hr (by simp) hfirst fun node hplace =>
      ⟨.stepAfter hfirst.derives hop hplace, hdepth⟩
  rw [Parser.operandRest, here_bind]
  cases hk : c.kind with
  | leftBracket =>
      refine .take hc (by rw [hk]; decide) fun hr₁ => ?_
      have hlen₁ := hr₁.length_cons
      have hc₁ := hr₁.closed hc
      refine .bind (ih.assignment c.advance hc₁ (by omega)) ?_
      intro index us c₂ hr₂ hindex
      have hc₂ := hr₂.closed hc₁
      have hinner := hindex.nesting
      rw [hr₁.depth] at hinner
      refine .expect hc₂ (by decide) fun hright hr₃ => ?_
      refine .imp (ih.suffixed_behind (.subscript · first index) hc hn
        (hr₁.trans (hr₂.trans hr₃)) (by simp) hfirst fun node hplace => ?_) ?_
      · refine ⟨?_, ?_⟩
        · have hderives := Derives.subscript hfirst.derives hk hindex.derives hright
            (by simpa using hplace)
          simpa using hderives
        · simp only [Expr.nesting, Expr.innerNesting] at *
          omega
      · rintro e vs c' - he
        simpa using he
  | leftParen =>
      refine .take hc (by rw [hk]; decide) fun hr₁ => ?_
      have hlen₁ := hr₁.length_cons
      have hc₁ := hr₁.closed hc
      rw [here_bind]
      split
      next =>
        refine .expect hc₁ (by decide) fun hright hr₂ => ?_
        refine ih.suffixed_behind (.call · first []) hc hn (hr₁.trans hr₂) (by simp)
          hfirst fun node hplace => ?_
        exact ⟨.callNone hfirst.derives hk hright hplace, by simpa [Expr.innerNesting,
          Expr.nestingOfAll] using hdepth⟩
      next =>
        refine .bind (ih.arguments c.advance hc₁ (by omega)) ?_
        rintro args us c₂ hr₂ ⟨hargs, hinner⟩
        have hc₂ := hr₂.closed hc₁
        rw [hr₁.depth] at hinner
        refine .expect hc₂ (by decide) fun hright hr₃ => ?_
        refine .imp (ih.suffixed_behind (.call · first args) hc hn
          (hr₁.trans (hr₂.trans hr₃)) (by simp) hfirst fun node hplace => ?_) ?_
        · refine ⟨?_, ?_⟩
          · have hderives := Derives.call hfirst.derives hk hargs hright (by simpa using hplace)
            simpa using hderives
          · simp only [Expr.innerNesting] at *
            omega
        · rintro e vs c' - he
          simpa using he
  | plusPlus => exact .take hc (by rw [hk]; decide) (hstep .increment (by rw [hk]; rfl))
  | minusMinus => exact .take hc (by rw [hk]; decide) (hstep .decrement (by rw [hk]; rfl))
  | _ => exact .pure (by simpa using hfirst)

end SoundWithin

theorem soundWithin (n : Nat) : SoundWithin n := by
  induction n with
  | zero => constructor <;> intros <;> omega
  | succ n ih =>
      exact {
        assignment := fun _ => ih.assignment_succ
        conditional := fun _ => ih.conditional_succ
        binary := fun _ least => ih.binary_succ least
        binaryRest := fun _ _ _ _ => ih.binaryRest_succ
        unary := fun _ => ih.unary_succ
        operand := fun _ => ih.operand_succ
        operandRest := fun _ _ _ => ih.operandRest_succ
        arguments := fun _ => ih.arguments_succ
        primary := fun _ => ih.primary_succ }

theorem sound_expression (hc : c.Closed) :
    (expression c).Sound c fun e ts _ => ReadAt .assignment c.depth e ts :=
  (soundWithin _).assignment c hc (by rw [exprSteps]; omega)

end Parser

end KernelWeaver.Snippet
