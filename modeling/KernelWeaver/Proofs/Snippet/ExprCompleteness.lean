import KernelWeaver.Proofs.Snippet.ExprSoundness

/-!
# Every expression is read

Tokens that spell an expression are read as this expression, up to the numbers and places of nodes,
if it is nested within the limit; beyond the limit reading fails. What follows the tokens must not
be able to continue the expression at its level.
-/

namespace KernelWeaver.Snippet

namespace TokenKind

/-- Whether a suffix of an operand begins with a token of the kind. -/
def startsSuffix : TokenKind → Bool
  | leftBracket | leftParen | plusPlus | minusMinus => true
  | _ => false

/-- Whether a name, a literal or an expression in parentheses begins with a token of the kind. -/
def startsPrimary : TokenKind → Bool
  | number | trueWord | falseWord | string | identifier | leftParen => true
  | _ => false

/-- Whether an expression begins with a token of the kind. -/
def startsExpr (kind : TokenKind) : Bool :=
  kind.startsPrimary || (Parser.stepOp? kind).isSome || (Parser.unaryOp? kind).isSome

theorem startsType_of_startsExpr {kind : TokenKind} (h : kind.startsExpr = true) :
    kind.startsType = false := by
  cases kind <;> first | rfl | cases h

theorem stepOp?_of_startsPrimary {kind : TokenKind} (h : kind.startsPrimary = true) :
    Parser.stepOp? kind = none := by
  cases kind <;> first | rfl | cases h

theorem unaryOp?_of_startsPrimary {kind : TokenKind} (h : kind.startsPrimary = true) :
    Parser.unaryOp? kind = none := by
  cases kind <;> first | rfl | cases h

end TokenKind

section Heads

open KernelWeaver.Snippet.Parser

variable {P : Span → List Token → Prop} {e : Expr} {ts : List Token}

theorem Derives.exists_head {phrase : Phrase} (h : Derives P phrase ts) :
    ∃ t us, ts = t :: us ∧ t.kind.startsExpr = true := by
  induction h with
  | number hk | trueWord hk | falseWord hk | string hk | name hk | group hk | cast hk =>
      exact ⟨_, _, rfl, by rw [hk]; rfl⟩
  | ofPrimary _ ih | lastArgument _ ih | ofSuffixed _ ih | ofUnary _ ih | ofBinary _ ih
  | ofConditional _ ih => exact ih
  | subscript _ _ _ _ _ ih | callNone _ _ _ _ ih | call _ _ _ _ _ ih | stepAfter _ _ _ ih
  | moreArguments _ _ _ ih | binary _ _ _ _ _ ih | conditional _ _ _ _ _ _ ih
  | assign _ _ _ _ _ ih =>
      obtain ⟨t, us, rfl, hk⟩ := ih
      exact ⟨t, _, by simp; rfl, hk⟩
  | stepBefore ho | unary ho => exact ⟨_, _, rfl, by simp [TokenKind.startsExpr, ho]⟩

/-- An operand with its suffixes begins with a name, a literal or a parenthesis; behind the
parenthesis there is no type. -/
theorem Derives.exists_head_of_suffixed (h : Derives P (.expr .suffixed e) ts) :
    ∃ t us, ts = t :: us ∧ t.kind.startsPrimary = true ∧
      (t.kind = .leftParen → ∃ u vs, us = u :: vs ∧ u.kind.startsType = false) := by
  generalize hphrase : Phrase.expr .suffixed e = phrase at h
  induction h generalizing e with
  | ofPrimary h =>
      cases h with
      | number hk | trueWord hk | falseWord hk | string hk | name hk =>
          exact ⟨_, _, rfl, by rw [hk]; rfl, by rw [hk]; exact fun h => nomatch h⟩
      | group hk h =>
          obtain ⟨u, vs, rfl, hu⟩ := h.exists_head
          exact ⟨_, _, rfl, by rw [hk]; rfl,
            fun _ => ⟨u, _, rfl, TokenKind.startsType_of_startsExpr hu⟩⟩
  | subscript _ _ _ _ _ ih | callNone _ _ _ _ ih | call _ _ _ _ _ ih | stepAfter _ _ _ ih =>
      obtain ⟨t, us, rfl, hk, hsecond⟩ := ih rfl
      refine ⟨t, _, by simp; rfl, hk, fun hparen => ?_⟩
      obtain ⟨u, vs, rfl, hu⟩ := hsecond hparen
      exact ⟨u, _, by simp; rfl, hu⟩
  | _ => cases hphrase

end Heads

namespace Cursor

/-- The kind of the token in front of what is left to read. -/
def kindBefore (c : Cursor) (rest : List Token) : TokenKind := (rest.headD c.ending).kind

@[simp] theorem kindBefore_deeper (c : Cursor) (rest : List Token) :
    c.deeper.kindBefore rest = c.kindBefore rest := rfl

variable {c c' : Cursor} {ts rest : List Token}

@[simp] theorem kindBefore_cons (c : Cursor) (t : Token) (rest : List Token) :
    c.kindBefore (t :: rest) = t.kind := rfl

theorem Reads.kindBefore (h : c.Reads ts c') (rest : List Token) :
    c'.kindBefore rest = c.kindBefore rest := by
  rw [Cursor.kindBefore, h.ending]
  rfl

theorem Reads.rest_eq (h : c.Reads ts c') (hrest : c.rest = ts ++ rest) : c'.rest = rest := by
  rw [h.rest] at hrest
  exact List.append_cancel_left hrest

theorem Reads.kind_eq (h : c.Reads ts c') (hrest : c.rest = ts ++ rest) :
    c'.kind = c.kindBefore rest := by
  rw [kind, current, h.rest_eq hrest, h.ending]
  rfl

end Cursor

/-- A run has got behind `ts`, and `Next` describes what is left to do there, if `levels` are within
the limit; otherwise it has failed. -/
def Outcome.Reaches {β : Type} (c : Cursor) (ts : List Token) (levels : Nat)
    (Next : Outcome β → Cursor → Prop) (o : Outcome β) : Prop :=
  (levels ≤ Parser.maxDepth ∧ ∃ c', c.Reads ts c' ∧ Next o c') ∨
    Parser.maxDepth < levels ∧ ∃ c', o = .failed c'

/-- Reading ended behind `ts` with a value of which `Q` holds, if `levels` are within the limit, and
failed otherwise. -/
def Outcome.Agrees {α : Type} (c : Cursor) (ts : List Token) (levels : Nat) (Q : α → Prop) :
    Outcome α → Prop :=
  Outcome.Reaches c ts levels fun o c' => ∃ a, o = .done a c' ∧ Q a

namespace Outcome

open KernelWeaver.Snippet.Parser

variable {α β : Type} {c c' : Cursor} {ts us vs : List Token} {levels inner more : Nat}
  {Q : α → Prop} {R : β → Prop} {Next Next' : Outcome β → Cursor → Prop}

theorem Reaches.here {o : Outcome β} (hl : levels ≤ maxDepth) (h : Next o c) :
    o.Reaches c [] levels Next :=
  .inl ⟨hl, c, .refl c, h⟩

theorem Reaches.pure {a : α} (hl : levels ≤ maxDepth) (h : Q a) :
    ((Pure.pure a : Parser α) c).Agrees c [] levels Q :=
  .here hl ⟨a, rfl, h⟩

/-- Reading that goes on behind tokens already read. -/
theorem Reaches.after {o : Outcome β} (hr : c.Reads ts c') (h : o.Reaches c' us levels Next)
    (hvs : ts ++ us = vs) : o.Reaches c vs levels Next := by
  subst hvs
  rcases h with ⟨hl, c'', hr', hnext⟩ | h
  · exact .inl ⟨hl, c'', hr.trans hr', hnext⟩
  · exact .inr h

/-- One stretch of a run after another. -/
theorem Reaches.chain {o : Outcome β} (h : o.Reaches c ts inner Next)
    (hmore : ∀ c', c.Reads ts c' → inner ≤ maxDepth → Next o c' → o.Reaches c' us more Next')
    (hvs : ts ++ us = vs) (hl : max inner more = levels) : o.Reaches c vs levels Next' := by
  rcases h with ⟨hinner, c', hr, hnext⟩ | ⟨hinner, hfailed⟩
  · rcases (hmore c' hr hinner hnext).after hr hvs with ⟨hm, hrest⟩ | ⟨hm, hrest⟩
    · exact .inl ⟨by omega, hrest⟩
    · exact .inr ⟨by omega, hrest⟩
  · exact .inr ⟨by omega, hfailed⟩

theorem Reaches.bind {p : Parser α} {f : α → Parser β} (hp : (p c).Agrees c ts inner Q)
    (hf : ∀ a c', c.Reads ts c' → Q a → inner ≤ maxDepth → (f a c').Reaches c' us more Next)
    (hvs : ts ++ us = vs) (hl : max inner more = levels) :
    ((p >>= f) c).Reaches c vs levels Next := by
  rcases hp with ⟨hinner, c', hr, a, hrun, hq⟩ | ⟨hinner, c', hrun⟩
  · rw [bind_of_done hrun]
    rcases (hf a c' hr hq hinner).after hr hvs with ⟨hm, hrest⟩ | ⟨hm, hrest⟩
    · exact .inl ⟨by omega, hrest⟩
    · exact .inr ⟨by omega, hrest⟩
  · rw [bind_of_failed hrun]
    exact .inr ⟨by omega, c', rfl⟩

theorem Reaches.map {p : Parser α} {f : α → β} (hp : (p c).Agrees c ts levels Q)
    (hR : ∀ a, Q a → R (f a)) : ((f <$> p) c).Agrees c ts levels R :=
  .bind hp (fun a _ _ hq _ => .pure (Nat.zero_le _) (hR a hq)) (List.append_nil ts)
    (Nat.max_zero levels)

theorem Reaches.take {f : Token → Parser β} {t : Token} {rest : List Token}
    (hrest : c.rest = t :: rest)
    (h : c.Reads [t] c.advance → (f t c.advance).Reaches c.advance us levels Next) :
    ((Parser.take >>= f) c).Reaches c (t :: us) levels Next := by
  rw [take_bind, Cursor.current_of_rest hrest]
  exact (h (Cursor.reads_of_rest hrest)).after (Cursor.reads_of_rest hrest) rfl

theorem Reaches.expect {kind : TokenKind} {context : String} {f : Span → Parser β} {t : Token}
    {rest : List Token} (hrest : c.rest = t :: rest) (hk : t.kind = kind)
    (h : c.Reads [t] c.advance → (f t.span c.advance).Reaches c.advance us levels Next) :
    ((Parser.expect kind context >>= f) c).Reaches c (t :: us) levels Next := by
  have hkind : c.kind = kind := (Cursor.kind_of_rest hrest).trans hk
  rw [expect_bind context f hkind, Cursor.current_of_rest hrest]
  exact (h (Cursor.reads_of_rest hrest)).after (Cursor.reads_of_rest hrest) rfl

theorem Reaches.accept {kind : TokenKind} {f : Bool → Parser β} {t : Token} {rest : List Token}
    (hrest : c.rest = t :: rest) (hk : t.kind = kind)
    (h : c.Reads [t] c.advance → (f true c.advance).Reaches c.advance us levels Next) :
    ((Parser.accept kind >>= f) c).Reaches c (t :: us) levels Next := by
  rw [accept_bind, if_pos ((Cursor.kind_of_rest hrest).trans hk)]
  exact (h (Cursor.reads_of_rest hrest)).after (Cursor.reads_of_rest hrest) rfl

theorem Reaches.node {span : Span} {f : Node → Parser β}
    (h : (f ⟨c.nextId, span⟩ { c with nextId := c.nextId + 1 }).Reaches
      { c with nextId := c.nextId + 1 } ts levels Next) :
    ((Parser.node span >>= f) c).Reaches c ts levels Next := by
  rw [node_bind]
  exact h.after (.fresh c) rfl

theorem Reaches.nested {p : Parser α} (h : c.depth + 1 ≤ maxDepth →
    (p c.deeper).Agrees c.deeper ts levels Q) (hl : c.depth + 1 ≤ levels) :
    (Parser.nested p c).Agrees c ts levels Q := by
  rw [Parser.nested]
  split
  next hdepth => exact .inr ⟨lt_of_lt_of_le hdepth hl, _, rfl⟩
  next hdepth =>
    rcases h (Nat.le_of_not_lt hdepth) with ⟨hlevels, c', hr, a, hrun, hq⟩ | ⟨hlevels, c', hrun⟩
    · rw [Cursor.deeper] at hrun
      rw [hrun]
      refine .inl ⟨hlevels, { c' with depth := c'.depth - 1 },
        ⟨hr.rest, hr.previous, hr.ending, ?_, hr.report⟩, a, rfl, hq⟩
      change c'.depth - 1 = c.depth
      rw [hr.depth]
      rfl
    · rw [Cursor.deeper] at hrun
      rw [hrun]
      exact .inr ⟨hlevels, _, rfl⟩

end Outcome

namespace Parser

/-- Whether an expression at a level cannot go on with a token of the kind. -/
def endsBefore : Level → TokenKind → Bool
  | .primary, _ => true
  | .suffixed, kind | .unary, kind => !kind.startsSuffix
  | .binary least, kind => !kind.startsSuffix && (binaryOp? kind).all (·.level < least)
  | .conditional, kind => !kind.startsSuffix && (binaryOp? kind).isNone && kind ≠ .question
  | .assignment, kind =>
    !kind.startsSuffix && (binaryOp? kind).isNone && kind ≠ .question && (assignOp? kind).isNone

/-- What is left to do is to read the operators and operands behind an operand of a shape. -/
def AtOperator (least : Nat) (e : Expr) (o : Outcome Expr) (c : Cursor) : Prop :=
  ∃ m e', o = binaryRest m least e' c ∧ 8 * c.rest.length + 1 ≤ m ∧ e'.shape = e.shape

/-- What is left to do is to read the suffixes behind an operand of a shape. -/
def AtSuffix (e : Expr) (o : Outcome Expr) (c : Cursor) : Prop :=
  ∃ m e', o = operandRest m e' c ∧ 8 * c.rest.length + 1 ≤ m ∧ e'.shape = e.shape

/-- Tokens that spell a phrase are read as this phrase wherever they stand. -/
def Completes : Phrase → List Token → Prop
  | .expr .assignment e, ts => ∀ n c rest, c.rest = ts ++ rest →
    endsBefore .assignment (c.kindBefore rest) → 8 * c.rest.length + 6 ≤ n →
    (assignment n c).Agrees c ts (c.depth + e.nesting) (·.shape = e.shape)
  | .expr .conditional e, ts => ∀ n c rest, c.rest = ts ++ rest →
    endsBefore .conditional (c.kindBefore rest) → 8 * c.rest.length + 5 ≤ n →
    (conditional n c).Agrees c ts (c.depth + e.nesting) (·.shape = e.shape)
  | .expr (.binary k) e, ts => ∀ n least c rest, c.rest = ts ++ rest → least ≤ k →
    endsBefore (.binary (k + 1)) (c.kindBefore rest) → 8 * c.rest.length + 4 ≤ n →
    (binary n least c).Reaches c ts (c.depth + e.nesting) (AtOperator least e)
  | .expr .unary e, ts => ∀ n c rest, c.rest = ts ++ rest →
    endsBefore .unary (c.kindBefore rest) → 8 * c.rest.length + 3 ≤ n →
    (unary n c).Agrees c ts (c.depth + e.nesting) (·.shape = e.shape)
  | .expr .suffixed e, ts => ∀ n c rest, c.rest = ts ++ rest → c.depth ≤ maxDepth →
    8 * c.rest.length + 1 ≤ n →
    ((primary n >>= operandRest n) c).Reaches c ts (c.depth + e.innerNesting) (AtSuffix e)
  | .expr .primary e, ts => ∀ n c rest, c.rest = ts ++ rest → c.depth ≤ maxDepth →
    8 * c.rest.length + 1 ≤ n →
    (primary n c).Agrees c ts (c.depth + e.innerNesting) (·.shape = e.shape)
  | .arguments es, ts => ∀ n c rest, c.rest = ts ++ rest → c.kindBefore rest = .rightParen →
    8 * c.rest.length + 7 ≤ n →
    (arguments n c).Agrees c ts (c.depth + Expr.nestingOfAll es)
      (Expr.shapes · = Expr.shapes es)

section Types

variable {c : Cursor} {ss ps rest : List Token} {type : TypeSpec} {levels : Nat}

theorem specifierTokens_eq (hrest : c.rest = ss ++ rest) (hss : ∀ t ∈ ss, t.kind.startsType)
    (hstop : (c.kindBefore rest).startsType = false) : specifierTokens c = ss := by
  rw [specifierTokens, hrest, List.takeWhile_append_of_pos hss]
  cases rest with
  | nil => rw [List.takeWhile_nil, List.append_nil]
  | cons t rest =>
      rw [List.takeWhile_cons_of_neg (by simpa [Cursor.kindBefore] using hstop), List.append_nil]

theorem agrees_specifiers (hl : levels ≤ maxDepth) (hss : SpellsSpecifiers type ss)
    (hrest : c.rest = ss ++ rest) (hstop : (c.kindBefore rest).startsType = false) :
    (specifiers c).Agrees c ss levels fun type' =>
      type'.words = type.words ∧ type'.isConst = type.isConst ∧ type'.pointer = none := by
  have hr := reads_specifierTokens c
  have htokens := specifierTokens_eq hrest hss.kinds hstop
  have hwords : specifierLexemes (specifierTokens c) = type.words := by
    rw [htokens, hss.words]
    rfl
  rw [specifiers_eq]
  dsimp only
  rw [if_neg (by rw [hwords]; exact hss.words_ne_nil)]
  rw [htokens] at hr
  refine .inl ⟨hl, _, hr, _, by rw [htokens], ?_, ?_, rfl⟩
  · rw [← htokens, hwords]
  · exact hss.isConst.symm

theorem agrees_pointerMark {pointer : Option PointerMark} (hl : levels ≤ maxDepth)
    (hps : SpellsPointer pointer ps) (hrest : c.rest = ps ++ rest)
    (hstar : c.kindBefore rest ≠ .star) (hconst : c.kindBefore rest ≠ .typeQualifier) :
    (pointerMark c).Agrees c ps levels (· = pointer) := by
  rw [pointerMark]
  cases hps with
  | none =>
      rw [accept_bind, if_neg (by rwa [(Cursor.Reads.refl c).kind_eq hrest])]
      exact .pure hl rfl
  | plain hk =>
      refine .accept hrest hk fun hr => ?_
      rw [if_pos rfl, accept_bind, if_neg (by rwa [hr.kind_eq hrest])]
      exact .pure hl rfl
  | const hk hq =>
      refine .accept hrest hk fun hr => ?_
      rw [if_pos rfl]
      exact .accept (hr.rest_eq hrest) hq fun _ => .pure hl rfl

/-- What stands behind the specifiers of a type does not belong to them. -/
theorem startsType_behind {pointer : Option PointerMark} (hps : SpellsPointer pointer ps)
    (hstop : (c.kindBefore rest).startsType = false) :
    (c.kindBefore (ps ++ rest)).startsType = false := by
  cases hps with
  | none => exact hstop
  | plain hk | const hk => rw [List.cons_append, Cursor.kindBefore_cons, hk]; rfl

theorem agrees_typeName (hl : levels ≤ maxDepth) (hss : SpellsSpecifiers type ss)
    (hps : SpellsPointer type.pointer ps) (hrest : c.rest = ss ++ (ps ++ rest))
    (hstop : (c.kindBefore rest).startsType = false) (hstar : c.kindBefore rest ≠ .star) :
    (typeName c).Agrees c (ss ++ ps) levels fun type' =>
      { type' with span := default } = { type with span := default } := by
  refine .bind (agrees_specifiers hl hss hrest (startsType_behind hps hstop))
    (fun type' c₁ hr₁ htype _ => ?_) rfl (Nat.max_self _)
  have hconst : c₁.kindBefore rest ≠ .typeQualifier := by
    rw [hr₁.kindBefore]
    rintro heq
    rw [heq] at hstop
    cases hstop
  refine .bind (agrees_pointerMark hl hps (hr₁.rest_eq hrest) (by rwa [hr₁.kindBefore]) hconst)
    (fun pointer c₂ hr₂ hpointer _ => ?_) (List.append_nil _) (Nat.max_zero _)
  rw [spanFrom_bind]
  refine .pure (Nat.zero_le _) ?_
  rw [htype.1, htype.2.1, hpointer]

end Types

section Cases

variable {node : Node} {t left right : Token} {ts us vs : List Token} {e first : Expr}

theorem completes_leaf (make : Node → Expr)
    (hrun : ∀ n c, c.current = t →
      primary (n + 1) c = (do let _ ← take; return make (← Parser.node t.span)) c)
    (hshape : ∀ node node', (make node).shape = (make node').shape)
    (hnesting : (make node).innerNesting = 0) :
    Completes (.expr .primary (make node)) [t] := by
  intro n c rest hrest hdepth hn
  obtain ⟨n, rfl⟩ : ∃ k, n = k + 1 := ⟨n - 1, by omega⟩
  rw [hrun n c (Cursor.current_of_rest hrest), hnesting]
  exact .take hrest fun _ => .node (.pure hdepth (hshape _ _))

theorem completes_group (hl : left.kind = .leftParen) (ih : Completes (.expr .assignment e) ts)
    (hr : right.kind = .rightParen) :
    Completes (.expr .primary (.group node e)) (left :: ts ++ [right]) := by
  intro n c rest hrest hdepth hn
  rw [List.append_assoc] at hrest
  obtain ⟨n, rfl⟩ : ∃ k, n = k + 1 := ⟨n - 1, by omega⟩
  rw [primary, here_bind, Cursor.current_of_rest hrest, hl]
  refine .take hrest fun hr₁ => ?_
  have hrest₁ := hr₁.rest_eq hrest
  have hlen₁ := hr₁.length_cons
  have hinner := ih n c.advance ([right] ++ rest) hrest₁ (by simp [Cursor.kindBefore, hr]; rfl)
    (by omega)
  rw [hr₁.depth] at hinner
  refine .bind hinner (fun e' c₂ hr₂ he hlevels => ?_) rfl (Nat.max_zero _)
  refine .expect (hr₂.rest_eq hrest₁) hr fun hr₃ => ?_
  rw [spanFrom_bind]
  exact .node (.pure (Nat.zero_le _) (congrArg (Expr.group default) he))

theorem completes_ofPrimary (ih : Completes (.expr .primary e) ts) :
    Completes (.expr .suffixed e) ts := by
  intro n c rest hrest hdepth hn
  refine .bind (ih n c rest hrest hdepth hn) (fun e' c₁ hr₁ he _ => ?_) (List.append_nil ts)
    (Nat.max_zero _)
  have hlen₁ := hr₁.length_le
  exact .here (Nat.zero_le _) ⟨n, e', rfl, by omega, he⟩

/-- An operand with one more suffix, if the suffix is read as it should be. -/
theorem completes_suffix (more : Nat) (ih : Completes (.expr .suffixed first) ts)
    (hsuffix : ∀ n c e' rest, c.rest = us ++ rest → 8 * c.rest.length + 1 ≤ n + 1 →
      e'.shape = first.shape → c.depth ≤ maxDepth →
      (operandRest (n + 1) e' c).Reaches c us (c.depth + more) (AtSuffix e))
    (hnesting : max first.innerNesting more = e.innerNesting) :
    Completes (.expr .suffixed e) (ts ++ us) := by
  intro n c rest hrest hdepth hn
  rw [List.append_assoc] at hrest
  refine .chain (ih n c (us ++ rest) hrest hdepth hn) ?_ rfl
    (by rw [Nat.add_max_add_left, hnesting])
  rintro c₁ hr₁ - ⟨m, e', hrun, hm, he⟩
  obtain ⟨m, rfl⟩ : ∃ k, m = k + 1 := ⟨m - 1, by omega⟩
  rw [hrun, ← hr₁.depth]
  exact hsuffix m c₁ e' rest (hr₁.rest_eq hrest) hm he (hr₁.depth ▸ hdepth)

/-- Behind a suffix the next one is read. -/
theorem atSuffix_behind {n levels : Nat} {c c' : Cursor} {e' : Expr} {make : Node → Expr}
    (hl : levels ≤ maxDepth) (hr : c.Reads us c') (hus : us ≠ [])
    (hn : 8 * c.rest.length + 1 ≤ n + 1) (he : ∀ node : Node, (make node).shape = e.shape) :
    ((do operandRest n (make (← Parser.node (← spanFrom e'.span)))) c').Reaches c' [] levels
      (AtSuffix e) := by
  rw [spanFrom_bind]
  refine .node (.here hl ⟨n, _, rfl, ?_, he _⟩)
  have hlen := hr.length_lt hus
  simp only
  omega

theorem completes_subscript {array index : Expr} (iha : Completes (.expr .suffixed array) ts)
    (hl : left.kind = .leftBracket) (ihi : Completes (.expr .assignment index) us)
    (hr : right.kind = .rightBracket) :
    Completes (.expr .suffixed (.subscript node array index)) (ts ++ left :: us ++ [right]) := by
  rw [List.append_assoc]
  refine completes_suffix index.nesting iha ?_ rfl
  intro n c array' rest hrest hn harray hdepth
  rw [List.append_assoc] at hrest
  rw [operandRest, here_bind, Cursor.kind_of_rest hrest, hl]
  refine .take hrest fun hr₁ => ?_
  have hrest₁ := hr₁.rest_eq hrest
  have hlen₁ := hr₁.length_cons
  have hinner := ihi n c.advance ([right] ++ rest) hrest₁ (by simp [Cursor.kindBefore, hr]; rfl)
    (by omega)
  rw [hr₁.depth] at hinner
  refine .bind hinner (fun index' c₂ hr₂ hindex _ => ?_) rfl (Nat.max_zero _)
  refine .expect (hr₂.rest_eq hrest₁) hr fun hr₃ => ?_
  exact atSuffix_behind (Nat.zero_le _) (hr₁.trans (hr₂.trans hr₃)) (by simp) hn fun node' => by
    simp only [Expr.shape, harray, hindex]

theorem completes_callNone (ih : Completes (.expr .suffixed first) ts)
    (hl : left.kind = .leftParen) (hr : right.kind = .rightParen) :
    Completes (.expr .suffixed (.call node first [])) (ts ++ [left, right]) := by
  refine completes_suffix 0 ih ?_ rfl
  intro n c callee' rest hrest hn hcallee hdepth
  rw [operandRest, here_bind, Cursor.kind_of_rest hrest, hl]
  refine .take hrest fun hr₁ => ?_
  have hrest₁ := hr₁.rest_eq hrest
  rw [here_bind, Cursor.kind_of_rest hrest₁, if_pos hr]
  refine .expect hrest₁ hr fun hr₂ => ?_
  exact atSuffix_behind hdepth (hr₁.trans hr₂) (by simp) hn fun node' => by
    simp only [Expr.shape, hcallee]

theorem completes_call {args : List Expr} (ihc : Completes (.expr .suffixed first) ts)
    (hl : left.kind = .leftParen) (hhead : ∃ u ws, us = u :: ws ∧ u.kind.startsExpr = true)
    (iha : Completes (.arguments args) us) (hr : right.kind = .rightParen) :
    Completes (.expr .suffixed (.call node first args)) (ts ++ left :: us ++ [right]) := by
  rw [List.append_assoc]
  refine completes_suffix (Expr.nestingOfAll args) ihc ?_ rfl
  intro n c callee' rest hrest hn hcallee hdepth
  rw [List.append_assoc] at hrest
  rw [operandRest, here_bind, Cursor.kind_of_rest hrest, hl]
  refine .take hrest fun hr₁ => ?_
  have hrest₁ := hr₁.rest_eq hrest
  have hlen₁ := hr₁.length_cons
  have hinner := iha n c.advance ([right] ++ rest) hrest₁ hr (by omega)
  rw [hr₁.depth] at hinner
  have hnot : c.advance.kind ≠ .rightParen := by
    obtain ⟨u, ws, rfl, hu⟩ := hhead
    rw [Cursor.kind_of_rest hrest₁]
    rintro heq
    rw [heq] at hu
    cases hu
  rw [here_bind, if_neg hnot]
  refine .bind hinner (fun args' c₂ hr₂ hargs _ => ?_) rfl (Nat.max_zero _)
  refine .expect (hr₂.rest_eq hrest₁) hr fun hr₃ => ?_
  exact atSuffix_behind (Nat.zero_le _) (hr₁.trans (hr₂.trans hr₃)) (by simp) hn fun node' => by
    simp only [Expr.shape, hcallee, hargs]

theorem completes_stepAfter {op : StepOp} (ih : Completes (.expr .suffixed first) ts)
    (hop : stepOp? t.kind = some op) :
    Completes (.expr .suffixed (.stepAfter node op first)) (ts ++ [t]) := by
  refine completes_suffix 0 ih ?_ (Nat.max_zero _)
  intro n c target' rest hrest hn htarget hdepth
  have hbehind : c.Reads [t] c.advance →
      ((do operandRest n (.stepAfter (← Parser.node (← spanFrom target'.span)) op target'))
        c.advance).Reaches c.advance [] (c.depth + 0) (AtSuffix (.stepAfter node op first)) :=
    fun hr => atSuffix_behind hdepth hr (by simp) hn fun node' => by
      simp only [Expr.shape, htarget]
  rw [operandRest, here_bind, Cursor.kind_of_rest hrest]
  cases hk : t.kind with
  | plusPlus =>
      rw [hk] at hop
      cases hop
      exact .take hrest hbehind
  | minusMinus =>
      rw [hk] at hop
      cases hop
      exact .take hrest hbehind
  | _ =>
      rw [hk] at hop
      cases hop

/-- Behind the suffixes of an operand nothing else belongs to it. -/
theorem operandRest_of_not_startsSuffix {n : Nat} {c : Cursor} (hn : 1 ≤ n)
    (hk : c.kind.startsSuffix = false) : operandRest n e c = .done e c := by
  obtain ⟨n, rfl⟩ : ∃ k, n = k + 1 := ⟨n - 1, by omega⟩
  rw [operandRest, here_bind]
  cases hkind : c.kind <;> first | rfl | (rw [hkind] at hk; cases hk)

/-- What begins like an operand without anything before it is read as one. -/
theorem operand_of_startsPrimary {n : Nat} {c : Cursor} (hk : c.kind.startsPrimary = true)
    (hcast : c.kind = .leftParen → c.secondKind.startsType = false) :
    operand (n + 1) c = (primary n >>= operandRest n) c := by
  have hnot : ¬(c.kind = .leftParen ∧ c.secondKind.startsType) := by
    rintro ⟨hparen, htype⟩
    rw [hcast hparen] at htype
    cases htype
  rw [operand, hereSpan_bind, here_bind, TokenKind.stepOp?_of_startsPrimary hk,
    TokenKind.unaryOp?_of_startsPrimary hk]
  dsimp only
  rw [if_neg hnot]

theorem completes_ofSuffixed (hoperand : e.isOperand = true)
    (hhead : ∃ t us, ts = t :: us ∧ t.kind.startsPrimary = true ∧
      (t.kind = .leftParen → ∃ u vs, us = u :: vs ∧ u.kind.startsType = false))
    (ih : Completes (.expr .suffixed e) ts) : Completes (.expr .unary e) ts := by
  intro n c rest hrest hends hn
  obtain ⟨n, rfl⟩ : ∃ k, n = k + 2 := ⟨n - 2, by omega⟩
  rw [Expr.nesting_of_isOperand hoperand, unary]
  refine .nested (fun hdepth => ?_) (by omega)
  have hrun : operand (n + 1) c.deeper = (primary n >>= operandRest n) c.deeper := by
    obtain ⟨t, us, rfl, hk, hparen⟩ := hhead
    have hkind : c.deeper.kind = t.kind := Cursor.kind_of_rest hrest
    refine operand_of_startsPrimary (hkind ▸ hk) fun hleft => ?_
    obtain ⟨u, vs, rfl, hu⟩ := hparen (hkind ▸ hleft)
    rw [Cursor.secondKind, Cursor.rest_deeper, hrest]
    exact hu
  rw [hrun]
  refine .chain (ih n c.deeper rest hrest hdepth (by rw [Cursor.rest_deeper]; omega)) ?_
    (List.append_nil ts) (by rw [Nat.max_zero, Cursor.depth_deeper]; omega)
  rintro c' hr - ⟨m, e', hm, hlen, he⟩
  have hstop : c'.kind.startsSuffix = false := by
    rw [hr.kind_eq hrest]
    simpa [endsBefore] using hends
  rw [hm, operandRest_of_not_startsSuffix (by omega) hstop]
  exact .here (Nat.zero_le _) ⟨e', rfl, he⟩

/-- An operand behind an operator before it. -/
theorem agrees_behind {n : Nat} {c c' : Cursor} {start : Span} {rest : List Token}
    (make : Node → Expr → Expr)
    (hmake : ∀ node' first', Expr.shape first' = first.shape →
      (make node' first').shape = e.shape)
    (hnesting : e.innerNesting = first.nesting) (ih : Completes (.expr .unary first) us)
    (hr : c.deeper.Reads ts c') (hrest : c'.rest = us ++ rest)
    (hends : endsBefore .unary (c.kindBefore rest)) (hn : 8 * c'.rest.length + 3 ≤ n) :
    ((do let inner ← unary n; return make (← Parser.node (start.merge inner.span)) inner) c').Agrees
      c' us (c.depth + (e.innerNesting + 1)) (fun e' : Expr => e'.shape = e.shape) := by
  refine .bind (ih n c' rest hrest (by rwa [hr.kindBefore]) hn)
    (fun first' _ _ hfirst _ => .node (.pure (Nat.zero_le _) (hmake _ first' hfirst)))
    (List.append_nil us) ?_
  rw [Nat.max_zero, hr.depth, hnesting, Cursor.depth_deeper]
  omega

theorem completes_stepBefore {op : StepOp} (hop : stepOp? t.kind = some op)
    (ih : Completes (.expr .unary first) ts) :
    Completes (.expr .unary (.stepBefore node op first)) (t :: ts) := by
  intro n c rest hrest hends hn
  obtain ⟨n, rfl⟩ : ∃ k, n = k + 2 := ⟨n - 2, by omega⟩
  rw [Expr.nesting_of_isOperand rfl, unary]
  refine .nested (fun _ => ?_) (by omega)
  have hrest' : c.deeper.rest = t :: (ts ++ rest) := hrest
  rw [operand, hereSpan_bind, here_bind, Cursor.kind_of_rest hrest', hop]
  refine .take hrest' fun hr => ?_
  have hlen := hr.length_cons
  rw [Cursor.rest_deeper] at hlen
  exact agrees_behind (n := n) (e := .stepBefore node op first) (.stepBefore · op ·)
    (fun _ _ h => by simp only [Expr.shape, h]) rfl ih hr (hr.rest_eq hrest') hends (by omega)

theorem completes_unary {op : UnaryOp} (hop : unaryOp? t.kind = some op)
    (ih : Completes (.expr .unary first) ts) :
    Completes (.expr .unary (.unary node op first)) (t :: ts) := by
  intro n c rest hrest hends hn
  obtain ⟨n, rfl⟩ : ∃ k, n = k + 2 := ⟨n - 2, by omega⟩
  rw [Expr.nesting_of_isOperand rfl, unary]
  refine .nested (fun _ => ?_) (by omega)
  have hrest' : c.deeper.rest = t :: (ts ++ rest) := hrest
  have hstep : stepOp? t.kind = none := by
    cases hk : t.kind <;> first | rfl | (rw [hk] at hop; cases hop)
  rw [operand, hereSpan_bind, here_bind, Cursor.kind_of_rest hrest', hstep]
  dsimp only
  rw [hop]
  refine .take hrest' fun hr => ?_
  have hlen := hr.length_cons
  rw [Cursor.rest_deeper] at hlen
  exact agrees_behind (n := n) (e := .unary node op first) (.unary · op ·)
    (fun _ _ h => by simp only [Expr.shape, h]) rfl ih hr (hr.rest_eq hrest') hends (by omega)

theorem completes_cast {ss ps : List Token} {type : TypeSpec} (hl : left.kind = .leftParen)
    (hss : SpellsSpecifiers type ss) (hps : SpellsPointer type.pointer ps)
    (hright : right.kind = .rightParen) (ih : Completes (.expr .unary first) ts) :
    Completes (.expr .unary (.cast node type first)) (left :: (ss ++ ps) ++ right :: ts) := by
  intro n c rest hrest hends hn
  obtain ⟨n, rfl⟩ : ∃ k, n = k + 2 := ⟨n - 2, by omega⟩
  rw [Expr.nesting_of_isOperand rfl, unary]
  refine .nested (fun hdepth => ?_) (by omega)
  have hrest' : c.deeper.rest = left :: (ss ++ (ps ++ (right :: ts ++ rest))) := by
    simpa using hrest
  have hkind : c.deeper.kind = .leftParen := (Cursor.kind_of_rest hrest').trans hl
  have hsecond : c.deeper.secondKind.startsType := by
    obtain ⟨t, us, rfl⟩ := List.exists_cons_of_ne_nil hss.ne_nil
    rw [Cursor.secondKind, hrest']
    exact hss.kinds t List.mem_cons_self
  rw [operand, hereSpan_bind, here_bind, hkind]
  change Outcome.Agrees _ _ _ _ ((ite _ _ _ : Parser Expr) _)
  rw [if_pos ⟨rfl, hsecond⟩]
  refine .take hrest' fun hr₁ => ?_
  have hrest₁ := hr₁.rest_eq hrest'
  have hnext : c.deeper.advance.kindBefore (right :: ts ++ rest) = .rightParen := hright
  have hlevels : c.depth + 1 ≤ maxDepth := hdepth
  have htype := agrees_typeName hlevels hss hps hrest₁ (by rw [hnext]; rfl)
    (by rw [hnext]; decide)
  refine .bind htype (fun type' c₂ hr₂ htype' _ => ?_) rfl
    (Nat.max_eq_right (by omega))
  have hrest₂ := hr₂.rest_eq (hrest₁.trans (List.append_assoc _ _ _).symm)
  refine .expect hrest₂ hright fun hr₃ => ?_
  have hr := hr₁.trans (hr₂.trans hr₃)
  have hlen := hr.length_cons
  rw [Cursor.rest_deeper] at hlen
  have hshape : ∀ node' first', Expr.shape first' = first.shape →
      (Expr.cast node' type' first').shape = (Expr.cast node type first).shape := by
    intro node' first' hfirst
    simp only [Expr.shape, hfirst, htype']
  exact agrees_behind (n := n) (.cast · type' ·) hshape rfl ih hr (hr₃.rest_eq hrest₂) hends
    (by omega)

theorem completes_ofUnary {k : Nat} (ih : Completes (.expr .unary e) ts) :
    Completes (.expr (.binary k) e) ts := by
  intro n least c rest hrest hle hends hn
  obtain ⟨n, rfl⟩ : ∃ j, n = j + 1 := ⟨n - 1, by omega⟩
  rw [binary]
  have hends' : endsBefore .unary (c.kindBefore rest) := by
    simp only [endsBefore, Bool.and_eq_true] at hends ⊢
    exact hends.1
  refine .bind (ih n c rest hrest hends' (by omega)) (fun e' c₁ hr₁ he _ => ?_)
    (List.append_nil ts) (Nat.max_zero _)
  have hlen₁ := hr₁.length_le
  exact .here (Nat.zero_le _) ⟨n, e', rfl, by omega, he⟩

/-- Where no operator of the level follows, the operands are complete. -/
theorem binaryRest_of_stops {n least : Nat} {c : Cursor} (hn : 1 ≤ n) (hstop : StopsBelow least c) :
    binaryRest n least e c = .done e c := by
  obtain ⟨n, rfl⟩ : ∃ k, n = k + 1 := ⟨n - 1, by omega⟩
  rw [binaryRest, here_bind]
  cases hop : binaryOp? c.kind with
  | none => rfl
  | some op =>
      dsimp only
      rw [if_pos (hstop op hop)]
      rfl

theorem agrees_binary {n least k : Nat} {c : Cursor} {rest : List Token}
    (ih : Completes (.expr (.binary k) e) ts) (hrest : c.rest = ts ++ rest) (hle : least ≤ k)
    (hends : endsBefore (.binary least) (c.kindBefore rest)) (hn : 8 * c.rest.length + 4 ≤ n) :
    (binary n least c).Agrees c ts (c.depth + e.nesting) (·.shape = e.shape) := by
  simp only [endsBefore, Bool.and_eq_true, Option.all_eq_true, decide_eq_true_eq] at hends
  refine .chain (ih n least c rest hrest hle ?_ hn) ?_ (List.append_nil ts) (Nat.max_zero _)
  · simp only [endsBefore, Bool.and_eq_true, Option.all_eq_true, decide_eq_true_eq]
    exact ⟨hends.1, fun op hop => by have := hends.2 op hop; omega⟩
  · rintro c' hr - ⟨m, e', hrun, hm, he⟩
    rw [hrun, binaryRest_of_stops (by omega) (by rw [StopsBelow, hr.kind_eq hrest]; exact hends.2)]
    exact .here (Nat.zero_le _) ⟨e', rfl, he⟩

theorem completes_binary {k : Nat} {op : BinaryOp} {first second : Expr} (hle : k ≤ op.level)
    (ihl : Completes (.expr (.binary op.level) first) ts) (hop : binaryOp? t.kind = some op)
    (ihr : Completes (.expr (.binary (op.level + 1)) second) us) :
    Completes (.expr (.binary k) (.binary node op first second)) (ts ++ t :: us) := by
  intro n least c rest hrest hleast hends hn
  rw [List.append_assoc] at hrest
  have hsuffix : t.kind.startsSuffix = false := by
    cases hk : t.kind <;> first | rfl | (rw [hk] at hop; cases hop)
  have hnext : endsBefore (.binary (op.level + 1)) (c.kindBefore (t :: us ++ rest)) := by
    simp [endsBefore, Cursor.kindBefore, hsuffix, hop]
  refine .chain (ihl n least c (t :: us ++ rest) hrest (hleast.trans hle) hnext hn) ?_ rfl
    (Nat.add_max_add_left _ _ _)
  rintro c₁ hr₁ - ⟨m, first', hrun, hm, hfirst⟩
  have hrest₁ := hr₁.rest_eq hrest
  obtain ⟨m, rfl⟩ : ∃ j, m = j + 1 := ⟨m - 1, by omega⟩
  rw [hrun, binaryRest, here_bind, Cursor.kind_of_rest hrest₁, hop]
  dsimp only
  rw [if_neg (by omega)]
  refine .take hrest₁ fun hr₂ => ?_
  have hlen₂ := hr₂.length_cons
  have hends₂ : endsBefore (.binary (op.level + 1)) (c₁.advance.kindBefore rest) := by
    rw [hr₂.kindBefore, hr₁.kindBefore]
    simp only [endsBefore, Bool.and_eq_true, Option.all_eq_true, decide_eq_true_eq] at hends ⊢
    exact ⟨hends.1, fun o ho => by have := hends.2 o ho; omega⟩
  have hsecond := agrees_binary (n := m) ihr (hr₂.rest_eq hrest₁) le_rfl hends₂ (by omega)
  rw [hr₂.depth, hr₁.depth] at hsecond
  refine .bind hsecond (fun second' c₃ hr₃ hsecond _ => ?_) (List.append_nil us) (Nat.max_zero _)
  have hlen₃ := hr₃.length_le
  refine .node (.here (Nat.zero_le _) ⟨m, _, rfl, by simp only; omega, ?_⟩)
  simp only [Expr.shape, hfirst, hsecond]

theorem completes_ofBinary (ih : Completes (.expr (.binary 0) e) ts) :
    Completes (.expr .conditional e) ts := by
  intro n c rest hrest hends hn
  obtain ⟨n, rfl⟩ : ∃ k, n = k + 1 := ⟨n - 1, by omega⟩
  simp only [endsBefore, Bool.and_eq_true, decide_eq_true_eq, Option.isNone_iff_eq_none] at hends
  rw [Parser.conditional]
  refine .bind (agrees_binary ih hrest le_rfl ?_ (by omega)) (fun e' c₁ hr₁ he _ => ?_)
    (List.append_nil ts) (Nat.max_zero _)
  · simp [endsBefore, hends.1.2, hends.1.1]
  · rw [accept_bind, if_neg (by rw [hr₁.kind_eq hrest]; exact hends.2), if_neg (by decide)]
    exact .pure (Nat.zero_le _) he

theorem completes_conditional {question colon : Token} {condition yes no : Expr}
    (ihc : Completes (.expr (.binary 0) condition) ts) (hq : question.kind = .question)
    (ihy : Completes (.expr .assignment yes) us) (hcolon : colon.kind = .colon)
    (ihn : Completes (.expr .conditional no) vs) :
    Completes (.expr .conditional (.conditional node condition yes no))
      (ts ++ question :: us ++ colon :: vs) := by
  intro n c rest hrest hends hn
  obtain ⟨n, rfl⟩ : ∃ k, n = k + 1 := ⟨n - 1, by omega⟩
  have hrest' : c.rest = ts ++ (question :: (us ++ (colon :: (vs ++ rest)))) := by simpa using hrest
  rw [Parser.conditional, List.append_assoc]
  refine .bind (agrees_binary ihc hrest' le_rfl (by rw [Cursor.kindBefore_cons, hq]; rfl)
    (by omega)) (fun condition' c₁ hr₁ hcondition _ => ?_) rfl (Nat.add_max_add_left _ _ _)
  have hlen₁ := hr₁.length_le
  have hrest₁ := hr₁.rest_eq hrest'
  refine .accept hrest₁ hq fun hr₂ => ?_
  rw [if_pos rfl]
  have hrest₂ := hr₂.rest_eq hrest₁
  have hlen₂ := hr₂.length_cons
  have hbranches : (nested (do
      let yes ← Parser.assignment n
      let _ ← Parser.expect .colon "in conditional expression"
      return (yes, ← Parser.conditional n)) c₁.advance).Agrees c₁.advance (us ++ colon :: vs)
        (c.depth + (1 + max yes.nesting no.nesting))
        fun branches => branches.1.shape = yes.shape ∧ branches.2.shape = no.shape := by
    refine .nested (fun _ => ?_) (by rw [hr₂.depth, hr₁.depth]; omega)
    have hyes := ihy n c₁.advance.deeper _ hrest₂
      (by rw [Cursor.kindBefore_cons, hcolon]; rfl) (by rw [Cursor.rest_deeper]; omega)
    rw [Cursor.depth_deeper, hr₂.depth, hr₁.depth] at hyes
    have hlevels : max (c.depth + 1 + yes.nesting) (c.depth + 1 + no.nesting) =
        c.depth + (1 + max yes.nesting no.nesting) := by omega
    refine .bind hyes (fun yes' c₃ hr₃ hyes _ => ?_) rfl hlevels
    have hlen₃ := hr₃.length_le
    have hrest₃ := hr₃.rest_eq hrest₂
    rw [Cursor.rest_deeper] at hlen₃
    refine .expect hrest₃ hcolon fun hr₄ => ?_
    have hlen₄ := hr₄.length_cons
    have hr := (hr₁.trans hr₂).kindBefore rest
    have hends₄ : endsBefore .conditional (c₃.advance.kindBefore rest) := by
      rwa [hr₄.kindBefore, hr₃.kindBefore, Cursor.kindBefore_deeper, hr]
    have hno := ihn n c₃.advance rest (hr₄.rest_eq hrest₃) hends₄ (by omega)
    rw [hr₄.depth, hr₃.depth, Cursor.depth_deeper, hr₂.depth, hr₁.depth] at hno
    exact .bind hno (fun no' _ _ hno' _ => .pure (Nat.zero_le _) ⟨hyes, hno'⟩)
      (List.append_nil vs) (Nat.max_zero _)
  refine .bind hbranches (fun branches c₃ hr₃ hshapes _ => ?_) (List.append_nil _) (Nat.max_zero _)
  refine .node (.pure (Nat.zero_le _) ?_)
  simp only [Expr.shape, hcondition, hshapes.1, hshapes.2]

theorem completes_ofConditional (ih : Completes (.expr .conditional e) ts) :
    Completes (.expr .assignment e) ts := by
  intro n c rest hrest hends hn
  obtain ⟨n, rfl⟩ : ∃ k, n = k + 1 := ⟨n - 1, by omega⟩
  simp only [endsBefore, Bool.and_eq_true, Option.isNone_iff_eq_none] at hends
  rw [Parser.assignment]
  refine .bind (ih n c rest hrest ?_ (by omega)) (fun e' c₁ hr₁ he _ => ?_) (List.append_nil ts)
    (Nat.max_zero _)
  · simp only [endsBefore, Bool.and_eq_true, Option.isNone_iff_eq_none]
    exact hends.1
  · rw [here_bind, hr₁.kind_eq hrest, hends.2]
    exact .pure (Nat.zero_le _) he

theorem completes_assign {op : AssignOp} {target value : Expr}
    (iht : Completes (.expr .unary target) ts) (ha : target.isAssignable = true)
    (hop : assignOp? t.kind = some op) (ihv : Completes (.expr .assignment value) us) :
    Completes (.expr .assignment (.assign node op target value)) (ts ++ t :: us) := by
  intro n c rest hrest hends hn
  rw [List.append_assoc] at hrest
  obtain ⟨n, rfl⟩ : ∃ k, n = k + 1 := ⟨n - 1, by omega⟩
  rw [Parser.assignment]
  have hends' : endsBefore .conditional (c.kindBefore (t :: us ++ rest)) := by
    change endsBefore .conditional t.kind
    cases hk : t.kind <;> first | rfl | (rw [hk] at hop; cases hop)
  refine .bind (completes_ofBinary (completes_ofUnary iht) n c _ hrest hends' (by omega))
    (fun target' c₁ hr₁ htarget _ => ?_) rfl (Nat.add_max_add_left _ _ (1 + value.nesting))
  have hlen₁ := hr₁.length_le
  have hrest₁ := hr₁.rest_eq hrest
  rw [here_bind, Cursor.kind_of_rest hrest₁, hop]
  dsimp only
  rw [← Expr.isAssignable_shape, htarget, Expr.isAssignable_shape, ha]
  refine .take hrest₁ fun hr₂ => ?_
  have hlen₂ := hr₂.length_cons
  have hr := (hr₁.trans hr₂).kindBefore rest
  have hvalue := ihv n c₁.advance.deeper rest (hr₂.rest_eq hrest₁)
    (by rwa [Cursor.kindBefore_deeper, hr]) (by rw [Cursor.rest_deeper]; omega)
  rw [Cursor.depth_deeper, hr₂.depth, hr₁.depth] at hvalue
  have hlevels : max (c.depth + 1 + value.nesting) 0 = c.depth + (1 + value.nesting) := by omega
  refine .bind (.nested (fun _ => hvalue) (by rw [hr₂.depth, hr₁.depth]; omega))
    (fun value' c₃ hr₃ hvalue _ => ?_) (List.append_nil us) hlevels
  refine .node (.pure (Nat.zero_le _) ?_)
  simp only [Expr.shape, htarget, hvalue]

theorem completes_lastArgument (ih : Completes (.expr .assignment e) ts) :
    Completes (.arguments [e]) ts := by
  intro n c rest hrest hnext hn
  obtain ⟨n, rfl⟩ : ∃ k, n = k + 1 := ⟨n - 1, by omega⟩
  have hnesting : Expr.nestingOfAll [e] = e.nesting := Nat.max_zero _
  rw [arguments, hnesting]
  refine .bind (ih n c rest hrest (by rw [hnext]; rfl) (by omega)) (fun e' c₁ hr₁ he _ => ?_)
    (List.append_nil ts) (Nat.max_zero _)
  rw [accept_bind, if_neg (by rw [hr₁.kind_eq hrest, hnext]; decide), if_neg (by decide)]
  exact .pure (Nat.zero_le _) (by simp only [Expr.shapes, he])

theorem completes_moreArguments {comma : Token} {es : List Expr}
    (ihe : Completes (.expr .assignment e) ts) (hcomma : comma.kind = .comma)
    (ihs : Completes (.arguments es) us) : Completes (.arguments (e :: es)) (ts ++ comma :: us) := by
  intro n c rest hrest hnext hn
  rw [List.append_assoc] at hrest
  obtain ⟨n, rfl⟩ : ∃ k, n = k + 1 := ⟨n - 1, by omega⟩
  rw [arguments]
  have hends : endsBefore .assignment (c.kindBefore (comma :: us ++ rest)) := by
    rw [List.cons_append, Cursor.kindBefore_cons, hcomma]
    rfl
  refine .bind (ihe n c _ hrest hends (by omega)) (fun e' c₁ hr₁ he _ => ?_) rfl
    (Nat.add_max_add_left _ _ _)
  have hlen₁ := hr₁.length_le
  have hrest₁ := hr₁.rest_eq hrest
  refine .accept hrest₁ hcomma fun hr₂ => ?_
  rw [if_pos rfl]
  have hlen₂ := hr₂.length_cons
  have hmore := ihs n c₁.advance rest (hr₂.rest_eq hrest₁)
    (by rw [hr₂.kindBefore, hr₁.kindBefore, hnext]) (by omega)
  rw [hr₂.depth, hr₁.depth] at hmore
  exact .bind hmore (fun es' _ _ hes _ => .pure (Nat.zero_le _) (by simp only [Expr.shapes, he, hes]))
    (List.append_nil us) (Nat.max_zero _)

end Cases

/-- Tokens that spell a phrase are read as this phrase. -/
theorem completes {P : Span → List Token → Prop} {phrase : Phrase} {ts : List Token}
    (h : Derives P phrase ts) : Completes phrase ts := by
  induction h with
  | number hk =>
      exact completes_leaf (.number · _ _) (fun n c hc => by rw [primary, here_bind, hc, hk])
        (fun _ _ => rfl) rfl
  | trueWord hk =>
      exact completes_leaf (.bool · true) (fun n c hc => by rw [primary, here_bind, hc, hk])
        (fun _ _ => rfl) rfl
  | falseWord hk =>
      exact completes_leaf (.bool · false) (fun n c hc => by rw [primary, here_bind, hc, hk])
        (fun _ _ => rfl) rfl
  | string hk =>
      exact completes_leaf (.string · _) (fun n c hc => by rw [primary, here_bind, hc, hk])
        (fun _ _ => rfl) rfl
  | name hk =>
      exact completes_leaf (.name · _) (fun n c hc => by rw [primary, here_bind, hc, hk])
        (fun _ _ => rfl) rfl
  | group hl _ hr _ ih => exact completes_group hl ih hr
  | ofPrimary _ ih => exact completes_ofPrimary ih
  | subscript _ hl _ hr _ iha ihi => exact completes_subscript iha hl ihi hr
  | callNone _ hl hr _ ih => exact completes_callNone ih hl hr
  | call _ hl h hr _ ihc iha => exact completes_call ihc hl h.exists_head iha hr
  | stepAfter _ ho _ ih => exact completes_stepAfter ih ho
  | lastArgument _ ih => exact completes_lastArgument ih
  | moreArguments _ hc _ ihe ihs => exact completes_moreArguments ihe hc ihs
  | ofSuffixed h ih => exact completes_ofSuffixed h.isOperand_of_suffixed h.exists_head_of_suffixed ih
  | stepBefore ho _ _ ih => exact completes_stepBefore ho ih
  | unary ho _ _ ih => exact completes_unary ho ih
  | cast hl hs hp _ hr _ _ ih => exact completes_cast hl hs hp hr ih
  | ofUnary _ ih => exact completes_ofUnary ih
  | binary hle _ ho _ _ ihl ihr => exact completes_binary hle ihl ho ihr
  | ofBinary _ ih => exact completes_ofBinary ih
  | conditional _ hq _ hc _ _ ihc ihy ihn => exact completes_conditional ihc hq ihy hc ihn
  | ofConditional _ ih => exact completes_ofConditional ih
  | assign _ ha ho _ _ iht ihv => exact completes_assign iht ha ho ihv

theorem agrees_expression {P : Span → List Token → Prop} {c : Cursor} {e : Expr}
    {ts rest : List Token} (h : Derives P (.expr .assignment e) ts) (hrest : c.rest = ts ++ rest)
    (hends : endsBefore .assignment (c.kindBefore rest)) :
    (expression c).Agrees c ts (c.depth + e.nesting) (·.shape = e.shape) :=
  completes h _ c rest hrest hends (by rw [exprSteps]; omega)

end Parser

end KernelWeaver.Snippet
