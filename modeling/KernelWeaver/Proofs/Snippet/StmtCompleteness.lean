import KernelWeaver.Proofs.Snippet.ExprCompleteness
import KernelWeaver.Proofs.Snippet.StmtSoundness

/-!
# Every list of items is read

Tokens that spell a list of items within the limit of nesting are read as this list, up to the
numbers and places of nodes, and nothing is remarked on the way.
-/

namespace KernelWeaver.Snippet

/-- Whether a statement begins with a token of the kind. -/
def TokenKind.startsStmt : TokenKind → Bool
  | semicolon | leftBrace | ifWord | whileWord | doWord | forWord | switchWord | caseWord
  | defaultWord | breakWord | continueWord | printWord | forEachSynapse => true
  | kind => kind.startsExpr

/-- Whether an item begins with a token of the kind. -/
def TokenKind.startsItem (kind : TokenKind) : Bool := kind.startsStmt || kind.startsType

section Heads

variable {P : Span → List Token → Prop} {s : Stmt} {ts : List Token}

theorem TokenKind.startsStmt_of_startsExpr {kind : TokenKind} (h : kind.startsExpr = true) :
    kind.startsStmt = true := by
  cases kind <;> first | rfl | exact h

theorem TokenKind.startsType_of_startsStmt {kind : TokenKind} (h : kind.startsStmt = true) :
    kind.startsType = false := by
  cases kind <;> first | rfl | cases h

theorem TokenKind.ne_of_startsItem {kind : TokenKind} (h : kind.startsItem = true) :
    kind ≠ .endOfInput ∧ kind ≠ .rightBrace ∧ kind ≠ .elseWord := by
  cases kind <;> first | exact ⟨by decide, by decide, by decide⟩ | cases h

theorem SpellsEvaluation.exists_head (h : SpellsEvaluation P s ts) :
    ∃ t us, ts = t :: us ∧ t.kind.startsExpr = true := by
  cases h with
  | intro he _ _ =>
      obtain ⟨t, us, rfl, hk⟩ := he.exists_head
      exact ⟨t, _, rfl, hk⟩

theorem DerivesStmt.exists_head (h : DerivesStmt P (.statement s) ts) :
    ∃ t us, ts = t :: us ∧ t.kind.startsStmt = true := by
  cases h with
  | evaluation h =>
      obtain ⟨t, us, hts, hk⟩ := h.exists_head
      exact ⟨t, us, hts, TokenKind.startsStmt_of_startsExpr hk⟩
  | empty hk | block hk | ifThen hk | ifElse hk | whileLoop hk | doLoop hk | forLoop hk
  | switch hk | caseLabel hk | defaultLabel hk | breakLoop hk | continueLoop hk | print hk
  | eachSynapse hk => exact ⟨_, _, rfl, by rw [hk]; rfl⟩

theorem SpellsDeclaration.exists_head (h : SpellsDeclaration P s ts) :
    ∃ t us, ts = t :: us ∧ t.kind.startsType = true := by
  cases h with
  | @intro _ _ _ ss _ _ hs _ _ _ _ _ =>
      obtain ⟨t, us, rfl⟩ := List.exists_cons_of_ne_nil hs.ne_nil
      exact ⟨t, _, rfl, hs.kinds t List.mem_cons_self⟩

/-- Behind tokens that spell items there is nothing to continue a statement, if there is nothing
behind all of the items. -/
theorem DerivesStmt.kindBefore_items {c : Cursor} {ss : List Stmt} {rest : List Token}
    (h : DerivesStmt P (.items ss) ts) (hrest : (c.kindBefore rest) ≠ .elseWord) :
    c.kindBefore (ts ++ rest) ≠ .elseWord := by
  cases h with
  | nil => exact hrest
  | declaration h _ =>
      obtain ⟨t, us, rfl, hk⟩ := h.exists_head
      intro helse
      rw [show t.kind = .elseWord from helse] at hk
      cases hk
  | statement h _ =>
      obtain ⟨t, us, rfl, hk⟩ := h.exists_head
      intro helse
      rw [show t.kind = .elseWord from helse] at hk
      cases hk

theorem SpellsDeclarators.exists_head {names : List Declarator}
    (h : SpellsDeclarators P names ts) :
    ∃ t us, ts = t :: us ∧ t.kind.startsType = false := by
  have hone : ∀ {d us}, SpellsDeclarator P d us →
      ∃ t vs, us = t :: vs ∧ t.kind.startsType = false := by
    intro d us h
    cases h with
    | intro hp hname _ _ =>
        cases hp with
        | none => exact ⟨_, _, rfl, by rw [hname]; rfl⟩
        | plain hk | const hk => exact ⟨_, _, rfl, by rw [hk]; rfl⟩
  cases h with
  | last h => exact hone h
  | more h _ _ =>
      obtain ⟨t, us, rfl, hk⟩ := hone h
      exact ⟨t, _, rfl, hk⟩

end Heads

/-- Reading ended behind `ts` with a value of which `Q` holds. -/
abbrev Outcome.Yields {α : Type} (c : Cursor) (ts : List Token) (Q : α → Prop) : Outcome α → Prop :=
  Outcome.Agrees c ts 0 Q

/-- Within the limit reading ends. -/
theorem Outcome.Agrees.yields {α : Type} {c : Cursor} {ts : List Token} {levels : Nat}
    {Q : α → Prop} {o : Outcome α} (h : o.Agrees c ts levels Q) (hl : levels ≤ Parser.maxDepth) :
    o.Yields c ts Q := by
  rcases h with ⟨-, h⟩ | ⟨hdeep, -⟩
  · exact .inl ⟨Nat.zero_le _, h⟩
  · omega

theorem Outcome.Yields.exists {α : Type} {c : Cursor} {ts : List Token} {Q : α → Prop}
    {o : Outcome α} (h : o.Yields c ts Q) : ∃ c' a, o = .done a c' ∧ c.Reads ts c' ∧ Q a := by
  rcases h with ⟨-, c', hr, a, hrun, hq⟩ | ⟨hdeep, -⟩
  · exact ⟨c', a, hrun, hr, hq⟩
  · omega

/-- Reading a nested form yields what reading the form one level deeper does. -/
theorem Outcome.Reaches.nested_of_le {α : Type} {c : Cursor} {ts : List Token} {Q : α → Prop}
    {p : Parser α} (hdepth : c.depth + 1 ≤ Parser.maxDepth)
    (h : (p c.deeper).Yields c.deeper ts Q) : (Parser.nested p c).Yields c ts Q := by
  refine Agrees.yields (.nested (fun _ => ?_) le_rfl) hdepth
  rcases h with ⟨-, h⟩ | ⟨hdeep, -⟩
  · exact .inl ⟨hdepth, h⟩
  · omega

namespace Parser

variable {P : Span → List Token → Prop} {c : Cursor} {ts us rest : List Token} {e : Expr}
  {s : Stmt}

theorem yields_expression (h : Derives P (.expr .assignment e) ts) (hrest : c.rest = ts ++ rest)
    (hends : endsBefore .assignment (c.kindBefore rest)) (hl : c.depth + e.nesting ≤ maxDepth) :
    (expression c).Yields c ts (·.shape = e.shape) :=
  (agrees_expression h hrest hends).yields hl

theorem yields_value {β : Type} {value : Option Expr} {f : Option Expr → Parser β} {R : β → Prop}
    (h : SpellsValue P value ts) (hrest : c.rest = ts ++ rest)
    (hends : endsBefore .assignment (c.kindBefore rest)) (hne : c.kindBefore rest ≠ .equal)
    (hl : c.depth + Expr.nestingOfOption value ≤ maxDepth)
    (hf : ∀ value' c', c.Reads ts c' → Expr.shapeOfOption value' = Expr.shapeOfOption value →
      (f value' c').Yields c' us R) :
    ((do if ← accept .equal then some <$> expression >>= f else Pure.pure none >>= f) c).Yields
      c (ts ++ us) R := by
  cases h with
  | none =>
      rw [accept_bind, if_neg (by rwa [(Cursor.Reads.refl c).kind_eq hrest])]
      exact hf none c (.refl c) rfl
  | @some _ vs e hk he =>
      refine .accept hrest hk fun hr₁ => ?_
      rw [if_pos rfl]
      have hvalue := yields_expression he (hr₁.rest_eq hrest) (by rwa [hr₁.kindBefore])
        (hr₁.depth ▸ hl)
      have hsome : ((some <$> expression) c.advance).Yields c.advance vs fun value' =>
          Expr.shapeOfOption value' = Expr.shapeOfOption (some e) :=
        .map hvalue fun e' he' => congrArg some he'
      refine .bind hsome ?_ rfl rfl
      exact fun value' c' hr₂ hvalue' _ => hf value' c' (hr₁.trans hr₂) hvalue'

theorem yields_declarator {d : Declarator} {n : Nat} {R : List Declarator → Prop}
    (h : SpellsDeclarator P d ts) (hrest : c.rest = ts ++ rest)
    (hends : endsBefore .assignment (c.kindBefore rest)) (hne : c.kindBefore rest ≠ .equal)
    (hl : c.depth + Expr.nestingOfOption d.init ≤ maxDepth)
    (hf : ∀ d' c', c.Reads ts c' → d'.shape = d.shape →
      ((do if ← accept .comma then return d' :: (← declarators n) else return [d']) c').Yields
        c' us R) :
    (declarators (n + 1) c).Yields c (ts ++ us) R := by
  cases h with
  | @intro _ _ _ _ ps vs t hp hname hvalue _ =>
      rw [List.append_assoc] at hrest
      rw [declarators, hereSpan_bind]
      have hnext : c.kindBefore (t :: vs ++ rest) = .identifier := hname
      refine .bind (agrees_pointerMark (Nat.zero_le _) hp hrest (by rw [hnext]; decide)
        (by rw [hnext]; decide)) (fun pointer c₁ hr₁ hpointer _ => ?_) (List.append_assoc _ _ _).symm
          rfl
      have hrest₁ := hr₁.rest_eq hrest
      have hr₂ := Cursor.reads_of_rest hrest₁
      have hr := hr₁.trans hr₂
      rw [bind_of_done (by rw [expectName, if_pos ((Cursor.kind_of_rest hrest₁).trans hname)])]
      refine .after hr₂ (yields_value hvalue (hr₂.rest_eq hrest₁) (by rwa [hr.kindBefore])
        (by rwa [hr.kindBefore]) (hr.depth ▸ hl) fun value c₃ hr₃ hshape => ?_) rfl
      beta_reduce
      rw [spanFrom_bind, freshId_bind]
      refine .after (.fresh c₃) (hf _ _ ?_ ?_) rfl
      · simpa using hr.trans (hr₃.trans (.fresh c₃))
      · rw [Declarator.shape, Declarator.shape, Cursor.current_of_rest hrest₁, hpointer, hshape]

theorem yields_declarators {names : List Declarator} (h : SpellsDeclarators P names ts)
    (n : Nat) (hrest : c.rest = ts ++ rest) (hnext : c.kindBefore rest = .semicolon)
    (hn : c.rest.length + 1 ≤ n) (hl : c.depth + Declarator.nestingOfAll names ≤ maxDepth) :
    (declarators n c).Yields c ts (·.map Declarator.shape = names.map Declarator.shape) := by
  induction h generalizing n c with
  | @last d ts h =>
      obtain ⟨n, rfl⟩ : ∃ k, n = k + 1 := ⟨n - 1, by omega⟩
      rw [← List.append_nil ts]
      refine yields_declarator h hrest (by rw [hnext]; rfl) (by rw [hnext]; decide)
        (by simpa [Declarator.nestingOfAll] using hl) fun d' c' hr hd => ?_
      rw [accept_bind, if_neg (by rw [hr.kind_eq hrest, hnext]; decide), if_neg (by decide)]
      exact .pure (Nat.zero_le _) (by rw [List.map_singleton, List.map_singleton, hd])
  | @more d ds comma ts us h hk hmore ih =>
      obtain ⟨n, rfl⟩ : ∃ k, n = k + 1 := ⟨n - 1, by omega⟩
      rw [List.append_assoc] at hrest
      have hcomma : c.kindBefore (comma :: us ++ rest) = .comma := hk
      rw [Declarator.nestingOfAll] at hl
      refine yields_declarator h hrest (by rw [hcomma]; rfl) (by rw [hcomma]; decide) (by omega)
        fun d' c' hr hd => ?_
      have hrest' := hr.rest_eq hrest
      have hlen' := hr.length_le
      refine .accept hrest' hk fun hr₂ => ?_
      have hlen₂ := hr₂.length_cons
      rw [if_pos rfl]
      have hd₂ := hr₂.depth.trans hr.depth
      refine .bind (ih n (hr₂.rest_eq hrest') (by rwa [(hr.trans hr₂).kindBefore]) (by omega)
        (by omega)) (fun ds' _ _ hds _ => .pure (Nat.zero_le _) ?_) (List.append_nil us) rfl
      rw [List.map_cons, List.map_cons, hd, hds]

theorem yields_declaration (h : SpellsDeclaration P s ts) (hrest : c.rest = ts ++ rest)
    (hl : c.depth + s.innerNesting ≤ maxDepth) :
    (declaration c).Yields c ts (·.shape = s.shape) := by
  cases h with
  | @intro span type names ss ts semicolon hs hp _ hnames hk _ =>
      simp only [List.append_assoc] at hrest ⊢
      have hstop : (c.kindBefore (ts ++ ([semicolon] ++ rest))).startsType = false := by
        obtain ⟨t, us, rfl, hstar⟩ := hnames.exists_head
        exact hstar
      rw [declaration, hereSpan_bind]
      refine .bind (agrees_specifiers (Nat.zero_le _) hs hrest hstop)
        (fun type' c₁ hr₁ htype _ => ?_) rfl rfl
      have hrest₁ := hr₁.rest_eq hrest
      rw [here_bind]
      refine .bind (yields_declarators hnames _ hrest₁ hk le_rfl (hr₁.depth ▸ hl))
        (fun names' c₂ hr₂ hshapes _ => ?_) rfl rfl
      refine .expect (hr₂.rest_eq hrest₁) hk fun hr₃ => ?_
      rw [spanFrom_bind]
      refine .pure (Nat.zero_le _) ?_
      rw [Stmt.shape, Stmt.shape, hshapes, htype.1, htype.2.1, htype.2.2, ← hp]

theorem yields_evaluation (h : SpellsEvaluation P s ts) (hrest : c.rest = ts ++ rest)
    (hl : c.depth + s.innerNesting ≤ maxDepth) :
    (exprStatement c).Yields c ts (·.shape = s.shape) := by
  have hhead := h.exists_head
  cases h with
  | @intro span e ts semicolon he hk _ =>
      have hkind : c.kind ≠ .semicolon := by
        obtain ⟨t, us, hts, ht⟩ := hhead
        rw [hts] at hrest
        rw [Cursor.kind_of_rest hrest]
        rintro heq
        rw [heq] at ht
        cases ht
      rw [List.append_assoc] at hrest
      have hends : endsBefore .assignment (c.kindBefore ([semicolon] ++ rest)) := by
        rw [List.cons_append, Cursor.kindBefore_cons, hk]
        rfl
      rw [exprStatement, hereSpan_bind, accept_bind, if_neg hkind, if_neg (by decide)]
      refine .bind (yields_expression he hrest hends hl) (fun e' c₁ hr₁ he' _ => ?_) rfl rfl
      refine .expect (hr₁.rest_eq hrest) hk fun _ => ?_
      rw [spanFrom_bind]
      refine .pure (Nat.zero_le _) ?_
      rw [Stmt.shape, Stmt.shape, Expr.shapeOfOption, Expr.shapeOfOption, Option.map_some, he']
      rfl

theorem yields_condition (keyword : String) (h : SpellsCondition P e ts)
    (hrest : c.rest = ts ++ rest) (hl : c.depth + e.nesting ≤ maxDepth) :
    (condition keyword c).Yields c ts (·.shape = e.shape) := by
  cases h with
  | @intro left right ts hleft he hright =>
      rw [List.append_assoc] at hrest
      rw [condition]
      refine .expect hrest hleft fun hr₁ => ?_
      have hrest₁ := hr₁.rest_eq hrest
      have hends : endsBefore .assignment (c.advance.kindBefore ([right] ++ rest)) := by
        rw [List.cons_append, Cursor.kindBefore_cons, hright]
        rfl
      refine .bind (yields_expression he hrest₁ hends (hr₁.depth ▸ hl))
        (fun e' c₂ hr₂ he' _ => ?_) rfl rfl
      exact .expect (hr₂.rest_eq hrest₁) hright fun _ => .pure (Nat.zero_le _) he'

theorem yields_forInit {init : Option Stmt} (h : SpellsForInit P init ts)
    (hrest : c.rest = ts ++ rest) (hl : c.depth + Stmt.nestingOfInit init ≤ maxDepth) :
    (forInit c).Yields c ts (Stmt.shapeOfOption · = Stmt.shapeOfOption init) := by
  rw [forInit, here_bind]
  cases h with
  | none hk =>
      rw [if_pos ((Cursor.kind_of_rest hrest).trans hk)]
      exact .take hrest fun _ => .pure (Nat.zero_le _) rfl
  | declaration h =>
      have htype : c.kind.startsType = true := by
        obtain ⟨t, us, rfl, ht⟩ := h.exists_head
        rwa [Cursor.kind_of_rest hrest]
      have hkind : c.kind ≠ .semicolon := by
        rintro heq
        rw [heq] at htype
        cases htype
      rw [if_neg hkind, if_pos htype]
      exact .map (yields_declaration h hrest hl) fun s' hs => congrArg some hs
  | evaluation h =>
      have hexpr : c.kind.startsExpr = true := by
        obtain ⟨t, us, rfl, ht⟩ := h.exists_head
        rwa [Cursor.kind_of_rest hrest]
      have hkind : c.kind ≠ .semicolon := by
        rintro heq
        rw [heq] at hexpr
        cases hexpr
      rw [if_neg hkind, if_neg (by rw [TokenKind.startsType_of_startsExpr hexpr]; decide)]
      exact .map (yields_evaluation h hrest hl) fun s' hs => congrArg some hs

theorem yields_optionalBefore {kind : TokenKind} {value : Option Expr}
    (h : SpellsClause P value ts) (hrest : c.rest = ts ++ rest) (hnext : c.kindBefore rest = kind)
    (hends : endsBefore .assignment kind) (hstart : kind.startsExpr = false)
    (hl : c.depth + Expr.nestingOfOption value ≤ maxDepth) :
    (optionalBefore kind c).Yields c ts
      (Expr.shapeOfOption · = Expr.shapeOfOption value) := by
  rw [optionalBefore, here_bind]
  cases h with
  | none =>
      rw [if_pos (((Cursor.Reads.refl c).kind_eq hrest).trans hnext)]
      exact .pure (Nat.zero_le _) rfl
  | some he =>
      have hkind : c.kind ≠ kind := by
        obtain ⟨t, us, rfl, ht⟩ := he.exists_head
        rw [Cursor.kind_of_rest hrest]
        rintro rfl
        rw [hstart] at ht
        cases ht
      rw [if_neg hkind]
      exact .map (yields_expression he hrest (hnext ▸ hends) hl) fun e' he' => congrArg some he'

/-- Tokens that spell a phrase are read as this phrase wherever they stand. -/
def CompletesStmt : StmtPhrase → List Token → Prop
  | .statement s, ts => ∀ n c rest, c.rest = ts ++ rest → 4 * c.rest.length + 2 ≤ n →
    c.depth + (s.innerNesting + 1) ≤ maxDepth →
    (s.isOpen = true → c.kindBefore rest ≠ .elseWord) →
    (statement n c).Yields c ts (·.shape = s.shape)
  | .items ss, ts => ∀ n inBlock c rest, c.rest = ts ++ rest → 4 * c.rest.length + 4 ≤ n →
    c.depth + Stmt.nestingOfItems ss ≤ maxDepth →
    (c.kindBefore rest = .endOfInput ∨ inBlock = true ∧ c.kindBefore rest = .rightBrace) →
    (Outcome.done (items n inBlock c).1 (items n inBlock c).2).Yields c ts
      (Stmt.shapes · = Stmt.shapes ss)

/-- Tokens that spell a statement are read as this statement once its level has been entered. -/
def CompletesBare (s : Stmt) (ts : List Token) : Prop :=
  ∀ n c rest, c.rest = ts ++ rest → 4 * c.rest.length + 1 ≤ n + 1 →
    c.depth + s.innerNesting ≤ maxDepth → (s.isOpen = true → c.kindBefore rest ≠ .elseWord) →
    (bareStatement (n + 1) c).Yields c ts (·.shape = s.shape)

section Cases

variable {span : Span} {word : Token} {test : Expr} {body : Stmt} {vs : List Token}

theorem completes_of_bare (h : CompletesBare s ts) : CompletesStmt (.statement s) ts := by
  intro n c rest hrest hn hl hopen
  obtain ⟨n, rfl⟩ : ∃ k, n = k + 2 := ⟨n - 2, by omega⟩
  rw [statement]
  exact .nested_of_le (by omega) (h n c.deeper rest hrest (by rw [Cursor.rest_deeper]; omega)
    (by rw [Cursor.depth_deeper]; omega) hopen)

/-- The last part of a statement that ends with another one. -/
theorem yields_body {n : Nat} {start : Span} (make : Span → Stmt → Stmt)
    (hmake : ∀ span' body', body'.shape = body.shape → (make span' body').shape = s.shape)
    (ih : CompletesStmt (.statement body) ts) (hrest : c.rest = ts ++ rest)
    (hn : 4 * c.rest.length + 2 ≤ n) (hl : c.depth + (body.innerNesting + 1) ≤ maxDepth)
    (hopen : body.isOpen = true → c.kindBefore rest ≠ .elseWord) :
    ((do let body ← statement n; return make (← spanFrom start) body) c).Yields c ts
      (fun s' : Stmt => s'.shape = s.shape) := by
  refine .bind (ih n c rest hrest hn hl hopen) (fun body' _ _ hbody _ => ?_) (List.append_nil ts) rfl
  rw [spanFrom_bind]
  exact .pure (Nat.zero_le _) (hmake _ body' hbody)

/-- A keyword with a condition and a body. -/
theorem yields_conditioned {n : Nat} {start : Span} (make : Span → Expr → Stmt → Stmt)
    (keyword : String)
    (hmake : ∀ span' test' body', Expr.shape test' = test.shape → body'.shape = body.shape →
      (make span' test' body').shape = s.shape)
    (htest : SpellsCondition P test us) (ih : CompletesStmt (.statement body) vs)
    (hrest : c.rest = word :: us ++ vs ++ rest) (hn : 4 * c.rest.length + 1 ≤ n + 1)
    (hl : c.depth + max test.nesting (body.innerNesting + 1) ≤ maxDepth)
    (hopen : body.isOpen = true → c.kindBefore rest ≠ .elseWord) :
    ((do
        let _ ← take
        let test ← condition keyword
        let body ← statement n
        return make (← spanFrom start) test body) c).Yields c (word :: us ++ vs)
      (fun s' : Stmt => s'.shape = s.shape) := by
  rw [List.append_assoc] at hrest
  refine .take hrest fun hr₁ => ?_
  have hrest₁ := hr₁.rest_eq hrest
  have hlen₁ := hr₁.length_cons
  have hd₁ := hr₁.depth
  refine .bind (yields_condition keyword htest hrest₁ (by omega)) (fun test' c₂ hr₂ htest' _ => ?_)
    rfl rfl
  have hlen₂ := hr₂.length_le
  have hd₂ := hr₂.depth
  exact yields_body (make · test' ·) (fun _ _ => hmake _ _ _ htest') ih (hr₂.rest_eq hrest₁)
    (by omega) (by omega) (by rwa [(hr₁.trans hr₂).kindBefore])

theorem bare_evaluation (h : SpellsEvaluation P s ts) : CompletesBare s ts := by
  intro n c rest hrest hn hl _
  have hexpr : c.kind.startsExpr = true := by
    obtain ⟨t, us, rfl, ht⟩ := h.exists_head
    rwa [Cursor.kind_of_rest hrest]
  have heval := yields_evaluation h hrest hl
  rw [bareStatement, hereSpan_bind, here_bind]
  cases hk : c.kind <;> first | exact heval | (rw [hk] at hexpr; cases hexpr)

theorem bare_empty {t : Token} (hk : t.kind = .semicolon) :
    CompletesBare (.expr span none) [t] := by
  intro n c rest hrest _ _ _
  rw [bareStatement, hereSpan_bind, here_bind, Cursor.kind_of_rest hrest, hk]
  change Outcome.Yields c [t] _ (exprStatement c)
  rw [exprStatement, hereSpan_bind]
  refine .accept hrest hk fun _ => ?_
  rw [if_pos rfl]
  exact .pure (Nat.zero_le _) rfl

theorem bare_block {left right : Token} {ss : List Stmt} (hl : left.kind = .leftBrace)
    (ih : CompletesStmt (.items ss) ts) (hr : right.kind = .rightBrace) :
    CompletesBare (.block span ss) (left :: ts ++ [right]) := by
  intro n c rest hrest hn hlevels _
  rw [List.append_assoc] at hrest
  rw [bareStatement, hereSpan_bind, here_bind, Cursor.kind_of_rest hrest, hl]
  refine .take hrest fun hr₁ => ?_
  have hrest₁ := hr₁.rest_eq hrest
  have hlen₁ := hr₁.length_cons
  refine .bind (ih n true c.advance ([right] ++ rest) hrest₁ (by omega) (hr₁.depth ▸ hlevels)
    (.inr ⟨rfl, hr⟩)) (fun ss' c₂ hr₂ hss _ => ?_) rfl rfl
  refine .expect (hr₂.rest_eq hrest₁) hr fun _ => ?_
  rw [spanFrom_bind]
  refine .pure (Nat.zero_le _) ?_
  rw [Stmt.shape, Stmt.shape, hss]

theorem bare_ifThen {yes : Stmt} (hk : word.kind = .ifWord) (htest : SpellsCondition P test ts)
    (ih : CompletesStmt (.statement yes) us) :
    CompletesBare (.ifElse span test yes none) (word :: ts ++ us) := by
  intro n c rest hrest hn hl hopen
  rw [List.append_assoc] at hrest
  rw [Stmt.innerNesting] at hl
  rw [bareStatement, hereSpan_bind, here_bind, Cursor.kind_of_rest hrest, hk]
  refine .take hrest fun hr₁ => ?_
  have hrest₁ := hr₁.rest_eq hrest
  have hlen₁ := hr₁.length_cons
  have hd₁ := hr₁.depth
  refine .bind (yields_condition "if" htest hrest₁ (by omega)) (fun test' c₂ hr₂ htest' _ => ?_)
    rfl rfl
  have hrest₂ := hr₂.rest_eq hrest₁
  have hlen₂ := hr₂.length_le
  have hd₂ := hr₂.depth
  have hnext : c₂.kindBefore rest ≠ .elseWord := by
    rw [(hr₁.trans hr₂).kindBefore]
    exact hopen rfl
  refine .bind (ih n c₂ rest hrest₂ (by omega) (by omega) fun _ => hnext)
    (fun yes' c₃ hr₃ hyes _ => ?_) (List.append_nil us) rfl
  rw [accept_bind, if_neg (by rwa [hr₃.kind_eq hrest₂]), if_neg (by decide), pure_bind]
  beta_reduce
  rw [spanFrom_bind]
  refine .pure (Nat.zero_le _) ?_
  rw [Stmt.shape, Stmt.shape, htest', hyes]

theorem bare_ifElse {elseWord : Token} {yes no : Stmt} (hk : word.kind = .ifWord)
    (htest : SpellsCondition P test ts) (ihy : CompletesStmt (.statement yes) us)
    (hclosed : yes.isOpen = false) (helse : elseWord.kind = .elseWord)
    (ihn : CompletesStmt (.statement no) vs) :
    CompletesBare (.ifElse span test yes (some no)) (word :: ts ++ us ++ elseWord :: vs) := by
  intro n c rest hrest hn hl hopen
  simp only [List.append_assoc] at hrest ⊢
  rw [Stmt.innerNesting, Stmt.nestingOfElse] at hl
  rw [bareStatement, hereSpan_bind, here_bind, Cursor.kind_of_rest hrest, hk]
  refine .take hrest fun hr₁ => ?_
  have hrest₁ := hr₁.rest_eq hrest
  have hlen₁ := hr₁.length_cons
  have hd₁ := hr₁.depth
  refine .bind (yields_condition "if" htest hrest₁ (by omega)) (fun test' c₂ hr₂ htest' _ => ?_)
    rfl rfl
  have hrest₂ := hr₂.rest_eq hrest₁
  have hlen₂ := hr₂.length_le
  have hd₂ := hr₂.depth
  refine .bind (ihy n c₂ _ hrest₂ (by omega) (by omega)
    fun h => absurd h (by rw [hclosed]; decide)) (fun yes' c₃ hr₃ hyes _ => ?_) rfl rfl
  have hrest₃ := hr₃.rest_eq hrest₂
  have hlen₃ := hr₃.length_le
  refine .accept hrest₃ helse fun hr₄ => ?_
  have hlen₄ := hr₄.length_cons
  rw [if_pos rfl]
  have hr := hr₁.trans (hr₂.trans (hr₃.trans hr₄))
  have hno := ihn n c₃.advance rest (hr₄.rest_eq hrest₃) (by omega) (by rw [hr.depth]; omega)
    (by rwa [hr.kindBefore])
  have hsome : ((some <$> statement n) c₃.advance).Yields c₃.advance vs fun no' =>
      Stmt.shapeOfOption no' = Stmt.shapeOfOption (some no) :=
    .map hno fun no' h => congrArg some h
  refine .bind hsome (fun no' c₅ _ hno' _ => ?_) (List.append_nil vs) rfl
  beta_reduce
  rw [spanFrom_bind]
  refine .pure (Nat.zero_le _) ?_
  rw [Stmt.shape, Stmt.shape, htest', hyes, hno']

theorem bare_doLoop {whileWord semicolon : Token} (hk : word.kind = .doWord)
    (ih : CompletesStmt (.statement body) ts) (hwhile : whileWord.kind = .whileWord)
    (htest : SpellsCondition P test us) (hsemicolon : semicolon.kind = .semicolon) :
    CompletesBare (.doLoop span body test) (word :: ts ++ whileWord :: us ++ [semicolon]) := by
  intro n c rest hrest hn hl _
  simp only [List.append_assoc] at hrest ⊢
  rw [Stmt.innerNesting] at hl
  rw [bareStatement, hereSpan_bind, here_bind, Cursor.kind_of_rest hrest, hk]
  refine .take hrest fun hr₁ => ?_
  have hrest₁ := hr₁.rest_eq hrest
  have hlen₁ := hr₁.length_cons
  have hd₁ := hr₁.depth
  have helse : c.advance.kindBefore (whileWord :: us ++ ([semicolon] ++ rest)) ≠ .elseWord := by
    rw [List.cons_append, Cursor.kindBefore_cons, hwhile]
    decide
  refine .bind (ih n c.advance _ hrest₁ (by omega) (by omega) fun _ => helse)
    (fun body' c₂ hr₂ hbody _ => ?_) rfl rfl
  have hrest₂ := hr₂.rest_eq hrest₁
  refine .expect hrest₂ hwhile fun hr₃ => ?_
  have hrest₃ := hr₃.rest_eq hrest₂
  have hd₃ := hr₃.depth.trans hr₂.depth
  refine .bind (yields_condition "do-while" htest hrest₃ (by omega))
    (fun test' c₄ hr₄ htest' _ => ?_) rfl rfl
  refine .expect (hr₄.rest_eq hrest₃) hsemicolon fun _ => ?_
  rw [spanFrom_bind]
  refine .pure (Nat.zero_le _) ?_
  rw [Stmt.shape, Stmt.shape, htest', hbody]

theorem bare_forLoop {left semicolon right : Token} {init : Option Stmt}
    {test step : Option Expr} {is : List Token} (hk : word.kind = .forWord)
    (hleft : left.kind = .leftParen) (hinit : SpellsForInit P init is)
    (htest : SpellsClause P test ts) (hsemicolon : semicolon.kind = .semicolon)
    (hstep : SpellsClause P step us) (hright : right.kind = .rightParen)
    (ih : CompletesStmt (.statement body) vs) :
    CompletesBare (.forLoop span init test step body)
      (word :: left :: is ++ ts ++ semicolon :: us ++ right :: vs) := by
  intro n c rest hrest hn hl hopen
  simp only [List.append_assoc] at hrest ⊢
  rw [Stmt.innerNesting] at hl
  rw [bareStatement, hereSpan_bind, here_bind, Cursor.kind_of_rest hrest, hk]
  refine .take hrest fun hr₁ => ?_
  have hrest₁ := hr₁.rest_eq hrest
  refine .expect hrest₁ hleft fun hr₂ => ?_
  have hrest₂ := hr₂.rest_eq hrest₁
  have hd₂ := hr₂.depth.trans hr₁.depth
  refine .bind (yields_forInit hinit hrest₂ (by omega)) (fun init' c₃ hr₃ hinit' _ => ?_) rfl rfl
  have hrest₃ := hr₃.rest_eq hrest₂
  have hd₃ := hr₃.depth.trans hd₂
  refine .bind (yields_optionalBefore htest hrest₃ hsemicolon rfl rfl (by omega))
    (fun test' c₄ hr₄ htest' _ => ?_) rfl rfl
  have hrest₄ := hr₄.rest_eq hrest₃
  refine .expect hrest₄ hsemicolon fun hr₅ => ?_
  have hrest₅ := hr₅.rest_eq hrest₄
  have hd₅ := hr₅.depth.trans (hr₄.depth.trans hd₃)
  refine .bind (yields_optionalBefore hstep hrest₅ hright rfl rfl (by omega))
    (fun step' c₆ hr₆ hstep' _ => ?_) rfl rfl
  have hrest₆ := hr₆.rest_eq hrest₅
  refine .expect hrest₆ hright fun hr₇ => ?_
  have hr := hr₁.trans (hr₂.trans (hr₃.trans (hr₄.trans (hr₅.trans (hr₆.trans hr₇)))))
  have hlen := hr.length
  simp only [List.length_append, List.length_singleton] at hlen
  refine yields_body (.forLoop · init' test' step' ·) (fun _ body' hbody => ?_) ih
    (hr₇.rest_eq hrest₆) (by omega) (by rw [hr.depth]; omega) (by rwa [hr.kindBefore])
  rw [Stmt.shape, Stmt.shape, hinit', htest', hstep', hbody]

theorem bare_caseLabel {colon : Token} (hk : word.kind = .caseWord)
    (he : Derives P (.expr .assignment e) ts) (hcolon : colon.kind = .colon)
    (ih : CompletesStmt (.statement body) us) :
    CompletesBare (.caseLabel span e body) (word :: ts ++ colon :: us) := by
  intro n c rest hrest hn hl hopen
  simp only [List.append_assoc] at hrest ⊢
  rw [Stmt.innerNesting] at hl
  rw [bareStatement, hereSpan_bind, here_bind, Cursor.kind_of_rest hrest, hk]
  refine .take hrest fun hr₁ => ?_
  have hrest₁ := hr₁.rest_eq hrest
  have hd₁ := hr₁.depth
  have hends : endsBefore .assignment (c.advance.kindBefore (colon :: us ++ rest)) := by
    rw [List.cons_append, Cursor.kindBefore_cons, hcolon]
    rfl
  refine .bind (yields_expression he hrest₁ hends (by omega)) (fun e' c₂ hr₂ he' _ => ?_) rfl rfl
  have hrest₂ := hr₂.rest_eq hrest₁
  refine .expect hrest₂ hcolon fun hr₃ => ?_
  have hr := hr₁.trans (hr₂.trans hr₃)
  have hlen := hr.length
  simp only [List.length_append, List.length_singleton] at hlen
  refine yields_body (.caseLabel · e' ·) (fun _ body' hbody => ?_) ih (hr₃.rest_eq hrest₂)
    (by omega) (by rw [hr.depth]; omega) (by rwa [hr.kindBefore])
  rw [Stmt.shape, Stmt.shape, he', hbody]

theorem bare_defaultLabel {colon : Token} (hk : word.kind = .defaultWord)
    (hcolon : colon.kind = .colon) (ih : CompletesStmt (.statement body) ts) :
    CompletesBare (.defaultLabel span body) (word :: colon :: ts) := by
  intro n c rest hrest hn hl hopen
  rw [Stmt.innerNesting] at hl
  rw [bareStatement, hereSpan_bind, here_bind, Cursor.kind_of_rest hrest, hk]
  refine .take hrest fun hr₁ => ?_
  have hrest₁ := hr₁.rest_eq hrest
  refine .expect hrest₁ hcolon fun hr₂ => ?_
  have hr := hr₁.trans hr₂
  have hlen := hr.length_cons
  refine yields_body .defaultLabel (fun _ body' hbody => ?_) ih (hr₂.rest_eq hrest₁) (by omega)
    (by rw [hr.depth]; omega) (by rwa [hr.kindBefore])
  rw [Stmt.shape, Stmt.shape, hbody]

theorem bare_breakLoop {semicolon : Token} (hk : word.kind = .breakWord)
    (hsemicolon : semicolon.kind = .semicolon) :
    CompletesBare (.breakLoop span) [word, semicolon] := by
  intro n c rest hrest _ _ _
  rw [bareStatement, hereSpan_bind, here_bind, Cursor.kind_of_rest hrest, hk]
  refine .take hrest fun hr₁ => .expect (hr₁.rest_eq hrest) hsemicolon fun _ => ?_
  rw [spanFrom_bind]
  exact .pure (Nat.zero_le _) (by rw [Stmt.shape, Stmt.shape])

theorem bare_continueLoop {semicolon : Token} (hk : word.kind = .continueWord)
    (hsemicolon : semicolon.kind = .semicolon) :
    CompletesBare (.continueLoop span) [word, semicolon] := by
  intro n c rest hrest _ _ _
  rw [bareStatement, hereSpan_bind, here_bind, Cursor.kind_of_rest hrest, hk]
  refine .take hrest fun hr₁ => .expect (hr₁.rest_eq hrest) hsemicolon fun _ => ?_
  rw [spanFrom_bind]
  exact .pure (Nat.zero_le _) (by rw [Stmt.shape, Stmt.shape])

theorem bare_print {semicolon : Token} (hk : word.kind = .printWord)
    (he : Derives P (.expr .assignment e) ts) (hsemicolon : semicolon.kind = .semicolon) :
    CompletesBare (.print span e) (word :: ts ++ [semicolon]) := by
  intro n c rest hrest hn hl _
  rw [List.append_assoc] at hrest
  rw [bareStatement, hereSpan_bind, here_bind, Cursor.kind_of_rest hrest, hk]
  refine .take hrest fun hr₁ => ?_
  have hrest₁ := hr₁.rest_eq hrest
  have hends : endsBefore .assignment (c.advance.kindBefore ([semicolon] ++ rest)) := by
    rw [List.cons_append, Cursor.kindBefore_cons, hsemicolon]
    rfl
  refine .bind (yields_expression he hrest₁ hends (hr₁.depth ▸ hl)) (fun e' c₂ hr₂ he' _ => ?_)
    rfl rfl
  refine .expect (hr₂.rest_eq hrest₁) hsemicolon fun _ => ?_
  rw [spanFrom_bind]
  refine .pure (Nat.zero_le _) ?_
  rw [Stmt.shape, Stmt.shape, he']

theorem bare_eachSynapse (hk : word.kind = .forEachSynapse)
    (ih : CompletesStmt (.statement body) ts) :
    CompletesBare (.eachSynapse span body) (word :: ts) := by
  intro n c rest hrest hn hl hopen
  rw [Stmt.innerNesting] at hl
  rw [bareStatement, hereSpan_bind, here_bind, Cursor.kind_of_rest hrest, hk]
  refine .take hrest fun hr₁ => ?_
  have hlen := hr₁.length_cons
  refine yields_body .eachSynapse (fun _ body' hbody => ?_) ih (hr₁.rest_eq hrest) (by omega)
    (by rw [hr₁.depth]; omega) (by rwa [hr₁.kindBefore])
  rw [Stmt.shape, Stmt.shape, hbody]

theorem bare_while (hk : word.kind = .whileWord) (htest : SpellsCondition P test ts)
    (ih : CompletesStmt (.statement body) us) :
    CompletesBare (.whileLoop span test body) (word :: ts ++ us) := by
  intro n c rest hrest hn hl hopen
  rw [bareStatement, hereSpan_bind, here_bind,
    Cursor.kind_of_rest (hrest.trans (List.append_assoc _ _ _)), hk]
  exact yields_conditioned .whileLoop "while" (fun _ test' body' ht hb => by
    rw [Stmt.shape, Stmt.shape, ht, hb]) htest ih hrest hn hl hopen

theorem bare_switch (hk : word.kind = .switchWord) (htest : SpellsCondition P test ts)
    (ih : CompletesStmt (.statement body) us) :
    CompletesBare (.switch span test body) (word :: ts ++ us) := by
  intro n c rest hrest hn hl hopen
  rw [bareStatement, hereSpan_bind, here_bind,
    Cursor.kind_of_rest (hrest.trans (List.append_assoc _ _ _)), hk]
  exact yields_conditioned .switch "switch" (fun _ test' body' ht hb => by
    rw [Stmt.shape, Stmt.shape, ht, hb]) htest ih hrest hn hl hopen

/-- Where no item begins the items end. -/
theorem completes_nil : CompletesStmt (.items []) [] := by
  intro n inBlock c rest hrest hn _ hends
  obtain ⟨n, rfl⟩ : ∃ k, n = k + 1 := ⟨n - 1, by omega⟩
  have hstop : (c.atEnd || (inBlock && c.kind = .rightBrace)) = true := by
    rw [Cursor.atEnd, (Cursor.Reads.refl c).kind_eq hrest]
    rcases hends with hends | ⟨rfl, hends⟩ <;> simp [hends]
  rw [items, if_pos hstop]
  exact .pure (Nat.zero_le _) rfl

/-- One item and the items behind it. -/
theorem completes_item {ss : List Stmt}
    (hhead : ∃ t us', ts = t :: us' ∧ t.kind.startsItem = true)
    (hitem : ∀ n c rest, c.rest = ts ++ rest → 4 * c.rest.length + 3 ≤ n →
      c.depth + (s.innerNesting + s.isLevel.toNat) ≤ maxDepth →
      c.kindBefore rest ≠ .elseWord → (blockItem n c).Yields c ts (·.shape = s.shape))
    (hss : DerivesStmt P (.items ss) us) (ih : CompletesStmt (.items ss) us) :
    CompletesStmt (.items (s :: ss)) (ts ++ us) := by
  intro n inBlock c rest hrest hn hl hends
  rw [List.append_assoc] at hrest
  rw [Stmt.nestingOfItems] at hl
  obtain ⟨n, rfl⟩ : ∃ k, n = k + 1 := ⟨n - 1, by omega⟩
  have hgo : ¬(c.atEnd || (inBlock && c.kind = .rightBrace)) = true := by
    obtain ⟨t, us', rfl, ht⟩ := hhead
    obtain ⟨hend, hbrace, -⟩ := TokenKind.ne_of_startsItem ht
    simp [Cursor.atEnd, Cursor.kind_of_rest hrest, hend, hbrace]
  have helse : c.kindBefore rest ≠ .elseWord := by
    rcases hends with hends | ⟨-, hends⟩ <;> rw [hends] <;> decide
  obtain ⟨c₁, s', hrun, hr₁, hs⟩ :=
    (hitem n c _ hrest (by omega) (by omega) (hss.kindBefore_items helse)).exists
  have hlen := hr₁.length
  have hpos : 0 < ts.length := by
    obtain ⟨t, us', rfl, -⟩ := hhead
    exact Nat.succ_pos _
  obtain ⟨c₂, ss', hmore, hr₂, hshapes⟩ := (ih n inBlock c₁ rest (hr₁.rest_eq hrest) (by omega)
    (by rw [hr₁.depth]; omega) (by rwa [hr₁.kindBefore])).exists
  obtain ⟨hss', hc₂⟩ := Outcome.done.inj hmore
  rw [items, if_neg hgo, hrun]
  dsimp only
  rw [hss', hc₂]
  refine .inl ⟨Nat.zero_le _, c₂, hr₁.trans hr₂, s' :: ss', rfl, ?_⟩
  simp only [Stmt.shapes, hs, hshapes]

theorem completes_declaration {ss : List Stmt} (h : SpellsDeclaration P s ts)
    (hss : DerivesStmt P (.items ss) us) (ih : CompletesStmt (.items ss) us) :
    CompletesStmt (.items (s :: ss)) (ts ++ us) := by
  obtain ⟨t, us', hts, ht⟩ := h.exists_head
  refine completes_item ⟨t, us', hts, by rw [TokenKind.startsItem, ht, Bool.or_true]⟩
    (fun n c rest hrest hn hl _ => ?_) hss ih
  obtain ⟨n, rfl⟩ : ∃ k, n = k + 1 := ⟨n - 1, by omega⟩
  have hkind : c.kind.startsType = true := by
    rw [hts] at hrest
    rwa [Cursor.kind_of_rest hrest]
  rw [blockItem, here_bind, if_pos hkind]
  exact yields_declaration h hrest (by omega)

theorem completes_statement {ss : List Stmt} (h : DerivesStmt P (.statement s) ts)
    (hs : CompletesStmt (.statement s) ts) (hss : DerivesStmt P (.items ss) us)
    (ih : CompletesStmt (.items ss) us) : CompletesStmt (.items (s :: ss)) (ts ++ us) := by
  obtain ⟨t, us', hts, ht⟩ := h.exists_head
  refine completes_item ⟨t, us', hts, by rw [TokenKind.startsItem, ht, Bool.true_or]⟩
    (fun n c rest hrest hn hl helse => ?_) hss ih
  obtain ⟨n, rfl⟩ : ∃ k, n = k + 1 := ⟨n - 1, by omega⟩
  have hkind : c.kind.startsType = false := by
    rw [hts] at hrest
    rw [Cursor.kind_of_rest hrest]
    exact TokenKind.startsType_of_startsStmt ht
  have hlevel : s.isLevel = true := by
    cases h with
    | evaluation h => cases h; rfl
    | _ => rfl
  rw [hlevel] at hl
  rw [blockItem, here_bind, if_neg (by rw [hkind]; decide)]
  exact hs n c rest hrest (by omega) hl fun _ => helse

end Cases

/-- Tokens that spell a phrase are read as this phrase. -/
theorem completesStmt {phrase : StmtPhrase} (h : DerivesStmt P phrase ts) :
    CompletesStmt phrase ts := by
  induction h with
  | empty hk _ => exact completes_of_bare (bare_empty hk)
  | evaluation h => exact completes_of_bare (bare_evaluation h)
  | block hl _ hr _ ih => exact completes_of_bare (bare_block hl ih hr)
  | ifThen hk ht _ _ ih => exact completes_of_bare (bare_ifThen hk ht ih)
  | ifElse hk ht _ hc he _ _ ihy ihn => exact completes_of_bare (bare_ifElse hk ht ihy hc he ihn)
  | whileLoop hk ht _ _ ih => exact completes_of_bare (bare_while hk ht ih)
  | doLoop hk _ hw ht hs _ ih => exact completes_of_bare (bare_doLoop hk ih hw ht hs)
  | forLoop hk hl hi ht hs hu hr _ _ ih =>
      exact completes_of_bare (bare_forLoop hk hl hi ht hs hu hr ih)
  | switch hk ht _ _ ih => exact completes_of_bare (bare_switch hk ht ih)
  | caseLabel hk he hc _ _ ih => exact completes_of_bare (bare_caseLabel hk he hc ih)
  | defaultLabel hk hc _ _ ih => exact completes_of_bare (bare_defaultLabel hk hc ih)
  | breakLoop hk hs _ => exact completes_of_bare (bare_breakLoop hk hs)
  | continueLoop hk hs _ => exact completes_of_bare (bare_continueLoop hk hs)
  | print hk he hs _ => exact completes_of_bare (bare_print hk he hs)
  | eachSynapse hk _ _ ih => exact completes_of_bare (bare_eachSynapse hk ih)
  | nil => exact completes_nil
  | declaration h hss ih => exact completes_declaration h hss ih
  | statement h hss ihs ih => exact completes_statement h ihs hss ih

end Parser

end KernelWeaver.Snippet
