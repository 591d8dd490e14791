import KernelWeaver.Proofs.Snippet.ExprSoundness
import KernelWeaver.Proofs.Snippet.StmtGrammar

/-!
# Remarks in statements

The clauses of statements are read like expressions: either they are spelled by the tokens that were
read, or there is one more remark. Where reading is taken up again after an error this is lost, but
no remark is ever withdrawn. So what is read without a remark can be told from what is read on the
way to it.
-/

namespace KernelWeaver.Snippet

namespace Outcome.Sound

open KernelWeaver.Snippet.Parser

variable {α β : Type} {c : Cursor} {Q : α → List Token → Cursor → Prop}
  {R : β → List Token → Cursor → Prop}

theorem map {p : Parser α} {f : α → β} (h : (p c).Sound c Q)
    (hQ : ∀ a ts c', c.Reads ts c' → Q a ts c' → R (f a) ts c') : ((f <$> p) c).Sound c R := by
  refine .bind h fun a ts c' hr hq => .pure ?_
  rw [List.append_nil]
  exact hQ a ts c' hr hq

theorem expectName {context : String} {f : String → Parser β} (hc : c.Closed)
    (h : c.kind = .identifier → c.Reads [c.current] c.advance →
      (f c.current.lexeme c.advance).Sound c.advance fun b us c'' => R b (c.current :: us) c'') :
    ((Parser.expectName context >>= f) c).Sound c R := by
  by_cases heq : c.kind = .identifier
  · have hr := Cursor.reads_advance hc (by rw [heq]; decide)
    rw [bind_of_done (by rw [Parser.expectName, if_pos heq]) f]
    exact (h heq hr).after hr
  · rw [bind_of_failed (by rw [Parser.expectName, if_neg heq])]
    exact ⟨rfl, _, rfl⟩

end Outcome.Sound

namespace Parser

variable {c : Cursor}

/-- Reading that goes on behind the value of a declared name, or where it is left out. -/
theorem sound_value {β : Type} {f : Option Expr → Parser β} {R : β → List Token → Cursor → Prop}
    (hc : c.Closed)
    (hf : ∀ value ts c', c.Reads ts c' → SpellsValue CoversOrdered value ts →
      (c.depth ≤ maxDepth → c.depth + Expr.nestingOfOption value ≤ maxDepth) →
      (f value c').Sound c' fun b us c'' => R b (ts ++ us) c'') :
    ((do if ← accept .equal then some <$> expression >>= f else Pure.pure none >>= f) c).Sound
      c R := by
  refine .accept hc (by decide) (fun hequal hr₁ => ?_) fun _ => ?_
  · rw [if_pos rfl]
    have hsome : ((some <$> expression) c.advance).Sound c.advance fun value ts _ =>
        ∃ e, value = some e ∧ ReadAt .assignment c.advance.depth e ts :=
      .map (sound_expression (hr₁.closed hc)) fun e _ _ _ he => ⟨e, rfl, he⟩
    refine .bind hsome ?_
    rintro _ ts c' hr₂ ⟨e, rfl, he⟩
    exact hf _ _ _ (hr₁.trans hr₂) (.some hequal he.derives) fun _ => hr₁.depth ▸ he.nesting
  · rw [if_neg (by decide)]
    exact hf none [] c (.refl c) .none id

theorem sound_declarators (n : Nat) (c : Cursor) (hc : c.Closed) (hn : c.rest.length + 1 ≤ n) :
    (declarators n c).Sound c fun names ts _ => SpellsDeclarators CoversOrdered names ts ∧
      (c.depth ≤ maxDepth → c.depth + Declarator.nestingOfAll names ≤ maxDepth) := by
  induction n generalizing c with
  | zero => omega
  | succ n ih =>
      rw [declarators, hereSpan_bind]
      refine .bind (sound_pointerMark hc) fun pointer ps c₁ hr₁ hpointer => ?_
      refine .expectName (hr₁.closed hc) fun hname hr₂ => ?_
      have hr₂ := hr₁.trans hr₂
      refine sound_value (hr₂.closed hc) fun value us c₃ hr₃ hvalue hnesting => ?_
      have hr := hr₂.trans hr₃
      rw [hr₂.depth] at hnesting
      beta_reduce
      rw [spanFrom_bind, freshId_bind]
      have hname : SpellsDeclarator CoversOrdered ⟨c₃.nextId, c₁.current.lexeme, pointer, value,
          c.current.span.merge c₃.previous.span⟩ (ps ++ c₁.current :: us) :=
        .intro hpointer hname hvalue (by simpa using hr.covers_current (by simp))
      refine .after (.fresh c₃) (.accept (hr.closed hc) (by decide) (fun hcomma hr₄ => ?_) fun _ => ?_)
      · have hr₅ := hr.trans (.trans (.fresh c₃) hr₄)
        have hlen := hr₅.length
        simp only [List.length_append, List.length_cons] at hlen
        have hmore := ih _ (hr₅.closed hc) (by omega)
        rw [if_pos rfl]
        refine .bind hmore fun names vs c₆ _ ⟨hnames, hlevels⟩ => .pure ⟨?_, fun hdepth => ?_⟩
        · simpa using SpellsDeclarators.more hname hcomma hnames
        · rw [hr₅.depth] at hlevels
          have hvalueLevels := hnesting hdepth
          have hnamesLevels := hlevels hdepth
          change c.depth +
            max (Expr.nestingOfOption value) (Declarator.nestingOfAll names) ≤ maxDepth
          omega
      · rw [if_neg (by decide)]
        refine .pure ⟨by simpa using SpellsDeclarators.last hname, ?_⟩
        rw [Declarator.nestingOfAll, Declarator.nestingOfAll, Nat.max_zero]
        exact hnesting

theorem sound_declaration (hc : c.Closed) :
    (declaration c).Sound c fun s ts _ => SpellsDeclaration CoversOrdered s ts ∧
      (c.depth ≤ maxDepth → c.depth + s.innerNesting ≤ maxDepth) := by
  rw [declaration, hereSpan_bind]
  refine .bind (sound_specifiers c) ?_
  rintro type ss c₁ hr₁ ⟨hpointer, hwords, hplace⟩
  have hc₁ := hr₁.closed hc
  rw [here_bind]
  refine .bind (sound_declarators _ c₁ hc₁ le_rfl) ?_
  rintro names ts c₂ hr₂ ⟨hnames, hnesting⟩
  refine .expect (hr₂.closed hc₁) (by decide) fun hsemicolon hr₃ => ?_
  rw [spanFrom_bind]
  refine .pure ⟨?_, hr₁.depth ▸ hnesting⟩
  have hcovers := (hr₁.trans (hr₂.trans hr₃)).covers_current (by simp)
  rw [← List.append_assoc] at hcovers
  simpa using SpellsDeclaration.intro hwords hpointer hplace hnames hsemicolon hcovers

theorem sound_exprStatement (hc : c.Closed) (hdepth : c.depth ≤ maxDepth) :
    (exprStatement c).Sound c fun s ts _ =>
      (c.kind = .semicolon ∧ DerivesStmt CoversOrdered (.statement s) ts ∨
        SpellsEvaluation CoversOrdered s ts) ∧
      s.isOpen = false ∧ c.depth + s.innerNesting ≤ maxDepth := by
  rw [exprStatement, hereSpan_bind]
  refine .accept hc (by decide) (fun hsemicolon hr₁ => ?_) fun _ => ?_
  · exact .pure ⟨.inl ⟨hsemicolon, .empty hsemicolon (coversOrdered_single _)⟩, rfl, hdepth⟩
  · rw [if_neg (by decide)]
    refine .bind (sound_expression hc) fun e ts c₁ hr₁ he => ?_
    refine .expect (hr₁.closed hc) (by decide) fun hsemicolon hr₂ => ?_
    rw [spanFrom_bind]
    exact .pure ⟨.inr (.intro he.derives hsemicolon ((hr₁.trans hr₂).covers_current (by simp))),
      rfl, he.nesting⟩

theorem sound_condition (keyword : String) (hc : c.Closed) :
    (condition keyword c).Sound c fun test ts _ =>
      SpellsCondition CoversOrdered test ts ∧ c.depth + test.nesting ≤ maxDepth := by
  rw [condition]
  refine .expect hc (by decide) fun hleft hr₁ => ?_
  refine .bind (sound_expression (hr₁.closed hc)) fun test ts c₂ hr₂ htest => ?_
  refine .expect (hr₂.closed (hr₁.closed hc)) (by decide) fun hright _ => .pure ?_
  exact ⟨.intro hleft htest.derives hright, hr₁.depth ▸ htest.nesting⟩

theorem sound_forInit (hc : c.Closed) (hdepth : c.depth ≤ maxDepth) :
    (forInit c).Sound c fun init ts _ => SpellsForInit CoversOrdered init ts ∧
      c.depth + Stmt.nestingOfInit init ≤ maxDepth := by
  rw [forInit, here_bind]
  by_cases hsemicolon : c.kind = .semicolon
  · rw [if_pos hsemicolon]
    exact .take hc (by rw [hsemicolon]; decide) fun _ => .pure ⟨.none hsemicolon, hdepth⟩
  · rw [if_neg hsemicolon]
    split
    next =>
      exact .map (sound_declaration hc) fun s ts _ _ h => ⟨.declaration h.1, h.2 hdepth⟩
    next =>
      refine .map (sound_exprStatement hc hdepth) fun s ts _ _ h => ⟨?_, h.2.2⟩
      exact .evaluation (h.1.resolve_left fun h' => hsemicolon h'.1)

theorem sound_optionalBefore (kind : TokenKind) (hc : c.Closed) (hdepth : c.depth ≤ maxDepth) :
    (optionalBefore kind c).Sound c fun value ts _ => SpellsClause CoversOrdered value ts ∧
      c.depth + Expr.nestingOfOption value ≤ maxDepth := by
  rw [optionalBefore, here_bind]
  split
  next => exact .pure ⟨.none, hdepth⟩
  next => exact .map (sound_expression hc) fun e ts _ _ he => ⟨.some he.derives, he.nesting⟩

end Parser

/-- The cursor at which reading ended. -/
def Outcome.cursor {α : Type} : Outcome α → Cursor
  | .done _ c => c
  | .failed c => c

/-- Whatever is read, no remark is withdrawn. -/
class Parser.KeepsReport {α : Type} (p : Parser α) : Prop where
  closed : ∀ {c : Cursor}, c.Closed → (p c).cursor.Closed
  length_le : ∀ {c : Cursor}, c.Closed → c.report.length ≤ (p c).cursor.report.length

namespace Parser

section KeepsReport

variable {α β : Type}

theorem KeepsReport.of_sound {p : Parser α}
    (h : ∀ c : Cursor, c.Closed → ∃ Q, (p c).Sound c Q) : KeepsReport p := by
  constructor
  · intro c hc
    obtain ⟨Q, hsound⟩ := h c hc
    cases hrun : p c with
    | done a c' =>
        rw [hrun] at hsound
        obtain ⟨ts, hr, -⟩ := hsound
        exact hr.closed hc
    | failed c' =>
        rw [hrun] at hsound
        obtain ⟨hending, -⟩ := hsound
        rw [Outcome.cursor, Cursor.Closed, hending]
        exact hc
  · intro c hc
    obtain ⟨Q, hsound⟩ := h c hc
    cases hrun : p c with
    | done a c' =>
        rw [hrun] at hsound
        obtain ⟨ts, hr, -⟩ := hsound
        exact hr.report.symm ▸ le_rfl
    | failed c' =>
        rw [hrun] at hsound
        obtain ⟨-, d, hd⟩ := hsound
        rw [Outcome.cursor, hd, List.length_append]
        exact Nat.le_add_right _ _

instance (a : α) : KeepsReport (pure a : Parser α) := ⟨fun h => h, fun _ => le_rfl⟩

instance : KeepsReport here := ⟨fun h => h, fun _ => le_rfl⟩

instance : KeepsReport hereSpan := ⟨fun h => h, fun _ => le_rfl⟩

instance (start : Span) : KeepsReport (spanFrom start) := ⟨fun h => h, fun _ => le_rfl⟩

instance : KeepsReport freshId := ⟨fun h => h, fun _ => le_rfl⟩

instance : KeepsReport (stop : Parser α) := ⟨fun h => h, fun _ => le_rfl⟩

instance (message : String) : KeepsReport (fail message : Parser α) :=
  .of_sound fun _ _ => ⟨fun _ _ _ => True, .fail message⟩

instance KeepsReport.bind (p : Parser α) (f : α → Parser β) [KeepsReport p] [∀ a, KeepsReport (f a)] :
    KeepsReport (p >>= f) := by
  constructor
  · intro c hc
    have hp := KeepsReport.closed (p := p) hc
    cases hrun : p c with
    | done a c' =>
        rw [bind_of_done hrun]
        rw [hrun] at hp
        exact KeepsReport.closed hp
    | failed c' =>
        rw [bind_of_failed hrun]
        rwa [hrun] at hp
  · intro c hc
    have hclosed := KeepsReport.closed (p := p) hc
    have hp := KeepsReport.length_le (p := p) hc
    cases hrun : p c with
    | done a c' =>
        rw [bind_of_done hrun]
        rw [hrun] at hp hclosed
        exact hp.trans (KeepsReport.length_le (p := f a) hclosed)
    | failed c' =>
        rw [bind_of_failed hrun]
        rwa [hrun] at hp

instance (b : Prop) [Decidable b] (p q : Parser α) [KeepsReport p] [KeepsReport q] :
    KeepsReport (if b then p else q) := by
  split <;> assumption

instance (f : α → β) (p : Parser α) [KeepsReport p] : KeepsReport (f <$> p) :=
  inferInstanceAs (KeepsReport (p >>= fun a => pure (f a)))

/-- Where the end of input stays the same, it is only the report that matters. -/
theorem KeepsReport.of_ending {p : Parser α} (h : ∀ c, (p c).cursor.ending = c.ending ∧
    c.report.length ≤ (p c).cursor.report.length) : KeepsReport p := by
  refine ⟨fun {c} hc => ?_, fun {c} _ => (h c).2⟩
  rw [Cursor.Closed, (h c).1]
  exact hc

instance : KeepsReport take :=
  .of_ending fun c => ⟨Cursor.ending_advance c, by rw [take, Outcome.cursor, Cursor.report_advance]⟩

instance (kind : TokenKind) : KeepsReport (accept kind) := by
  refine .of_ending fun c => ?_
  rw [accept]
  split
  · exact ⟨Cursor.ending_advance c, by rw [Outcome.cursor, Cursor.report_advance]⟩
  · exact ⟨rfl, le_rfl⟩

instance (kind : TokenKind) (context : String) : KeepsReport (expect kind context) := by
  refine .of_ending fun c => ?_
  rw [expect]
  split
  · exact ⟨Cursor.ending_advance c, by rw [Outcome.cursor, Cursor.report_advance]⟩
  · exact ⟨rfl, by simp [Outcome.cursor, Cursor.reportHere]⟩

instance (context : String) : KeepsReport (expectName context) := by
  refine .of_ending fun c => ?_
  rw [expectName]
  split
  · exact ⟨Cursor.ending_advance c, by rw [Outcome.cursor, Cursor.report_advance]⟩
  · exact ⟨rfl, by simp [Outcome.cursor, Cursor.reportHere]⟩

instance (p : Parser α) [KeepsReport p] : KeepsReport (nested p) := by
  constructor
  · intro c hc
    have hp := KeepsReport.closed (p := p) (c := c.deeper) hc
    rw [Cursor.deeper] at hp
    rw [nested]
    dsimp only
    split
    · exact hc
    · split <;> rename_i hrun <;> rw [hrun] at hp <;> exact hp
  · intro c hc
    have hp := KeepsReport.length_le (p := p) (c := c.deeper) hc
    rw [Cursor.deeper] at hp
    rw [nested]
    dsimp only
    split
    · simp [Outcome.cursor, Cursor.reportHere]
    · split <;> rename_i hrun <;> rw [hrun] at hp <;> exact hp

instance : KeepsReport specifiers := .of_sound fun c _ => ⟨_, sound_specifiers c⟩

instance : KeepsReport pointerMark := .of_sound fun _ hc => ⟨_, sound_pointerMark hc⟩

instance : KeepsReport expression := .of_sound fun _ hc => ⟨_, sound_expression hc⟩

set_option synthInstance.maxSize 1000 in
instance (n : Nat) : KeepsReport (declarators n) := by
  induction n with
  | zero => rw [declarators]; infer_instance
  | succ n ih => rw [declarators]; infer_instance

instance : KeepsReport declaration := by
  rw [declaration]; infer_instance

instance : KeepsReport exprStatement := by
  rw [exprStatement]; infer_instance

instance (keyword : String) : KeepsReport (condition keyword) := by
  rw [condition]; infer_instance

instance : KeepsReport forInit := by
  rw [forInit]; infer_instance

instance (kind : TokenKind) : KeepsReport (optionalBefore kind) := by
  rw [optionalBefore]; infer_instance

/-- No remark is withdrawn in statements that are read with `n` steps at most. -/
structure KeepsReportWithin (n : Nat) : Prop where
  blockItem : KeepsReport (blockItem n)
  statement : KeepsReport (statement n)
  bareStatement : KeepsReport (bareStatement n)
  items (inBlock : Bool) (c : Cursor) : c.Closed → (items n inBlock c).2.Closed ∧
    c.report.length ≤ (items n inBlock c).2.report.length

theorem closed_resume {c : Cursor} (hc : c.Closed) : c.resume.Closed := by
  rw [Cursor.resume]
  split <;> exact hc

theorem report_resume (c : Cursor) : c.resume.report = c.report := by
  rw [Cursor.resume]
  split <;> rfl

theorem KeepsReportWithin.items_succ {n : Nat} (ih : KeepsReportWithin n) (inBlock : Bool)
    {c : Cursor} (hc : c.Closed) : (Parser.items (n + 1) inBlock c).2.Closed ∧
      c.report.length ≤ (Parser.items (n + 1) inBlock c).2.report.length := by
  have hclosed := ih.blockItem.closed hc
  have hlength := ih.blockItem.length_le hc
  rw [Parser.items]
  split
  next => exact ⟨hc, le_rfl⟩
  next =>
    cases hrun : Parser.blockItem n c with
    | done s c' =>
        rw [hrun] at hclosed hlength
        have hmore := ih.items inBlock c' hclosed
        exact ⟨hmore.1, hlength.trans hmore.2⟩
    | failed c' =>
        rw [hrun] at hclosed hlength
        have hmore := ih.items inBlock c'.resume (closed_resume hclosed)
        rw [report_resume] at hmore
        exact ⟨hmore.1, hlength.trans hmore.2⟩

set_option synthInstance.maxSize 1000 in
theorem KeepsReportWithin.bareStatement_succ {n : Nat} (ih : KeepsReportWithin n) :
    KeepsReport (Parser.bareStatement (n + 1)) := by
  have hstatement := ih.statement
  have hbody : KeepsReport fun c =>
      .done (Parser.items n true c).1 (Parser.items n true c).2 :=
    ⟨fun {c} hc => (ih.items true c hc).1, fun {c} hc => (ih.items true c hc).2⟩
  rw [Parser.bareStatement]
  refine @KeepsReport.bind _ _ _ _ _ fun start => @KeepsReport.bind _ _ _ _ _ fun c => ?_
  split
  next => exact @KeepsReport.bind _ _ _ _ _ fun _ => @KeepsReport.bind _ _ _ _ hbody fun _ => inferInstance
  all_goals infer_instance

theorem keepsReportWithin (n : Nat) : KeepsReportWithin n := by
  induction n with
  | zero =>
      exact {
        blockItem := by rw [blockItem]; infer_instance
        statement := by rw [statement]; infer_instance
        bareStatement := by rw [bareStatement]; infer_instance
        items := fun _ _ hc => ⟨hc, le_rfl⟩ }
  | succ n ih =>
      have hbare := ih.bareStatement
      have hstatement := ih.statement
      exact {
        blockItem := by rw [blockItem]; infer_instance
        statement := by rw [statement]; infer_instance
        bareStatement := ih.bareStatement_succ
        items := fun inBlock _ hc => ih.items_succ inBlock hc }

instance (n : Nat) : KeepsReport (blockItem n) := (keepsReportWithin n).blockItem

instance (n : Nat) : KeepsReport (statement n) := (keepsReportWithin n).statement

instance (n : Nat) : KeepsReport (bareStatement n) := (keepsReportWithin n).bareStatement

end KeepsReport

end Parser

/-- Reading ended behind some tokens with a value of which `Q` holds, unless something was remarked
on the way; where it was given up, something was. -/
def Outcome.Clean {α : Type} (c : Cursor) (Q : α → List Token → Cursor → Prop) :
    Outcome α → Prop
  | .done a c' => c'.report.length ≤ c.report.length → ∃ ts, c.Reads ts c' ∧ Q a ts c'
  | .failed c' => c.report.length < c'.report.length

theorem Outcome.Sound.clean {α : Type} {c : Cursor} {Q : α → List Token → Cursor → Prop}
    {o : Outcome α} (h : o.Sound c Q) : o.Clean c Q := by
  cases o with
  | done a c' => exact fun _ => h
  | failed c' =>
      obtain ⟨-, d, hd⟩ := h
      rw [Clean, hd, List.length_append]
      exact Nat.lt_succ_self _

namespace Outcome.Clean

open KernelWeaver.Snippet.Parser

variable {α β : Type} {c c' : Cursor} {ts : List Token} {Q : α → List Token → Cursor → Prop}
  {R : β → List Token → Cursor → Prop}

theorem pure {a : α} (h : Q a [] c) : ((Pure.pure a : Parser α) c).Clean c Q :=
  fun _ => ⟨[], .refl c, h⟩

theorem imp {o : Outcome α} {Q' : α → List Token → Cursor → Prop} (h : o.Clean c Q)
    (himp : ∀ a ts c', c.Reads ts c' → Q a ts c' → Q' a ts c') : o.Clean c Q' := by
  cases o with
  | done a c' =>
      intro hle
      obtain ⟨ts, hr, hq⟩ := h hle
      exact ⟨ts, hr, himp a ts c' hr hq⟩
  | failed c' => exact h

/-- Reading that goes on behind tokens already read. -/
theorem after {o : Outcome α} (hr : c.Reads ts c')
    (h : o.Clean c' fun a us c'' => Q a (ts ++ us) c'') : o.Clean c Q := by
  cases o with
  | done a c'' =>
      intro hle
      obtain ⟨us, hr', hq⟩ := h (by rwa [hr.report])
      exact ⟨ts ++ us, hr.trans hr', hq⟩
  | failed c'' =>
      rw [Clean, ← hr.report]
      exact h

/-- Reading one thing after another. -/
theorem bind {p : Parser α} {f : α → Parser β} [KeepsReport p] [∀ a, KeepsReport (f a)]
    (hc : c.Closed) (hp : (p c).Clean c Q)
    (hf : ∀ a ts c', c.Reads ts c' → Q a ts c' →
      (f a c').Clean c' fun b us c'' => R b (ts ++ us) c'') :
    ((p >>= f) c).Clean c R := by
  have hclosed := KeepsReport.closed (p := p) hc
  have hlength := KeepsReport.length_le (p := p) hc
  cases hrun : p c with
  | failed c' =>
      rw [hrun] at hp
      rw [bind_of_failed hrun]
      exact hp
  | done a c' =>
      rw [hrun] at hp hclosed hlength
      rw [bind_of_done hrun]
      by_cases hle : c'.report.length ≤ c.report.length
      · obtain ⟨ts, hr, hq⟩ := hp hle
        exact (hf a ts c' hr hq).after hr
      · -- the remark that was made on the way is still there at the end
        have hmore := KeepsReport.length_le (p := f a) hclosed
        rw [Outcome.cursor] at hmore
        cases hend : f a c' with
        | done b c'' =>
            rw [hend, Outcome.cursor] at hmore
            exact fun h => absurd (hmore.trans h) hle
        | failed c'' =>
            rw [hend, Outcome.cursor] at hmore
            rw [Clean]
            omega

theorem map {p : Parser α} {f : α → β} (h : (p c).Clean c Q)
    (hQ : ∀ a ts c', c.Reads ts c' → Q a ts c' → R (f a) ts c') : ((f <$> p) c).Clean c R := by
  change ((p >>= fun a => Pure.pure (f a)) c).Clean c R
  cases hrun : p c with
  | done a c' =>
      rw [hrun] at h
      rw [bind_of_done hrun]
      intro hle
      obtain ⟨ts, hr, hq⟩ := h hle
      exact ⟨ts, hr, hQ a ts c' hr hq⟩
  | failed c' =>
      rw [hrun] at h
      rw [bind_of_failed hrun]
      exact h

theorem take {f : Token → Parser β} (hc : c.Closed) (hk : c.kind ≠ .endOfInput)
    (h : c.Reads [c.current] c.advance →
      (f c.current c.advance).Clean c.advance fun b us c'' => R b (c.current :: us) c'') :
    ((Parser.take >>= f) c).Clean c R :=
  (h (Cursor.reads_advance hc hk)).after (Cursor.reads_advance hc hk)

theorem accept {kind : TokenKind} {f : Bool → Parser β} (hc : c.Closed)
    (hk : kind ≠ .endOfInput)
    (hyes : c.kind = kind → c.Reads [c.current] c.advance →
      (f true c.advance).Clean c.advance fun b us c'' => R b (c.current :: us) c'')
    (hno : c.kind ≠ kind → (f false c).Clean c R) : ((Parser.accept kind >>= f) c).Clean c R := by
  rw [accept_bind]
  split
  next heq =>
    have hr := Cursor.reads_advance hc (heq ▸ hk)
    exact (hyes heq hr).after hr
  next hne => exact hno hne

theorem expect {kind : TokenKind} {context : String} {f : Span → Parser β} (hc : c.Closed)
    (hk : kind ≠ .endOfInput)
    (h : c.kind = kind → c.Reads [c.current] c.advance →
      (f c.current.span c.advance).Clean c.advance fun b us c'' => R b (c.current :: us) c'') :
    ((Parser.expect kind context >>= f) c).Clean c R := by
  by_cases heq : c.kind = kind
  · have hr := Cursor.reads_advance hc (heq ▸ hk)
    rw [expect_bind context f heq]
    exact (h heq hr).after hr
  · rw [bind_of_failed (by rw [Parser.expect, if_neg heq])]
    exact Sound.clean (Q := R) ⟨rfl, _, rfl⟩

/-- Reading a nested form is clean if reading the form one level deeper is. -/
theorem nested {p : Parser α} (h : c.depth + 1 ≤ maxDepth → (p c.deeper).Clean c.deeper Q)
    (hQ : ∀ a ts c', Q a ts c' → Q a ts { c' with depth := c'.depth - 1 }) :
    (Parser.nested p c).Clean c Q := by
  rw [Parser.nested]
  split
  next => exact Sound.clean (Q := Q) ⟨rfl, _, rfl⟩
  next hdepth =>
    have hp := h (Nat.le_of_not_lt hdepth)
    rw [Cursor.deeper] at hp
    split
    next a c' hrun =>
      rw [hrun] at hp
      intro hle
      obtain ⟨ts, hr, hq⟩ := hp hle
      refine ⟨ts, ⟨hr.rest, hr.previous, hr.ending, ?_, hr.report⟩, hQ a ts c' hq⟩
      change c'.depth - 1 = c.depth
      rw [hr.depth]
      rfl
    next c' hrun =>
      rw [hrun] at hp
      exact hp

end Outcome.Clean

end KernelWeaver.Snippet
