import KernelWeaver.Proofs.Snippet.StmtReading

/-!
# What is read without a remark is a list of items

Reading items takes itself up again after an error, so it always ends with a list of items. If
nothing was remarked on the way, this list is spelled by the tokens, within the limit of nesting.
-/

namespace KernelWeaver.Snippet

section NeNil

variable {P : Span → List Token → Prop} {s : Stmt} {ts : List Token}

theorem SpellsDeclaration.ne_nil (h : SpellsDeclaration P s ts) : ts ≠ [] := by
  cases h
  simp

theorem DerivesStmt.ne_nil (h : DerivesStmt P (.statement s) ts) : ts ≠ [] := by
  cases h with
  | evaluation h =>
      cases h
      simp
  | _ => simp

end NeNil

namespace Parser

/-- A statement that was read; its own level has been entered before. If it ends with an `if` that
could take an `else`, there is none. -/
structure StatementAt (depth : Nat) (s : Stmt) (ts : List Token) (c : Cursor) : Prop where
  derives : DerivesStmt CoversOrdered (.statement s) ts
  nesting : depth + s.innerNesting ≤ maxDepth
  closed : s.isOpen = true → c.kind ≠ .elseWord

/-- Items that were read, up to where they end. -/
structure ItemsAt (depth : Nat) (inBlock : Bool) (ss : List Stmt) (ts : List Token) (c : Cursor) :
    Prop where
  derives : DerivesStmt CoversOrdered (.items ss) ts
  nesting : depth + Stmt.nestingOfItems ss ≤ maxDepth
  ends : (c.atEnd || (inBlock && c.kind = .rightBrace)) = true

/-- What is read with `n` steps at most, if the tokens are few enough, is what it should be. -/
structure SoundStmtWithin (n : Nat) : Prop where
  blockItem (c : Cursor) : c.Closed → 4 * c.rest.length + 3 ≤ n →
    (blockItem n c).Clean c fun s ts _ =>
      (SpellsDeclaration CoversOrdered s ts ∨ DerivesStmt CoversOrdered (.statement s) ts) ∧
      (c.depth ≤ maxDepth → c.depth + (s.innerNesting + s.isLevel.toNat) ≤ maxDepth)
  items (inBlock : Bool) (c : Cursor) : c.Closed → 4 * c.rest.length + 4 ≤ n → c.depth ≤ maxDepth →
    (Outcome.done (items n inBlock c).1 (items n inBlock c).2).Clean c
      (ItemsAt c.depth inBlock)
  statement (c : Cursor) : c.Closed → 4 * c.rest.length + 2 ≤ n →
    (statement n c).Clean c (StatementAt (c.depth + 1))
  bareStatement (c : Cursor) : c.Closed → 4 * c.rest.length + 1 ≤ n → c.depth ≤ maxDepth →
    (bareStatement n c).Clean c (StatementAt c.depth)

namespace SoundStmtWithin

variable {n : Nat} {c c' : Cursor} {us : List Token} (ih : SoundStmtWithin n)
include ih

theorem statement_succ (hc : c.Closed) (hn : 4 * c.rest.length + 2 ≤ n + 1) :
    (Parser.statement (n + 1) c).Clean c (StatementAt (c.depth + 1)) := by
  rw [Parser.statement]
  exact .nested (fun hdepth => ih.bareStatement c.deeper hc (by rw [Cursor.rest_deeper]; omega) hdepth)
    fun _ _ _ h => ⟨h.derives, h.nesting, h.closed⟩

/-- The last part of a statement that ends with another one. -/
theorem body_behind (make : Span → Stmt → Stmt) (hc : c.Closed)
    (hn : 4 * c.rest.length + 1 ≤ n + 1) (hr : c.Reads us c') (hus : us ≠ [])
    (hmake : ∀ span body vs, DerivesStmt CoversOrdered (.statement body) vs →
      CoversOrdered span (us ++ vs) →
      DerivesStmt CoversOrdered (.statement (make span body)) (us ++ vs))
    (hopen : ∀ span body, (make span body).isOpen = body.isOpen)
    (hnesting : ∀ span body, c.depth + 1 + body.innerNesting ≤ maxDepth →
      c.depth + (make span body).innerNesting ≤ maxDepth) :
    ((do let body ← Parser.statement n; return make (← spanFrom c.current.span) body) c').Clean c'
      fun s vs c'' => StatementAt c.depth s (us ++ vs) c'' := by
  have hc' := hr.closed hc
  have hlen := hr.length_lt hus
  refine .bind hc' (ih.statement c' hc' (by omega)) fun body vs c'' hr' hbody => ?_
  rw [spanFrom_bind]
  have hplace := (hr.trans hr').covers_current (by simp [hus])
  refine .pure ⟨?_, hnesting _ _ (hr.depth ▸ hbody.nesting), fun h => hbody.closed (hopen _ _ ▸ h)⟩
  rw [List.append_nil]
  exact hmake _ _ _ hbody.derives hplace

/-- A keyword with a condition and a body. -/
theorem conditioned (make : Span → Expr → Stmt → Stmt) (keyword : String) (hc : c.Closed)
    (hk : c.kind ≠ .endOfInput) (hn : 4 * c.rest.length + 1 ≤ n + 1)
    (hmake : ∀ span test body ts us, SpellsCondition CoversOrdered test ts →
      DerivesStmt CoversOrdered (.statement body) us → CoversOrdered span (c.current :: ts ++ us) →
      DerivesStmt CoversOrdered (.statement (make span test body)) (c.current :: ts ++ us))
    (hopen : ∀ span test body, (make span test body).isOpen = body.isOpen)
    (hnesting : ∀ span test body,
      (make span test body).innerNesting = max test.nesting (body.innerNesting + 1)) :
    ((do
        let _ ← take
        let test ← condition keyword
        let body ← Parser.statement n
        return make (← spanFrom c.current.span) test body) c).Clean c (StatementAt c.depth) := by
  refine .take hc hk fun hr₁ => ?_
  have hc₁ := hr₁.closed hc
  refine .bind hc₁ (sound_condition keyword hc₁).clean ?_
  rintro test ts c₂ hr₂ ⟨htest, hlevels⟩
  refine ih.body_behind (make · test ·) hc hn (hr₁.trans hr₂) (by simp)
    (fun span body vs => hmake span test body ts vs htest) (fun span body => hopen span test body)
    fun span body hbody => ?_
  rw [hr₁.depth] at hlevels
  rw [hnesting]
  omega

theorem block (hc : c.Closed) (hk : c.kind = .leftBrace) (hn : 4 * c.rest.length + 1 ≤ n + 1)
    (hdepth : c.depth ≤ maxDepth) :
    ((do
        let _ ← take
        let body ← fun c => let (body, c) := Parser.items n true c; .done body c
        let _ ← expect .rightBrace "after block"
        return Stmt.block (← spanFrom c.current.span) body) c).Clean c (StatementAt c.depth) := by
  have hkeeps : KeepsReport fun c => let (body, c) := Parser.items n true c; .done body c :=
    ⟨fun {c} hc => ((keepsReportWithin n).items true c hc).1,
      fun {c} hc => ((keepsReportWithin n).items true c hc).2⟩
  refine .take hc (by rw [hk]; decide) fun hr₁ => ?_
  have hc₁ := hr₁.closed hc
  have hlen₁ := hr₁.length_cons
  refine .bind hc₁ (ih.items true c.advance hc₁ (by omega) (hr₁.depth ▸ hdepth)) ?_
  intro body ts c₂ hr₂ hbody
  have hc₂ := hr₂.closed hc₁
  refine .expect hc₂ (by decide) fun hright hr₃ => ?_
  rw [spanFrom_bind]
  have hplace := (hr₁.trans (hr₂.trans hr₃)).covers_current (by simp)
  exact .pure ⟨.block hk hbody.derives hright hplace, hr₁.depth ▸ hbody.nesting,
    fun h => Bool.noConfusion h⟩

theorem ifElse (hc : c.Closed) (hk : c.kind = .ifWord) (hn : 4 * c.rest.length + 1 ≤ n + 1) :
    ((do
        let _ ← take
        let test ← condition "if"
        let yes ← Parser.statement n
        let no ← if ← accept .elseWord then some <$> Parser.statement n else pure none
        return Stmt.ifElse (← spanFrom c.current.span) test yes no) c).Clean c
      (StatementAt c.depth) := by
  refine .take hc (by rw [hk]; decide) fun hr₁ => ?_
  have hc₁ := hr₁.closed hc
  have hlen₁ := hr₁.length_cons
  refine .bind hc₁ (sound_condition "if" hc₁).clean ?_
  rintro test ts c₂ hr₂ ⟨htest, hlevels⟩
  have hc₂ := hr₂.closed hc₁
  have hlen₂ := hr₂.length_le
  refine .bind hc₂ (ih.statement c₂ hc₂ (by omega)) ?_
  intro yes us c₃ hr₃ hyes
  have hc₃ := hr₃.closed hc₂
  have hlen₃ := hr₃.length_le
  have hr := hr₁.trans (hr₂.trans hr₃)
  have hyesLevels := hyes.nesting
  rw [hr₁.depth] at hlevels
  rw [hr₂.depth, hr₁.depth] at hyesLevels
  refine .accept hc₃ (by decide) (fun helse hr₄ => ?_) fun hno => ?_
  · have hc₄ := hr₄.closed hc₃
    have hlen₄ := hr₄.length_cons
    have hclosed : yes.isOpen = false := Bool.eq_false_iff.mpr fun h => hyes.closed h helse
    rw [if_pos rfl]
    have hsome : ((some <$> Parser.statement n) c₃.advance).Clean c₃.advance fun no vs c₅ =>
        ∃ s, no = some s ∧ StatementAt (c.depth + 1) s vs c₅ := by
      refine .map (ih.statement c₃.advance hc₄ (by omega)) fun s vs c₅ _ hs => ?_
      rw [hr₄.depth, hr.depth] at hs
      exact ⟨s, rfl, hs⟩
    refine .bind hc₄ hsome ?_
    rintro _ vs c₅ hr₅ ⟨no, rfl, hnoAt⟩
    beta_reduce
    rw [spanFrom_bind]
    have hplace := (hr.trans (hr₄.trans hr₅)).covers_current (by simp)
    refine .pure ⟨?_, ?_, hnoAt.closed⟩
    · simpa using DerivesStmt.ifElse hk htest hyes.derives hclosed helse hnoAt.derives
        (by simpa using hplace)
    · have hnoLevels := hnoAt.nesting
      simp only [Stmt.innerNesting, Stmt.nestingOfElse]
      omega
  · rw [if_neg (by decide), pure_bind]
    beta_reduce
    rw [spanFrom_bind]
    refine .pure ⟨?_, ?_, fun _ => hno⟩
    · rw [List.append_nil]
      exact .ifThen hk htest hyes.derives (hr.covers_current (by simp))
    · simp only [Stmt.innerNesting, Stmt.nestingOfElse]
      omega

theorem doLoop (hc : c.Closed) (hk : c.kind = .doWord) (hn : 4 * c.rest.length + 1 ≤ n + 1) :
    ((do
        let _ ← take
        let body ← Parser.statement n
        let _ ← expect .whileWord "after 'do' body"
        let test ← condition "do-while"
        let _ ← expect .semicolon "after 'do-while' condition"
        return Stmt.doLoop (← spanFrom c.current.span) body test) c).Clean c
      (StatementAt c.depth) := by
  refine .take hc (by rw [hk]; decide) fun hr₁ => ?_
  have hc₁ := hr₁.closed hc
  have hlen₁ := hr₁.length_cons
  refine .bind hc₁ (ih.statement c.advance hc₁ (by omega)) ?_
  intro body ts c₂ hr₂ hbody
  have hc₂ := hr₂.closed hc₁
  refine .expect hc₂ (by decide) fun hwhile hr₃ => ?_
  have hc₃ := hr₃.closed hc₂
  refine .bind hc₃ (sound_condition "do-while" hc₃).clean ?_
  rintro test us c₄ hr₄ ⟨htest, hlevels⟩
  have hc₄ := hr₄.closed hc₃
  refine .expect hc₄ (by decide) fun hsemicolon hr₅ => ?_
  rw [spanFrom_bind]
  have hr := hr₁.trans (hr₂.trans (hr₃.trans (hr₄.trans hr₅)))
  have hplace := hr.covers_current (by simp)
  refine .pure ⟨?_, ?_, fun h => Bool.noConfusion h⟩
  · simpa using DerivesStmt.doLoop hk hbody.derives hwhile htest hsemicolon (by simpa using hplace)
  · have hbodyLevels := hbody.nesting
    rw [hr₁.depth] at hbodyLevels
    rw [hr₃.depth, hr₂.depth, hr₁.depth] at hlevels
    rw [Stmt.innerNesting]
    omega

theorem forLoop (hc : c.Closed) (hk : c.kind = .forWord) (hn : 4 * c.rest.length + 1 ≤ n + 1)
    (hdepth : c.depth ≤ maxDepth) :
    ((do
        let _ ← take
        let _ ← expect .leftParen "after 'for'"
        let init ← forInit
        let test ← optionalBefore .semicolon
        let _ ← expect .semicolon "after loop condition"
        let step ← optionalBefore .rightParen
        let _ ← expect .rightParen "after for clauses"
        let body ← Parser.statement n
        return Stmt.forLoop (← spanFrom c.current.span) init test step body) c).Clean c
      (StatementAt c.depth) := by
  refine .take hc (by rw [hk]; decide) fun hr₁ => ?_
  have hc₁ := hr₁.closed hc
  refine .expect hc₁ (by decide) fun hleft hr₂ => ?_
  have hc₂ := hr₂.closed hc₁
  have hd₂ := hr₂.depth.trans hr₁.depth
  refine .bind hc₂ (sound_forInit hc₂ (hd₂ ▸ hdepth)).clean ?_
  rintro init is c₃ hr₃ ⟨hinit, hinitLevels⟩
  have hc₃ := hr₃.closed hc₂
  have hd₃ := hr₃.depth.trans hd₂
  refine .bind hc₃ (sound_optionalBefore _ hc₃ (hd₃ ▸ hdepth)).clean ?_
  rintro test ts c₄ hr₄ ⟨htest, htestLevels⟩
  have hc₄ := hr₄.closed hc₃
  refine .expect hc₄ (by decide) fun hsemicolon hr₅ => ?_
  have hc₅ := hr₅.closed hc₄
  have hd₅ := hr₅.depth.trans (hr₄.depth.trans hd₃)
  refine .bind hc₅ (sound_optionalBefore _ hc₅ (hd₅ ▸ hdepth)).clean ?_
  rintro step us c₆ hr₆ ⟨hstep, hstepLevels⟩
  have hc₆ := hr₆.closed hc₅
  refine .expect hc₆ (by decide) fun hright hr₇ => ?_
  have hr := hr₁.trans (hr₂.trans (hr₃.trans (hr₄.trans (hr₅.trans (hr₆.trans hr₇)))))
  rw [hd₂] at hinitLevels
  rw [hd₃] at htestLevels
  rw [hd₅] at hstepLevels
  refine .imp (ih.body_behind (.forLoop · init test step ·) hc hn hr (by simp)
    (fun span body vs hbody hplace => ?_) (fun _ _ => rfl) fun span body hbody => ?_) ?_
  · have hderives := DerivesStmt.forLoop hk hleft hinit htest hsemicolon hstep hright hbody
      (by simpa using hplace)
    simpa using hderives
  · rw [Stmt.innerNesting]
    omega
  · intro s vs c' _ hs
    simpa using hs

theorem bareStatement_succ (hc : c.Closed) (hn : 4 * c.rest.length + 1 ≤ n + 1)
    (hdepth : c.depth ≤ maxDepth) :
    (Parser.bareStatement (n + 1) c).Clean c (StatementAt c.depth) := by
  have heval : (exprStatement c).Clean c (StatementAt c.depth) :=
    .imp (sound_exprStatement hc hdepth).clean fun s ts _ _ ⟨hs, hopen, hlevels⟩ =>
      ⟨hs.elim (·.2) .evaluation, hlevels, fun h => absurd h (by rw [hopen]; decide)⟩
  rw [Parser.bareStatement, hereSpan_bind, here_bind]
  cases hk : c.kind with
  | leftBrace => exact ih.block hc hk hn hdepth
  | ifWord => exact ih.ifElse hc hk hn
  | whileWord =>
      exact ih.conditioned .whileLoop "while" hc (by rw [hk]; decide) hn
        (fun _ _ _ _ _ => .whileLoop hk) (fun _ _ _ => rfl) fun _ _ _ => rfl
  | doWord => exact ih.doLoop hc hk hn
  | forWord => exact ih.forLoop hc hk hn hdepth
  | switchWord =>
      exact ih.conditioned .switch "switch" hc (by rw [hk]; decide) hn
        (fun _ _ _ _ _ => .switch hk) (fun _ _ _ => rfl) fun _ _ _ => rfl
  | caseWord =>
      refine .take hc (by rw [hk]; decide) fun hr₁ => ?_
      have hc₁ := hr₁.closed hc
      refine .bind hc₁ (sound_expression hc₁).clean fun value ts c₂ hr₂ hvalue => ?_
      refine .expect (hr₂.closed hc₁) (by decide) fun hcolon hr₃ => ?_
      have hlevels := hvalue.nesting
      rw [hr₁.depth] at hlevels
      refine .imp (ih.body_behind (.caseLabel · value ·) hc hn (hr₁.trans (hr₂.trans hr₃))
        (by simp) (fun span body vs hbody hplace => ?_) (fun _ _ => rfl) fun span body hbody => ?_) ?_
      · have hderives := DerivesStmt.caseLabel hk hvalue.derives hcolon hbody
          (by simpa using hplace)
        simpa using hderives
      · rw [Stmt.innerNesting]
        omega
      · intro s vs c' _ hs
        simpa using hs
  | defaultWord =>
      refine .take hc (by rw [hk]; decide) fun hr₁ => ?_
      refine .expect (hr₁.closed hc) (by decide) fun hcolon hr₂ => ?_
      refine ih.body_behind .defaultLabel hc hn (hr₁.trans hr₂) (by simp)
        (fun span body vs => .defaultLabel hk hcolon) (fun _ _ => rfl) fun span body hbody => ?_
      rw [Stmt.innerNesting]
      omega
  | breakWord =>
      refine .take hc (by rw [hk]; decide) fun hr₁ => ?_
      refine .expect (hr₁.closed hc) (by decide) fun hsemicolon hr₂ => ?_
      rw [spanFrom_bind]
      exact .pure ⟨.breakLoop hk hsemicolon ((hr₁.trans hr₂).covers_current (by simp)), hdepth,
        fun h => Bool.noConfusion h⟩
  | continueWord =>
      refine .take hc (by rw [hk]; decide) fun hr₁ => ?_
      refine .expect (hr₁.closed hc) (by decide) fun hsemicolon hr₂ => ?_
      rw [spanFrom_bind]
      exact .pure ⟨.continueLoop hk hsemicolon ((hr₁.trans hr₂).covers_current (by simp)), hdepth,
        fun h => Bool.noConfusion h⟩
  | printWord =>
      refine .take hc (by rw [hk]; decide) fun hr₁ => ?_
      have hc₁ := hr₁.closed hc
      refine .bind hc₁ (sound_expression hc₁).clean fun value ts c₂ hr₂ hvalue => ?_
      refine .expect (hr₂.closed hc₁) (by decide) fun hsemicolon hr₃ => ?_
      rw [spanFrom_bind]
      have hplace := (hr₁.trans (hr₂.trans hr₃)).covers_current (by simp)
      exact .pure ⟨.print hk hvalue.derives hsemicolon hplace, hr₁.depth ▸ hvalue.nesting,
        fun h => Bool.noConfusion h⟩
  | forEachSynapse =>
      refine .take hc (by rw [hk]; decide) fun hr₁ => ?_
      refine ih.body_behind .eachSynapse hc hn hr₁ (by simp) (fun span body vs => .eachSynapse hk)
        (fun _ _ => rfl) fun span body hbody => ?_
      rw [Stmt.innerNesting]
      omega
  | typeSpecifier => exact (Outcome.Sound.fail _).clean
  | typeQualifier => exact (Outcome.Sound.fail _).clean
  | _ => exact heval

theorem blockItem_succ (hc : c.Closed) (hn : 4 * c.rest.length + 3 ≤ n + 1) :
    (Parser.blockItem (n + 1) c).Clean c fun s ts _ =>
      (SpellsDeclaration CoversOrdered s ts ∨ DerivesStmt CoversOrdered (.statement s) ts) ∧
      (c.depth ≤ maxDepth → c.depth + (s.innerNesting + s.isLevel.toNat) ≤ maxDepth) := by
  rw [Parser.blockItem, here_bind]
  split
  next =>
    refine .imp (sound_declaration hc).clean fun s ts _ _ h => ⟨.inl h.1, ?_⟩
    obtain ⟨hs, hlevels⟩ := h
    cases hs
    exact hlevels
  next =>
    refine .imp (ih.statement c hc (by omega)) fun s ts _ _ hs => ⟨.inr hs.derives, fun _ => ?_⟩
    have hlevels := hs.nesting
    have hle := Bool.toNat_le s.isLevel
    omega

theorem items_succ (inBlock : Bool) (hc : c.Closed) (hn : 4 * c.rest.length + 4 ≤ n + 1)
    (hdepth : c.depth ≤ maxDepth) :
    (Outcome.done (Parser.items (n + 1) inBlock c).1 (Parser.items (n + 1) inBlock c).2).Clean c
      (ItemsAt c.depth inBlock) := by
  have hitem := ih.blockItem c hc (by omega)
  have hclosed := ((keepsReportWithin n).blockItem).closed hc
  have hlength := ((keepsReportWithin n).blockItem).length_le hc
  rw [Parser.items]
  split
  next hends => exact fun _ => ⟨[], .refl c, .nil, hdepth, hends⟩
  next =>
    cases hrun : Parser.blockItem n c with
    | done s c₁ =>
        rw [hrun] at hitem hclosed hlength
        dsimp only
        intro hle
        have hmore := ((keepsReportWithin n).items inBlock c₁ hclosed).2
        obtain ⟨ts, hr₁, hs, hlevels⟩ := hitem (hmore.trans hle)
        have hlevels := hlevels hdepth
        have hts : ts ≠ [] := hs.elim SpellsDeclaration.ne_nil DerivesStmt.ne_nil
        have hlen := hr₁.length_lt hts
        obtain ⟨us, hr₂, hss⟩ := ih.items inBlock c₁ hclosed (by omega) (hr₁.depth ▸ hdepth)
          (hle.trans (hr₁.report ▸ le_rfl))
        have hrestLevels := hss.nesting
        rw [hr₁.depth] at hrestLevels
        refine ⟨ts ++ us, hr₁.trans hr₂, ?_, ?_, hss.ends⟩
        · exact hs.elim (.declaration · hss.derives) (.statement · hss.derives)
        · rw [Stmt.nestingOfItems]
          omega
    | failed c₁ =>
        rw [hrun] at hitem hclosed
        dsimp only
        intro hle
        have hmore := ((keepsReportWithin n).items inBlock c₁.resume (closed_resume hclosed)).2
        rw [report_resume] at hmore
        exact absurd (hmore.trans hle) (Nat.not_le_of_lt hitem)

end SoundStmtWithin

theorem soundStmtWithin (n : Nat) : SoundStmtWithin n := by
  induction n with
  | zero => constructor <;> intros <;> omega
  | succ n ih =>
      exact {
        blockItem := fun _ => ih.blockItem_succ
        items := fun inBlock _ => ih.items_succ inBlock
        statement := fun _ => ih.statement_succ
        bareStatement := fun _ => ih.bareStatement_succ }

end Parser

end KernelWeaver.Snippet
