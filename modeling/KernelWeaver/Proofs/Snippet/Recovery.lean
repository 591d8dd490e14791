import KernelWeaver.Proofs.Snippet.Laws
import KernelWeaver.Proofs.Snippet.ParseItems

/-!
# Recovery from errors

An error leaves its mark on what is read behind it in two ways only. Where forms nest too deep, the
level that was entered is not left again, so each such error takes one level from what follows. And
recovery passes at least one token, so an error at the brace that should close a block costs the
block its end. Apart from that, a block ends where it should whatever is wrong inside, and what is
free of errors on its own is read without one.
-/

namespace KernelWeaver.Snippet

open KernelWeaver.Snippet.Parser

/-! ### Levels of nesting -/

/-- How many levels of nesting the errors of a report have not left again. -/
def lostLevels (report : Report) : Nat := report.countP (·.message = tooDeepText)

theorem lostLevels_reportHere (c : Cursor) {message : String} (h : message ≠ tooDeepText) :
    lostLevels (c.reportHere message).report = lostLevels c.report := by
  rw [lostLevels, Cursor.reportHere, List.countP_append, List.countP_singleton]
  exact congrArg (lostLevels c.report + ·) (if_neg fun hsame => h (of_decide_eq_true hsame))

theorem lostLevels_reportHere_tooDeep (c : Cursor) :
    lostLevels (c.reportHere tooDeepText).report = lostLevels c.report + 1 := by
  rw [lostLevels, Cursor.reportHere, List.countP_append, List.countP_singleton]
  exact congrArg (lostLevels c.report + ·) (if_pos (decide_eq_true rfl))

/-- What all reading does to a cursor, also where it is given up: tokens are passed, the report
grows, and the nesting deepens by the levels that are lost. -/
structure Cursor.Moves (c c' : Cursor) : Prop where
  rest : c'.rest <:+ c.rest
  ending : c'.ending = c.ending
  report : c.report <+: c'.report
  depth : c'.depth + lostLevels c.report = c.depth + lostLevels c'.report

namespace Cursor.Moves

variable {c c' c'' : Cursor}

theorem refl (c : Cursor) : c.Moves c := ⟨List.suffix_rfl, rfl, List.prefix_rfl, rfl⟩

theorem trans (h : c.Moves c') (h' : c'.Moves c'') : c.Moves c'' where
  rest := h'.rest.trans h.rest
  ending := h'.ending.trans h.ending
  report := h.report.trans h'.report
  depth := by
    have hfirst := h.depth
    have hsecond := h'.depth
    omega

theorem closed (h : c.Moves c') (hc : c.Closed) : c'.Closed := by
  rw [Closed, h.ending]
  exact hc

theorem lostLevels_le (h : c.Moves c') : lostLevels c.report ≤ lostLevels c'.report :=
  h.report.sublist.countP_le

theorem advance (c : Cursor) : c.Moves c.advance := by
  refine ⟨?_, c.ending_advance, c.report_advance ▸ List.prefix_rfl, ?_⟩
  · rw [Cursor.advance]
    split
    next => exact List.suffix_rfl
    next hrest => exact hrest ▸ List.suffix_cons _ _
  · rw [c.report_advance, Cursor.advance]
    split <;> rfl

theorem fail (c : Cursor) {message : String} (h : message ≠ tooDeepText) :
    c.Moves (c.reportHere message) :=
  ⟨List.suffix_rfl, rfl, List.prefix_append _ _, by rw [lostLevels_reportHere c h]; rfl⟩

/-- The level that could not be entered counts from then on. -/
theorem tooDeep (c : Cursor) : c.Moves (c.deeper.reportHere tooDeepText) where
  rest := List.suffix_rfl
  ending := rfl
  report := List.prefix_append _ _
  depth := by
    rw [lostLevels_reportHere_tooDeep]
    change c.depth + 1 + _ = c.depth + (_ + 1)
    rw [Nat.add_assoc, Nat.add_comm 1]
    rfl

theorem leave (h : c.deeper.Moves c') : c.Moves c'.shallower := by
  refine ⟨h.rest, h.ending, h.report, ?_⟩
  have hdepth := h.depth
  have hle := h.lostLevels_le
  change c'.depth - 1 + lostLevels c.report = c.depth + lostLevels c'.report
  change c'.depth + lostLevels c.report = c.depth + 1 + lostLevels c'.report at hdepth
  change lostLevels c.report ≤ lostLevels c'.report at hle
  -- inside the form the depth never falls below the level that was entered, so leaving takes it off
  omega

end Cursor.Moves

theorem skipToBoundary_suffix (previous : Token) (ts : List Token) :
    (Cursor.skipToBoundary previous ts).2 <:+ ts := by
  induction ts generalizing previous with
  | nil => exact List.suffix_rfl
  | cons t ts ih =>
      rw [Cursor.skipToBoundary]
      split
      next => exact List.suffix_rfl
      next => exact (ih t).trans (List.suffix_cons t ts)

theorem rest_resume {c : Cursor} {t : Token} {rest : List Token} (h : c.rest = t :: rest) :
    c.resume.rest <:+ rest := by
  rw [Cursor.resume, h]
  exact skipToBoundary_suffix t rest

theorem length_resume {c : Cursor} {t : Token} {rest : List Token} (h : c.rest = t :: rest) :
    c.resume.rest.length < c.rest.length := by
  have hlength := (rest_resume h).length_le
  rw [h, List.length_cons]
  exact Nat.lt_succ_of_le hlength

theorem Cursor.Moves.resume (c : Cursor) : c.Moves c.resume := by
  refine ⟨?_, ?_, (report_resume c).symm ▸ List.prefix_rfl, ?_⟩
  · cases hrest : c.rest with
    | nil =>
        have hsame : c.resume = c := by rw [Cursor.resume, hrest]
        rw [hsame, hrest]
    | cons t rest => exact (rest_resume hrest).trans (List.suffix_cons t rest)
  · rw [Cursor.resume]
    split <;> rfl
  · rw [report_resume, Cursor.resume]
    split <;> rfl

/-- All that is read moves the cursor on. -/
def Law.moves : Law := ⟨Cursor.Moves, Cursor.Moves, Cursor.Moves⟩

theorem holds_moves : Law.moves.Holds where
  refl := .refl
  trans := .trans
  trans_failed := .trans
  fresh _ := ⟨List.suffix_rfl, rfl, List.prefix_rfl, rfl⟩
  advance _ := .advance _
  stop := .refl
  fail _ _ h := .fail _ h
  tooDeep c _ := .tooDeep c
  leave := .leave
  leave_failed := .leave
  block _ h _ := (Cursor.Moves.advance _).trans (h.trans (.advance _))
  unclosed hmessage _ h _ := (Cursor.Moves.advance _).trans (h.trans (.fail _ hmessage))
  items_refl := .refl
  item := .trans
  skip _ h h' := h.trans ((Cursor.Moves.resume _).trans h')

theorem Outcome.Keeps.moves {α : Type} {c : Cursor} {o : Outcome α} (h : o.Keeps Law.moves c) :
    c.Moves o.cursor := by
  cases o <;> exact h

theorem moves_expression (c : Cursor) : c.Moves (expression c).cursor :=
  (holds_moves.expression c).moves

theorem moves_blockItem (n : Nat) (c : Cursor) : c.Moves (blockItem n c).cursor :=
  ((holds_moves.stmtKeptWithin n).blockItem c).moves

theorem moves_items (n : Nat) (inBlock : Bool) (c : Cursor) :
    c.Moves (items n inBlock c).2 :=
  (holds_moves.stmtKeptWithin n).items inBlock c

/-- Whatever is remarked while reading is an error. -/
def Law.errors : Law :=
  let keeps (c c' : Cursor) := (∀ d ∈ c.report, d.severity = .error) →
    ∀ d ∈ c'.report, d.severity = .error
  ⟨keeps, keeps, keeps⟩

theorem Cursor.severity_of_mem_reportHere {c : Cursor} {message : String}
    (h : ∀ d ∈ c.report, d.severity = .error) :
    ∀ d ∈ (c.reportHere message).report, d.severity = .error := by
  intro d hd
  rcases List.mem_append.mp hd with hd | hd
  · exact h d hd
  · rw [List.mem_singleton.mp hd]
    rfl

theorem holds_errors : Law.errors.Holds where
  refl _ h := h
  trans h h' hc := h' (h hc)
  trans_failed h h' hc := h' (h hc)
  fresh _ h := h
  advance {c} _ h := by rwa [c.report_advance]
  stop _ h := h
  fail _ _ _ h := Cursor.severity_of_mem_reportHere h
  tooDeep _ _ h := Cursor.severity_of_mem_reportHere h
  leave h hc := h hc
  leave_failed h hc := h hc
  block {c c'} _ h _ hc := by
    rw [c'.report_advance]
    exact h (by rwa [c.report_advance])
  unclosed {c _ _} _ _ h _ hc :=
    Cursor.severity_of_mem_reportHere (h (by rwa [c.report_advance]))
  items_refl _ h := h
  item h h' hc := h' (h hc)
  skip {_ c' _} _ h h' hc := h' (by rw [report_resume]; exact h hc)

theorem severity_of_mem_parseItems {tokens : List Token} {d : Diagnostic}
    (h : d ∈ (parseItems tokens).2) : d.severity = .error := by
  rw [parseItems_eq] at h
  exact (holds_errors.stmtKeptWithin _).items false (.ofTokens tokens)
    (fun d hd => absurd hd List.not_mem_nil) d h

/-- What is remarked in the first item stays on record. -/
theorem report_blockItem (n : Nat) {c : Cursor} (hend : c.atEnd = false) :
    (blockItem n c).cursor.report <+: (items (n + 1) false c).2.report := by
  rw [items, hend]
  cases blockItem n c with
  | done s c' => exact (moves_items n false c').report
  | failed c' => exact ((Cursor.Moves.resume c').trans (moves_items n false c'.resume)).report

theorem Cursor.Moves.depth_eq_iff {c c' : Cursor} (h : c.Moves c') :
    c'.depth = c.depth ↔ lostLevels c'.report = lostLevels c.report := by
  have hdepth := h.depth
  omega

/-- Reading an expression leaves the depth of nesting as it was, also where it is given up, exactly
if nothing nested too deep in it. -/
theorem depth_expression_iff (c : Cursor) :
    (expression c).cursor.depth = c.depth ↔
      lostLevels (expression c).cursor.report = lostLevels c.report :=
  (moves_expression c).depth_eq_iff

/-- Reading an item leaves the depth of nesting as it was, also where it is given up, exactly if
nothing nested too deep in it. -/
theorem depth_blockItem_iff (n : Nat) (c : Cursor) :
    (blockItem n c).cursor.depth = c.depth ↔
      lostLevels (blockItem n c).cursor.report = lostLevels c.report :=
  (moves_blockItem n c).depth_eq_iff

/-! ### What follows an error -/

section Progress

variable {n : Nat} {c c' : Cursor} {s : Stmt}

theorem Cursor.Moves.length_le (h : c.Moves c') : c'.rest.length ≤ c.rest.length := h.rest.length_le

theorem length_advance (hc : c.Closed) (hk : c.kind ≠ .endOfInput) :
    c.advance.rest.length < c.rest.length := (Cursor.reads_advance hc hk).length_cons

/-- Behind an item that is not read fewer tokens are left, also if none was left to skip. -/
theorem length_resume_lt (hc : c.Closed) (hend : c.atEnd = false) (h : c.Moves c') :
    c'.resume.rest.length < c.rest.length := by
  have hlength := h.length_le
  cases hrest : c'.rest with
  | nil =>
      have hsame : c'.resume = c' := by rw [Cursor.resume, hrest]
      obtain ⟨rest, hcons⟩ := Cursor.exists_rest hc (of_decide_eq_false hend)
      rw [hsame, hrest, hcons]
      exact Nat.succ_pos _
  | cons t rest =>
      have hskipped := length_resume hrest
      omega

theorem length_bareStatement (hc : c.Closed) (hdepth : c.depth ≤ maxDepth)
    (h : bareStatement n c = .done s c') : c'.rest.length < c.rest.length := by
  cases n with
  | zero => cases h
  | succ n =>
      have hkept := holds_moves.stmtKeptWithin n
      rcases bareStatement_cases n c with hkeyword | hblock | ⟨-, hfail⟩ | ⟨-, hvalue⟩
      · obtain ⟨f, hrun, hf⟩ := hkept.keyword holds_moves hkeyword
        rw [h, take_bind] at hrun
        have hbehind := hf c.current c.advance
        rw [← hrun] at hbehind
        refine hbehind.length_le.trans_lt (length_advance hc fun hk => ?_)
        rw [hk] at hkeyword
        cases hkeyword
      · have hitems := hkept.items true c.advance
        rw [bareStatement_of_leftBrace n hblock] at h
        dsimp only at h
        split at h
        next =>
          cases h
          refine (hitems.trans (.advance _)).length_le.trans_lt (length_advance hc ?_)
          rw [hblock]
          decide
        next => cases h
      · rw [hfail] at h
        cases h
      · have hsound := sound_exprStatement hc hdepth
        rw [← hvalue, h] at hsound
        obtain ⟨ts, hr, hspells, -⟩ := hsound
        have hts : ts ≠ [] := by
          rcases hspells with ⟨-, hderives⟩ | hspells
          · exact hderives.ne_nil
          · exact DerivesStmt.ne_nil (.evaluation hspells)
        exact hr.length_lt hts

/-- An item that is read is made of at least one token. -/
theorem length_blockItem (hc : c.Closed) (h : blockItem n c = .done s c') :
    c'.rest.length < c.rest.length := by
  cases n with
  | zero => cases h
  | succ n =>
      rw [blockItem, here_bind] at h
      split at h
      next =>
        have hsound := sound_declaration hc
        rw [h] at hsound
        obtain ⟨ts, hr, hspells, -⟩ := hsound
        exact hr.length_lt hspells.ne_nil
      next =>
        cases n with
        | zero => cases h
        | succ n =>
            rw [statement, nested] at h
            dsimp only at h
            split at h
            next => cases h
            next hdepth =>
              split at h
              next c₁ hrun =>
                have hshorter : c₁.rest.length < c.deeper.rest.length :=
                  length_bareStatement hc (Nat.le_of_not_lt hdepth) hrun
                cases h
                exact hshorter
              next => cases h

end Progress

/-- Reading of items outside blocks has got from one cursor to another, with the items read on the
way. Each of them took a step; what could not be read was skipped. -/
inductive GetsTo : Nat → Cursor → List Stmt → Nat → Cursor → Prop
  | here {n : Nat} {c : Cursor} : GetsTo n c [] n c
  | read {n m : Nat} {c c' c'' : Cursor} {s : Stmt} {ss : List Stmt} : c.atEnd = false →
    blockItem n c = .done s c' → GetsTo n c' ss m c'' → GetsTo (n + 1) c (s :: ss) m c''
  | skipped {n m : Nat} {c c' c'' : Cursor} {ss : List Stmt} : c.atEnd = false →
    blockItem n c = .failed c' → GetsTo n c'.resume ss m c'' → GetsTo (n + 1) c ss m c''

section GetsTo

variable {n m : Nat} {c c' : Cursor} {ss : List Stmt}

theorem items_of_getsTo (h : GetsTo n c ss m c') :
    items n false c = (ss ++ (items m false c').1, (items m false c').2) := by
  induction h with
  | here => rfl
  | read hend hrun _ ih =>
      rw [items, hend, hrun]
      dsimp only
      rw [ih]
      rfl
  | skipped hend hrun _ ih =>
      rw [items, hend, hrun]
      exact ih

theorem GetsTo.moves (h : GetsTo n c ss m c') : c.Moves c' := by
  induction h with
  | here => exact .refl _
  | @read n m c c' c'' s ss _ hrun _ ih =>
      have hitem := moves_blockItem n c
      rw [hrun] at hitem
      exact hitem.trans ih
  | @skipped n m c c' c'' ss _ hrun _ ih =>
      have hitem := moves_blockItem n c
      rw [hrun] at hitem
      exact hitem.trans ((Cursor.Moves.resume c').trans ih)

/-- The steps that are left are enough for the tokens that are left. -/
theorem GetsTo.enough (h : GetsTo n c ss m c') (hc : c.Closed) (hn : 4 * c.rest.length + 4 ≤ n) :
    4 * c'.rest.length + 4 ≤ m := by
  induction h with
  | here => exact hn
  | @read n m c c' c'' s ss _ hrun _ ih =>
      have hitem := moves_blockItem n c
      rw [hrun] at hitem
      have hlength := length_blockItem hc hrun
      exact ih (hitem.closed hc) (by omega)
  | @skipped n m c c' c'' ss hend hrun _ ih =>
      have hitem := moves_blockItem n c
      rw [hrun] at hitem
      have hskipped : c'.resume.rest.length < c.rest.length := length_resume_lt hc hend hitem
      exact ih ((hitem.trans (.resume c')).closed hc) (by omega)

end GetsTo

section Clean

variable {n : Nat} {c : Cursor} {ss : List Stmt} (hc : c.Closed)
  (hkinds : ∀ t ∈ c.rest, t.kind ≠ .endOfInput) (hn : 4 * c.rest.length + 4 ≤ n)
include hc hn

/-- Items that nest within the levels left are read to the end, and nothing is remarked. -/
theorem items_of_derives {P : Span → List Token → Prop} (hss : DerivesStmt P (.items ss) c.rest)
    (hlevels : c.depth + Stmt.nestingOfItems ss ≤ maxDepth) :
    (items n false c).2.report = c.report ∧
      Stmt.shapes (items n false c).1 = Stmt.shapes ss := by
  obtain ⟨c', ss', hrun, hr, hshapes⟩ := (completesStmt hss n false c []
    (List.append_nil _).symm hn hlevels (.inl hc)).exists
  obtain ⟨hss', hc'⟩ := Outcome.done.inj hrun
  rw [hss', hc']
  exact ⟨hr.report, hshapes⟩

include hkinds

/-- What is left is read without a remark exactly if it spells items that nest within the levels
left. -/
theorem items_clean_iff (hdepth : c.depth ≤ maxDepth) :
    (items n false c).2.report = c.report ↔ ∃ ss, DerivesStmt Anywhere (.items ss) c.rest ∧
      c.depth + Stmt.nestingOfItems ss ≤ maxDepth := by
  refine ⟨fun h => ?_, fun ⟨ss, hss, hlevels⟩ => (items_of_derives hc hn hss hlevels).1⟩
  obtain ⟨ts, hr, hitems⟩ := (soundStmtWithin n).items false c hc hn hdepth (h ▸ le_rfl)
  have hatEnd := hitems.ends
  rw [Bool.false_and, Bool.or_false] at hatEnd
  have hnil : (items n false c).2.rest = [] := by
    refine Cursor.rest_eq_nil_of_atEnd (fun t ht => hkinds t ?_) hatEnd
    rw [hr.rest]
    exact List.mem_append_right _ ht
  have hts : c.rest = ts := by rw [hr.rest, hnil, List.append_nil]
  refine ⟨_, hts ▸ ?_, hitems.nesting⟩
  exact hitems.derives.imp (C := fun _ => True)
    ⟨fun _ => trivial, fun _ => trivial, fun _ => trivial⟩ (fun _ _ => trivial) trivial

end Clean

section Behind

variable {tokens : List Token} {ss : List Stmt} {m : Nat} {c : Cursor}
  (hend : ∀ t ∈ tokens.dropLast, t.kind ≠ .endOfInput)
  (h : GetsTo (itemSteps (Cursor.ofTokens tokens).rest.length) (.ofTokens tokens) ss m c)
include h

theorem parseItems_of_getsTo :
    parseItems tokens = (ss ++ (items m false c).1, (items m false c).2.report) := by
  rw [parseItems_eq]
  dsimp only
  rw [items_of_getsTo h]

theorem GetsTo.depth_eq : c.depth = lostLevels c.report := by
  have hdepth := h.moves.depth
  rw [Cursor.depth_ofTokens, Cursor.report_ofTokens] at hdepth
  exact hdepth.trans (Nat.zero_add _)

theorem GetsTo.enough_ofTokens : 4 * c.rest.length + 4 ≤ m :=
  h.enough (Cursor.closed_ofTokens tokens) (by rw [itemSteps]; omega)

include hend

theorem GetsTo.kind_ne : ∀ t ∈ c.rest, t.kind ≠ .endOfInput := by
  intro t ht
  have hmem : t ∈ sentence tokens := Cursor.rest_ofTokens hend ▸ h.moves.rest.subset ht
  simpa using (List.mem_filter.mp hmem).2

/-- Behind errors, and whatever else was read, what is left is read as if it stood alone, but for
the levels that were lost: without a further remark exactly if it spells items that nest within the
levels left. -/
theorem parseItems_behind_iff (hlost : lostLevels c.report ≤ maxDepth) :
    (parseItems tokens).2 = c.report ↔ ∃ more, DerivesStmt Anywhere (.items more) c.rest ∧
      lostLevels c.report + Stmt.nestingOfItems more ≤ maxDepth := by
  rw [parseItems_of_getsTo h, ← h.depth_eq]
  exact items_clean_iff (h.moves.closed (Cursor.closed_ofTokens tokens)) (h.kind_ne hend)
    h.enough_ofTokens (h.depth_eq ▸ hlost)

/-- Where nothing nested too deep so far, what is read without a remark on its own is read without
one behind errors, too, and as the same items. -/
theorem parseItems_behind (hlost : lostLevels c.report = 0) (hclean : (parseItems c.rest).2 = []) :
    (parseItems tokens).2 = c.report ∧ ∃ more, (parseItems tokens).1 = ss ++ more ∧
      Stmt.shapes more = Stmt.shapes (parseItems c.rest).1 := by
  have hkinds := h.kind_ne hend
  have hsentence : sentence c.rest = c.rest :=
    List.filter_eq_self.mpr fun t ht => by simpa using hkinds t ht
  obtain ⟨hderives, hnesting⟩ :=
    derives_of_parseItems (fun t ht => hkinds t (List.mem_of_mem_dropLast ht)) hclean
  rw [hsentence] at hderives
  have hdepth := h.depth_eq.trans hlost
  obtain ⟨hreport, hshapes⟩ := items_of_derives (h.moves.closed (Cursor.closed_ofTokens tokens))
    h.enough_ofTokens hderives (by rw [hdepth, Nat.zero_add]; exact hnesting)
  rw [parseItems_of_getsTo h]
  exact ⟨hreport, _, rfl, hshapes⟩

end Behind

/-! ### The brace that closes a block -/

/-- The remark is an error at one of the tokens. -/
def IsAtOneOf (ts : List Token) (d : Diagnostic) : Prop :=
  ∃ t ∈ ts, ∃ message, d = Cursor.errorAt t message

/-- The cursor stands before tokens without braces, the brace behind them, and the rest. -/
structure Cursor.Before (body : List Token) (close : Token) (rest : List Token) (c : Cursor) :
    Prop where
  rest : c.rest = body ++ close :: rest
  plain : ∀ t ∈ body, t.kind.isBrace = false

/-- What is read in front of a brace that closes a block does not pass it, and is given up with at
most one remark, at the token where it is given up. -/
def Law.beforeBrace (close : Token) (rest : List Token) : Law where
  done c c' := ∀ body, c.Before body close rest →
    ∃ body', body' <:+ body ∧ c'.Before body' close rest ∧ c'.report = c.report
  failed c c' := ∀ body, c.Before body close rest →
    ∃ body', body' <:+ body ∧ c'.Before body' close rest ∧ (c'.report = c.report ∨
      ∃ message, c'.report = c.report ++ [Cursor.errorAt c'.current message])
  items _ _ := True

section Braces

variable {close : Token} {body rest : List Token} {c c' : Cursor}

/-- A block does not begin in front of the brace. -/
theorem Cursor.Before.kind_ne (h : c.Before body close rest) (hclose : close.kind = .rightBrace) :
    c.kind ≠ .leftBrace := by
  intro hkind
  cases body with
  | nil =>
      rw [Cursor.kind_of_rest h.rest, hclose] at hkind
      cases hkind
  | cons t body =>
      have hplain := h.plain t List.mem_cons_self
      rw [← Cursor.kind_of_rest h.rest, hkind] at hplain
      cases hplain

theorem holds_beforeBrace (hclose : close.kind = .rightBrace) :
    (Law.beforeBrace close rest).Holds where
  refl _ body h := ⟨body, List.suffix_rfl, h, rfl⟩
  trans h h' body hb := by
    obtain ⟨body', hsuffix, hb', hreport⟩ := h body hb
    obtain ⟨body'', hsuffix', hb'', hreport'⟩ := h' body' hb'
    exact ⟨body'', hsuffix'.trans hsuffix, hb'', hreport'.trans hreport⟩
  trans_failed h h' body hb := by
    obtain ⟨body', hsuffix, hb', hreport⟩ := h body hb
    obtain ⟨body'', hsuffix', hb'', hremark⟩ := h' body' hb'
    rw [hreport] at hremark
    exact ⟨body'', hsuffix'.trans hsuffix, hb'', hremark⟩
  fresh _ body hb := ⟨body, List.suffix_rfl, ⟨hb.rest, hb.plain⟩, rfl⟩
  advance {c} hbrace body hb := by
    cases body with
    | nil =>
        rw [Cursor.kind_of_rest hb.rest, hclose] at hbrace
        cases hbrace
    | cons t body =>
        have hadvance := Cursor.advance_of_rest hb.rest
        refine ⟨body, List.suffix_cons t body, ⟨?_, fun u hu => ?_⟩, by rw [hadvance]⟩
        · rw [hadvance]
          rfl
        · exact hb.plain u (List.mem_cons_of_mem t hu)
  stop _ body hb := ⟨body, List.suffix_rfl, hb, .inl rfl⟩
  fail _ _ _ body hb := ⟨body, List.suffix_rfl, ⟨hb.rest, hb.plain⟩, .inr ⟨_, rfl⟩⟩
  tooDeep _ _ body hb := ⟨body, List.suffix_rfl, ⟨hb.rest, hb.plain⟩, .inr ⟨_, rfl⟩⟩
  leave h body hb := by
    obtain ⟨body', hsuffix, hb', hreport⟩ := h body ⟨hb.rest, hb.plain⟩
    exact ⟨body', hsuffix, ⟨hb'.rest, hb'.plain⟩, hreport⟩
  leave_failed h body hb := by
    obtain ⟨body', hsuffix, hb', hremark⟩ := h body ⟨hb.rest, hb.plain⟩
    exact ⟨body', hsuffix, ⟨hb'.rest, hb'.plain⟩, hremark⟩
  block hkind _ _ _ hb := absurd hkind (hb.kind_ne hclose)
  unclosed _ hkind _ _ _ hb := absurd hkind (hb.kind_ne hclose)
  items_refl _ := trivial
  item _ _ := trivial
  skip _ _ _ := trivial

/-- Skipping in front of the brace stops at the brace at the latest. -/
theorem skipToBoundary_before (hclose : close.kind = .rightBrace) (previous : Token)
    (body rest : List Token) : ∃ body', body' <:+ body ∧
      (Cursor.skipToBoundary previous (body ++ close :: rest)).2 = body' ++ close :: rest := by
  induction body generalizing previous with
  | nil =>
      refine ⟨[], List.suffix_rfl, ?_⟩
      rw [List.nil_append, Cursor.skipToBoundary, if_pos (.inr (by rw [hclose]; rfl))]
  | cons t body ih =>
      rw [List.cons_append, Cursor.skipToBoundary]
      split
      next => exact ⟨t :: body, List.suffix_rfl, rfl⟩
      next =>
        obtain ⟨body', hsuffix, hrest⟩ := ih t
        exact ⟨body', hsuffix.trans (List.suffix_cons t body), hrest⟩

theorem Cursor.Before.resume {t : Token} (hclose : close.kind = .rightBrace)
    (h : c.Before (t :: body) close rest) :
    ∃ body', body' <:+ body ∧ c.resume.Before body' close rest := by
  obtain ⟨body', hsuffix, hrest⟩ := skipToBoundary_before hclose t body rest
  refine ⟨body', hsuffix, ⟨?_, fun u hu => h.plain u (List.mem_cons_of_mem t (hsuffix.subset hu))⟩⟩
  rw [Cursor.resume, h.rest]
  exact hrest

/-- The items of a block were read up to the brace that closes it, and all that was remarked on the
way is about tokens in front of the brace. -/
structure Closes (body : List Token) (close : Token) (rest : List Token) (c c' : Cursor) :
    Prop where
  rest : c'.rest = close :: rest
  report : ∃ remarks, c'.report = c.report ++ remarks ∧ ∀ d ∈ remarks, IsAtOneOf body d

/-- There was an error at the brace that should have closed the block, and the brace was passed. -/
structure LosesBrace (body : List Token) (close : Token) (rest : List Token) (c c' : Cursor) :
    Prop where
  rest : c'.rest <:+ rest
  report : ∃ remarks message more,
    c'.report = c.report ++ remarks ++ Cursor.errorAt close message :: more ∧
      ∀ d ∈ remarks, IsAtOneOf body d

theorem IsAtOneOf.mono {d : Diagnostic} {ts us : List Token} (h : IsAtOneOf ts d) (hsub : ts ⊆ us) :
    IsAtOneOf us d := by
  obtain ⟨t, ht, message, rfl⟩ := h
  exact ⟨t, hsub ht, message, rfl⟩

/-- What was remarked before, about tokens of the block, comes first. -/
theorem remarks_append {body body' : List Token} {report report' remarks remarks' : Report}
    (hsuffix : body' <:+ body) (hfirst : report' = report ++ remarks)
    (hremarks : ∀ d ∈ remarks, IsAtOneOf body d) (hremarks' : ∀ d ∈ remarks', IsAtOneOf body' d) :
    report' ++ remarks' = report ++ (remarks ++ remarks') ∧
      ∀ d ∈ remarks ++ remarks', IsAtOneOf body d := by
  refine ⟨by rw [hfirst, List.append_assoc], fun d hd => ?_⟩
  rcases List.mem_append.mp hd with hd | hd
  · exact hremarks d hd
  · exact (hremarks' d hd).mono hsuffix.subset

section After

variable {body' remarks : List _} {c'' : Cursor} (hsuffix : body' <:+ body)
  (hfirst : c'.report = c.report ++ remarks) (hremarks : ∀ d ∈ remarks, IsAtOneOf body d)
include hsuffix hfirst hremarks

theorem Closes.after (h : Closes body' close rest c' c'') : Closes body close rest c c'' := by
  obtain ⟨more, hreport, hmore⟩ := h.report
  obtain ⟨happend, hall⟩ := remarks_append hsuffix hfirst hremarks hmore
  exact ⟨h.rest, _, hreport.trans happend, hall⟩

theorem LosesBrace.after (h : LosesBrace body' close rest c' c'') :
    LosesBrace body close rest c c'' := by
  obtain ⟨before, message, more, hreport, hbefore⟩ := h.report
  obtain ⟨happend, hall⟩ := remarks_append hsuffix hfirst hremarks hbefore
  exact ⟨h.rest, _, message, more, by rw [hreport, happend], hall⟩

end After

section Item

variable {n : Nat} {s : Stmt} (hclose : close.kind = .rightBrace) (h : c.Before body close rest)
include hclose h

theorem blockItem_done_before (hrun : blockItem n c = .done s c') :
    ∃ body', body' <:+ body ∧ c'.Before body' close rest ∧ c'.report = c.report := by
  have hlaw : (Law.beforeBrace close rest).Holds := holds_beforeBrace hclose
  have hkept := (hlaw.stmtKeptWithin n).blockItem c
  rw [hrun] at hkept
  exact hkept body h

/-- With enough steps an item that is given up is remarked upon, at the token where it is. -/
theorem blockItem_failed_before (hc : c.Closed) (hn : 4 * c.rest.length + 3 ≤ n)
    (hrun : blockItem n c = .failed c') :
    ∃ body' message, body' <:+ body ∧ c'.Before body' close rest ∧
      c'.report = c.report ++ [Cursor.errorAt c'.current message] := by
  have hlaw : (Law.beforeBrace close rest).Holds := holds_beforeBrace hclose
  have hkept := (hlaw.stmtKeptWithin n).blockItem c
  have hclean := (soundStmtWithin n).blockItem c hc hn
  rw [hrun] at hkept hclean
  obtain ⟨body', hsuffix, hbefore, hsame | ⟨message, hreport⟩⟩ := hkept body h
  · -- only a lack of steps would go without a remark
    rw [Outcome.Clean, hsame] at hclean
    exact absurd hclean (Nat.lt_irrefl _)
  · exact ⟨body', message, hsuffix, hbefore, hreport⟩

end Item

/-- Behind an error at the brace skipping begins behind the brace. -/
theorem losesBrace_of_failed (n : Nat) {message : String} (h : c'.Before [] close rest)
    (hreport : c'.report = c.report ++ [Cursor.errorAt c'.current message]) :
    LosesBrace body close rest c (items n true c'.resume).2 := by
  have hmoves := moves_items n true c'.resume
  obtain ⟨more, hmore⟩ := hmoves.report
  refine ⟨hmoves.rest.trans (rest_resume h.rest), [], message, more, ?_, nofun⟩
  rw [← hmore, report_resume, hreport, Cursor.current_of_rest h.rest, List.append_nil,
    List.append_assoc]
  rfl

/-- The items of a block whose tokens hold no brace end at the brace behind them, unless there is an
error at this very brace. -/
theorem items_before (hclose : close.kind = .rightBrace) (hc : c.Closed)
    (hkinds : ∀ t ∈ body, t.kind ≠ .endOfInput) {n : Nat} (hn : 4 * c.rest.length + 4 ≤ n)
    (h : c.Before body close rest) :
    Closes body close rest c (items n true c).2 ∨
      LosesBrace body close rest c (items n true c).2 := by
  -- each item, read or skipped, leaves fewer tokens in front of the same brace
  induction n generalizing c body with
  | zero => omega
  | succ n ih =>
      have hmoves := moves_blockItem n c
      rcases items_cases n true c with
        ⟨hends, hitems⟩ | ⟨s, c₁, hrun, hitems⟩ | ⟨c₁, -, hrun, hitems⟩
      · rw [hitems]
        cases body with
        | nil => exact .inl ⟨h.rest, [], (List.append_nil _).symm, List.forall_mem_nil _⟩
        | cons t body =>
            have hbrace := h.plain t List.mem_cons_self
            rw [Cursor.atEnd, Cursor.kind_of_rest h.rest, decide_eq_true_eq] at hends
            rcases hends with hend | ⟨-, hright⟩
            · exact absurd hend (hkinds t List.mem_cons_self)
            · rw [hright] at hbrace
              cases hbrace
      · rw [hrun] at hmoves
        rw [hitems]
        have hc₁ : c₁.Closed := hmoves.closed hc
        obtain ⟨body', hsuffix, hbefore, hreport⟩ := blockItem_done_before hclose h hrun
        have hlength := length_blockItem hc hrun
        have hfirst : c₁.report = c.report ++ [] := by rw [hreport, List.append_nil]
        have hnone : ∀ d ∈ [], IsAtOneOf body d := List.forall_mem_nil _
        exact (ih hc₁ (fun t ht => hkinds t (hsuffix.subset ht)) (by omega) hbefore).imp
          (.after hsuffix hfirst hnone) (.after hsuffix hfirst hnone)
      · rw [hrun] at hmoves
        rw [hitems]
        have hc₁ : c₁.resume.Closed := closed_resume (hmoves.closed hc)
        have hlength : c₁.rest.length ≤ c.rest.length := hmoves.length_le
        obtain ⟨body', message, hsuffix, hbefore, hreport⟩ :=
          blockItem_failed_before hclose h hc (by omega) hrun
        cases body' with
        | nil => exact .inr (losesBrace_of_failed n hbefore hreport)
        | cons t body' =>
            obtain ⟨body'', hsuffix', hbefore'⟩ := hbefore.resume hclose
            have hsub := (hsuffix'.trans (List.suffix_cons t body')).trans hsuffix
            have hskipped := length_resume hbefore.rest
            rw [Cursor.current_of_rest hbefore.rest, ← report_resume] at hreport
            have hremarks : ∀ d ∈ [Cursor.errorAt t message], IsAtOneOf body d := fun d hd =>
              ⟨t, hsuffix.subset List.mem_cons_self, message, List.mem_singleton.mp hd⟩
            exact (ih hc₁ (fun u hu => hkinds u (hsub.subset hu)) (by omega) hbefore').imp
              (.after hsub hreport hremarks) (.after hsub hreport hremarks)

theorem LosesBrace.mono (h : LosesBrace body close rest c c') {c'' : Cursor}
    (hrest : c''.rest <:+ c'.rest) (hreport : c'.report <+: c''.report) :
    LosesBrace body close rest c c'' := by
  obtain ⟨remarks, message, more, hremarks, hbefore⟩ := h.report
  obtain ⟨last, hlast⟩ := hreport
  refine ⟨hrest.trans h.rest, remarks, message, more ++ last, ?_, hbefore⟩
  rw [← hlast, hremarks, List.append_assoc, List.cons_append]

/-- A block is an item one level deeper. -/
theorem blockItem_of_leftBrace (n : Nat) (hkind : c.kind = .leftBrace)
    (hdepth : c.depth < maxDepth) :
    blockItem (n + 3) c =
      let run := items n true c.deeper.advance
      if run.2.kind = .rightBrace then
        .done (.block (c.current.span.merge run.2.advance.previous.span) run.1)
          run.2.advance.shallower
      else
        .failed (run.2.reportHere
          ("Expected " ++ TokenKind.rightBrace.description ++ " " ++ "after block")).shallower := by
  have hrun := bareStatement_of_leftBrace n (c := c.deeper) hkind
  rw [Cursor.deeper] at hrun
  rw [blockItem, here_bind, if_neg (by rw [hkind]; decide), statement, nested]
  dsimp only
  rw [if_neg (Nat.not_lt.mpr hdepth), hrun]
  dsimp only
  by_cases hclosed : (items n true c.deeper.advance).2.kind = .rightBrace
  · rw [Cursor.deeper] at hclosed
    rw [if_pos hclosed, Cursor.deeper, if_pos hclosed]
    rfl
  · rw [Cursor.deeper] at hclosed
    rw [if_neg hclosed, Cursor.deeper, if_neg hclosed]
    rfl

section Block

variable {opening : Token} (hopening : opening.kind = .leftBrace)
  (hclose : close.kind = .rightBrace) (hplain : ∀ t ∈ body, t.kind.isBrace = false)
include hopening hclose hplain

/-- A block whose tokens hold no brace ends at the brace behind them, and what is remarked is about
its tokens, unless there is an error at this very brace. -/
theorem blockItem_before (hc : c.Closed) (hkinds : ∀ t ∈ body, t.kind ≠ .endOfInput) {n : Nat}
    (hn : 4 * c.rest.length + 3 ≤ n) (hdepth : c.depth < maxDepth)
    (hrest : c.rest = opening :: (body ++ close :: rest)) :
    (∃ s c' remarks, blockItem n c = .done s c' ∧ c'.rest = rest ∧
      c'.report = c.report ++ remarks ∧ ∀ d ∈ remarks, IsAtOneOf body d) ∨
    LosesBrace body close rest c (blockItem n c).cursor := by
  obtain ⟨n, rfl⟩ : ∃ k, n = k + 3 := ⟨n - 3, by omega⟩
  have hkind : c.kind = .leftBrace := by rw [Cursor.kind_of_rest hrest, hopening]
  have hinside : c.deeper.advance.rest = body ++ close :: rest := by
    rw [Cursor.advance_of_rest (c := c.deeper) hrest]
  have hclosed : c.deeper.advance.Closed := (Cursor.Moves.advance c.deeper).closed hc
  have hreport := Cursor.report_advance c.deeper
  have hsteps : 4 * c.deeper.advance.rest.length + 4 ≤ n := by
    rw [hrest, List.length_cons] at hn
    rw [hinside]
    omega
  rw [blockItem_of_leftBrace n hkind hdepth]
  dsimp only
  rcases items_before hclose hclosed hkinds hsteps ⟨hinside, hplain⟩ with hcloses | hloses
  · obtain ⟨remarks, hremarks, hinBody⟩ := hcloses.report
    rw [if_pos (by rw [Cursor.kind_of_rest hcloses.rest, hclose])]
    refine .inl ⟨_, _, remarks, rfl, ?_, ?_, hinBody⟩
    · change Cursor.rest (Cursor.advance _) = rest
      rw [Cursor.advance_of_rest hcloses.rest]
    · change Cursor.report (Cursor.advance _) = _
      rw [Cursor.report_advance, hremarks, hreport]
      rfl
  · have hlost : LosesBrace body close rest c (items n true c.deeper.advance).2 :=
      ⟨hloses.rest, hreport ▸ hloses.report⟩
    refine .inr ?_
    split
    next =>
      have hmoves := Cursor.Moves.advance (items n true c.deeper.advance).2
      exact hlost.mono hmoves.rest hmoves.report
    next => exact hlost.mono List.suffix_rfl (List.prefix_append _ _)

section Front

variable {tokens : List Token} (hend : ∀ t ∈ tokens.dropLast, t.kind ≠ .endOfInput)
  (htokens : sentence tokens = opening :: (body ++ close :: rest))
include hend htokens

/-- A block in front of everything else is read as one item, with remarks about its tokens only, and
reading goes on behind its brace, unless there is an error at this very brace. -/
theorem getsTo_behind_block :
    (∃ s m c, GetsTo (itemSteps (Cursor.ofTokens tokens).rest.length) (.ofTokens tokens) [s] m c ∧
      c.rest = rest ∧ ∀ d ∈ c.report, IsAtOneOf body d) ∨
    ∃ message, Cursor.errorAt close message ∈ (parseItems tokens).2 := by
  have hrest : (Cursor.ofTokens tokens).rest = opening :: (body ++ close :: rest) :=
    (Cursor.rest_ofTokens hend).trans htokens
  have hkinds : ∀ t ∈ body, t.kind ≠ .endOfInput := by
    intro t ht
    have hmem : t ∈ sentence tokens := by
      rw [htokens]
      exact List.mem_cons_of_mem _ (List.mem_append_left _ ht)
    simpa using (List.mem_filter.mp hmem).2
  have hatEnd : (Cursor.ofTokens tokens).atEnd = false := by
    rw [Cursor.atEnd, Cursor.kind_of_rest hrest, hopening]
    rfl
  have hdepth : (Cursor.ofTokens tokens).depth < maxDepth := by
    rw [Cursor.depth_ofTokens]
    decide
  obtain ⟨n, hn⟩ : ∃ n, itemSteps (Cursor.ofTokens tokens).rest.length = n + 1 := ⟨_, rfl⟩
  have hsteps : 4 * (Cursor.ofTokens tokens).rest.length + 3 ≤ n := by
    rw [itemSteps] at hn
    omega
  have hblock := blockItem_before hopening hclose hplain (Cursor.closed_ofTokens tokens) hkinds
    hsteps hdepth hrest
  obtain ⟨s, c', remarks, hrun, hrest', hreport, hin⟩ | hloses := hblock
  · refine .inl ⟨s, n, c', hn ▸ .read hatEnd hrun .here, hrest', ?_⟩
    rw [hreport, Cursor.report_ofTokens]
    exact hin
  · obtain ⟨remarks, message, more, hreport, -⟩ := hloses.report
    refine .inr ⟨message, ?_⟩
    rw [parseItems_eq, hn]
    refine (report_blockItem n hatEnd).subset ?_
    rw [hreport]
    exact List.mem_append_right _ List.mem_cons_self

/-- Errors stay inside their block: if what stands behind it is free of errors on its own, there is
no error at its brace and nothing nests too deep, then all that is remarked is about tokens of the
block, and behind it the same items are read as on their own. -/
theorem errors_stay_inside (hclean : (parseItems rest).2 = [])
    (hbrace : ∀ message, Cursor.errorAt close message ∉ (parseItems tokens).2)
    (hlost : lostLevels (parseItems tokens).2 = 0) :
    (∀ d ∈ (parseItems tokens).2, IsAtOneOf body d) ∧ ∃ block more,
      (parseItems tokens).1 = block :: more ∧
        Stmt.shapes more = Stmt.shapes (parseItems rest).1 := by
  obtain ⟨block, m, c, hgets, rfl, hin⟩ | ⟨message, hmem⟩ :=
    getsTo_behind_block hopening hclose hplain hend htokens
  · have hgrows := moves_items m false c
    have hnone : lostLevels c.report = 0 := by
      have hle := hgrows.lostLevels_le
      rw [parseItems_of_getsTo hgets] at hlost
      dsimp only at hlost
      omega
    obtain ⟨hreport, more, hitems, hshapes⟩ := parseItems_behind hend hgets hnone hclean
    rw [hreport]
    exact ⟨hin, block, more, hitems, hshapes⟩
  · exact absurd hmem (hbrace message)

end Front

/-- In `{ x } ;` the semicolon is missed at the brace, which then does not close the block. -/
example : (parseItems [⟨.leftBrace, "\x7b", ⟨0, 1, 1⟩⟩, ⟨.identifier, "x", ⟨2, 3, 1⟩⟩,
    ⟨.rightBrace, "\x7d", ⟨4, 5, 1⟩⟩, ⟨.semicolon, ";", ⟨6, 7, 1⟩⟩]).1.isEmpty = true := by
  decide +kernel

end Block

end Braces

end KernelWeaver.Snippet
