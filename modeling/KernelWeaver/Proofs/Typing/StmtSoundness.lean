import KernelWeaver.Proofs.Typing.Soundness

/-!
# What a clean check of statements tells

After the statements of a snippet are checked without a remark, every node in them has a type and
the snippet is scoped. The check goes on behind a statement that fails, but then there is more on
the report.
-/

namespace KernelWeaver.Typing

open Snippet

variable {setting : Setting} {known : Set String} {c c' : Checker} {xs : List NodeId}

/-- The names that a loop over synapses makes known here, where such a loop can stand. -/
def loopNames (setting : Setting) (c : Checker) : Option (List String) :=
  if c.inSynapseLoop then none else setting.synapseNames.map (·.map Prod.fst)

/-- The check tells that all is well with nothing to remark, and `Q` holds of the state it leaves,
or it tells that something is wrong, with more on the report. -/
def Check.Tells (m : Check Bool) (c : Checker) (Q : Checker → Prop) : Prop :=
  ∃ ok c', m c = (some ok, c') ∧
    if ok then c'.report = c.report ∧ Q c' else c.report.length < c'.report.length

namespace Check

variable {α β : Type} {m : Check α}

/-- A check that runs between two changes of the state. -/
theorem Sound.between {Q : α → Checker → Prop} (enter leave : Checker → Checker)
    (henter : (enter c).report = c.report) (hleave : ∀ c', (leave c').report = c'.report)
    (h : m.Sound (enter c) fun a c' => Q a (leave c')) :
    Check.Sound (do
      Check.modify enter
      Check.afterwards m leave) c Q := by
  refine .bind (P := fun _ c' => c' = enter c) (.modify henter rfl) ?_
  rintro _ _ rfl
  exact .afterwards hleave h

theorem Sound.inScope {Q : α → Checker → Prop}
    (h : m.Sound { c with scopes := [] :: c.scopes } fun a c' =>
      Q a { c' with scopes := c'.scopes.tail }) : (inScope m).Sound c Q :=
  .between (fun c => { c with scopes := [] :: c.scopes })
    (fun c => { c with scopes := c.scopes.tail }) rfl (fun _ => rfl) h

theorem Sound.inLoop {P : Prop}
    (h : m.Sound { c with loopDepth := c.loopDepth + 1 } fun _ c' =>
      Checker.Restores { c with loopDepth := c.loopDepth + 1 } xs c' ∧ P) :
    (inLoop m).Sound c fun _ c' => c.Restores xs c' ∧ P :=
  .between (fun c => { c with loopDepth := c.loopDepth + 1 })
    (fun c => { c with loopDepth := c.loopDepth - 1 }) rfl (fun _ => rfl) (h.imp fun _ _ ⟨hc, hP⟩ =>
      ⟨⟨⟨hc.keeps, hc.types, hc.inSynapseLoop, hc.outer⟩, hc.scopes⟩, hP⟩)

theorem Sound.inSwitch {P : Prop}
    (h : m.Sound { c with switchDepth := c.switchDepth + 1 } fun _ c' =>
      Checker.Restores { c with switchDepth := c.switchDepth + 1 } xs c' ∧ P) :
    (inSwitch m).Sound c fun _ c' => c.Restores xs c' ∧ P :=
  .between (fun c => { c with switchDepth := c.switchDepth + 1 })
    (fun c => { c with switchDepth := c.switchDepth - 1 }) rfl (fun _ => rfl)
    (h.imp fun _ _ ⟨hc, hP⟩ =>
      ⟨⟨⟨hc.keeps, hc.types, hc.inSynapseLoop, hc.outer⟩, hc.scopes⟩, hP⟩)

/-- A check that has nothing on the report in the end tells that all is well. -/
theorem Tells.of_clean {m : Check Bool} {Q : Checker → Prop} (h : m.Tells c Q)
    (hclean : (m c).2.report = []) : Q (m c).2 := by
  obtain ⟨ok, c', hrun, hok⟩ := h
  rw [hrun] at hclean ⊢
  cases ok with
  | true => exact hok.2
  | false =>
      have hmore : c.report.length < c'.report.length := hok
      rw [show c'.report = [] from hclean] at hmore
      exact absurd hmore (Nat.not_lt_zero _)

theorem Tells.imp {m : Check Bool} {P Q : Checker → Prop} (h : m.Tells c P)
    (hPQ : ∀ c', P c' → Q c') : m.Tells c Q := by
  obtain ⟨ok, c', hrun, hok⟩ := h
  refine ⟨ok, c', hrun, ?_⟩
  cases ok with
  | true => exact ⟨hok.1, hPQ c' hok.2⟩
  | false => exact hok

/-- A block fails if something is wrong with its items. -/
theorem Tells.block {m : Check Bool} {Q : Checker → Prop}
    (h : m.Tells { c with scopes := [] :: c.scopes } fun c' =>
      Q { c' with scopes := c'.scopes.tail }) :
    Check.Sound (do
      let ok ← Check.inScope m
      if !ok then Check.failed) c fun _ c' => Q c' := by
  obtain ⟨ok, c', hrun, hok⟩ := h
  have hscope : Check.inScope m c = (some ok, { c' with scopes := c'.scopes.tail }) := by
    refine (bind_of_some (m := pushScope) (a := ()) rfl _).trans ?_
    rw [Check.afterwards, hrun]
  rw [Sound, bind_of_some hscope]
  cases ok with
  | true => exact hok
  | false => exact hok

/-- The statements behind one that fails are checked as well. -/
theorem Tells.cons {m : Check Unit} {rest : Check Bool} {P : Unit → Checker → Prop}
    {Q : Checker → Prop} (hm : m.Sound c P) (hrest : ∀ c', P () c' → rest.Tells c' Q)
    (hany : ∀ c', rest.Tells c' fun _ => True) :
    Check.Tells (do
      let ok ← Check.succeeds m
      let restOk ← rest
      return ok && restOk) c Q := by
  have hrun : ∀ o c₁ ok c₂, m c = (o, c₁) → rest c₁ = (some ok, c₂) → (do
      let ok ← Check.succeeds m
      let restOk ← rest
      return ok && restOk : Check Bool) c = (some (o.isSome && ok), c₂) := by
    intro o c₁ ok c₂ hm hr
    have hsucceeds : Check.succeeds m c = (some o.isSome, c₁) := by rw [Check.succeeds, hm]
    rw [bind_of_some hsucceeds, bind_of_some hr]
    rfl
  rw [Sound] at hm
  cases hmc : m c with
  | mk o c₁ =>
      rw [hmc] at hm
      cases o with
      | none =>
          obtain ⟨ok, c₂, hr, hok⟩ := hany c₁
          refine ⟨false, c₂, hrun _ _ _ _ hmc hr, ?_⟩
          cases ok with
          | true => exact hok.1 ▸ hm
          | false => exact hm.trans hok
      | some u =>
          obtain ⟨ok, c₂, hr, hok⟩ := hrest c₁ hm.2
          refine ⟨ok, c₂, hrun _ _ _ _ hmc hr, ?_⟩
          rw [hm.1] at hok
          exact hok

end Check

namespace Checker

/-- The state with one more name in the innermost scope. -/
def withName (c : Checker) (name : String) (t : CType) : Checker :=
  { c with scopes := (c.scopes.head?.getD [] ++ [(name, t)]) :: c.scopes.tail }

theorem withName_within (h : Within setting c.scopes known) (name : String) (t : CType) :
    Within setting (c.withName name t).scopes (insert name known) where
  declared table htable other hother := by
    rcases List.mem_cons.mp htable with rfl | htable
    · rw [List.map_append, List.mem_append] at hother
      rcases hother with hother | hother
      · cases hscopes : c.scopes with
        | nil => simp [hscopes] at hother
        | cons scope outer =>
            rw [hscopes] at hother
            exact .inr (h.declared scope (hscopes ▸ List.mem_cons_self) other hother)
      · exact .inl (List.mem_singleton.mp hother)
    · exact .inr (h.declared table (List.mem_of_mem_tail htable) other hother)
  outside other hother := .inr (h.outside other hother)

theorem Extends.withName (c : Checker) (name : String) (t : CType) :
    c.Extends [] (c.withName name t) :=
  ⟨fun _ h => h, fun _ h => absurd h List.not_mem_nil, rfl, rfl⟩

end Checker

/-- A name is declared once in a scope. -/
theorem declare_sound (span : Span) (name : String) (t : CType) (c : Checker) :
    (Check.declare span name t).Sound c fun _ c' =>
      c' = c.withName name t ∧ name ∉ (c.scopes.head?.getD []).map Prod.fst := by
  refine .bind (P := fun a c' => a = c ∧ c' = c) (.state ⟨rfl, rfl⟩) ?_
  rintro _ c ⟨rfl, rfl⟩
  cases hscopes : c.scopes with
  | nil => exact .modify rfl ⟨by rw [Checker.withName, hscopes]; rfl, by simp⟩
  | cons scope outer =>
      dsimp only
      split
      next => exact .fail _ _
      next hnew =>
        rw [Bool.not_eq_true] at hnew
        refine .modify rfl ⟨?_, Table.has_eq_false_iff.mp hnew⟩
        rw [Checker.withName, hscopes, Table.insert_of_not_has _ hnew]
        rfl

/-- The names of a loop are declared if they differ from each other. -/
theorem declareAll_sound (span : Span) (names : List (String × CType)) {table : Table CType}
    {outer : List (Table CType)} (hc : c.scopes = table :: outer) :
    (declareAll span names).Sound c fun _ c' =>
      c' = { c with scopes := (table ++ names) :: outer } ∧ (names.map Prod.fst).Nodup ∧
        ∀ name ∈ names.map Prod.fst, name ∉ table.map Prod.fst := by
  induction names generalizing c table with
  | nil =>
      refine .pure ⟨?_, List.nodup_nil, fun _ h => absurd h List.not_mem_nil⟩
      rw [List.append_nil, ← hc]
  | cons entry rest ih =>
      obtain ⟨name, t⟩ := entry
      refine .bind (declare_sound span name t c) ?_
      rintro _ _ ⟨rfl, hnew⟩
      rw [hc] at hnew
      have hscopes : (c.withName name t).scopes = (table ++ [(name, t)]) :: outer := by
        rw [Checker.withName, hc]
        rfl
      refine (ih hscopes).imp fun _ c' ⟨hc', hnodup, hapart⟩ => ⟨?_, ?_, ?_⟩
      · rw [hc', Checker.withName, List.append_assoc]
        rfl
      · refine List.nodup_cons.mpr ⟨fun hmem => hapart name hmem (by simp), hnodup⟩
      · intro other hother
        rcases List.mem_cons.mp hother with rfl | hother
        · exact hnew
        · exact fun hmem => hapart other hother (by simp [hmem])

theorem checkOptional_sound {m : Expr → Check Unit} (hc : Within setting c.scopes known)
    (hm : ∀ e c, Within setting c.scopes known →
      (m e).Sound c fun _ c' => ExprChecked known c e.nodes e.names c') (e : Option Expr) :
    (checkOptional m e).Sound c fun _ c' =>
      c.Restores (Expr.nodesOfOption e) c' ∧ Expr.ScopedOption known e := by
  cases e with
  | none => exact .pure ⟨.refl c, nofun⟩
  | some e =>
      refine (hm e c hc).imp fun _ c' h => ⟨h.toRestores, ?_⟩
      rintro _ ⟨⟩
      exact h.names

theorem checkValue_sound (e : Expr) (hc : Within setting c.scopes known) :
    (checkValue setting e).Sound c fun _ c' => ExprChecked known c e.nodes e.names c' :=
  .bind (check_sound e hc) fun _ _ h => .pure h

theorem checkCondition_sound (e : Expr) (hc : Within setting c.scopes known) :
    (checkCondition setting e).Sound c fun _ c' => ExprChecked known c e.nodes e.names c' :=
  .bind (check_sound e hc) fun _ _ h => .requireCondition h

theorem checkIntegral_sound (e : Expr) (flaw : CType → Flaw) (hc : Within setting c.scopes known) :
    (checkIntegral setting e flaw).Sound c fun _ c' => ExprChecked known c e.nodes e.names c' := by
  refine .bind (check_sound e hc) fun t c' h => ?_
  split
  next => exact .fail _ _
  next => exact .pure h

/-- A name is known to its own value. -/
theorem checkDeclarator_sound (type : TypeSpec) (d : Declarator) (hc : Within setting c.scopes known) :
    (checkDeclarator setting type d).Sound c fun _ c' =>
      c.Extends (d.id :: Expr.nodesOfOption d.init) c' ∧
      Within setting c'.scopes (insert d.name known) ∧
      Expr.ScopedOption (insert d.name known) d.init := by
  refine .bind (resolve_sound type d.pointer) ?_
  rintro t _ rfl
  refine .bind (P := fun _ c₁ => ExprChecked known _ [d.id] [] c₁)
    (.modify rfl ((ExprChecked.refl _).note d.id t)) fun _ c₁ h₁ => ?_
  refine .bind (declare_sound d.span d.name t c₁) ?_
  rintro _ _ ⟨rfl, -⟩
  have hwithin := Checker.withName_within (h₁.toRestores.within hc) d.name t
  have hdeclared := h₁.toExtends.trans (.withName c₁ d.name t)
  cases hinit : d.init with
  | none => exact .pure ⟨hdeclared, hwithin, nofun⟩
  | some init =>
      refine .bind (check_sound init hwithin) fun given c₂ h₂ => ?_
      split
      next => exact .fail _ _
      next =>
        refine .pure ⟨hdeclared.trans h₂.toExtends, h₂.toRestores.within hwithin, ?_⟩
        rintro _ ⟨⟩
        exact h₂.names

theorem checkDeclarators_sound (type : TypeSpec) (ds : List Declarator)
    (hc : Within setting c.scopes known) :
    (checkDeclarators setting type ds).Sound c fun _ c' =>
      c.Extends (Declarator.nodesOfAll ds) c' ∧
      ∃ behind, ScopedDeclarators known ds behind ∧ Within setting c'.scopes behind := by
  induction ds generalizing c known with
  | nil => exact .pure ⟨.refl c, known, .nil, hc⟩
  | cons d ds ih =>
      refine .bind (checkDeclarator_sound type d hc) fun _ c₁ ⟨h₁, hwithin, hinit⟩ => ?_
      refine (ih hwithin).imp fun _ c₂ ⟨h₂, behind, hds, hbehind⟩ => ?_
      exact ⟨h₁.trans h₂, behind, .cons hinit hds, hbehind⟩

theorem synapseNames_sound (span : Span) (c : Checker) :
    (synapseNames setting span).Sound c fun names c' =>
      c' = c ∧ setting.synapseNames = some names ∧ c.inSynapseLoop = false := by
  rw [synapseNames]
  split
  next => exact .fail _ _
  next names hnames =>
    refine .bind (P := fun a c' => a = c ∧ c' = c) (.state ⟨rfl, rfl⟩) ?_
    rintro _ _ ⟨rfl, rfl⟩
    split
    next => exact .fail _ _
    next hloop => exact .pure ⟨rfl, hnames, by simpa using hloop⟩

theorem loopNames_congr (h : c.Extends xs c') : loopNames setting c' = loopNames setting c := by
  rw [loopNames, loopNames, h.inSynapseLoop]

theorem Within.push {scopes : List (Table CType)} (h : Within setting scopes known) :
    Within setting ([] :: scopes) known where
  declared table htable := by
    rcases List.mem_cons.mp htable with rfl | htable
    · exact fun name hname => absurd hname List.not_mem_nil
    · exact h.declared table htable
  outside := h.outside

/-- With the innermost scope closed, the scopes are those from before it was opened. -/
theorem Checker.Extends.pop {scope : Table CType}
    (h : Checker.Extends { c with scopes := scope :: c.scopes } xs c') :
    c.Restores xs { c' with scopes := c'.scopes.tail } :=
  ⟨⟨h.keeps, h.types, h.inSynapseLoop, congrArg List.tail h.outer⟩, h.outer⟩

/-- What the check of a statement or of items tells. -/
def SoundPhrase (setting : Setting) : StmtPhrase → Prop
  | .statement s => ∀ c known, Within setting c.scopes known →
    (checkStmt setting s).Sound c fun _ c' =>
      c.Restores s.nodes c' ∧ Scoped (loopNames setting c) known (.statement s)
  | .items ss => ∀ c known, Within setting c.scopes known →
    (checkItems setting ss).Tells c fun c' =>
      c.Extends (Stmt.nodesOfItems ss) c' ∧ Scoped (loopNames setting c) known (.items ss)

variable {Place : Span → List Token → Prop} {ts : List Token} {s body : Stmt}

/-- A check behind one that declares nothing. -/
theorem Checker.Restores.followed {m : Check Unit} {ys : List NodeId} {phrase : StmtPhrase}
    {c₁ : Checker} (h : c.Restores xs c₁)
    (hm : m.Sound c₁ fun _ c' =>
      c₁.Restores ys c' ∧ Scoped (loopNames setting c₁) known phrase) :
    m.Sound c₁ fun _ c' =>
      c.Restores (xs ++ ys) c' ∧ Scoped (loopNames setting c) known phrase := by
  rw [loopNames_congr h.toExtends] at hm
  exact hm.imp fun _ _ ⟨h', hscoped⟩ => ⟨h.trans h', hscoped⟩

theorem evaluation_sound (h : SpellsEvaluation Place s ts) (hc : Within setting c.scopes known) :
    (checkStmt setting s).Sound c fun _ c' =>
      c.Restores s.nodes c' ∧ Scoped (loopNames setting c) known (.statement s) ∧
        ScopedForInit known (some s) known := by
  cases h with
  | intro he hk hp =>
      rw [checkStmt]
      exact (checkValue_sound _ hc).imp fun _ _ h =>
        ⟨h.toRestores, .evaluation h.names, .evaluation h.names⟩

theorem declaration_sound (h : SpellsDeclaration Place s ts) (hc : Within setting c.scopes known) :
    (checkStmt setting s).Sound c fun _ c' =>
      c.Extends s.nodes c' ∧ ∃ span type names behind, s = .declare span type names ∧
        ScopedDeclarators known names behind ∧ Within setting c'.scopes behind := by
  cases h with
  | intro hs hpointer hp hnames hk hplace =>
      rw [checkStmt]
      exact (checkDeclarators_sound _ _ hc).imp fun _ _ ⟨hext, behind, hds, hbehind⟩ =>
        ⟨hext, _, _, _, behind, rfl, hds, hbehind⟩

/-- The first clause of a `for` is checked before the rest of the loop. -/
theorem forInit_sound {init : Option Stmt} {f : Unit → Check Unit}
    {Q : Unit → Checker → Prop} (h : SpellsForInit Place init ts) (hc : Within setting c.scopes known)
    (hf : ∀ c' inside, c.Extends (Stmt.nodesOfOption init) c' → ScopedForInit known init inside →
      Within setting c'.scopes inside → (f ()).Sound c' Q) :
    Check.Sound (match init with
      | none => f ()
      | some init => do
        let r ← checkStmt setting init
        f r) c Q := by
  cases h with
  | none hk => exact hf c known (.refl c) .none hc
  | declaration h =>
      refine .bind (declaration_sound h hc) ?_
      rintro _ c₁ ⟨hext, span, type, names, behind, rfl, hds, hbehind⟩
      exact hf c₁ behind hext (.declaration hds) hbehind
  | evaluation h =>
      refine .bind (evaluation_sound h hc) fun _ c₁ ⟨hres, _, hinit⟩ => ?_
      exact hf c₁ known hres.toExtends hinit (hres.within hc)

theorem block_sound {ss : List Stmt} (ih : SoundPhrase setting (.items ss)) (span : Span) :
    SoundPhrase setting (.statement (.block span ss)) := by
  intro c known hc
  rw [checkStmt]
  refine Check.Tells.block ((ih { c with scopes := [] :: c.scopes } known hc.push).imp
    fun c' ⟨hext, hscoped⟩ => ⟨hext.pop, .block hscoped⟩)

theorem forLoop_sound {init : Option Stmt} {is : List Token} {test step : Option Expr}
    (ih : SoundPhrase setting (.statement body)) (hinit : SpellsForInit Place init is)
    (span : Span) : SoundPhrase setting (.statement (.forLoop span init test step body)) := by
  intro c known hc
  rw [checkStmt]
  refine .inScope (forInit_sound (f := fun _ => do
    checkOptional (checkCondition setting) test
    checkOptional (checkValue setting) step
    Check.inLoop (checkStmt setting body)) hinit hc.push fun c₁ inside h₁ hinit hinside => ?_)
  refine .bind (checkOptional_sound hinside (fun e _ => checkCondition_sound e) test)
    fun _ c₂ ⟨h₂, htest⟩ => ?_
  have hinside₂ := h₂.within hinside
  refine .bind (checkOptional_sound hinside₂ (fun e _ => checkValue_sound e) step)
    fun _ c₃ ⟨h₃, hstep⟩ => ?_
  have h := (h₁.trans h₂.toExtends).trans h₃.toExtends
  refine (Check.Sound.inLoop (ih _ inside (h₃.within hinside₂))).imp fun _ c₄ ⟨h₄, hbody⟩ => ?_
  refine ⟨(h.trans h₄.toExtends).pop, .forLoop hinit htest hstep ?_⟩
  change Scoped (loopNames setting c₃) inside _ at hbody
  rw [loopNames_congr h] at hbody
  exact hbody

/-- The names of the loop are declared in a scope around the body, where no other loop can stand. -/
theorem eachSynapse_sound (ih : SoundPhrase setting (.statement body)) (span : Span) :
    SoundPhrase setting (.statement (.eachSynapse span body)) := by
  intro c known hc
  rw [checkStmt]
  refine .bind (synapseNames_sound span c) ?_
  rintro names c ⟨rfl, hnames, hloop⟩
  refine .bind (P := fun _ c' => c' = { c with scopes := [] :: c.scopes }) (.modify rfl rfl) ?_
  rintro _ _ rfl
  refine .bind (declareAll_sound span names rfl) ?_
  rintro _ _ ⟨rfl, hnodup, -⟩
  refine .bind (P := fun _ c' => c' = { c with scopes := names :: c.scopes, inSynapseLoop := true })
    (.modify rfl rfl) ?_
  rintro _ _ rfl
  have hinside : Within setting (names :: c.scopes) ({n | n ∈ names.map Prod.fst} ∪ known) := by
    refine ⟨fun table htable => ?_, fun name hname => .inr (hc.outside name hname)⟩
    rcases List.mem_cons.mp htable with rfl | htable
    · exact fun name hname => .inl hname
    · exact fun name hname => .inr (hc.declared table htable name hname)
  refine .afterwards (fun _ => rfl) ((Check.Sound.inLoop (ih _ _ hinside)).imp
    fun _ c' ⟨hres, hbody⟩ => ⟨⟨⟨hres.keeps, hres.types, hloop.symm, ?_⟩, ?_⟩, ?_⟩)
  · exact congrArg (fun scopes => scopes.tail.tail) hres.scopes
  · exact congrArg List.tail hres.scopes
  · have houter : loopNames setting c = some (names.map Prod.fst) := by
      rw [loopNames, hloop, if_neg Bool.false_ne_true, hnames, Option.map_some]
    rw [houter]
    exact .eachSynapse hnodup hbody

theorem soundPhrase {phrase : StmtPhrase} (h : DerivesStmt Place phrase ts) :
    SoundPhrase setting phrase := by
  induction h with
  | empty hk hp =>
      intro c known hc
      rw [checkStmt]
      exact .pure ⟨.refl c, .empty⟩
  | evaluation h => 
      intro c known hc
      exact (evaluation_sound h hc).imp fun _ _ h => ⟨h.1, h.2.1⟩
  | block hl _ hr hp ih => exact block_sound ih _
  | ifThen hk ht _ hp ih =>
      intro c known hc
      rw [checkStmt]
      refine .bind (checkCondition_sound _ hc) fun _ c₁ h₁ => ?_
      refine .bind (h₁.toRestores.followed (ih c₁ known (h₁.toRestores.within hc))) fun _ c₂ ⟨h₂, hyes⟩ => ?_
      refine .pure ⟨?_, .ifThen h₁.names hyes⟩
      rw [Stmt.nodes, Stmt.nodesOfOption, List.append_nil]
      exact h₂
  | ifElse hk ht _ ho he _ hp ihy ihn =>
      intro c known hc
      rw [checkStmt]
      refine .bind (checkCondition_sound _ hc) fun _ c₁ h₁ => ?_
      refine .bind (h₁.toRestores.followed (ihy c₁ known (h₁.toRestores.within hc))) fun _ c₂ ⟨h₂, hyes⟩ => ?_
      refine (h₂.followed (ihn c₂ known (h₂.within hc))).imp fun _ c₃ ⟨h₃, hno⟩ => ?_
      exact ⟨h₃, .ifElse h₁.names hyes hno⟩
  | whileLoop hk ht _ hp ih =>
      intro c known hc
      rw [checkStmt]
      refine .bind (checkCondition_sound _ hc) fun _ c₁ h₁ => ?_
      refine (h₁.toRestores.followed (.inLoop (ih _ known (h₁.toRestores.within hc)))).imp fun _ c₂ ⟨h₂, hbody⟩ => ?_
      exact ⟨h₂, .whileLoop h₁.names hbody⟩
  | doLoop hk _ hw ht hs hp ih =>
      intro c known hc
      rw [checkStmt]
      refine .bind (.inLoop (ih _ known hc)) fun _ c₁ ⟨h₁, hbody⟩ => ?_
      refine (checkCondition_sound _ (h₁.within hc)).imp fun _ c₂ h₂ => ?_
      exact ⟨h₁.trans h₂.toRestores, .doLoop hbody h₂.names⟩
  | forLoop hk hl hi ht hs hu hr _ hp ih => exact forLoop_sound ih hi _
  | switch hk ht _ hp ih => 
      intro c known hc
      rw [checkStmt]
      refine .bind (checkIntegral_sound _ _ hc) fun _ c₁ h₁ => ?_
      refine (h₁.toRestores.followed (.inSwitch (ih _ known (h₁.toRestores.within hc)))).imp fun _ c₂ ⟨h₂, hbody⟩ => ?_
      exact ⟨h₂, .switch h₁.names hbody⟩
  | caseLabel hk he hcolon _ hp ih => 
      intro c known hc
      rw [checkStmt]
      refine .bind (P := fun a c' => a = c ∧ c' = c) (.state ⟨rfl, rfl⟩) ?_
      rintro _ c ⟨rfl, rfl⟩
      split
      next => exact .fail _ _
      next =>
        refine .bind (checkIntegral_sound _ _ hc) fun _ c₁ h₁ => ?_
        refine (h₁.toRestores.followed (ih _ known (h₁.toRestores.within hc))).imp fun _ c₂ ⟨h₂, hbody⟩ => ?_
        exact ⟨h₂, .caseLabel h₁.names hbody⟩
  | defaultLabel hk hcolon _ hp ih =>
      intro c known hc
      rw [checkStmt]
      refine .bind (P := fun a c' => a = c ∧ c' = c) (.state ⟨rfl, rfl⟩) ?_
      rintro _ c ⟨rfl, rfl⟩
      split
      next => exact .fail _ _
      next => exact (ih _ known hc).imp fun _ c₂ ⟨h₂, hbody⟩ => ⟨h₂, .defaultLabel hbody⟩
  | breakLoop hk hs hp => 
      intro c known hc
      rw [checkStmt]
      refine .bind (P := fun a c' => a = c ∧ c' = c) (.state ⟨rfl, rfl⟩) ?_
      rintro _ c ⟨rfl, rfl⟩
      split
      next => exact .fail _ _
      next => exact .pure ⟨.refl _, .breakLoop⟩
  | continueLoop hk hs hp =>
      intro c known hc
      rw [checkStmt]
      refine .bind (P := fun a c' => a = c ∧ c' = c) (.state ⟨rfl, rfl⟩) ?_
      rintro _ c ⟨rfl, rfl⟩
      split
      next => exact .fail _ _
      next => exact .pure ⟨.refl _, .continueLoop⟩
  | print hk he hs hp => 
      intro c known hc
      rw [checkStmt]
      refine .bind (check_sound _ hc) fun t c₁ h₁ => ?_
      split
      next => exact .pure ⟨h₁.toRestores, .print h₁.names⟩
      next =>
        split
        next => exact .fail _ _
        next => exact .pure ⟨h₁.toRestores, .print h₁.names⟩
  | eachSynapse hk _ hp ih => exact eachSynapse_sound ih _
  | nil =>
      intro c known hc
      exact ⟨true, c, rfl, rfl, .refl c, .nil⟩
  | declaration h _ ih =>
      intro c known hc
      rw [checkItems]
      refine .cons (declaration_sound h hc) ?_ fun c' => (ih c' _ .univ).imp fun _ _ => trivial
      rintro c₁ ⟨hext, span, type, names, behind, rfl, hds, hbehind⟩
      refine (ih c₁ behind hbehind).imp fun c₂ ⟨hrest, hss⟩ => ⟨hext.trans hrest, ?_⟩
      rw [loopNames_congr hext] at hss
      exact .declaration hds hss
  | statement _ _ ihs ihss =>
      intro c known hc
      rw [checkItems]
      refine .cons (ihs c known hc) ?_ fun c' => (ihss c' _ .univ).imp fun _ _ => trivial
      rintro c₁ ⟨hres, hs⟩
      refine (ihss c₁ known (hres.within hc)).imp fun c₂ ⟨hrest, hss⟩ =>
        ⟨hres.toExtends.trans hrest, ?_⟩
      rw [loopNames_congr hres.toExtends] at hss
      exact .statement hs hss

/-- After a snippet is checked without a remark its nodes have types, and it is scoped. -/
theorem checkSnippet_clean {ss : List Stmt} (h : DerivesStmt Place (.items ss) ts)
    (hknown : ∀ name, (setting.typesOf name).isSome = true → name ∈ known)
    (hclean : (checkSnippet setting ss).report = []) :
    (∀ id ∈ Stmt.nodesOfItems ss, (checkSnippet setting ss).Types id) ∧
      Scoped (setting.synapseNames.map (·.map Prod.fst)) known (.items ss) := by
  have hstart : Within setting ([] :: []) known :=
    Within.push ⟨fun _ h => absurd h List.not_mem_nil, hknown⟩
  have hchecked := (soundPhrase h { Checker.initial with scopes := [[]] } known hstart).of_clean hclean
  exact ⟨hchecked.1.types, hchecked.2⟩

end KernelWeaver.Typing
