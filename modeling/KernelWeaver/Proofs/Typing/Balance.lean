import KernelWeaver.Proofs.Typing.StmtSoundness

/-!
# What a check leaves behind

Whether the check of a statement succeeds or fails, it leaves the state balanced: all scopes are as
they were but for names that the statement itself declares in the innermost one, and so is what the
checker knows of the loops and switches around it. This takes a loop over synapses whose names
differ from each other; the scope of names that do not is left open.
-/

namespace KernelWeaver.Snippet

/-- The names that a statement declares in the scope around it. -/
def Stmt.declaredNames : Stmt → List String
  | .declare _ _ names => names.map Declarator.name
  | .ifElse _ _ yes none => yes.declaredNames
  | .ifElse _ _ yes (some no) => yes.declaredNames ++ no.declaredNames
  | .whileLoop _ _ body | .doLoop _ body _ | .switch _ _ body | .caseLabel _ _ body
  | .defaultLabel _ body => body.declaredNames
  | _ => []

end KernelWeaver.Snippet

namespace KernelWeaver.Typing

open Snippet

variable {α β : Type} {setting : Setting} {c c' c'' : Checker} {names more : List String}

namespace Checker

/-- Only the innermost scope may have changed, by declarations of some of the names. -/
structure Balanced (names : List String) (c c' : Checker) : Prop where
  scopes : ∀ scope outer, c.scopes = scope :: outer → ∃ declared : Table CType,
    c'.scopes = (scope ++ declared) :: outer ∧ ∀ name ∈ declared.map Prod.fst, name ∈ names
  inSynapseLoop : c'.inSynapseLoop = c.inSynapseLoop
  loopDepth : c'.loopDepth = c.loopDepth
  switchDepth : c'.switchDepth = c.switchDepth

namespace Balanced

theorem of_eq (hscopes : c'.scopes = c.scopes) (hloop : c'.inSynapseLoop = c.inSynapseLoop)
    (hdepth : c'.loopDepth = c.loopDepth) (hswitch : c'.switchDepth = c.switchDepth) :
    Balanced names c c' :=
  ⟨fun scope outer hc => ⟨[], by rw [hscopes, hc, List.append_nil], nofun⟩, hloop, hdepth, hswitch⟩

theorem refl (c : Checker) : Balanced names c c := of_eq rfl rfl rfl rfl

theorem trans (h : Balanced names c c') (h' : Balanced names c' c'') : Balanced names c c'' where
  scopes scope outer hc := by
    obtain ⟨declared, hc', hnames⟩ := h.scopes scope outer hc
    obtain ⟨later, hc'', hlater⟩ := h'.scopes (scope ++ declared) outer hc'
    refine ⟨declared ++ later, by rw [hc'', List.append_assoc], fun name hname => ?_⟩
    rw [List.map_append, List.mem_append] at hname
    exact hname.elim (hnames name) (hlater name)
  inSynapseLoop := h'.inSynapseLoop.trans h.inSynapseLoop
  loopDepth := h'.loopDepth.trans h.loopDepth
  switchDepth := h'.switchDepth.trans h.switchDepth

theorem mono (h : Balanced names c c') (hsubset : names ⊆ more) : Balanced more c c' :=
  { h with
    scopes := fun scope outer hc =>
      let ⟨declared, hc', hnames⟩ := h.scopes scope outer hc
      ⟨declared, hc', fun name hname => hsubset (hnames name hname)⟩ }

/-- With a scope closed again, what has been declared in it is gone. -/
theorem tail {opened : Table CType} {outer : List (Table CType)} (h : Balanced names c c')
    (hc : c.scopes = opened :: outer) : c'.scopes.tail = outer := by
  obtain ⟨declared, hc', -⟩ := h.scopes opened outer hc
  rw [hc', List.tail_cons]

end Balanced

end Checker

/-- In both outcomes the check leaves the state balanced. -/
def Check.Balances (m : Check α) (names : List String) : Prop :=
  ∀ c, Checker.Balanced names c (m c).2

namespace Check.Balances

variable {m : Check α}

theorem pure (a : α) : Balances (pure a) names := .refl

theorem state : Balances state names := .refl

theorem failed : Balances (failed : Check α) names := .refl

theorem fail (span : Span) (flaw : Flaw) : Balances (fail span flaw : Check α) names :=
  fun _ => .of_eq rfl rfl rfl rfl

theorem rule (span : Span) (outcome : Except Flaw CType) : Balances (rule span outcome) names := by
  cases outcome with
  | ok t => exact .pure t
  | error flaw => exact .fail span flaw

theorem note (id : NodeId) (t : CType) : Balances (note id t) names :=
  fun _ => .of_eq rfl rfl rfl rfl

theorem mono (h : m.Balances names) (hsubset : names ⊆ more) : m.Balances more :=
  fun c => (h c).mono hsubset

theorem of_nil (h : m.Balances []) : m.Balances names := h.mono (List.nil_subset names)

theorem bind {f : α → Check β} (h : m.Balances names) (hf : ∀ a, (f a).Balances names) :
    (m >>= f).Balances names := by
  intro c
  have hm := h c
  cases hrun : m c with
  | mk outcome c₁ =>
      rw [hrun] at hm
      cases outcome with
      | none => rwa [Check.bind_of_none hrun]
      | some a =>
          rw [Check.bind_of_some hrun]
          exact hm.trans (hf a c₁)

theorem succeeds (h : m.Balances names) : (Check.succeeds m).Balances names := h

theorem inScope (h : m.Balances names) : (Check.inScope m).Balances more := by
  intro c
  have hm := h { c with scopes := [] :: c.scopes }
  exact .of_eq (hm.tail rfl) hm.inSynapseLoop hm.loopDepth hm.switchDepth

theorem inLoop (h : m.Balances names) : (Check.inLoop m).Balances names := by
  intro c
  have hm := h { c with loopDepth := c.loopDepth + 1 }
  exact ⟨hm.scopes, hm.inSynapseLoop, congrArg (· - 1) hm.loopDepth, hm.switchDepth⟩

theorem inSwitch (h : m.Balances names) : (Check.inSwitch m).Balances names := by
  intro c
  have hm := h { c with switchDepth := c.switchDepth + 1 }
  exact ⟨hm.scopes, hm.inSynapseLoop, hm.loopDepth, congrArg (· - 1) hm.switchDepth⟩

end Check.Balances

open Check

/-! ### Expressions -/

theorem typesOf_balances (name : String) : (typesOf setting name).Balances [] :=
  .bind .state fun c => by split <;> exact .pure _

theorem resolve_balances (type : TypeSpec) (star : Option PointerMark) :
    (resolve setting type star).Balances [] := by
  rw [resolve]
  split
  next => exact .fail _ _
  next =>
    dsimp only
    split <;> exact .pure _

theorem requireCondition_balances (span : Span) (t : CType) :
    (requireCondition span t).Balances [] := by
  rw [requireCondition]
  split
  next => exact .pure ()
  next => exact .fail _ _

theorem stepType_balances (op : StepOp) (target : Expr) (t : CType) :
    (stepType op target t).Balances [] := by
  rw [stepType]
  split
  next => exact .fail _ _
  next =>
    split
    next => exact .fail _ _
    next =>
      split
      next => exact .fail _ _
      next => exact .pure t

theorem assignType_balances (span targetSpan : Span) (op : AssignOp) (target value : CType) :
    (assignType span targetSpan op target value).Balances [] := by
  unfold assignType
  split
  next => exact .fail _ _
  next =>
    split
    next =>
      split
      next => exact .pure _
      next => exact .fail _ _
    next =>
      split
      next => exact .fail _ _
      next => exact .bind (.rule _ _) fun _ => .pure _

theorem noted_balances {m : Check CType} (node : Node) (h : m.Balances []) :
    (noted node m).Balances [] :=
  .bind h fun t => .bind (.note node.id t) fun _ => .pure t

mutual

theorem check_balances (e : Expr) : (check setting e).Balances [] := by
  cases e with
  | number node lexeme n => exact noted_balances node (.pure _)
  | bool node value => exact noted_balances node (.pure _)
  | string node lexeme => exact noted_balances node (.pure _)
  | name node name =>
      refine noted_balances node (.bind (typesOf_balances name) fun found => ?_)
      split
      next => exact .pure _
      next => exact .fail _ _
      next => exact .fail _ _
  | group node inner => exact noted_balances node (check_balances inner)
  | unary node op operand =>
      exact noted_balances node (.bind (check_balances operand) fun _ => .rule _ _)
  | binary node op left right =>
      exact noted_balances node
        (.bind (check_balances left) fun _ => .bind (check_balances right) fun _ => .rule _ _)
  | call node callee args =>
      have hargs (choices : List CType) : Check.Balances (do
          let types ← checkAll setting args
          match chooseCall? types (fun t => t) choices with
          | none => Check.fail node.span (.noFunction (calleeName callee) types)
          | some chosen =>
            Check.note callee.id chosen
            return returnType chosen) [] := by
        refine .bind (checkAll_balances args) fun types => ?_
        split
        next => exact .fail _ _
        next => exact .bind (.note _ _) fun _ => .pure _
      refine noted_balances node ?_
      split
      next calleeNode name =>
        refine .bind (typesOf_balances name) fun found => ?_
        split
        next types => exact hargs types
        next => exact .bind (.fail _ _) hargs
      next => exact .bind (check_balances callee) fun t => hargs [t]
  | cast node type operand =>
      exact noted_balances node
        (.bind (resolve_balances type none) fun _ =>
          .bind (check_balances operand) fun _ => .rule _ _)
  | assign node op target value =>
      exact noted_balances node
        (.bind (check_balances target) fun _ =>
          .bind (check_balances value) fun _ => assignType_balances _ _ _ _ _)
  | conditional node test yes no =>
      exact noted_balances node
        (.bind (check_balances test) fun _ => .bind (requireCondition_balances _ _) fun _ =>
          .bind (check_balances yes) fun _ => .bind (check_balances no) fun _ => .rule _ _)
  | subscript node array index =>
      refine noted_balances node
        (.bind (check_balances array) fun a => .bind (check_balances index) fun i => ?_)
      split
      next => exact .fail _ _
      next =>
        split
        next => exact .pure _
        next => exact .fail _ _
  | stepBefore node op target =>
      exact noted_balances node
        (.bind (check_balances target) fun t => stepType_balances op target t)
  | stepAfter node op target =>
      exact noted_balances node
        (.bind (check_balances target) fun t => stepType_balances op target t)

theorem checkAll_balances (es : List Expr) : (checkAll setting es).Balances [] := by
  cases es with
  | nil => exact .pure []
  | cons e es =>
      exact .bind (check_balances e) fun _ => .bind (checkAll_balances es) fun _ => .pure _

end

theorem checkValue_balances (e : Expr) : (checkValue setting e).Balances [] :=
  .bind (check_balances e) fun _ => .pure ()

theorem checkCondition_balances (e : Expr) : (checkCondition setting e).Balances [] :=
  .bind (check_balances e) fun t => requireCondition_balances e.span t

theorem checkIntegral_balances (e : Expr) (flaw : CType → Flaw) :
    (checkIntegral setting e flaw).Balances [] := by
  refine .bind (check_balances e) fun t => ?_
  split
  next => exact .fail _ _
  next => exact .pure ()

theorem checkOptional_balances {m : Expr → Check Unit} (hm : ∀ e, (m e).Balances [])
    (e : Option Expr) : (checkOptional m e).Balances [] := by
  cases e with
  | none => exact .pure ()
  | some e => exact hm e

/-! ### Declarations -/

theorem declare_balances (span : Span) (name : String) (t : CType) :
    (declare span name t).Balances [name] := by
  intro c
  cases hscopes : c.scopes with
  | nil =>
      refine ⟨fun scope outer hc => ?_, ?_, ?_, ?_⟩
      · rw [hscopes] at hc
        cases hc
      all_goals
        rw [declare, bind_of_some (show Check.state c = (some c, c) from rfl), hscopes]
        rfl
  | cons scope outer =>
      rw [declare, bind_of_some (show Check.state c = (some c, c) from rfl), hscopes]
      dsimp only
      split
      next => exact .of_eq rfl rfl rfl rfl
      next hnew =>
        rw [Bool.not_eq_true] at hnew
        refine ⟨fun scope' outer' hc => ?_, rfl, rfl, rfl⟩
        cases hscopes.symm.trans hc
        refine ⟨[(name, t)], ?_, fun other hother => hother⟩
        change scope.insert name t :: outer = _
        rw [Table.insert_of_not_has _ hnew]

theorem checkDeclarator_balances (type : TypeSpec) (d : Declarator) :
    (checkDeclarator setting type d).Balances [d.name] := by
  refine .bind (resolve_balances type d.pointer).of_nil fun t => ?_
  refine .bind (.note d.id t) fun _ => .bind (declare_balances d.span d.name t) fun _ => ?_
  cases d.init with
  | none => exact .pure ()
  | some init =>
      refine .bind (check_balances init).of_nil fun given => ?_
      split
      next => exact .fail _ _
      next => exact .pure ()

theorem checkDeclarators_balances (type : TypeSpec) (ds : List Declarator) :
    (checkDeclarators setting type ds).Balances (ds.map Declarator.name) := by
  induction ds with
  | nil => exact .pure ()
  | cons d ds ih =>
      refine .bind ((checkDeclarator_balances type d).mono ?_) fun _ => ih.mono ?_
      · exact List.cons_subset_cons d.name (List.nil_subset _)
      · exact List.subset_cons_self _ _

theorem declare_of_new (span : Span) {name : String} (t : CType) {scope : Table CType}
    {outer : List (Table CType)} (hc : c.scopes = scope :: outer)
    (hnew : name ∉ scope.map Prod.fst) :
    declare span name t c = (some (), { c with scopes := (scope ++ [(name, t)]) :: outer }) := by
  have hhas := Table.has_eq_false_iff.mpr hnew
  rw [declare, bind_of_some (show Check.state c = (some c, c) from rfl), hc]
  dsimp only
  rw [hhas, Table.insert_of_not_has _ hhas]
  rfl

/-- Names that differ from each other and from those of the scope are declared in it. -/
theorem declareAll_of_nodup (span : Span) (loopNames : List (String × CType))
    {scope : Table CType} {outer : List (Table CType)} (hc : c.scopes = scope :: outer)
    (hnodup : ((scope ++ loopNames).map Prod.fst).Nodup) :
    declareAll span loopNames c =
      (some (), { c with scopes := (scope ++ loopNames) :: outer }) := by
  induction loopNames generalizing c scope with
  | nil =>
      rw [List.append_nil, ← hc]
      rfl
  | cons entry rest ih =>
      obtain ⟨name, t⟩ := entry
      have hnew : name ∉ scope.map Prod.fst := by
        intro hmem
        rw [List.map_append, List.nodup_append] at hnodup
        exact hnodup.2.2 name hmem name (by simp) rfl
      rw [List.append_cons] at hnodup ⊢
      rw [declareAll, bind_of_some (declare_of_new span t hc hnew)]
      exact ih rfl hnodup

/-- The declaration of names that do not differ fails at one of them, behind those before it. -/
theorem declareAll_of_not_nodup (span : Span) (loopNames : List (String × CType))
    {scope : Table CType} {outer : List (Table CType)} (hc : c.scopes = scope :: outer)
    (hscope : (scope.map Prod.fst).Nodup) (hdouble : ¬((scope ++ loopNames).map Prod.fst).Nodup) :
    ∃ c', declareAll span loopNames c = (none, c') ∧ c'.scopes.tail = outer ∧ c'.scopes ≠ [] := by
  induction loopNames generalizing c scope with
  | nil =>
      rw [List.append_nil] at hdouble
      exact absurd hscope hdouble
  | cons entry rest ih =>
      obtain ⟨name, t⟩ := entry
      by_cases hmem : name ∈ scope.map Prod.fst
      · have hfail : declare span name t c = Check.fail span (.redeclared name) c := by
          rw [declare, bind_of_some (show Check.state c = (some c, c) from rfl), hc]
          exact congrFun (if_pos (Table.has_iff.mpr hmem)) c
        refine ⟨_, (bind_of_none hfail _), ?_, ?_⟩
        · exact congrArg List.tail hc
        · exact fun hnil => List.cons_ne_nil scope outer (hc.symm.trans hnil)
      · have hlonger : ((scope ++ [(name, t)]).map Prod.fst).Nodup := by
          rw [List.map_append, List.nodup_append]
          refine ⟨hscope, by simp, fun a ha b hb heq => ?_⟩
          cases List.mem_singleton.mp hb
          subst heq
          exact hmem ha
        have hdeclare := declare_of_new span t hc hmem
        rw [List.append_cons] at hdouble
        obtain ⟨c', hrest, hopen⟩ :=
          @ih { c with scopes := (scope ++ [(name, t)]) :: outer } _ rfl hlonger hdouble
        exact ⟨c', (bind_of_some hdeclare _).trans hrest, hopen⟩

/-! ### Statements -/

/-- A loop over synapses binds every name once. -/
def Setting.LoopNamesDiffer (setting : Setting) : Prop :=
  ∀ loopNames ∈ setting.synapseNames, (loopNames.map Prod.fst).Nodup

theorem synapseNames_eq_some (span : Span) {loopNames : List (String × CType)}
    (hnames : setting.synapseNames = some loopNames) (hloop : c.inSynapseLoop = false) :
    synapseNames setting span c = (some loopNames, c) := by
  rw [synapseNames, hnames]
  dsimp only
  rw [bind_of_some (show Check.state c = (some c, c) from rfl), hloop]
  rfl

/-- The names of the loop have a scope of their own, which is closed again behind the body. -/
theorem eachSynapse_balanced {body : Stmt} {bodyNames : List String} (span : Span)
    {loopNames : List (String × CType)} (hnames : setting.synapseNames = some loopNames)
    (hdistinct : (loopNames.map Prod.fst).Nodup)
    (hbody : (checkStmt setting body).Balances bodyNames) (hloop : c.inSynapseLoop = false) :
    c.Balanced [] (checkStmt setting (.eachSynapse span body) c).2 ∧
      (checkStmt setting (.eachSynapse span body) c).2.scopes = c.scopes := by
  have hdeclare := @declareAll_of_nodup { c with scopes := [] :: c.scopes } span loopNames
    [] c.scopes rfl hdistinct
  have hinside := hbody.inLoop { c with scopes := loopNames :: c.scopes, inSynapseLoop := true }
  rw [checkStmt, bind_of_some (synapseNames_eq_some span hnames hloop),
    bind_of_some (show pushScope c = (some (), _) from rfl), bind_of_some hdeclare]
  exact ⟨.of_eq (hinside.tail rfl) hloop.symm hinside.loopDepth hinside.switchDepth,
    hinside.tail rfl⟩

theorem eachSynapse_balances {body : Stmt} {bodyNames : List String} (span : Span)
    (hdistinct : setting.LoopNamesDiffer) (hbody : (checkStmt setting body).Balances bodyNames) :
    (checkStmt setting (.eachSynapse span body)).Balances [] := by
  intro c
  cases hnames : setting.synapseNames with
  | none =>
      have hfail : synapseNames setting span c = Check.fail span .noSynapseLoop c := by
        rw [synapseNames, hnames]
      rw [checkStmt, bind_of_none hfail]
      exact .of_eq rfl rfl rfl rfl
  | some loopNames =>
      cases hloop : c.inSynapseLoop with
      | true =>
          have hfail : synapseNames setting span c = Check.fail span .nestedSynapseLoop c := by
            rw [synapseNames, hnames]
            dsimp only
            rw [bind_of_some (show Check.state c = (some c, c) from rfl), hloop]
            rfl
          rw [checkStmt, bind_of_none hfail]
          exact .of_eq rfl rfl rfl rfl
      | false => exact (eachSynapse_balanced span hnames (hdistinct _ hnames) hbody hloop).1

mutual

theorem checkStmt_balances (hdistinct : setting.LoopNamesDiffer) (s : Stmt) :
    (checkStmt setting s).Balances s.declaredNames := by
  cases s with
  | expr span value =>
      rw [checkStmt]
      exact checkOptional_balances checkValue_balances value
  | block span items =>
      rw [checkStmt]
      obtain ⟨inside, hitems⟩ := checkItems_balances hdistinct items
      refine .bind hitems.inScope fun ok => ?_
      split
      next => exact .failed
      next => exact .pure ()
  | declare span type names =>
      rw [checkStmt]
      exact checkDeclarators_balances type names
  | ifElse span test yes no =>
      cases no with
      | none =>
          rw [checkStmt]
          exact .bind (checkCondition_balances test).of_nil fun _ =>
            .bind (checkStmt_balances hdistinct yes) fun _ => .pure ()
      | some no =>
          rw [checkStmt]
          exact .bind (checkCondition_balances test).of_nil fun _ =>
            .bind ((checkStmt_balances hdistinct yes).mono (List.subset_append_left _ _)) fun _ =>
              (checkStmt_balances hdistinct no).mono (List.subset_append_right _ _)
  | whileLoop span test body =>
      rw [checkStmt]
      exact .bind (checkCondition_balances test).of_nil fun _ =>
        (checkStmt_balances hdistinct body).inLoop
  | doLoop span body test =>
      rw [checkStmt]
      exact .bind (checkStmt_balances hdistinct body).inLoop fun _ =>
        (checkCondition_balances test).of_nil
  | forLoop span init test step body =>
      -- the names of the first clause are seen in the rest of the loop, and only there
      have hrest (names : List String) : Check.Balances (do
          checkOptional (checkCondition setting) test
          checkOptional (checkValue setting) step
          Check.inLoop (checkStmt setting body)) (names ++ body.declaredNames) :=
        .bind (checkOptional_balances checkCondition_balances test).of_nil fun _ =>
          .bind (checkOptional_balances checkValue_balances step).of_nil fun _ =>
            (checkStmt_balances hdistinct body).inLoop.mono (List.subset_append_right _ _)
      rw [checkStmt]
      cases init with
      | none => exact (hrest []).inScope
      | some init =>
          have hinit := checkStmt_balances hdistinct init
          exact .inScope (.bind (hinit.mono (List.subset_append_left _ _))
            fun _ => hrest init.declaredNames)
  | switch span test body =>
      rw [checkStmt]
      exact .bind (checkIntegral_balances test _).of_nil fun _ =>
        (checkStmt_balances hdistinct body).inSwitch
  | caseLabel span value body =>
      rw [checkStmt]
      refine .bind .state fun c => ?_
      split
      next => exact .fail _ _
      next =>
        exact .bind (checkIntegral_balances value _).of_nil fun _ =>
          checkStmt_balances hdistinct body
  | defaultLabel span body =>
      rw [checkStmt]
      refine .bind .state fun c => ?_
      split
      next => exact .fail _ _
      next => exact checkStmt_balances hdistinct body
  | breakLoop span =>
      rw [checkStmt]
      refine .bind .state fun c => ?_
      split
      next => exact .fail _ _
      next => exact .pure ()
  | continueLoop span =>
      rw [checkStmt]
      refine .bind .state fun c => ?_
      split
      next => exact .fail _ _
      next => exact .pure ()
  | print span value =>
      rw [checkStmt]
      refine .bind (check_balances value) fun t => ?_
      split
      next => exact .pure ()
      next =>
        split
        next => exact .fail _ _
        next => exact .pure ()
  | eachSynapse span body =>
      exact eachSynapse_balances span hdistinct (checkStmt_balances hdistinct body)

theorem checkItems_balances (hdistinct : setting.LoopNamesDiffer) (ss : List Stmt) :
    ∃ names, (checkItems setting ss).Balances names := by
  cases ss with
  | nil =>
      rw [checkItems]
      exact ⟨[], .pure true⟩
  | cons s ss =>
      obtain ⟨names, hrest⟩ := checkItems_balances hdistinct ss
      have hfirst := (checkStmt_balances hdistinct s).succeeds
      rw [checkItems]
      exact ⟨s.declaredNames ++ names,
        .bind (hfirst.mono (List.subset_append_left _ _)) fun _ =>
          .bind (hrest.mono (List.subset_append_right _ _)) fun _ => .pure _⟩

end

theorem find?_append_of_not_mem {scope declared : Table CType} {name : String}
    (h : name ∉ declared.map Prod.fst) :
    Table.find? (scope ++ declared) name = scope.find? name := by
  induction scope with
  | nil => exact Table.find?_eq_none_iff.mpr h
  | cons entry rest ih =>
      rw [List.cons_append, Table.find?, Table.find?, ih]

/-- Whatever the state with an open scope in which a statement is checked, and whether the check
succeeds or fails: the scopes are as before, but for names that the statement declares in the
innermost one, and so are the loops and switches around it. A name that the statement does not
declare has the types behind it that it had before. -/
theorem check_leaves_state_balanced (hdistinct : setting.LoopNamesDiffer) (s : Stmt)
    {scope : Table CType} {outer : List (Table CType)} (hc : c.scopes = scope :: outer)
    (hrun : (checkStmt setting s c).2 = c') :
    (∃ declared : Table CType, c'.scopes = (scope ++ declared) :: outer ∧
      ∀ name ∈ declared.map Prod.fst, name ∈ s.declaredNames) ∧
    c'.inSynapseLoop = c.inSynapseLoop ∧ c'.loopDepth = c.loopDepth ∧
    c'.switchDepth = c.switchDepth ∧
    ∀ name ∉ s.declaredNames, (typesOf setting name c').1 = (typesOf setting name c).1 := by
  have hbalanced := checkStmt_balances hdistinct s c
  rw [hrun] at hbalanced
  obtain ⟨declared, hc', hnames⟩ := hbalanced.scopes scope outer hc
  refine ⟨⟨declared, hc', hnames⟩, hbalanced.inSynapseLoop, hbalanced.loopDepth,
    hbalanced.switchDepth, fun name hname => ?_⟩
  have hfind : Table.find? (scope ++ declared) name = scope.find? name :=
    find?_append_of_not_mem fun hmem => hname (hnames name hmem)
  rw [typesOf_eq, typesOf_eq, hc, hc', List.findSome?_cons, List.findSome?_cons, hfind]

/-- A loop over synapses closes its scope exactly if no name of it is bound twice. -/
theorem eachSynapse_closes_scope_iff {loopNames : List (String × CType)} (span : Span) (body : Stmt)
    (hnames : setting.synapseNames = some loopNames) (hloop : c.inSynapseLoop = false) :
    (checkStmt setting (.eachSynapse span body) c).2.scopes = c.scopes ↔
      (loopNames.map Prod.fst).Nodup := by
  constructor
  · intro hclosed
    by_contra hdouble
    obtain ⟨c', hdeclare, htail, hopen⟩ := @declareAll_of_not_nodup
      { c with scopes := [] :: c.scopes } span loopNames [] c.scopes rfl List.nodup_nil hdouble
    rw [checkStmt, bind_of_some (synapseNames_eq_some span hnames hloop),
      bind_of_some (show pushScope c = (some (), _) from rfl), bind_of_none hdeclare] at hclosed
    have hlength := congrArg List.length htail
    rw [List.length_tail, hclosed] at hlength
    have hpos := List.length_pos_iff.mpr hopen
    rw [hclosed] at hpos
    omega
  · intro hdistinct
    have hdiffer : setting.LoopNamesDiffer := by
      intro other hother
      cases hnames.symm.trans hother
      exact hdistinct
    exact (eachSynapse_balanced span hnames hdistinct (checkStmt_balances hdiffer body) hloop).2

end KernelWeaver.Typing
