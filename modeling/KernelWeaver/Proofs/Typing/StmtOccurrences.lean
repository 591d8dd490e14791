import KernelWeaver.Proofs.Snippet.Views
import KernelWeaver.Proofs.Typing.Occurrences
import KernelWeaver.Proofs.Typing.StmtDerivation

/-!
# The types of names in statements

The scopes of the checker give every name the type of what it stands for: of its declaration in the
snippet, of what the loop binds it to, or of what it is bound to outside. So in a snippet that is
checked without a remark every name is noted with a type that it has in this sense.
-/

namespace KernelWeaver.Typing

open Snippet

/-- The names that the snippet or a loop has declared in the context. -/
def Setting.knownIn (setting : Setting) (x : Context) : Set String :=
  x.known (setting.synapseNames.map (·.map Prod.fst))

/-- The names that a loop over synapses binds, with their types. -/
def Setting.rowNames (setting : Setting) : List (String × CType) := setting.synapseNames.getD []

/-- What a name stands for where an expression stands. -/
def Setting.meaning (setting : Setting) (v : View) (name : String) : Meaning :=
  v.meaning (setting.rowNames.map Prod.fst) name

/-- The types of a name where an expression stands, if these are the types of the declarations. -/
def Setting.typesAt (setting : Setting) (types : NodeTypes) (v : View) (name : String) :
    Option (List CType) :=
  match setting.meaning v name with
  | .declared id => (types.find? id).map fun t => [t]
  | .looped => (Table.find? setting.rowNames name).map fun t => [t]
  | .outer => setting.typesOf name

/-- In these expressions every name is noted with a type that it has where the expression stands. -/
def ViewsTyped (setting : Setting) (views : List (View × Expr)) (types : NodeTypes) : Prop :=
  ∀ v e, (v, e) ∈ views →
    OccurrencesTyped setting.aliases (setting.typesAt types v) e.occurrences types

/-- In the scopes every name has the types that it has in the view. -/
def Shows (setting : Setting) (v : View) (scopes : List (Table CType)) (types : NodeTypes) : Prop :=
  setting.namesIn scopes = setting.typesAt types v

variable {setting : Setting} {v v' v'' : View} {scopes : List (Table CType)} {c c' c'' : Checker}
  {xs ys : List NodeId} {views more : List (View × Expr)} {types : NodeTypes}

namespace ViewsTyped

theorem nil : ViewsTyped setting [] types := fun _ _ h => absurd h List.not_mem_nil

theorem append (h : ViewsTyped setting views types) (h' : ViewsTyped setting more types) :
    ViewsTyped setting (views ++ more) types :=
  fun v e hmem => (List.mem_append.mp hmem).elim (h v e) (h' v e)

end ViewsTyped

theorem Setting.namesIn_cons (table : Table CType) (name : String) :
    setting.namesIn (table :: scopes) name =
      (table.find? name).elim (setting.namesIn scopes name) fun t => some [t] := by
  rw [namesIn, List.findSome?_cons]
  cases table.find? name <;> rfl

theorem Setting.typesAt_declare (d : Declarator) (name : String) :
    setting.typesAt types (v.declare d) name =
      if d.name = name then (types.find? d.id).map fun t => [t]
      else setting.typesAt types v name := by
  rw [typesAt, meaning, View.declare, View.meaning]
  by_cases heq : d.name = name
  · rw [if_pos heq, if_pos heq]
  · rw [if_neg heq, if_neg heq]
    rfl

theorem Setting.typesAt_looped (name : String) :
    setting.typesAt types v.looped name =
      if name ∈ setting.rowNames.map Prod.fst then
        (Table.find? setting.rowNames name).map fun t => [t]
      else setting.typesAt types v name := by
  rw [typesAt, meaning, View.looped, View.meaning]
  by_cases hmem : name ∈ setting.rowNames.map Prod.fst
  · rw [if_pos hmem, if_pos hmem]
  · rw [if_neg hmem, if_neg hmem]
    rfl

/-- A name that stands for no declaration has the types that the loop gives it, if there is one
around, and otherwise those that it has outside of the snippet. -/
theorem Setting.typesAt_eq_or {name : String} (h : ∀ id, setting.meaning v name ≠ .declared id) :
    setting.typesAt types v name =
      ((if v.context.inLoop then Table.find? setting.rowNames name else none).map
        fun t => [t]).or (setting.typesOf name) := by
  rw [typesAt]
  cases hmeaning : setting.meaning v name with
  | declared id => exact absurd hmeaning (h id)
  | looped =>
      obtain ⟨hinLoop, hmem⟩ := View.of_meaning_looped hmeaning
      obtain ⟨t, ht⟩ := Option.isSome_iff_exists.mp (Table.has_iff.mpr hmem)
      rw [if_pos hinLoop, ht]
      rfl
  | outer =>
      obtain ⟨-, hunbound⟩ := View.meaning_eq_outer_iff.mp hmeaning
      by_cases hinLoop : v.context.inLoop = true
      · rw [if_pos hinLoop, Table.find?_eq_none_iff.mpr fun hmem => hunbound ⟨hinLoop, hmem⟩]
        rfl
      · rw [if_neg hinLoop]
        rfl

namespace Shows

theorem push : Shows setting v ([] :: scopes) types ↔ Shows setting v scopes types := Iff.rfl

theorem declare {d : Declarator} {t : CType} (h : Shows setting v c.scopes types)
    (hnew : d.name ∉ (c.scopes.head?.getD []).map Prod.fst) (ht : types.find? d.id = some t) :
    Shows setting (v.declare d) (c.withName d.name t).scopes types := by
  funext name
  have hinsert : (c.scopes.head?.getD []) ++ [(d.name, t)] =
      Table.insert (c.scopes.head?.getD []) d.name t :=
    (Table.insert_of_not_has t (Table.has_eq_false_iff.mpr hnew)).symm
  have houter : setting.namesIn c.scopes name =
      ((Table.find? (c.scopes.head?.getD []) name).elim (setting.namesIn c.scopes.tail name)
        fun t => some [t]) := by
    cases hscopes : c.scopes with
    | nil => rfl
    | cons table scopes => exact Setting.namesIn_cons table name
  rw [Setting.typesAt_declare, ht, ← h, houter, Checker.withName, Setting.namesIn_cons, hinsert,
    Table.find?_insert]
  by_cases heq : d.name = name
  · rw [if_pos heq.symm, if_pos heq]
    rfl
  · rw [if_neg (Ne.symm heq), if_neg heq]

/-- The names of a loop are known inside it. -/
theorem looped {names : List (String × CType)} (h : Shows setting v scopes types)
    (hnames : setting.synapseNames = some names) :
    Shows setting v.looped (names :: scopes) types := by
  funext name
  have hrow : setting.rowNames = names := by rw [Setting.rowNames, hnames]; rfl
  rw [Setting.typesAt_looped, Setting.namesIn_cons, hrow, ← h]
  split
  next hmem =>
    obtain ⟨t, ht⟩ := Option.isSome_iff_exists.mp (Table.has_iff.mpr hmem)
    rw [ht]
    rfl
  next hmem =>
    rw [Table.find?_eq_none_iff.mpr hmem]
    rfl

end Shows

/-- What a check does if it succeeds: it passes from one view to another, and notes types of these
nodes. If the names have the types of the first view in the scopes, then those in the expressions
are noted with types that they have, and in the end all have the types of the second view. Only the
innermost scope is changed. -/
structure Checker.Passes (setting : Setting) (c : Checker) (nodes : List NodeId) (v : View)
    (views : List (View × Expr)) (v' : View) (c' : Checker) : Prop where
  notes : Notes c.types nodes (fun types => Shows setting v c.scopes types →
    ViewsTyped setting views types ∧ Shows setting v' c'.scopes types) c'.types
  outer : c'.scopes.tail = c.scopes.tail

namespace Checker.Passes

theorem refl (c : Checker) (v : View) : c.Passes setting [] v [] v c :=
  ⟨.refl c.types fun _ h => ⟨.nil, h⟩, rfl⟩

theorem append (h : c.Passes setting xs v views v' c') (h' : c'.Passes setting ys v' more v'' c'')
    (hnodup : (xs ++ ys).Nodup) : c.Passes setting (xs ++ ys) v (views ++ more) v'' c'' where
  notes := (h.notes.trans h'.notes hnodup).imp fun _ hboth hv =>
    ⟨(hboth.1 hv).1.append (hboth.2 (hboth.1 hv).2).1, (hboth.2 (hboth.1 hv).2).2⟩
  outer := h'.outer.trans h.outer

theorem exists_append (h : c.Passes setting xs v views v' c')
    (h' : ∃ v'', c'.Passes setting ys v' more v'' c'') (hnodup : (xs ++ ys).Nodup) :
    ∃ v'', c.Passes setting (xs ++ ys) v (views ++ more) v'' c'' := by
  obtain ⟨v'', h'⟩ := h'
  exact ⟨v'', h.append h' hnodup⟩

/-- Behind a part that has a scope of its own, all is as it was before. -/
theorem pop {inner after : Checker} (h : inner.Passes setting xs v' views v'' c')
    (htypes : inner.types = c.types) (houter : inner.scopes.tail = c.scopes)
    (hshows : ∀ types, Shows setting v c.scopes types → Shows setting v' inner.scopes types)
    (hafter : after.types = c'.types) (hscopes : after.scopes = c'.scopes.tail) :
    c.Passes setting xs v views v after := by
  have hsame : after.scopes = c.scopes := (hscopes.trans h.outer).trans houter
  refine ⟨?_, by rw [hsame]⟩
  rw [hafter, ← htypes, hsame]
  exact h.notes.imp fun types hboth hv => ⟨(hboth (hshows types hv)).1, hv⟩

end Checker.Passes

/-- No more is asked of an expression that stands in a statement than that it has a type. -/
theorem view_then (e : Expr) (v : View) (hnodup : e.nodes.Nodup) {m : CType → Check Unit}
    (hm : ∀ t c, (m t).Sound c fun _ c' => c' = c) :
    Check.Sound (do
      let t ← check setting e
      m t) c fun _ c' => c.Passes setting e.nodes v [(v, e)] v c' := by
  refine .bind (check_occurrences e hnodup rfl) fun t c₁ h₁ => (hm t c₁).imp ?_
  rintro _ _ rfl
  refine ⟨h₁.notes.imp fun types hos hv => ⟨fun v' a hmem => ?_, h₁.scopes.symm ▸ hv⟩,
    congrArg List.tail h₁.scopes⟩
  cases List.mem_singleton.mp hmem
  rw [← hv]
  exact hos

theorem checkValue_views (e : Expr) (v : View) (hnodup : e.nodes.Nodup) :
    (checkValue setting e).Sound c fun _ c' => c.Passes setting e.nodes v [(v, e)] v c' :=
  view_then e v hnodup fun _ _ => .pure rfl

theorem checkCondition_views (e : Expr) (v : View) (hnodup : e.nodes.Nodup) :
    (checkCondition setting e).Sound c fun _ c' => c.Passes setting e.nodes v [(v, e)] v c' :=
  view_then e v hnodup fun _ _ => .requireCondition rfl

theorem checkIntegral_views (e : Expr) (flaw : CType → Flaw) (v : View) (hnodup : e.nodes.Nodup) :
    (checkIntegral setting e flaw).Sound c fun _ c' =>
      c.Passes setting e.nodes v [(v, e)] v c' := by
  refine view_then e v hnodup fun t c => ?_
  split
  next => exact .fail _ _
  next => exact .pure rfl

theorem checkOptional_views {m : Expr → Check Unit} (e : Option Expr) (v : View)
    (hm : ∀ a : Expr, a.nodes.Nodup →
      (m a).Sound c fun _ c' => c.Passes setting a.nodes v [(v, a)] v c')
    (hnodup : (Expr.nodesOfOption e).Nodup) :
    (checkOptional m e).Sound c fun _ c' =>
      c.Passes setting (Expr.nodesOfOption e) v (Expr.viewsOfOption v e) v c' := by
  cases e with
  | none => exact .pure (.refl c v)
  | some e => exact hm e hnodup

/-- A name is declared before its value is checked. -/
theorem checkDeclarator_views (type : TypeSpec) (d : Declarator) (v : View)
    (hnodup : (d.id :: Expr.nodesOfOption d.init).Nodup) :
    (checkDeclarator setting type d).Sound c fun _ c' =>
      c.Passes setting (d.id :: Expr.nodesOfOption d.init) v
        (Expr.viewsOfOption (v.declare d) d.init) (v.declare d) c' := by
  refine .bind (resolve_sound type d.pointer) ?_
  rintro t c rfl
  refine .bind (P := fun _ c₁ => c₁.scopes = c.scopes ∧
    Notes c.types [d.id] (fun types => types.find? d.id = some t) c₁.types)
    (.modify rfl ⟨rfl, ((Notes.refl c.types fun _ => trivial).note List.not_mem_nil t).imp
      fun types h => h.1⟩) ?_
  rintro _ c₁ ⟨hscopes, h₁⟩
  refine .bind (declare_sound d.span d.name t c₁) ?_
  rintro _ _ ⟨rfl, hnew⟩
  have hdeclared : c.Passes setting [d.id] v [] (v.declare d) (c₁.withName d.name t) :=
    ⟨h₁.imp fun types hid hv => ⟨.nil, .declare (hscopes.symm ▸ hv) hnew hid⟩,
      (congrArg List.tail hscopes :)⟩
  cases hinit : d.init with
  | none => exact .pure hdeclared
  | some init =>
      rw [hinit] at hnodup
      refine (view_then init (v.declare d) (List.nodup_cons.mp hnodup).2 fun given c₂ => ?_).imp
        fun _ c₂ h₂ => hdeclared.append h₂ hnodup
      split
      next => exact .fail _ _
      next => exact .pure rfl

theorem checkDeclarators_views (type : TypeSpec) (ds : List Declarator) (v : View)
    (hnodup : (Declarator.nodesOfAll ds).Nodup) :
    (checkDeclarators setting type ds).Sound c fun _ c' =>
      c.Passes setting (Declarator.nodesOfAll ds) v (Declarator.viewsOfAll v ds) (v.declareAll ds)
        c' := by
  induction ds generalizing c v with
  | nil => exact .pure (.refl c v)
  | cons d ds ih =>
      rw [Declarator.nodesOfAll, ← List.cons_append] at hnodup ⊢
      obtain ⟨hd, hds, -⟩ := List.nodup_append.mp hnodup
      refine .bind (checkDeclarator_views type d v hd) fun _ c₁ h₁ => ?_
      exact (ih (v.declare d) hds).imp fun _ c₂ h₂ => h₁.append h₂ hnodup

section

variable {Place : Span → List Token → Prop} {ts : List Token} {s body : Stmt}

theorem evaluation_views (h : SpellsEvaluation Place s ts) (v : View) (hnodup : s.nodes.Nodup) :
    (checkStmt setting s).Sound c fun _ c' => c.Passes setting s.nodes v (s.views v) v c' := by
  cases h with
  | intro he hk hp =>
      rw [checkStmt]
      exact checkValue_views _ v hnodup

theorem declaration_views (h : SpellsDeclaration Place s ts) (v : View) (hnodup : s.nodes.Nodup) :
    (checkStmt setting s).Sound c fun _ c' =>
      c.Passes setting s.nodes v (s.views v) (s.viewBehind v) c' := by
  cases h with
  | intro hs hpointer hp hnames hk hplace =>
      rw [checkStmt]
      exact checkDeclarators_views _ _ v hnodup

/-- The first clause of a `for` is checked before the rest of the loop. -/
theorem forInit_views {init : Option Stmt} {f : Unit → Check Unit} {R : Unit → Checker → Prop}
    (h : SpellsForInit Place init ts) (v : View) (hnodup : (Stmt.nodesOfOption init).Nodup)
    (hf : ∀ c', c.Passes setting (Stmt.nodesOfOption init) v (Stmt.viewsOfOption v init)
      (Stmt.viewBehindInit v init) c' → (f ()).Sound c' R) :
    Check.Sound (match init with
      | none => f ()
      | some init => do
        let r ← checkStmt setting init
        f r) c R := by
  cases h with
  | none hk => exact hf c (.refl c v)
  | declaration h =>
      refine .bind (declaration_views h v hnodup) fun _ c₁ h₁ => hf c₁ ?_
      cases h with
      | intro => exact h₁
  | evaluation h =>
      refine .bind (evaluation_views h v hnodup) fun _ c₁ h₁ => hf c₁ ?_
      cases h with
      | intro he hk hp => exact h₁

/-- What the check of a statement or of items tells of the names in it. -/
def ViewsPhrase (setting : Setting) : StmtPhrase → Prop
  | .statement s => s.nodes.Nodup → ∀ (v : View) (c : Checker),
    (checkStmt setting s).Sound c fun _ c' => c.Passes setting s.nodes v (s.views v) v c'
  | .items ss => (Stmt.nodesOfItems ss).Nodup → ∀ (v : View) (c : Checker),
    (checkItems setting ss).Tells c fun c' => ∃ v',
      c.Passes setting (Stmt.nodesOfItems ss) v (Stmt.viewsOfItems v ss) v' c'

/-- A statement in a loop or a switch, behind a part that declares nothing. -/
theorem between_views {c₁ : Checker} (ih : ViewsPhrase setting (.statement body))
    (enter leave : Checker → Checker)
    (henter : ∀ c, (enter c).report = c.report ∧ (enter c).types = c.types ∧
      (enter c).scopes = c.scopes)
    (hleave : ∀ c, (leave c).report = c.report ∧ (leave c).types = c.types ∧
      (leave c).scopes = c.scopes)
    (h : c.Passes setting xs v views v' c₁) (hnodup : (xs ++ body.nodes).Nodup) :
    Check.Sound (do
      Check.modify enter
      Check.afterwards (checkStmt setting body) leave) c₁ fun _ c' =>
        c.Passes setting (xs ++ body.nodes) v (views ++ body.views v') v' c' := by
  obtain ⟨-, hbody, -⟩ := List.nodup_append.mp hnodup
  obtain ⟨hreport, htypes, hscopes⟩ := henter c₁
  have hentered : c.Passes setting xs v views v' (enter c₁) :=
    ⟨by rw [htypes, hscopes]; exact h.notes, by rw [hscopes]; exact h.outer⟩
  refine .between enter leave hreport (fun c => (hleave c).1)
    ((ih hbody v' (enter c₁)).imp fun _ c₂ h₂ => ?_)
  have hboth := hentered.append h₂ hnodup
  obtain ⟨-, htypes₂, hscopes₂⟩ := hleave c₂
  exact ⟨by rw [htypes₂, hscopes₂]; exact hboth.notes, by rw [hscopes₂]; exact hboth.outer⟩

theorem inLoop_views {c₁ : Checker} (ih : ViewsPhrase setting (.statement body))
    (h : c.Passes setting xs v views v' c₁) (hnodup : (xs ++ body.nodes).Nodup) :
    (Check.inLoop (checkStmt setting body)).Sound c₁ fun _ c' =>
      c.Passes setting (xs ++ body.nodes) v (views ++ body.views v') v' c' :=
  between_views ih (fun c => { c with loopDepth := c.loopDepth + 1 })
    (fun c => { c with loopDepth := c.loopDepth - 1 }) (fun _ => ⟨rfl, rfl, rfl⟩)
    (fun _ => ⟨rfl, rfl, rfl⟩) h hnodup

theorem forLoop_views {init : Option Stmt} {is : List Token} {test step : Option Expr}
    (ih : ViewsPhrase setting (.statement body)) (hinit : SpellsForInit Place init is)
    (span : Span) : ViewsPhrase setting (.statement (.forLoop span init test step body)) := by
  intro hnodup v c
  obtain ⟨hhead, -, -⟩ := List.nodup_append.mp hnodup
  obtain ⟨hclauses, hstep, -⟩ := List.nodup_append.mp hhead
  obtain ⟨hfirst, htest, -⟩ := List.nodup_append.mp hclauses
  rw [checkStmt]
  refine .inScope (forInit_views (f := fun _ => do
    checkOptional (checkCondition setting) test
    checkOptional (checkValue setting) step
    Check.inLoop (checkStmt setting body)) hinit v hfirst fun c₁ h₁ => ?_)
  let inside := Stmt.viewBehindInit v init
  refine .bind (checkOptional_views test inside (fun e => checkCondition_views e inside) htest)
    fun _ c₂ h₂ => ?_
  refine .bind (checkOptional_views step inside (fun e => checkValue_views e inside) hstep)
    fun _ c₃ h₃ => ?_
  have hclausesPass := (h₁.append h₂ hclauses).append h₃ hhead
  refine (inLoop_views ih hclausesPass hnodup).imp fun _ c₄ h₄ => ?_
  exact h₄.pop rfl rfl (fun _ => Shows.push.mpr) rfl rfl

/-- The names of the loop are declared in a scope around the body. -/
theorem eachSynapse_views (ih : ViewsPhrase setting (.statement body)) (span : Span) :
    ViewsPhrase setting (.statement (.eachSynapse span body)) := by
  intro hnodup v c
  rw [checkStmt]
  refine .bind (synapseNames_sound span c) ?_
  rintro names c ⟨rfl, hnames, -⟩
  refine .bind (P := fun _ c' => c' = { c with scopes := [] :: c.scopes }) (.modify rfl rfl) ?_
  rintro _ _ rfl
  refine .bind (declareAll_sound span names rfl) ?_
  rintro _ _ ⟨rfl, -, -⟩
  refine .bind (P := fun _ c' => c' = { c with scopes := names :: c.scopes, inSynapseLoop := true })
    (.modify rfl rfl) ?_
  rintro _ _ rfl
  refine .afterwards (fun _ => rfl) ((inLoop_views ih (.refl _ v.looped) hnodup).imp
    fun _ c₁ h₁ => ?_)
  exact h₁.pop rfl rfl (fun _ hv => hv.looped hnames) rfl rfl

theorem viewsPhrase {phrase : StmtPhrase} (h : DerivesStmt Place phrase ts) :
    ViewsPhrase setting phrase := by
  induction h with
  | empty hk hp =>
      intro hnodup v c
      rw [checkStmt]
      exact .pure (.refl c v)
  | evaluation h => exact fun hnodup v c => evaluation_views h v hnodup
  | block hl _ hr hp ih =>
      intro hnodup v c
      rw [checkStmt]
      refine Check.Tells.block ((ih hnodup v _).imp ?_)
      rintro c' ⟨v', h⟩
      exact h.pop rfl rfl (fun _ => Shows.push.mpr) rfl rfl
  | ifThen hk ht _ hp ih =>
      intro hnodup v c
      obtain ⟨hfirst, -, -⟩ := List.nodup_append.mp hnodup
      obtain ⟨htest, hyes, -⟩ := List.nodup_append.mp hfirst
      rw [checkStmt]
      refine .bind (checkCondition_views _ v htest) fun _ c₁ h₁ => ?_
      refine .bind (ih hyes v c₁) fun _ c₂ h₂ => .pure ?_
      exact (h₁.append h₂ hfirst).append (.refl c₂ v) hnodup
  | ifElse hk ht _ ho he _ hp ihy ihn =>
      intro hnodup v c
      obtain ⟨hfirst, hno, -⟩ := List.nodup_append.mp hnodup
      obtain ⟨htest, hyes, -⟩ := List.nodup_append.mp hfirst
      rw [checkStmt]
      refine .bind (checkCondition_views _ v htest) fun _ c₁ h₁ => ?_
      refine .bind (ihy hyes v c₁) fun _ c₂ h₂ => ?_
      exact (ihn hno v c₂).imp fun _ c₃ h₃ => (h₁.append h₂ hfirst).append h₃ hnodup
  | whileLoop hk ht _ hp ih =>
      intro hnodup v c
      obtain ⟨htest, -, -⟩ := List.nodup_append.mp hnodup
      rw [checkStmt]
      exact .bind (checkCondition_views _ v htest) fun _ c₁ h₁ => inLoop_views ih h₁ hnodup
  | doLoop hk _ hw ht hs hp ih =>
      intro hnodup v c
      obtain ⟨hbody, htest, -⟩ := List.nodup_append.mp hnodup
      rw [checkStmt]
      refine .bind (inLoop_views ih (.refl c v) hbody) fun _ c₁ h₁ => ?_
      exact (checkCondition_views _ v htest).imp fun _ c₂ h₂ => h₁.append h₂ hnodup
  | forLoop hk hl hi ht hs hu hr _ hp ih => exact forLoop_views ih hi _
  | switch hk ht _ hp ih =>
      intro hnodup v c
      obtain ⟨htest, -, -⟩ := List.nodup_append.mp hnodup
      rw [checkStmt]
      refine .bind (checkIntegral_views _ _ v htest) fun _ c₁ h₁ => ?_
      exact between_views ih (fun c => { c with switchDepth := c.switchDepth + 1 })
        (fun c => { c with switchDepth := c.switchDepth - 1 }) (fun _ => ⟨rfl, rfl, rfl⟩)
        (fun _ => ⟨rfl, rfl, rfl⟩) h₁ hnodup
  | caseLabel hk he hcolon _ hp ih =>
      intro hnodup v c
      obtain ⟨hvalue, hbody, -⟩ := List.nodup_append.mp hnodup
      rw [checkStmt]
      refine .read ?_
      split
      next => exact .fail _ _
      next =>
        refine .bind (checkIntegral_views _ _ v hvalue) fun _ c₁ h₁ => ?_
        exact (ih hbody v c₁).imp fun _ c₂ h₂ => h₁.append h₂ hnodup
  | defaultLabel hk hcolon _ hp ih =>
      intro hnodup v c
      rw [checkStmt]
      refine .read ?_
      split
      next => exact .fail _ _
      next => exact ih hnodup v c
  | breakLoop hk hs hp =>
      intro hnodup v c
      rw [checkStmt]
      refine .read ?_
      split
      next => exact .fail _ _
      next => exact .pure (.refl c v)
  | continueLoop hk hs hp =>
      intro hnodup v c
      rw [checkStmt]
      refine .read ?_
      split
      next => exact .fail _ _
      next => exact .pure (.refl c v)
  | print hk he hs hp =>
      intro hnodup v c
      rw [checkStmt]
      refine view_then _ v hnodup fun t c => ?_
      split
      next => exact .pure rfl
      next =>
        split
        next => exact .fail _ _
        next => exact .pure rfl
  | eachSynapse hk _ hp ih => exact eachSynapse_views ih _
  | nil => exact fun hnodup v c => ⟨true, c, rfl, rfl, v, .refl c v⟩
  | declaration h _ ih =>
      intro hnodup v c
      obtain ⟨hs, hss, -⟩ := List.nodup_append.mp hnodup
      rw [checkItems]
      refine .cons (declaration_views h v hs) (fun c₁ h₁ => ?_)
        fun c' => (checkItems_notes _ hss c').imp fun _ _ => trivial
      exact (ih hss _ c₁).imp fun _ h₂ => h₁.exists_append h₂ hnodup
  | statement h _ ihs ihss =>
      intro hnodup v c
      obtain ⟨hs, hss, -⟩ := List.nodup_append.mp hnodup
      rw [checkItems]
      refine .cons (ihs hs v c) (fun c₁ h₁ => ?_)
        fun c' => (checkItems_notes _ hss c').imp fun _ _ => trivial
      rw [Stmt.viewsOfItems, h.viewBehind_eq v _ rfl]
      exact (ihss hss v c₁).imp fun _ h₂ => h₁.exists_append h₂ hnodup

/-- In a snippet that is checked without a remark every name is noted with a type that it has where
it stands. -/
theorem checkSnippet_views {ss : List Stmt} (h : DerivesStmt Place (.items ss) ts)
    (hnodup : (Stmt.nodesOfItems ss).Nodup) (hclean : (checkSnippet setting ss).report = []) :
    ViewsTyped setting (Stmt.viewsOfItems [] ss) (checkSnippet setting ss).types := by
  obtain ⟨v', hpasses⟩ := (viewsPhrase h hnodup [] _).of_clean hclean
  exact (hpasses.notes.here rfl).1

/-- A name that nothing has made known where it is called has the type that is chosen for the call,
among those that it is bound to outside of the snippet. -/
theorem checkSnippet_sites {ss : List Stmt} (h : DerivesStmt Place (.items ss) ts)
    (hnodup : (Stmt.nodesOfItems ss).Nodup) (hclean : (checkSnippet setting ss).report = [])
    (x : Context) (e : Expr) (hsite : (x, e) ∈ Stmt.sitesOfItems .initial ss)
    (node callee : Node) (name : String) (args : List Expr)
    (hcall : .call node (.name callee name) args ∈ e.parts) (hname : name ∉ setting.knownIn x) :
    CalleeChosen setting.aliases setting.typesOf callee name args
      (checkSnippet setting ss).types := by
  have hviews := Stmt.map_viewsOfItems [] ss
  rw [View.context] at hviews
  rw [← hviews, List.mem_map] at hsite
  obtain ⟨⟨v, e⟩, hview, ⟨⟩⟩ := hsite
  have houter : setting.meaning v name = .outer := by
    rw [Setting.meaning, View.meaning_eq_outer_iff]
    refine ⟨fun hmem => hname (.inl hmem), ?_⟩
    rintro ⟨hloop, hmem⟩
    refine hname (.inr ⟨hloop, ?_⟩)
    cases hnames : setting.synapseNames with
    | none => simp [Setting.rowNames, hnames] at hmem
    | some names => exact ⟨_, rfl, by rwa [Setting.rowNames, hnames] at hmem⟩
  have htypes : setting.typesAt (checkSnippet setting ss).types v name = setting.typesOf name := by
    rw [Setting.typesAt, houter]
  rw [CalleeChosen, ← htypes]
  exact checkSnippet_views h hnodup hclean v e hview _ (Expr.mem_occurrences_of_call hcall)

end

end KernelWeaver.Typing
