import KernelWeaver.Proofs.Inlining
import KernelWeaver.Proofs.Printing.LoopHeads
import KernelWeaver.Proofs.Snippet.Renaming
import KernelWeaver.Proofs.Typing.Constness

/-!
# Reading printed heads of loops

The head of a `for` loop that declares names is printed to a text that reads again as a head of a
loop. It declares as many names in the same order, each with an underscore in front and of the type
that it had, unless one behind the first is a `const` pointer: that is read as a pointer that is not
`const`, of another name.
-/

namespace KernelWeaver

open Code Code.Emit Snippet Snippet.Lexer Typing Printing

variable {aliases : Aliases} {types : NodeTypes} {locals : List String} {known : Set String}
  {P : Span → List Token → Prop} {ts : List Token} {e : Expr} {t : CType}

/-! ### Values with locals -/

/-- How a name is printed where other names than the locals are their own code. -/
abbrev printedName (locals : List String) : String → String := nameCode (fun name => name) locals

theorem isText_printedName (haliases : LeavesLocals aliases) (locals : List String) {name : String}
    (h : IsText aliases .identifier name.toList) :
    IsText aliases .identifier (printedName locals name).toList := by
  rw [printedName, nameCode]
  split
  next => 
    have hformed : Token.Formed aliases ⟨.identifier, name, default⟩ := .inr h
    exact isText_localName haliases (isWord_of_identifier hformed rfl)
  next => exact h

theorem formed_rename {token : Token} {other : String → String} (h : token.Formed aliases)
    (hother : ∀ name : String, IsText aliases .identifier name.toList →
      IsText aliases .identifier (other name).toList) : (token.rename other).Formed aliases := by
  rw [Token.rename]
  split
  next hkind =>
    have htext := h.resolve_left (by rw [hkind]; decide)
    rw [hkind] at htext
    exact .inr (by rw [hkind]; exact hother _ htext)
  next => exact h

theorem suits_of_hasType (h : HasType aliases types e t) : Suits aliases t e := by
  cases h with
  | unary _ _ hrule => exact suits_unary hrule
  | cast _ htarget _ hrule => rw [castType_eq_ok hrule]; exact htarget
  | _ => trivial

/-- An expression that has types is as readable with other names, if no signs come together. -/
theorem readable_otherName {other : String → String} (htyped : HasType aliases types e t)
    (hcalls : Expr.CallsNames e.parts)
    (hsigns : KeepsReplacedSignsApart types (otherName other) e.parts) :
    Readable types (e.expand (otherName other)).parts := by
  have hsuits : ∀ part ∈ e.parts, ∃ u, types.find? part.id = some u ∧ Suits aliases u part := by
    intro part hpart
    obtain ⟨u, hu⟩ := htyped.exists_of_mem_parts e hpart
    exact ⟨u, hu.find?_eq, suits_of_hasType hu⟩
  refine readable_expand_of_parts (fun node name _ => ?_) (fun node operand hmem => ?_)
    (fun node type operand hmem => ?_) (fun node callee args hmem => ?_) hsigns
  · exact readable_of_isAtom (List.forall_mem_singleton.mpr rfl)
  · obtain ⟨u, -, hassignable⟩ := hsuits _ hmem
    exact .inl ((Expr.isAssignable_otherName operand).trans hassignable)
  · obtain ⟨u, hfind, htarget⟩ := hsuits _ hmem
    exact ⟨u, hfind, isCastType_of_castTarget? htarget⟩
  · obtain ⟨calleeNode, name, rfl⟩ := hcalls node callee args hmem
    exact ⟨calleeNode, name, calleeNode, other name, rfl, rfl⟩

/-- What is asked of an expression in the head of a loop: only names are called, and no sign comes
to stand in front of the same sign, whichever names are locals. -/
structure IsLegible (types : NodeTypes) (e : Expr) : Prop where
  calls : Expr.CallsNames e.parts
  signs : ∀ locals, KeepsReplacedSignsApart types (otherName (printedName locals)) e.parts

/-- Among locals and names that are their own code, an expression is printed to a text that reads as
an expression. -/
theorem printExpr_yields (haliases : LeavesLocals aliases)
    (hspelled : Derives P (.expr .assignment e) ts) (hts : ∀ t ∈ ts, t.Formed aliases)
    (hnesting : e.nesting < Parser.maxDepth) (htyped : HasType aliases types e t)
    (hlegible : IsLegible types e) (hscoped : ∀ name ∈ e.names, name ∈ locals ∨ name ∈ known) :
    Yields (PrintsAsItself known) (printExpr types locals e) (ReadsAsExpr aliases) := by
  have hnodes : ∀ id ∈ e.nodes, (types.find? id).isSome = true := by
    intro id hid
    rw [Expr.nodes_eq_map_parts, List.mem_map] at hid
    obtain ⟨part, hpart, rfl⟩ := hid
    obtain ⟨u, hu⟩ := htyped.exists_of_mem_parts e hpart
    exact Option.isSome_of_eq_some hu.find?_eq
  have hformed : ∀ token ∈ ts.map (Token.rename (printedName locals)), token.Formed aliases := by
    intro token htoken
    obtain ⟨t, ht, rfl⟩ := List.mem_map.mp htoken
    exact formed_rename (hts t ht) fun name => isText_printedName haliases locals
  have hreadable := readable_otherName htyped hlegible.calls (hlegible.signs locals)
  have hreads := (readsBack (hspelled.rename (printedName locals)) hformed hreadable).reads
  have hgives : GivesWhere (fun name => name) known (printExpr types locals e)
      (plainText types (e.expand (otherName (printedName locals)))) :=
    printExpr_givesWhere (fun _ _ => rfl) e hnodes hscoped
  intro c hc
  refine (hgives c hc).imp ?_
  rintro _ c' ⟨rfl, hc'⟩
  refine ⟨hreads.imp fun us hus => ⟨_, hus, ?_⟩, hc'⟩
  rw [Expr.nesting_respell, Expr.nesting_otherName]
  exact hnesting

/-! ### Heads of loops -/

/-- The locals and the names that are known besides. -/
def reach (locals : List String) (known : Set String) : Set String :=
  {name | name ∈ locals ∨ name ∈ known}

theorem insert_reach (name : String) :
    insert name (reach locals known) = reach (name :: locals) known := by
  ext other
  rw [Set.mem_insert_iff]
  change other = name ∨ (other ∈ locals ∨ other ∈ known) ↔ other ∈ name :: locals ∨ other ∈ known
  rw [List.mem_cons, or_assoc]

variable {type : TypeSpec} {names : List Declarator} {d : Declarator} {inside : Set String}

/-- The value of a declared name is printed as an expression that can be read, where the name is a
local. -/
theorem printValue_yields (haliases : LeavesLocals aliases) (hspelled : SpellsDeclarator P d ts)
    (hts : ∀ t ∈ ts, t.Formed aliases)
    (hnesting : Expr.nestingOfOption d.init < Parser.maxDepth)
    (htyped : (Clause.declared type d).Typed aliases types)
    (hlegible : ∀ e ∈ d.init, IsLegible types e)
    (hscoped : Expr.ScopedOption (insert d.name (reach locals known)) d.init) :
    ∀ e ∈ d.init, Yields (PrintsAsItself known) (printExpr types (d.name :: locals) e)
      (ReadsAsExpr aliases) := by
  intro e he
  obtain ⟨t, -, -, hvalues⟩ := htyped
  obtain ⟨given, hgiven, -⟩ := hvalues e he
  rw [insert_reach] at hscoped
  cases hspelled with
  | intro _ _ hvalue _ =>
      cases hvalue with
      | none => cases he
      | some _ hderives =>
          cases he
          refine printExpr_yields haliases hderives (fun t ht => hts t ?_) hnesting hgiven
            (hlegible _ rfl) (hscoped _ rfl)
          exact List.mem_append_right _ (List.mem_cons_of_mem _ (List.mem_cons_of_mem _ ht))

/-- The values of declared names are printed as expressions that can be read, and behind them the
names are locals. -/
theorem valuesRead (haliases : LeavesLocals aliases) (hspelled : SpellsDeclarators P names ts)
    (hts : ∀ t ∈ ts, t.Formed aliases)
    (hnesting : Declarator.nestingOfAll names < Parser.maxDepth)
    (htyped : ClausesTyped aliases (names.map (Clause.declared type)) types)
    (hlegible : ∀ d ∈ names, ∀ e ∈ d.init, IsLegible types e)
    (hscoped : ScopedDeclarators (reach locals known) names inside) :
    ValuesRead aliases types (PrintsAsItself known) locals names ∧
      inside = reach (localsBehind locals names) known := by
  induction hspelled generalizing locals with
  | last hd =>
      rw [List.map_singleton, ClausesTyped, List.forall_mem_singleton] at htyped
      rw [List.forall_mem_singleton] at hlegible
      cases hscoped with
      | cons hinit hrest =>
          cases hrest
          have hvalue := printValue_yields haliases hd hts
            (lt_of_le_of_lt (le_max_left _ _) hnesting) htyped hlegible hinit
          exact ⟨⟨hvalue, trivial⟩, insert_reach _⟩
  | more hd _ _ ih =>
      rw [List.map_cons, ClausesTyped, List.forall_mem_cons] at htyped
      rw [List.forall_mem_append, List.forall_mem_cons] at hts
      rw [List.forall_mem_cons] at hlegible
      cases hscoped with
      | cons hinit hrest =>
          have hvalue := printValue_yields haliases hd hts.1
            (lt_of_le_of_lt (le_max_left _ _) hnesting) htyped.1 hlegible.1 hinit
          rw [insert_reach] at hrest
          obtain ⟨hvalues, hinside⟩ := ih hts.2.2 (lt_of_le_of_lt (le_max_right _ _) hnesting)
            htyped.2 hlegible.2 hrest
          exact ⟨⟨hvalue, hvalues⟩, hinside⟩

/-- A clause in the head of a loop is printed as an expression that can be read. -/
theorem printClause_yields {clause : Option Expr} (haliases : LeavesLocals aliases)
    (hspelled : SpellsClause P clause ts) (hts : ∀ t ∈ ts, t.Formed aliases)
    (hnesting : Expr.nestingOfOption clause < Parser.maxDepth)
    (htyped : ClausesTyped aliases (Clause.ofOption clause) types)
    (hlegible : ∀ e ∈ clause, IsLegible types e)
    (hscoped : Expr.ScopedOption (reach locals known) clause) :
    ∀ e ∈ clause, Yields (PrintsAsItself known) (printExpr types locals e)
      (ReadsAsExpr aliases) := by
  intro e he
  cases hspelled with
  | none => cases he
  | some hderives =>
      cases he
      obtain ⟨t, ht⟩ := htyped _ List.mem_cons_self
      exact printExpr_yields haliases hderives hts hnesting ht (hlegible _ rfl) (hscoped _ rfl)

/-- A text that is read as tokens that spell one statement is read as one of its shape. -/
theorem readsItems_of_readsAs {source : String} {Q : Stmt → Prop}
    (hshape : ∀ s, Q s.shape ↔ Q s)
    (h : ReadsAs aliases source.toList fun ts => ∃ s, SpellsItems ts [s] ∧ Q s) :
    ∃ s, ReadsItems aliases source [s] ∧ Q s := by
  obtain ⟨tokens, hscan, hend, s, hspells, hs⟩ := h.sentence
  obtain ⟨hreport, hshapes⟩ := parseItems_of_spellsItems hend hspells
  cases hread : (parseItems tokens).1 with
  | nil => rw [hread] at hshapes; cases hshapes
  | cons s' more =>
      rw [hread] at hshapes
      obtain ⟨hfirst, hmore⟩ := List.cons.inj hshapes
      cases more with
      | cons => cases hmore
      | nil =>
          refine ⟨s', ⟨_, hscan, rfl, Prod.ext hread hreport⟩, (hshape s').mp ?_⟩
          rw [hfirst]
          exact (hshape s).mpr hs

/-- The names that the head of a loop declares, with their types. -/
def headNames (aliases : Aliases) : Stmt → List (String × Option CType)
  | .forLoop _ (some (.declare _ type names)) _ _ _ =>
    names.map fun d => (d.name, declaredType? aliases type d.pointer)
  | _ => []

/-- The base type of a declaration that is printed is the one that was written. -/
theorem declaredType?_typeSpec {n : Numeric} (haliases : KeepsTypeWords aliases)
    (hbase : type.pointer = none) (hresolve : aliases.resolve? type.words = some n)
    (star : Option PointerMark) :
    declaredType? aliases (typeSpec (.value n type.isConst)) star =
      declaredType? aliases type star := by
  cases star with
  | none =>
      have hwritten : declaredType? aliases type none = some (.value n type.isConst) := by
        rw [declaredType?, castTarget?, hresolve, hbase]
        rfl
      rw [hwritten]
      exact castTarget?_typeSpec haliases .value
  | some pointer =>
      have hwritten : declaredType? aliases type (some pointer) =
          some (.pointer (.value n type.isConst) pointer.isConst) := by
        rw [declaredType?, castTarget?, hresolve, hbase]
        rfl
      rw [hwritten]
      exact castTarget?_typeSpec haliases (.pointer (d := pointer.isConst))

theorem headNames_of_headDeclares {n : Numeric} {marks : List (Option PointerMark × String)}
    {loop : Stmt} (haliases : KeepsTypeWords aliases) (hbase : type.pointer = none)
    (hresolve : aliases.resolve? type.words = some n)
    (h : HeadDeclares (typeSpec (.value n type.isConst)) marks loop) :
    headNames aliases loop =
      marks.map fun mark => (mark.2, declaredType? aliases type mark.1) := by
  unfold HeadDeclares at h
  split at h
  next spelled names test step body =>
    obtain ⟨hspelled, rfl⟩ := h
    have htype : ∀ star, declaredType? aliases spelled star = declaredType? aliases type star := by
      intro star
      rw [← declaredType?_typeSpec haliases hbase hresolve star, ← hspelled]
      rfl
    rw [headNames, List.map_map]
    exact List.map_congr_left fun d _ => by rw [htype]; rfl
  next => exact h.elim

/-- The values in the head of a loop. -/
def headValues (names : List Declarator) (test step : Option Expr) : List Expr :=
  names.filterMap Declarator.init ++ test.toList ++ step.toList

variable {span s : Span} {test step : Option Expr} {body : Stmt} {rows : Option (List String)}

/-- The head of a loop that declares names, read and checked: tokens of the right forms spell it, it
is not nested too deeply, the types in it follow the rules, and its names are known. -/
structure CheckedHead (P : Span → List Token → Prop) (aliases : Aliases) (types : NodeTypes)
    (known : Set String) (s : Span) (type : TypeSpec) (names : List Declarator)
    (test step : Option Expr) : Prop where
  declared : ∃ ts, SpellsDeclaration P (.declare s type names) ts ∧ ∀ t ∈ ts, t.Formed aliases
  tested : ∃ ts, SpellsClause P test ts ∧ ∀ t ∈ ts, t.Formed aliases
  stepped : ∃ ts, SpellsClause P step ts ∧ ∀ t ∈ ts, t.Formed aliases
  nesting : Declarator.nestingOfAll names < Parser.maxDepth ∧
    Expr.nestingOfOption test < Parser.maxDepth ∧ Expr.nestingOfOption step < Parser.maxDepth
  typed : ClausesTyped aliases (names.map (Clause.declared type)) types ∧
    ClausesTyped aliases (Clause.ofOption test) types ∧
    ClausesTyped aliases (Clause.ofOption step) types
  reaches : ∃ inside, ScopedDeclarators known names inside ∧ Expr.ScopedOption inside test ∧
    Expr.ScopedOption inside step

/-- The head of a loop that is read and checked. -/
theorem checkedHead_of_loop
    (hspelled : DerivesStmt P (.statement (.forLoop span (some (.declare s type names)) test step
      body)) ts) (hts : ∀ t ∈ ts, t.Formed aliases)
    (hnesting : (Stmt.forLoop span (some (.declare s type names)) test step body).innerNesting <
      Parser.maxDepth)
    (htyped : ClausesTyped aliases (StmtClauses.ofStmt (.forLoop span
      (some (.declare s type names)) test step body)) types)
    (hscoped : Scoped rows known (.statement (.forLoop span
      (some (.declare s type names)) test step body))) :
    CheckedHead P aliases types known s type names test step := by
  obtain ⟨hnames, htest, hstep, -⟩ : Declarator.nestingOfAll names < Parser.maxDepth ∧
      Expr.nestingOfOption test < Parser.maxDepth ∧ Expr.nestingOfOption step < Parser.maxDepth ∧
      body.innerNesting + 1 < Parser.maxDepth := by
    simpa only [Stmt.innerNesting, Stmt.nestingOfInit, max_lt_iff] using hnesting
  rw [StmtClauses.ofStmt, StmtClauses.ofOption, StmtClauses.ofStmt, ClausesTyped,
    List.forall_mem_append, List.forall_mem_append, List.forall_mem_append] at htyped
  cases hspelled with
  | evaluation h => cases h
  | @forLoop _ _ _ _ _ _ _ _ _ is us vs ws _ _ hinit htested _ hstepped _ _ _ =>
  cases hinit with
  | evaluation h => cases h
  | declaration hdeclared =>
  cases hscoped with
  | forLoop hinside htestScoped hstepScoped _ =>
  cases hinside with
  | declaration hnamesScoped =>
  exact ⟨⟨is, hdeclared, fun t ht => hts t (by simp [ht])⟩,
    ⟨us, htested, fun t ht => hts t (by simp [ht])⟩,
    ⟨vs, hstepped, fun t ht => hts t (by simp [ht])⟩, ⟨hnames, htest, hstep⟩,
    ⟨htyped.1.1.1, htyped.1.1.2, htyped.1.2⟩, ⟨_, hnamesScoped, htestScoped, hstepScoped⟩⟩

/-- The head of a loop that declares names is read and checked, and its names are locals or are
their own code. Then it is printed to a text that reads again as the head of a loop, and the names
and types declared there are those that `headMarks` tells. -/
theorem printHead_reads_again (haliases : KeepsTypeWords aliases)
    (hlocals : LeavesLocals aliases)
    (h : CheckedHead P aliases types (reach locals known) s type names test step)
    (hlegible : ∀ e ∈ headValues names test step, IsLegible types e) :
    Yields (PrintsAsItself known)
      (printHead types locals (some (.declare s type names)) test step) fun found =>
      ∃ loop, ReadsItems aliases (found.1 ++ ";") [loop] ∧ headNames aliases loop =
        (headMarks true names).map fun mark => (mark.2, declaredType? aliases type mark.1) := by
  obtain ⟨ts, hdeclared, hts⟩ := h.declared
  obtain ⟨us, htested, hus⟩ := h.tested
  obtain ⟨vs, hstepped, hvs⟩ := h.stepped
  obtain ⟨hnested, htestNested, hstepNested⟩ := h.nesting
  obtain ⟨htyped, htestTyped, hstepTyped⟩ := h.typed
  obtain ⟨inside, hscoped, htestScoped, hstepScoped⟩ := h.reaches
  obtain ⟨hbase, ds, hds, hsubset⟩ : type.pointer = none ∧
      ∃ ds, SpellsDeclarators P names ds ∧ ds ⊆ ts := by
    cases hdeclared with
    | intro _ hbase _ hnames _ _ => exact ⟨hbase, _, hnames, by simp⟩
  obtain ⟨n, hresolve⟩ := exists_resolve?_of_typed hds htyped
  have hvalue : ∀ d ∈ names, ∀ e ∈ d.init, IsLegible types e := fun d hd e he =>
    hlegible e (by simpa [headValues] using .inl ⟨d, hd, he⟩)
  have htest : ∀ e ∈ test, IsLegible types e := fun e he =>
    hlegible e (by simpa [headValues] using .inr (.inl he))
  have hstep : ∀ e ∈ step, IsLegible types e := fun e he =>
    hlegible e (by simpa [headValues] using .inr (.inr he))
  obtain ⟨hvalues, rfl⟩ := valuesRead hlocals hds (fun t ht => hts t (hsubset ht)) hnested htyped
    hvalue hscoped
  refine (printHead_yields hlocals hresolve hdeclared hts htyped hvalues
    (printClause_yields hlocals htested hus htestNested htestTyped htest htestScoped)
    (printClause_yields hlocals hstepped hvs hstepNested hstepTyped hstep hstepScoped)).imp ?_
  intro found hreads
  obtain ⟨loop, hread, hdeclares⟩ := readsItems_of_readsAs headDeclares_shape hreads
  exact ⟨loop, hread, headNames_of_headDeclares haliases hbase hresolve hdeclares⟩

/-! ### Which heads keep their names -/

theorem ne_const_append (name : String) : "const" ++ name ≠ name := by
  intro h
  have hlength := congrArg String.length h
  simp at hlength

/-- The names and types that are read from the printed head are the ones declared, with an
underscore in front of each name, if and only if no name behind the first is a `const` pointer. -/
theorem headMarks_keep_iff (aliases : Aliases) (type : TypeSpec) (names : List Declarator) :
    ((headMarks true names).map fun mark => (mark.2, declaredType? aliases type mark.1)) =
      (names.map fun d => (localName d.name, declaredType? aliases type d.pointer)) ↔
      ∀ d ∈ names.tail, d.pointer ≠ some ⟨true⟩ := by
  cases names with
  | nil => simp [headMarks]
  | cons first ds =>
      have hfirst : headMark true first = (first.pointer, localName first.name) :=
        if_neg fun h => Bool.noConfusion h.1
      rw [headMarks, headMarks_false, List.map_cons, List.map_cons, List.map_map, hfirst,
        List.cons_inj_right, List.map_inj_left, List.tail_cons]
      refine forall₂_congr fun d _ => ?_
      rw [Function.comp_apply]
      by_cases hconst : d.pointer = some ⟨true⟩
      · rw [headMark, if_pos ⟨rfl, hconst⟩]
        exact iff_of_false (fun h => ne_const_append _ (congrArg Prod.fst h)) fun h => h hconst
      · rw [headMark, if_neg fun h => hconst h.2]
        exact iff_of_true rfl hconst

/-- A loop that declares names in its head is read from a source and checked without a flaw, and the
names that it does not declare are their own code. Then its head is printed to a text that reads
again as the head of a loop. There as many names are declared in the same order, as `headMarks`
tells: they have the types that they had, with an underscore in front of each, if and only if none
behind the first is a `const` pointer. -/
theorem printed_loop_head_reads_again {source : String} {loop : Stmt} {chain : Chain}
    {synapses : Option (List (String × CType))}
    (hloop : loop = .forLoop span (some (.declare s type names)) test step body)
    (haliases : KeepsTypeWords aliases) (hlocals : LeavesLocals aliases)
    (hread : ReadsItems aliases source [loop])
    (hclean : (checkSnippet (settingIn aliases chain synapses) [loop]).report = [])
    (htypes : types = (checkSnippet (settingIn aliases chain synapses) [loop]).types)
    (hprints : PrintsAsItself {name | BoundIn chain.scopes name} chain)
    (hlegible : ∀ e ∈ headValues names test step, IsLegible types e) :
    ∃ head known c', (printHead types [] (some (.declare s type names)) test step).runOn chain =
        (.ok (head, known), c') ∧
      ∃ again, ReadsItems aliases (head ++ ";") [again] ∧
        headNames aliases again =
          ((headMarks true names).map fun mark => (mark.2, declaredType? aliases type mark.1)) ∧
        (headNames aliases again = (headNames aliases loop).map (Prod.map localName id) ↔
          ∀ d ∈ names.tail, d.pointer ≠ some ⟨true⟩) := by
  subst hloop htypes
  obtain ⟨scan, hscan, -, hparse⟩ := hread.read
  obtain ⟨hend, hformed⟩ := Scan.sentence_of_ofSource hscan
  have hitems := congrArg Prod.fst hparse
  have hparsed := congrArg Prod.snd hparse
  dsimp only at hitems hparsed
  obtain ⟨hderives, hnesting⟩ := derives_of_parseItems hend hparsed
  have hnodup := nodup_parseItems scan.tokens
  rw [hitems] at hderives hnesting hnodup
  have htyped := checkSnippet_typed hnodup hclean
  rw [StmtClauses.ofItems, StmtClauses.ofItems, List.append_nil] at htyped
  have hknown : ∀ name, ((settingIn aliases chain synapses).typesOf name).isSome = true →
      name ∈ reach [] {name | BoundIn chain.scopes name} := fun _ h => .inr (boundIn_of_typesOf h)
  obtain ⟨rows, hscoped⟩ : ∃ rows, Scoped rows (reach [] {name | BoundIn chain.scopes name})
      (.items [.forLoop span (some (.declare s type names)) test step body]) :=
    ⟨_, (checkSnippet_clean hderives hknown hclean).2⟩
  have hinner : (Stmt.forLoop span (some (.declare s type names)) test step body).innerNesting <
      Parser.maxDepth := lt_of_lt_of_le (Nat.lt_succ_self _) ((le_max_left _ _).trans hnesting)
  have hchecked : ∃ P, CheckedHead P aliases (checkSnippet (settingIn aliases chain synapses)
      [.forLoop span (some (.declare s type names)) test step body]).types
      (reach [] {name | BoundIn chain.scopes name}) s type names test step := by
    generalize sentence scan.tokens = tokens at hderives hformed
    cases hderives with
    | declaration h => cases h
    | statement hstatement _ =>
        cases hscoped with
        | statement hloop _ =>
            exact ⟨_, checkedHead_of_loop hstatement
              (fun t ht => hformed t (List.mem_append_left _ ht)) hinner htyped hloop⟩
  obtain ⟨P, hchecked⟩ := hchecked
  obtain ⟨⟨head, known⟩, c', hrun, ⟨again, hreads, hnames⟩, -⟩ :=
    printHead_reads_again haliases hlocals hchecked hlegible chain hprints
  refine ⟨head, known, c', hrun, again, hreads, hnames, ?_⟩
  rw [hnames, ← headMarks_keep_iff aliases type, headNames, List.map_map]
  rfl

-- The third name is declared as a pointer that is `const`. What is printed for it declares `const_c`
-- as one that is not.
example : (do
    let scan ← (Scan.ofSource [] "for(float a = x, *b, * const c = &a; ; ) ;").toOption
    let .forLoop _ init test step _ :: _ := (parseItems scan.tokens).1 | none
    let checked := checkSnippet (settingIn [] verbatimChain none) (parseItems scan.tokens).1
    let (head, _) ← ((printHead checked.types [] init test step).runOn verbatimChain).1.toOption
    return (checked.report, head)) =
    some ([], "for(float _a = x, *_b, * const_c = &_a; ; )") := by
  decide +kernel

end KernelWeaver
