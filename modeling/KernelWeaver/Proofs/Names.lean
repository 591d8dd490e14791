import KernelWeaver.Proofs.Overloading
import KernelWeaver.Proofs.Printing.Occurrences

/-!
# What names are taken for

A name in a snippet is given a type by the checker and a code by the printer. The checker has scopes
in which the names of a loop over synapses are declared, while the printer has a list of the names
that the snippet has declared. So they take a name for the same thing, unless the loop binds it and
the snippet has declared it in front of the loop: then the checker takes it for what the loop binds
it to, and the printer for the declared name.
-/

namespace KernelWeaver

open Code Code.Emit Snippet Typing Printing

/-- The name has the type of one of the bindings that it has in the scopes. -/
structure TypedBy (types : NodeTypes) (scopes : List Scope) (o : Occurrence) (b : Binding) :
    Prop where
  bound : ∃ bs, BoundTo scopes o.name bs ∧ b ∈ bs
  noted : types.find? o.node.id = some b.type

/-- What the checker has taken a name for, by its type, and what the printer has taken it for, by
its text. -/
inductive Taken (types : NodeTypes) (scopes : List Scope) (locals : List String) (o : Occurrence)
    (text : String) : Meaning → Prop where
  /-- For a declared name. -/
  | declared {id : NodeId} {t : CType} : types.find? id = some t →
      types.find? o.node.id = some t → o.name ∈ locals → text = localName o.name →
      Taken types scopes locals o text (.declared id)
  /-- For what the loop binds the name to. -/
  | looped {b : Binding} : TypedBy types scopes o b → o.name ∉ locals →
      HasGiven scopes (codeOf o.name b) text → Taken types scopes locals o text .looped
  /-- The checker has taken it for what the loop binds the name to, and the printer for a name that
  is declared in front of the loop. -/
  | hidden {b : Binding} : TypedBy types scopes o b → o.name ∈ locals → text = localName o.name →
      Taken types scopes locals o text .looped
  /-- For what the name is bound to outside of the snippet. -/
  | outer {b : Binding} : TypedBy types scopes o b → o.name ∉ locals →
      HasGiven scopes (codeOf o.name b) text → Taken types scopes locals o text .outer

variable {aliases : Aliases} {types : NodeTypes} {scopes : List Scope} {locals : List String}
  {o : Occurrence} {text name : String} {loop : Option RowLoop} {v : View} {c : Chain}
  {id : NodeId}

/-! ### Printing -/

theorem text_of_local (hlocal : o.name ∈ locals)
    (h : HasGiven scopes (printOccurrence types locals o) text) : text = localName o.name := by
  have hprint (wanted : Option CType) :
      printName locals o.name wanted = pure (localName o.name) := by
    rw [printName, if_pos (by simpa using hlocal)]
  refine h.of_ensures (P := fun text => text = localName o.name) ?_
  rw [printOccurrence]
  split
  next =>
    rw [hprint]
    exact .pure rfl
  next =>
    refine .next (typeOf_ensures _) fun t => ?_
    rw [hprint]
    exact .pure rfl

/-- If the name leads to the binding wherever it is printed, its code is that of the binding. -/
theorem code_of_binding {wanted : Option CType} {b : Binding} (hlocal : name ∉ locals)
    (hbinding : ∀ c : Chain, Evolves scopes c.scopes →
      c.binding? name wanted = some b)
    (h : HasGiven scopes (printName locals name wanted) text) :
    HasGiven scopes (codeOf name b) text := by
  obtain ⟨c, c', hc, hrun⟩ := h
  refine ⟨c, c', hc, ?_⟩
  rw [← runOn_resolve_eq (hbinding c hc), ← hrun, printName, if_neg (by simpa using hlocal)]

/-- A name that is typed by what it is bound to in scopes has the type of one of its bindings, and
wherever it is printed on these scopes it gets the code of this binding. -/
theorem exists_typedBy {sink : CodeStream}
    (h : OccurrenceTyped aliases (Chain.typesOf ⟨scopes, sink⟩) types o) :
    ∃ b, TypedBy types scopes o b ∧ ∀ {locals text}, o.name ∉ locals →
      HasGiven scopes (printOccurrence types locals o) text →
        HasGiven scopes (codeOf o.name b) text := by
  obtain ⟨node, name, args⟩ := o
  cases args with
  | none =>
      obtain ⟨t, htypes, hnoted⟩ := h
      obtain ⟨bs, hbound, hbs⟩ := BoundTo.of_typesOf htypes
      obtain ⟨b, rfl, rfl⟩ := List.map_eq_singleton_iff.mp hbs.symm
      refine ⟨b, ⟨⟨[b], hbound, List.mem_cons_self⟩, hnoted⟩, fun hlocal hgiven => ?_⟩
      exact code_of_binding hlocal
        (fun c hc => binding?_of_single (hbound.evolves hc.scopes)) hgiven
  | some args =>
      obtain ⟨choices, ts, chosen, hchoices, -, hchosen, hnoted⟩ := h
      obtain ⟨bs, hbound, rfl⟩ := BoundTo.of_typesOf hchoices
      rw [chooseCall?_map] at hchosen
      obtain ⟨b, hb, rfl⟩ := Option.map_eq_some_iff.mp hchosen
      obtain ⟨front, back, most, rfl, hbest⟩ := isBest_of_chooseCall? hb
      refine ⟨b, ⟨⟨_, hbound, by simp⟩, hnoted⟩, fun {locals text} hlocal hgiven => ?_⟩
      have hprint : printOccurrence types locals ⟨node, name, some args⟩ =
          printName locals name (some b.type) := by
        rw [printOccurrence, Printing.calleeName, typeOf, hnoted]
        rfl
      rw [hprint] at hgiven
      exact code_of_binding hlocal
        (fun c hc => binding?_of_isBest (hbound.evolves hc.scopes) hbest) hgiven

/-! ### Checking -/

/-- A loop binds its names to single bindings with the types that the checker gives them. -/
theorem typesIn_scope (l : RowLoop) (name : String) :
    (l.scope.bindings.find? name).map (·.map Binding.type) =
      (Table.find? l.names name).map fun t => [t] := by
  have hmap {α β : Type} (f : α → β) (t : Table α) :
      Table.find? (t.map fun entry => (entry.1, f entry.2)) name = (t.find? name).map f := by
    induction t with
    | nil => rfl
    | cons entry rest ih =>
        obtain ⟨key, a⟩ := entry
        rw [List.map_cons, Table.find?, Table.find?]
        split
        next => rfl
        next => exact ih
  rw [← hmap, ← hmap, RowLoop.scope, RowLoop.names, RowLoop.moreBindings, List.map_append,
    List.map_append, List.map_map, List.map_map]
  rfl

theorem typesOf_cons (s : Scope) (scopes : List Scope) (sink : CodeStream) (name : String) :
    Chain.typesOf ⟨s :: scopes, sink⟩ name =
      ((s.bindings.find? name).map (·.map Binding.type)).or
        (Chain.typesOf ⟨scopes, sink⟩ name) := by
  rw [Chain.typesOf, List.findSome?_cons]
  cases (s.bindings.find? name).map (·.map Binding.type) <;> rfl

/-- A name that stands for no declaration has the types that it has in the scopes in which the
expression is printed. -/
theorem typesAt_eq_typesOf
    (h : ∀ id, (settingIn aliases c (loop.map RowLoop.names)).meaning v name ≠ .declared id) :
    (settingIn aliases c (loop.map RowLoop.names)).typesAt types v name =
      Chain.typesOf ⟨scopesAt v.context loop c.scopes, c.sink⟩ name := by
  rw [Setting.typesAt_eq_or h, scopesAt, Setting.rowNames, settingIn]
  split
  next hinLoop =>
    cases loop with
    | none => rfl
    | some l =>
        refine Eq.trans ?_ (typesOf_cons l.scope c.scopes c.sink name).symm
        rw [typesIn_scope]
        rfl
  next => rfl

/-- A name that stands for a declaration has its type. -/
theorem noted_of_declared (setting : Setting)
    (h : OccurrenceTyped setting.aliases (setting.typesAt types v) types o)
    (hmeaning : setting.meaning v o.name = .declared id) :
    ∃ t, types.find? id = some t ∧ types.find? o.node.id = some t := by
  have htypes : ∀ ts, setting.typesAt types v o.name = some ts →
      ∃ t, types.find? id = some t ∧ [t] = ts := by
    intro ts hts
    rw [Setting.typesAt, hmeaning] at hts
    exact Option.map_eq_some_iff.mp hts
  obtain ⟨node, name, args⟩ := o
  cases args with
  | none =>
      obtain ⟨t, ht, hnoted⟩ := h
      obtain ⟨u, hu, hsame⟩ := htypes _ ht
      cases hsame
      exact ⟨t, hu, hnoted⟩
  | some args =>
      obtain ⟨choices, ts, chosen, hchoices, -, hchosen, hnoted⟩ := h
      obtain ⟨u, hu, rfl⟩ := htypes _ hchoices
      have hsame : chosen = u := List.mem_singleton.mp (of_chooseCall? hchosen).1
      exact ⟨u, hu, hsame ▸ hnoted⟩

/-! ### Both -/

/-- Whatever a name stands for, the checker has taken it for that. The printer has as well, unless a
loop hides the name. -/
theorem taken_of_given
    (h : OccurrenceTyped aliases
      ((settingIn aliases c (loop.map RowLoop.names)).typesAt types v) types o)
    (hgiven : HasGiven (scopesAt v.context loop c.scopes)
      (printOccurrence types v.context.declared o) text) :
    Taken types (scopesAt v.context loop c.scopes) v.context.declared o text
      ((settingIn aliases c (loop.map RowLoop.names)).meaning v o.name) := by
  have hbinding : (∀ id, (settingIn aliases c (loop.map RowLoop.names)).meaning v o.name ≠
      .declared id) → ∃ b, TypedBy types (scopesAt v.context loop c.scopes) o b ∧
        (o.name ∉ v.context.declared →
          HasGiven (scopesAt v.context loop c.scopes) (codeOf o.name b) text) := by
    intro hmeaning
    have htypes : (settingIn aliases c (loop.map RowLoop.names)).typesAt types v o.name =
        Chain.typesOf ⟨scopesAt v.context loop c.scopes, c.sink⟩ o.name :=
      typesAt_eq_typesOf hmeaning
    have htyped : OccurrenceTyped aliases
        (Chain.typesOf ⟨scopesAt v.context loop c.scopes, c.sink⟩) types o := by
      obtain ⟨node, name, args⟩ := o
      cases args with
      | none =>
          obtain ⟨t, ht, hnoted⟩ := h
          exact ⟨t, htypes.symm.trans ht, hnoted⟩
      | some args =>
          obtain ⟨choices, ts, chosen, hchoices, hrest⟩ := h
          exact ⟨choices, ts, chosen, htypes.symm.trans hchoices, hrest⟩
    obtain ⟨b, hb, hcode⟩ := exists_typedBy htyped
    exact ⟨b, hb, fun hlocal => hcode hlocal hgiven⟩
  cases hmeaning : (settingIn aliases c (loop.map RowLoop.names)).meaning v o.name with
  | declared id =>
      obtain ⟨t, ht, hnoted⟩ :=
        noted_of_declared (settingIn aliases c (loop.map RowLoop.names)) h hmeaning
      have hlocal := View.mem_declared_of_meaning hmeaning
      exact .declared ht hnoted hlocal (text_of_local hlocal hgiven)
  | looped =>
      obtain ⟨b, hb, hcode⟩ := hbinding fun id heq => by rw [hmeaning] at heq; cases heq
      by_cases hlocal : o.name ∈ v.context.declared
      · exact .hidden hb hlocal (text_of_local hlocal hgiven)
      · exact .looped hb hlocal (hcode hlocal)
  | outer =>
      obtain ⟨b, hb, hcode⟩ := hbinding fun id heq => by rw [hmeaning] at heq; cases heq
      have hlocal := (View.meaning_eq_outer_iff.mp hmeaning).1
      exact .outer hb hlocal (hcode hlocal)

/-- A name of which no declaration is hidden is printed as a local exactly if the checker has taken
it for a declared name. -/
theorem Taken.local_iff {meaning : Meaning} (h : Taken types scopes locals o text meaning)
    (hvisible : meaning = .looped → o.name ∉ locals) :
    o.name ∈ locals ↔ ∃ id, meaning = .declared id := by
  cases h with
  | declared _ _ hlocal _ => exact ⟨fun _ => ⟨_, rfl⟩, fun _ => hlocal⟩
  | hidden _ hlocal _ => exact absurd hlocal (hvisible rfl)
  | looped _ hlocal _ | outer _ hlocal _ => exact ⟨fun h => absurd h hlocal, nofun⟩

variable (loop) in
/-- A snippet is read and checked without a remark, and printed. Then each of its expressions has
been printed by putting texts in the places of its names, and the checker and the printer have taken
each name for what it stands for there; but where a loop binds a name that the snippet has declared
in front of the loop, the checker has taken it for what the loop binds it to, and the printer for
the declared name. -/
theorem names_taken_alike_unless_hidden {source : String} {ss : List Stmt} {known : List String}
    {c' : Chain} (hread : ReadsItems aliases source ss)
    (hclean : (checkSnippet (settingIn aliases c (loop.map RowLoop.names)) ss).report = [])
    (hrun : (printStmts (checkSnippet (settingIn aliases c (loop.map RowLoop.names)) ss).types loop
      [] ss).runOn c = (.ok known, c')) :
    let setting := settingIn aliases c (loop.map RowLoop.names)
    let types := (checkSnippet setting ss).types
    ∀ v e, (v, e) ∈ Stmt.viewsOfItems [] ss → ∃ texts,
      HasGiven (scopesAt v.context loop c.scopes) (printExpr types v.context.declared e)
        (fill types e texts) ∧
      List.Forall₂ (fun o text => Taken types (scopesAt v.context loop c.scopes)
        v.context.declared o text (setting.meaning v o.name)) e.occurrences texts := by
  intro setting types v e hview
  obtain ⟨ts, hderives⟩ := hread.derives
  obtain ⟨scan, -, -, hparse⟩ := hread.read
  have hnodup : (Stmt.nodesOfItems ss).Nodup := by
    have hparsed := nodup_parseItems scan.tokens
    rwa [hparse] at hparsed
  have htyped := checkSnippet_views hderives hnodup hclean v e hview
  have hprinted : PrintedPhrase (fun inLoop => scopesAt ⟨[], inLoop⟩ loop c.scopes) types
      (.items ss) := printedPhrase hderives
  have hviews := (hprinted [] loop (fun l hl => by rw [hl]; rfl) c known c'
    (.refl _) hrun).2
  obtain ⟨text, hgiven⟩ := hviews v e hview
  obtain ⟨texts, hos, rfl⟩ := hgiven.of_ensures (printExpr_ensures e)
  refine ⟨texts, hgiven, List.forall₂_iff_get.mpr ⟨hos.length_eq, fun i hi hi' => ?_⟩⟩
  exact taken_of_given (htyped _ (List.get_mem _ _)) (List.Forall₂.get hos hi hi')

/-- A snippet that declares a name and then uses it in front of a loop that binds it and inside. -/
theorem names_taken_alike_unless_hidden_rowUpdate :
    ∃ ss, ReadsItems [] "int id_post = 1; int n = id_post; for_each_synapse \x7b n += id_post; \x7d"
        ss ∧
      let setting := settingIn [] rowUpdateChain (some rowUpdateLoop.names)
      let types := (checkSnippet setting ss).types
      (checkSnippet setting ss).report = [] ∧
      ∃ v e texts, (v, e) ∈ Stmt.viewsOfItems [] ss ∧
        List.Forall₂ (fun o text => Taken types (scopesAt v.context (some rowUpdateLoop)
          rowUpdateChain.scopes) v.context.declared o text (setting.meaning v o.name))
          e.occurrences texts ∧
        ∃ o ∈ e.occurrences, setting.meaning v o.name = .looped ∧ o.name ∈ v.context.declared := by
  have hwf : WellFormed rowUpdateChain.scopes := wellFormed_rowUpdateScopes.tail
  have hfits : rowUpdateLoop.FitsIn rowUpdateChain.scopes :=
    ⟨by decide +kernel, wellFormed_rowUpdateScopes⟩
  obtain ⟨scan, hscan, hreport, hparse, hclean, ⟨v, e⟩, hview, o, ho, hlooped, hlocal⟩ :=
    exists_ok_of_decide
    (x := Scan.ofSource []
      "int id_post = 1; int n = id_post; for_each_synapse \x7b n += id_post; \x7d")
    (P := fun scan => scan.report = [] ∧ (parseItems scan.tokens).2 = [] ∧
      (checkSnippet (settingIn [] rowUpdateChain (some rowUpdateLoop.names))
        (parseItems scan.tokens).1).report = [] ∧
      ∃ view ∈ Stmt.viewsOfItems [] (parseItems scan.tokens).1, ∃ o ∈ view.2.occurrences,
        (settingIn [] rowUpdateChain (some rowUpdateLoop.names)).meaning view.1 o.name = .looped ∧
        o.name ∈ view.1.context.declared) (by decide +kernel)
  have hitems : ReadsItems []
      "int id_post = 1; int n = id_post; for_each_synapse \x7b n += id_post; \x7d"
      (parseItems scan.tokens).1 := ⟨scan, hscan, hreport, by rw [← hparse]⟩
  obtain ⟨known, c', hrun⟩ :=
    (hitems.prints hwf (fun _ => ⟨rowUpdateLoop, rfl, rfl, hfits⟩) hclean).2
  obtain ⟨texts, -, htaken⟩ := names_taken_alike_unless_hidden (some rowUpdateLoop) hitems hclean
    hrun v e hview
  exact ⟨_, hitems, hclean, v, e, texts, hview, htaken, o, ho, hlooped, hlocal⟩

end KernelWeaver
