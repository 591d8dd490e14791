import KernelWeaver.Proofs.Code.Reached

/-!
# The fields of a struct

Over a struct names are bound and looked up, fields are registered, and other scopes are opened
inside. What this leads to follows from the bindings alone. The struct then has the fields of the
bindings that have been resolved and those that have been registered directly, each name once, in
order of their first use.
-/

namespace KernelWeaver.Code

open StructFields

/-- What is done with a scope and the scopes inside it. -/
inductive Session where
  | done
  | act (a : Act) (rest : Session)
  | register (field : StructField) (rest : Session)
  | inside (fields : Option StructFields) (child rest : Session)

/-- Does it all in the innermost scope. -/
def Session.run : Session → Emit Unit
  | done => pure ()
  | act a rest => do
    a.run
    rest.run
  | register field rest => do
    Emit.registerField field
    rest.run
  | inside fields child rest => do
    Emit.within fields child.run
    rest.run

/-- What an act looks up. -/
def Act.items (scopes : List Scope) : Act → List Item
  | lookUp name wanted => [.name scopes name wanted]
  | expand template | expandLine template => (Template.ofString template).items scopes
  | _ => []

/-- The scope with what an act binds there or adds to its initialisers. -/
def Act.declare (s : Scope) : Act → Scope
  | bind name b =>
    match s.bind name b with
    | .ok t => t
    | .error _ => s
  | overload name type template => s.overload name (.ofText type template)
  | initialiser template =>
    { s with initialisers := s.initialisers ++ [⟨Template.ofString template, .unused⟩] }
  | _ => s

/-- What is done with the innermost scope leads to events. A scope inside is forgotten with the
initialisers that have been begun there. -/
inductive Does : List Scope → (begun : Set (Nat × Nat)) → Session → List Event →
    (begun' : Set (Nat × Nat)) → Prop where
  | done {scopes : List Scope} {begun : Set (Nat × Nat)} : Does scopes begun .done [] begun
  | act {s : Scope} {outer : List Scope} {begun mid begun' : Set (Nat × Nat)} {a : Act}
      {rest : Session} {es es' : List Event} :
      Leads begun (a.items (s :: outer)) es mid → Does (a.declare s :: outer) mid rest es' begun' →
      Does (s :: outer) begun (.act a rest) (es ++ es') begun'
  | register {scopes : List Scope} {begun begun' : Set (Nat × Nat)} {field : StructField}
      {rest : Session} {es : List Event} :
      Does scopes begun rest es begun' →
      Does scopes begun (.register field rest) (.registered scopes field :: es) begun'
  | inside {scopes : List Scope} {begun mid begun' : Set (Nat × Nat)}
      {fields : Option StructFields} {child rest : Session} {es es' : List Event} :
      Does (.empty fields :: scopes) begun child es mid →
      Does scopes (mid ∩ {p | p.1 < scopes.length}) rest es' begun' →
      Does scopes begun (.inside fields child rest) (es ++ es') begun'

variable {scopes outer outer' : List Scope} {begun begun' begun'' : Set (Nat × Nat)}
  {es es' : List Event} {s t : Scope} {c c' : Chain} {sink : CodeStream} {session : Session}
  {level : Nat}

/-- What is done leads to one sequence of events only. -/
theorem Does.unique (h : Does scopes begun session es begun')
    (h' : Does scopes begun session es' begun'') : es = es' ∧ begun' = begun'' := by
  induction h generalizing es' begun'' with
  | done =>
      cases h'
      exact ⟨rfl, rfl⟩
  | act hleads _ ih =>
      cases h' with
      | act hleads' hrest =>
          obtain ⟨rfl, rfl⟩ := hleads.unique hleads'
          obtain ⟨rfl, rfl⟩ := ih hrest
          exact ⟨rfl, rfl⟩
  | register _ ih =>
      cases h' with
      | register hrest =>
          obtain ⟨rfl, rfl⟩ := ih hrest
          exact ⟨rfl, rfl⟩
  | inside _ _ ihchild ih =>
      cases h' with
      | inside hchild hrest =>
          obtain ⟨rfl, rfl⟩ := ihchild hchild
          obtain ⟨rfl, rfl⟩ := ih hrest
          exact ⟨rfl, rfl⟩

/-! ### One act -/

namespace Act

theorem declare_evolves (h : s.Evolves t) (a : Act) : (a.declare s).Evolves (a.declare t) := by
  cases a with
  | bind name b =>
      rw [declare, declare, Scope.bind, Scope.bind, h.binds]
      cases s.binds name with
      | true => exact h
      | false =>
          exact ⟨congrArg (Table.insert · name [b]) h.bindings, h.templates, h.unused, h.fields⟩
  | overload name type template =>
      refine ⟨?_, h.templates, h.unused, h.fields⟩
      rw [declare, declare, Scope.overload, Scope.overload, h.bindings]
  | initialiser template =>
      refine ⟨h.bindings, ?_, ?_, h.fields⟩
      · rw [declare, declare, List.map_append, List.map_append, h.templates]
      · rw [declare, declare, Scope.unused, Scope.unused, List.countP_append, List.countP_append]
        exact Nat.add_le_add_right h.unused _
  | _ => exact h

theorem declare_started (s : Scope) (a : Act) : (a.declare s).started = s.started := by
  cases a with
  | bind name b =>
      rw [declare, Scope.bind]
      cases s.binds name with
      | true => rfl
      | false => exact Scope.started_congr rfl
  | overload name type template => exact Scope.started_congr rfl
  | initialiser template => exact Scope.started_append rfl
  | _ => rfl

theorem declare_fields (s : Scope) (a : Act) : (a.declare s).fields = s.fields := by
  cases a with
  | bind name b =>
      rw [declare, Scope.bind]
      cases s.binds name <;> rfl
  | _ => rfl

/-- The outcome of an act: the events that it leads to have been seen to, and the scopes are those
that it leaves. -/
structure Leaves (a : Act) (s : Scope) (outer : List Scope) (c : Chain) (es : List Event)
    (c' : Chain) : Prop where
  leads : Leads (begunIn c.scopes) (a.items (s :: outer)) es (begunIn c'.scopes)
  registers : c.Registers es c'
  evolves : List.Forall₂ Scope.Evolves (a.declare s :: outer) c'.scopes

/-- An act that looks up, and declares nothing. -/
theorem leaves_of_traverses {a : Act} (hscopes : List.Forall₂ Scope.Evolves (s :: outer) c.scopes)
    (hdeclare : a.declare s = s) (h : c.Traverses (a.items (s :: outer)) es c') :
    a.Leaves s outer c es c' where
  leads := h.leads_here
  registers := h.registers
  evolves := by
    rw [hdeclare]
    exact forall₂_trans (fun _ _ _ => .trans) hscopes h.evolves

/-- An act that declares, and looks up nothing. -/
theorem leaves_of_declare {a : Act}
    (hscopes : List.Forall₂ Scope.Evolves (s :: outer) (t :: outer'))
    (hitems : a.items (s :: outer) = []) :
    a.Leaves s outer ⟨t :: outer', sink⟩ [] ⟨a.declare t :: outer', sink⟩ where
  leads := by
    have hbegun : begunIn (a.declare t :: outer') = begunIn (t :: outer') :=
      begunIn_congr (.cons (declare_started t a) (List.forall₂_same.mpr fun _ _ => rfl))
    dsimp only
    rw [hitems, hbegun]
    exact .done
  registers := registers_nil (.cons (declare_fields t a) (List.forall₂_same.mpr fun _ _ => rfl))
  evolves := by
    cases hscopes with
    | cons hs houter => exact .cons (declare_evolves hs a) houter

theorem changesText_modifyStream (c : Chain) (f : CodeStream → CodeStream) :
    List.Forall₂ Scope.ChangesText c.scopes (c.modifyStream f).scopes := by
  obtain ⟨scopes, sink⟩ := c
  have hkeeps (outer : List Scope) : List.Forall₂ Scope.ChangesText outer outer :=
    List.forall₂_same.mpr fun u _ => ⟨.refl u, rfl, rfl⟩
  cases scopes with
  | nil => exact .nil
  | cons t outer =>
      exact .cons ⟨⟨rfl, rfl, le_rfl, rfl⟩, Scope.started_congr rfl, rfl⟩ (hkeeps outer)

theorem looksUp_write (f : CodeStream → CodeStream) : Emit.LooksUp (Emit.write f) fun _ => [] := by
  intro scopes c u c' _ h
  cases h
  exact ⟨[], .of_text (changesText_modifyStream c f)⟩

/-- What an act does follows from what is bound. -/
theorem exists_leaves (a : Act) {u : Unit}
    (hscopes : List.Forall₂ Scope.Evolves (s :: outer) c.scopes)
    (h : a.run.runOn c = (.ok u, c')) : ∃ es, a.Leaves s outer c es c' := by
  obtain ⟨actual, sink⟩ := c
  obtain ⟨t, outer', hs, houter, rfl⟩ := List.forall₂_cons_left_iff.mp hscopes
  have hlookup {items : List Scope → List Item} {m : Emit Unit} (hm : Emit.LooksUp m items)
      (hrun : a.run = m) (hitems : a.items (s :: outer) = items (s :: outer))
      (hdeclare : a.declare s = s) : ∃ es, a.Leaves s outer ⟨t :: outer', sink⟩ es c' := by
    rw [hrun] at h
    obtain ⟨es, hes⟩ := hm (s :: outer) _ u c' hscopes h
    exact ⟨es, leaves_of_traverses hscopes hdeclare (hitems ▸ hes)⟩
  cases a with
  | bind name b =>
      have hrun : c' = ⟨(Act.bind name b).declare t :: outer', sink⟩ := by
        have hstate := (congrArg Prod.snd h).symm
        dsimp only at hstate
        rw [hstate]
        change ((Emit.changeScope (·.bind name b)).runOn ⟨t :: outer', sink⟩).2 = _
        rw [Emit.runOn_changeScope, declare]
        cases t.bind name b <;> rfl
      rw [hrun]
      exact ⟨[], leaves_of_declare hscopes rfl⟩
  | overload name type template =>
      cases h
      exact ⟨[], leaves_of_declare hscopes rfl⟩
  | initialiser template =>
      cases h
      exact ⟨[], leaves_of_declare hscopes rfl⟩
  | lookUp name wanted => exact hlookup ((Emit.looksUp_resolve name wanted).bind_pure _) rfl rfl rfl
  | expand template => exact hlookup ((Emit.looksUp_expandText template).bind_pure _) rfl rfl rfl
  | expandLine template =>
      have hline := (Emit.looksUp_expandText template).bind fun text =>
        looksUp_write (·.line text)
      exact hlookup hline rfl (List.append_nil _).symm rfl
  | line text => exact hlookup (looksUp_write _) rfl rfl rfl
  | blank => exact hlookup (looksUp_write _) rfl rfl rfl
  | append block => exact hlookup (looksUp_write _) rfl rfl rfl

end Act

/-! ### A whole session -/

theorem structAt_of_lt (h : level < outer.length) (s : Scope) :
    structAt (s :: outer) level = structAt outer level := by
  have happend := scopeAt_append h [s]
  rw [List.singleton_append] at happend
  rw [structAt, happend, structAt]

theorem structAt_lt {fields : StructFields} (h : structAt scopes level = some fields) :
    level < scopes.length := by
  obtain ⟨s, hs, -⟩ := Option.bind_eq_some_iff.mp h
  exact lt_of_scopeAt hs

/-- When a scope is closed, what has been begun in it is forgotten. -/
theorem begunIn_pop (c : Chain) :
    begunIn c.pop.scopes = begunIn c.scopes ∩ {p | p.1 < c.scopes.length - 1} := by
  obtain ⟨scopes, sink⟩ := c
  cases scopes with
  | nil => simp [Chain.pop, begunIn, scopeAt]
  | cons s outer =>
      have hflush := Act.changesText_modifyStream ⟨outer, sink⟩ s.flushInto
      have hpop : begunIn (Chain.pop ⟨s :: outer, sink⟩).scopes = begunIn outer :=
        begunIn_congr (hflush.imp fun _ _ => Scope.ChangesText.started)
      rw [hpop]
      ext p
      by_cases hp : p.1 < outer.length
      · have happend := scopeAt_append hp [s]
        rw [List.singleton_append] at happend
        simp [begunIn, happend, hp]
      · have hnone : p ∉ begunIn outer := by
          rintro ⟨t, ht, -⟩
          exact hp (lt_of_scopeAt ht)
        simp [hnone, hp]

/-- In a new scope nothing has been begun. -/
theorem begunIn_push (c : Chain) (fields : Option StructFields) :
    begunIn (c.push (.empty fields)).scopes = begunIn c.scopes := by
  ext p
  rw [Chain.scopes_push]
  by_cases hp : p.1 = c.scopes.length
  · have hnone : p ∉ begunIn c.scopes := by
      rintro ⟨t, ht, -⟩
      exact Nat.ne_of_lt (lt_of_scopeAt ht) hp
    refine iff_of_false ?_ hnone
    rintro ⟨t, ht, hi⟩
    rw [scopeAt, if_pos hp] at ht
    cases ht
    rw [Scope.started_empty] at hi
    exact Set.notMem_empty _ hi
  · simp [begunIn, scopeAt, hp]

/-- Closing a scope leaves the structs around it as they are. -/
theorem Chain.Registers.pop {fields : Option StructFields}
    (h : (c.push (.empty fields)).Registers es c')
    (hlength : c'.scopes.length = c.scopes.length + 1) : c.Registers es c'.pop := by
  intro level before hbefore
  have hlevel := structAt_lt hbefore
  rw [← structAt_of_lt hlevel (.empty fields)] at hbefore
  obtain ⟨after, hafter, hregistered⟩ := h level before hbefore
  obtain ⟨scopes, sink⟩ := c'
  obtain ⟨t, outer, rfl⟩ := List.exists_cons_of_length_eq_add_one hlength
  rw [structAt_of_lt (Nat.succ.inj hlength ▸ hlevel)] at hafter
  have hflush : Chain.Registers ⟨outer, sink⟩ [] (Chain.pop ⟨t :: outer, sink⟩) :=
    registers_nil ((Act.changesText_modifyStream ⟨outer, sink⟩ t.flushInto).imp
      fun _ _ => Scope.ChangesText.same)
  obtain ⟨last, hlast, hnothing⟩ := hflush level after hafter
  cases hnothing
  exact ⟨after, hlast, hregistered⟩

/-- The outcome of a session: the events that it leads to have been seen to, and the scopes around
are those that were there. -/
structure Session.Leaves (session : Session) (scopes : List Scope) (c : Chain) (es : List Event)
    (c' : Chain) : Prop where
  does : Does scopes (begunIn c.scopes) session es (begunIn c'.scopes)
  registers : c.Registers es c'
  around : ∃ t outer', c'.scopes = t :: outer' ∧ List.Forall₂ Scope.Evolves scopes.tail outer'

/-- What a session does follows from what is bound at its start and on its way. -/
theorem Session.exists_leaves (session : Session) {u : Unit}
    (hscopes : List.Forall₂ Scope.Evolves (s :: outer) c.scopes)
    (h : session.run.runOn c = (.ok u, c')) : ∃ es, session.Leaves (s :: outer) c es c' := by
  induction session generalizing s outer c c' u with
  | done =>
      cases h
      obtain ⟨t, outer', -, houter, hc⟩ := List.forall₂_cons_left_iff.mp hscopes
      exact ⟨[], .done, registers_nil (List.forall₂_same.mpr fun _ _ => rfl), t, outer', hc, houter⟩
  | act a rest ih =>
      obtain ⟨_, c₁, hact, hrest⟩ := Emit.runOn_bind_eq_ok.mp h
      obtain ⟨es, hes⟩ := a.exists_leaves hscopes hact
      obtain ⟨es', hes'⟩ := ih hes.evolves hrest
      exact ⟨es ++ es', .act hes.leads hes'.does, hes.registers.trans hes'.registers, hes'.around⟩
  | register field rest ih =>
      obtain ⟨_, c₁, hregister, hrest⟩ := Emit.runOn_bind_eq_ok.mp h
      have hadds := Emit.adds_registerField hscopes hregister
      obtain ⟨es, hes⟩ := ih (forall₂_trans (fun _ _ _ => .trans) hscopes hadds.evolves) hrest
      exact ⟨_ :: es, .register (hadds.begun ▸ hes.does), hadds.registers.trans hes.registers,
        hes.around⟩
  | inside fields child rest ihchild ihrest =>
      obtain ⟨_, c₁, hwithin, hrest⟩ := Emit.runOn_bind_eq_ok.mp h
      obtain ⟨c₂, hchild, rfl⟩ := Emit.exists_of_within hwithin
      obtain ⟨es, hes⟩ := ihchild (.cons (.refl (.empty fields)) hscopes) hchild
      obtain ⟨t, outer', hc₂, houter⟩ := hes.around
      have hlength : outer'.length = c.scopes.length := by
        rw [← houter.length_eq, ← hscopes.length_eq]
        rfl
      have hlength₂ : c₂.scopes.length = c.scopes.length + 1 := by
        rw [hc₂, List.length_cons, hlength]
      -- the scopes around go on from where the scope inside has left them
      have hpop : List.Forall₂ Scope.Evolves (s :: outer) c₂.pop.scopes := by
        obtain ⟨scopes₂, sink₂⟩ := c₂
        dsimp only at hc₂
        subst hc₂
        have hflush := Act.changesText_modifyStream ⟨outer', sink₂⟩ t.flushInto
        exact forall₂_trans (fun _ _ _ => .trans) houter
          (hflush.imp fun _ _ => Scope.ChangesText.toEvolves)
      obtain ⟨es', hes'⟩ := ihrest hpop hrest
      have hchild := hes.does
      rw [begunIn_push] at hchild
      have hdoes := hes'.does
      rw [begunIn_pop, hlength₂, Nat.add_sub_cancel, ← hscopes.length_eq] at hdoes
      exact ⟨es ++ es', .inside hchild hdoes, (hes.registers.pop hlength₂).trans hes'.registers,
        hes'.around⟩

/-! ### The fields -/

variable {old : List StructField} {fields fields' : StructFields}

theorem Emit.exists_of_inStruct {m : Emit Unit} {u : Unit}
    (h : (Emit.inStruct fields m).runOn c = (.ok (u, fields'), c')) :
    ∃ c₁, m.runOn (c.push (.empty (some fields))) = (.ok u, c₁) ∧
      fields' = (c₁.scopes.head?.bind Scope.fields).getD fields ∧ c' = c₁.pop := by
  obtain ⟨c₁, hinside, rfl⟩ := Emit.runOn_afterwards_eq_ok.mp h
  obtain ⟨_, c₂, hm, hget⟩ := Emit.runOn_bind_eq_ok.mp hinside
  cases hget
  exact ⟨c₁, hm, rfl, rfl⟩

theorem Emit.exists_run {α : Type} {m : Emit α} {P : α → Prop}
    (h : ∃ a, (m.runOn c).1 = .ok a ∧ P a) : ∃ a c', m.runOn c = (.ok a, c') ∧ P a := by
  obtain ⟨a, ha, hP⟩ := h
  generalize m.runOn c = result at ha ⊢
  obtain ⟨r, c'⟩ := result
  cases ha
  exact ⟨a, c', rfl, hP⟩

/-- The events that a session over a struct leads to register their fields with it. -/
theorem exists_registered (hold : registerAll [] old = .ok fields) {u : Unit}
    (h : (Emit.inStruct fields session.run).runOn c = (.ok (u, fields'), c')) :
    ∃ es begun, Does (.empty (some fields) :: c.scopes) (begunIn c.scopes) session es begun ∧
      registerAll [] (old ++ fieldsAt c.scopes.length es) = .ok fields' := by
  obtain ⟨c₁, hrun, hfields, -⟩ := Emit.exists_of_inStruct h
  obtain ⟨es, hes⟩ := session.exists_leaves (c := c.push (.empty (some fields)))
    (List.forall₂_same.mpr fun s _ => Scope.Evolves.refl s) hrun
  obtain ⟨t, outer', hc₁, houter⟩ := hes.around
  have hdoes := hes.does
  rw [begunIn_push] at hdoes
  have hopened : structAt (c.push (.empty (some fields))).scopes c.scopes.length = some fields := by
    rw [Chain.scopes_push, structAt, scopeAt, if_pos rfl]
    rfl
  obtain ⟨last, hlast, hregistered⟩ := hes.registers c.scopes.length fields hopened
  -- the struct is still that of the innermost scope
  have heq : fields' = last := by
    have hlength : outer'.length = c.scopes.length := houter.length_eq.symm
    rw [hc₁, structAt, ← hlength, scopeAt, if_pos rfl, Option.bind_some] at hlast
    rw [hfields, hc₁, List.head?_cons, Option.bind_some, hlast, Option.getD_some]
  refine ⟨es, _, hdoes, ?_⟩
  rw [registerAll_append, hold, heq]
  exact hregistered

/-- Whatever is done with a scope over a struct and the scopes inside it: the struct has the fields
that it had before, those of the bindings with a field that have been resolved and those that have
been registered directly, as far as no struct is nearer. Each name is there once, in the order in
which the names first came up, with the type that it had then. -/
theorem struct_has_fields_of_resolved_bindings (hold : registerAll [] old = .ok fields) {u : Unit}
    (h : (Emit.inStruct fields session.run).runOn c = (.ok (u, fields'), c')) :
    ∃ es begun, Does (.empty (some fields) :: c.scopes) (begunIn c.scopes) session es begun ∧
      (∀ es' begun', Does (.empty (some fields) :: c.scopes) (begunIn c.scopes) session es' begun' →
        es' = es) ∧
      fields' = firsts (old ++ fieldsAt c.scopes.length es) ∧
      (fields'.map StructField.name).Nodup ∧
      ∀ f, f ∈ fields' ↔ ∃ front back,
        old ++ fieldsAt c.scopes.length es = front ++ f :: back ∧
          f.name ∉ front.map StructField.name := by
  obtain ⟨es, begun, hdoes, hall⟩ := exists_registered hold h
  have hfirsts := eq_firsts_of_registerAll hall
  refine ⟨es, begun, hdoes, fun es' begun' hes' => (hes'.unique hdoes).1, hfirsts, ?_, fun f => ?_⟩
  · rw [hfirsts]
    exact nodup_names_firsts _
  · rw [hfirsts]
    exact mem_firsts_iff

/-- A field with a pointer for each member. -/
def StructField.ofPointer (name : String) : StructField :=
  ⟨name, .pointer (CType.num .float) false, fun i => .ok ("d_" ++ name ++ toString i)⟩

/-- The code of `x` reads `V` and depends on an initialiser that reads `tau`; nothing reads `U`. The
name is looked up from a scope inside, and again from there, where `n` is registered as well. -/
def readingSession : Session :=
  .act (.bind "V" { Binding.ofText .int "group->V" with field := some (.ofPointer "V") }) <|
  .act (.bind "U" { Binding.ofText .int "group->U" with field := some (.ofPointer "U") }) <|
  .act (.bind "t" { Binding.ofText .int "group->tau" with field := some (.ofPointer "tau") }) <|
  .act (.initialiser "const float k = $(t);") <|
  .act (.bind "x" { Binding.ofText .int "$(V) * k" with initialisers := [0] }) <|
  .inside none
    (.act (.expandLine "y = $(x);") <| .register (.ofPointer "n") <| .act (.lookUp "x" none) .done)
    .done

theorem struct_has_fields_of_resolved_bindings_reading :
    ∃ fields es begun,
      Does [.empty (some []), .empty none] (begunIn [.empty none]) readingSession es begun ∧
      fields = firsts (fieldsAt 1 es) ∧ fields.map StructField.name = ["tau", "V", "n"] := by
  obtain ⟨⟨u, fields⟩, c', hrun, hnames⟩ := Emit.exists_run (c := .before .empty)
    (m := Emit.inStruct [] readingSession.run) <| exists_ok_of_decide
    (P := fun p => p.2.map StructField.name = ["tau", "V", "n"]) (by decide +kernel)
  have hempty : registerAll [] [] = .ok [] := rfl
  obtain ⟨es, begun, hdoes, -, hfields, -⟩ := struct_has_fields_of_resolved_bindings hempty hrun
  exact ⟨fields, es, begun, hdoes, hfields, hnames⟩

/-- The name of a field that has been registered, directly or for a binding, leads to one field of
the struct, and that is the first one registered under the name. So the code of a binding reads the
values that the binding supplies if all that share its name supply the same ones. -/
theorem field_read_is_first_of_name (hold : registerAll [] old = .ok fields) {u : Unit}
    (h : (Emit.inStruct fields session.run).runOn c = (.ok (u, fields'), c')) :
    ∃ es begun, Does (.empty (some fields) :: c.scopes) (begunIn c.scopes) session es begun ∧
      let all := old ++ fieldsAt c.scopes.length es
      ∀ f ∈ all, ∃ g, (∀ k, k ∈ fields' ∧ k.name = f.name ↔ k = g) ∧
        g.type.sameKind f.type = true ∧
        (∃ front back, all = front ++ g :: back ∧ f.name ∉ front.map StructField.name) ∧
        ((∀ k ∈ all, k.name = f.name → k.value = f.value) → g.value = f.value) := by
  obtain ⟨es, begun, hdoes, hall⟩ := exists_registered hold h
  refine ⟨es, begun, hdoes, fun f hf => ?_⟩
  obtain ⟨g, hg, hname, hkind⟩ := exists_of_registerAll hall hf
  have hfirsts := eq_firsts_of_registerAll hall
  have hnodup : (fields'.map StructField.name).Nodup := hfirsts ▸ nodup_names_firsts _
  obtain ⟨front, back, hsplit, hfront⟩ := mem_firsts_iff.mp (hfirsts ▸ hg)
  refine ⟨g, fun k => ⟨?_, ?_⟩, hkind, ⟨front, back, hsplit, hname ▸ hfront⟩, fun hsame => ?_⟩
  · rintro ⟨hk, hkname⟩
    exact List.inj_on_of_nodup_map hnodup hk hg (hkname.trans hname.symm)
  · rintro rfl
    exact ⟨hg, hname⟩
  · exact hsame g (mem_of_mem_firsts (hfirsts ▸ hg)) hname

/-- Two bindings with fields of one name: the code of the second reads what the first supplies. -/
theorem second_binding_reads_first :
    let before := StructField.ofPointer "V"
    let behind : StructField := { before with value := fun i => .ok ("d_post" ++ toString i) }
    let session : Session :=
      .act (.bind "V" { Binding.ofText .int "group->V" with field := some before }) <|
      .act (.bind "W" { Binding.ofText .int "group->V" with field := some behind }) <|
      .act (.expandLine "x = $(V) + $(W);") .done
    ∃ fields c', (Emit.inStruct [] session.run).runOn (.before .empty) = (.ok ((), fields), c') ∧
      fields.map StructField.name = ["V"] ∧ fields.map (·.value 0) = [.ok "d_V0"] ∧
      behind.value 0 = .ok "d_post0" := by
  intro before behind session
  obtain ⟨⟨u, fields⟩, c', hrun, hnames, hvalue⟩ := Emit.exists_run (c := .before .empty)
    (m := Emit.inStruct [] session.run) <| exists_ok_of_decide
    (P := fun p => p.2.map StructField.name = ["V"] ∧ p.2.map (·.value 0) = [.ok "d_V0"])
    (by decide +kernel)
  exact ⟨fields, c', hrun, hnames, hvalue, rfl⟩

/-- A field can be registered without any binding. -/
theorem registered_field_has_no_binding :
    ∃ fields c', (Emit.inStruct [] (Session.register (.ofPointer "n") .done).run).runOn
        (.before .empty) = (.ok ((), fields), c') ∧
      fields.map StructField.name = ["n"] ∧
      ∀ es begun, Does [.empty (some []), .empty none] (begunIn [.empty none])
          (.register (.ofPointer "n") .done) es begun →
        ∀ scopes name b, .resolved scopes name b ∉ es := by
  obtain ⟨⟨u, fields⟩, c', hrun, hnames⟩ := Emit.exists_run (c := .before .empty)
    (m := Emit.inStruct [] (Session.register (.ofPointer "n") .done).run) <| exists_ok_of_decide
    (P := fun p => p.2.map StructField.name = ["n"]) (by decide +kernel)
  refine ⟨fields, c', hrun, hnames, fun es begun h scopes name b hmem => ?_⟩
  cases h with
  | register hrest =>
      cases hrest
      cases List.mem_singleton.mp hmem

end KernelWeaver.Code
