import KernelWeaver.Proofs.Code.Failures
import KernelWeaver.Proofs.Code.Registration

/-!
# What lookups reach

Looking a name up leads from binding to binding: to those of the names in its template, and to those
of the names in the initialisers that it depends on, unless these have been begun. The relation
`Leads` follows these paths through the bindings alone. Emitted code follows the same paths, and on
them registers the field of each binding with the nearest struct.
-/

namespace KernelWeaver.Code

open StructFields

/-- Something that is looked up from within scopes, the innermost first. -/
inductive Item where
  | name (scopes : List Scope) (name : String) (wanted : Option CType)
  /-- An initialiser of the innermost scope. -/
  | initialiser (scopes : List Scope) (i : Nat)

/-- Something that can add a field to a struct. -/
inductive Event where
  /-- A name is resolved by a binding of the innermost of the scopes. -/
  | resolved (scopes : List Scope) (name : String) (b : Binding)
  /-- A field is registered from within the scopes. -/
  | registered (scopes : List Scope) (field : StructField)

/-- The names in a template are looked up in order. -/
def Template.items (t : Template) (scopes : List Scope) : List Item :=
  t.markerNames.map fun m => .name scopes m none

/-- A binding of the innermost scope needs its initialisers and then the names in its template.
There the name itself has the meaning that it has in the scopes around. -/
def Binding.items (b : Binding) (name : String) (scopes : List Scope) : List Item :=
  b.initialisers.map (.initialiser scopes) ++
    b.template.markerNames.map fun m => .name (if m = name then scopes.tail else scopes) m none

/-- Looking items up leads to events. A name belongs to the innermost scope that binds it, and what
its binding needs is looked up next. An initialiser is given by the level of its scope and its
number there; its code is looked up unless it has been begun before. -/
inductive Leads : (begun : Set (Nat × Nat)) → List Item → List Event →
    (begun' : Set (Nat × Nat)) → Prop where
  | done {begun : Set (Nat × Nat)} : Leads begun [] [] begun
  | name {begun mid begun' : Set (Nat × Nat)} {inner outer : List Scope} {s : Scope}
      {name : String} {wanted : Option CType} {b : Binding} {rest : List Item}
      {es es' : List Event} :
      (∀ t ∈ inner, t.binds name = false) → s.select? name wanted = some b →
      Leads begun (b.items name (s :: outer)) es mid → Leads mid rest es' begun' →
      Leads begun (.name (inner ++ s :: outer) name wanted :: rest)
        (.resolved (s :: outer) name b :: (es ++ es')) begun'
  | first {begun mid begun' : Set (Nat × Nat)} {outer : List Scope} {s : Scope} {i : Nat}
      {x : Initialiser} {rest : List Item} {es es' : List Event} :
      s.initialisers[i]? = some x → (outer.length, i) ∉ begun →
      Leads (insert (outer.length, i) begun) (x.template.items (s :: outer)) es mid →
      Leads mid rest es' begun' →
      Leads begun (.initialiser (s :: outer) i :: rest) (es ++ es') begun'
  | again {begun begun' : Set (Nat × Nat)} {outer : List Scope} {s : Scope} {i : Nat}
      {rest : List Item} {es : List Event} :
      (outer.length, i) ∈ begun → Leads begun rest es begun' →
      Leads begun (.initialiser (s :: outer) i :: rest) es begun'

/-- The level of the innermost scope that has a struct. -/
def structLevel? : List Scope → Option Nat
  | [] => none
  | s :: outer => if s.fields.isSome then some outer.length else structLevel? outer

/-- The field that an event has for the struct at a level. -/
def Event.fieldAt? (level : Nat) : Event → Option StructField
  | resolved scopes _ b => if structLevel? scopes = some level then b.field else none
  | registered scopes field => if structLevel? scopes = some level then some field else none

/-- The fields that events have for the struct at a level. -/
def fieldsAt (level : Nat) (es : List Event) : List StructField :=
  es.filterMap (·.fieldAt? level)

/-- The initialisers of scopes that have been begun. -/
def begunIn (scopes : List Scope) : Set (Nat × Nat) :=
  {p | ∃ s, scopeAt scopes p.1 = some s ∧ p.2 ∈ s.started}

/-- The fields of the struct at a level. -/
def structAt (scopes : List Scope) (level : Nat) : Option StructFields :=
  (scopeAt scopes level).bind Scope.fields

variable {begun begun' begun'' : Set (Nat × Nat)} {items items' : List Item} {es es' : List Event}
  {s t : Scope} {scopes inner inner' outer outer' : List Scope} {name : String} {level i : Nat}
  {c c' c'' : Chain} {sink sink' : CodeStream}

namespace Leads

theorem append (h : Leads begun items es begun') (h' : Leads begun' items' es' begun'') :
    Leads begun (items ++ items') (es ++ es') begun'' := by
  induction h with
  | done => exact h'
  | name hinner hselect hparts _ _ ih =>
      have hall := Leads.name hinner hselect hparts (ih h')
      rwa [← List.append_assoc] at hall
  | first hx hfresh hparts _ _ ih =>
      have hall := Leads.first hx hfresh hparts (ih h')
      rwa [← List.append_assoc] at hall
  | again hi _ ih => exact .again hi (ih h')

/-- A name belongs to one scope. -/
theorem eq_of_append (hinner : ∀ u ∈ inner, u.binds name = false) (hs : s.binds name = true)
    (hinner' : ∀ u ∈ inner', u.binds name = false) (ht : t.binds name = true)
    (h : inner ++ s :: outer = inner' ++ t :: outer') : s = t ∧ outer = outer' := by
  induction inner generalizing inner' with
  | nil =>
      cases inner' with
      | nil => exact List.cons.inj h
      | cons u inner' =>
          obtain ⟨rfl, -⟩ := List.cons.inj h
          rw [hinner' s List.mem_cons_self] at hs
          cases hs
  | cons v inner ih =>
      cases inner' with
      | nil =>
          obtain ⟨rfl, -⟩ := List.cons.inj h
          rw [hinner v List.mem_cons_self] at ht
          cases ht
      | cons u inner' =>
          exact ih (fun w hw => hinner w (List.mem_cons_of_mem v hw))
            (fun w hw => hinner' w (List.mem_cons_of_mem u hw)) (List.cons.inj h).2

/-- What is looked up leads to one sequence of events only. -/
theorem unique (h : Leads begun items es begun') (h' : Leads begun items es' begun'') :
    es = es' ∧ begun' = begun'' := by
  induction h generalizing es' begun'' with
  | done =>
      cases h'
      exact ⟨rfl, rfl⟩
  | name hinner hselect _ _ ihparts ihrest =>
      generalize hitems : Item.name _ _ _ :: _ = items at h'
      cases h' with
      | name hinner' hselect' hparts hrest =>
          injection hitems with hname htail
          injection hname with hscopes hname hwanted
          subst htail hname hwanted
          obtain ⟨rfl, rfl⟩ := eq_of_append hinner (Scope.binds_of_select? hselect) hinner'
            (Scope.binds_of_select? hselect') hscopes
          cases hselect.symm.trans hselect'
          obtain ⟨rfl, rfl⟩ := ihparts hparts
          obtain ⟨rfl, rfl⟩ := ihrest hrest
          exact ⟨rfl, rfl⟩
      | _ => cases hitems
  | first hx hfresh _ _ ihparts ihrest =>
      cases h' with
      | first hx' _ hparts hrest =>
          cases hx.symm.trans hx'
          obtain ⟨rfl, rfl⟩ := ihparts hparts
          obtain ⟨rfl, rfl⟩ := ihrest hrest
          exact ⟨rfl, rfl⟩
      | again hi _ => exact absurd hi hfresh
  | again hi _ ih =>
      cases h' with
      | first _ hfresh _ _ => exact absurd hi hfresh
      | again _ hrest => exact ih hrest

/-- What has been begun stays so. -/
theorem begun_subset (h : Leads begun items es begun') : begun ⊆ begun' := by
  induction h with
  | done => exact subset_rfl
  | name _ _ _ _ ihparts ihrest => exact ihparts.trans ihrest
  | first _ _ _ _ ihparts ihrest => exact (Set.subset_insert _ _).trans (ihparts.trans ihrest)
  | again _ _ ih => exact ih

end Leads

/-! ### Scopes by their level -/

theorem scopeAt_append (h : level < outer.length) (inner : List Scope) :
    scopeAt (inner ++ outer) level = scopeAt outer level := by
  induction inner with
  | nil => rfl
  | cons u inner ih =>
      rw [List.cons_append, scopeAt, if_neg, ih]
      rw [List.length_append]
      omega

theorem scopeAt_length (inner : List Scope) (s : Scope) (outer : List Scope) :
    scopeAt (inner ++ s :: outer) outer.length = some s := by
  rw [scopeAt_append (Nat.lt_succ_self _), scopeAt, if_pos rfl]

/-- What is further in than some scopes does not depend on them. -/
theorem scopeAt_append_of_le (hlength : outer'.length = outer.length) (h : outer.length ≤ level)
    (inner : List Scope) : scopeAt (inner ++ outer') level = scopeAt (inner ++ outer) level := by
  induction inner with
  | nil =>
      have hnone (scopes : List Scope) (hlevel : scopes.length ≤ level) :
          scopeAt scopes level = none := by
        rw [Option.eq_none_iff_forall_ne_some]
        exact fun s hs => absurd (lt_of_scopeAt hs) (Nat.not_lt.mpr hlevel)
      rw [List.nil_append, List.nil_append, hnone outer h, hnone outer' (hlength.trans_le h)]
  | cons u inner ih =>
      rw [List.cons_append, List.cons_append, scopeAt, scopeAt, ih, List.length_append,
        List.length_append, hlength]

theorem scopeAt_update (h : level ≠ outer.length) (inner : List Scope) (s t : Scope) :
    scopeAt (inner ++ s :: outer) level = scopeAt (inner ++ t :: outer) level := by
  rcases Nat.lt_or_gt_of_ne h with hlt | hgt
  · have hs : level < (s :: outer).length := Nat.lt_succ_of_lt hlt
    have ht : level < (t :: outer).length := Nat.lt_succ_of_lt hlt
    rw [scopeAt_append hs inner, scopeAt_append ht inner, scopeAt, scopeAt, if_neg h, if_neg h]
  · have hlength : (s :: outer).length = (t :: outer).length := rfl
    exact scopeAt_append_of_le hlength hgt inner

theorem structLevel?_lt (h : structLevel? scopes = some level) : level < scopes.length := by
  induction scopes with
  | nil => cases h
  | cons s outer ih =>
      rw [structLevel?] at h
      split at h
      next =>
        cases h
        exact Nat.lt_succ_self _
      next => exact Nat.lt_succ_of_lt (ih h)

theorem structLevel?_append (h : ∀ u ∈ inner, u.fields.isSome = false) :
    structLevel? (inner ++ outer) = structLevel? outer := by
  induction inner with
  | nil => rfl
  | cons u inner ih =>
      rw [List.cons_append, structLevel?, h u List.mem_cons_self]
      exact ih fun v hv => h v (List.mem_cons_of_mem u hv)

theorem structLevel?_congr (h : List.Forall₂ Scope.Evolves outer outer') :
    structLevel? outer' = structLevel? outer := by
  induction h with
  | nil => rfl
  | cons hs hrest ih => rw [structLevel?, structLevel?, hs.fields, hrest.length_eq, ih]

/-- A name is found in the same place after scopes have evolved. -/
theorem exists_of_evolves_append (h : List.Forall₂ Scope.Evolves scopes (inner' ++ t :: outer'))
    (hinner : ∀ u ∈ inner', u.binds name = false) :
    ∃ inner s outer, scopes = inner ++ s :: outer ∧ (∀ u ∈ inner, u.binds name = false) ∧
      s.Evolves t ∧ List.Forall₂ Scope.Evolves outer outer' := by
  induction inner' generalizing scopes with
  | nil =>
      obtain ⟨s, outer, hs, houter, rfl⟩ := List.forall₂_cons_right_iff.mp h
      exact ⟨[], s, outer, rfl, fun _ hu => absurd hu List.not_mem_nil, hs, houter⟩
  | cons u inner' ih =>
      obtain ⟨v, scopes, hv, hrest, rfl⟩ := List.forall₂_cons_right_iff.mp h
      obtain ⟨inner, s, outer, rfl, hbinds, hs, houter⟩ :=
        ih hrest fun w hw => hinner w (List.mem_cons_of_mem u hw)
      refine ⟨v :: inner, s, outer, rfl, List.forall_mem_cons.mpr ⟨?_, hbinds⟩, hs, houter⟩
      rw [← hv.binds, hinner u List.mem_cons_self]

/-! ### Fields of events -/

theorem fieldsAt_append (level : Nat) (es es' : List Event) :
    fieldsAt level (es ++ es') = fieldsAt level es ++ fieldsAt level es' := List.filterMap_append

/-- Between two chains the fields of events have been registered with the structs. -/
def Chain.Registers (c : Chain) (es : List Event) (c' : Chain) : Prop :=
  ∀ level fields, structAt c.scopes level = some fields →
    ∃ fields', structAt c'.scopes level = some fields' ∧
      registerAll fields (fieldsAt level es) = .ok fields'

theorem Chain.Registers.trans (h : c.Registers es c') (h' : c'.Registers es' c'') :
    c.Registers (es ++ es') c'' := by
  intro level fields hfields
  obtain ⟨mid, hmid, hfirst⟩ := h level fields hfields
  obtain ⟨last, hlast, hsecond⟩ := h' level mid hmid
  refine ⟨last, hlast, ?_⟩
  rw [fieldsAt_append, registerAll_append, hfirst]
  exact hsecond

/-- What has been begun is read off the scopes at each level. -/
theorem begunIn_congr (h : List.Forall₂ (fun s t : Scope => t.started = s.started) scopes outer) :
    begunIn outer = begunIn scopes := by
  ext p
  constructor
  · rintro ⟨t, ht, hp⟩
    obtain ⟨s, hs, hst⟩ := exists_scopeAt_of_forall₂ h.flip ht
    exact ⟨s, hs, hst ▸ hp⟩
  · rintro ⟨s, hs, hp⟩
    obtain ⟨t, ht, hst⟩ := exists_scopeAt_of_forall₂ h hs
    exact ⟨t, ht, hst ▸ hp⟩

theorem registers_nil
    (h : List.Forall₂ (fun s t : Scope => t.fields = s.fields) c.scopes c'.scopes) :
    c.Registers [] c' := by
  intro level fields hfields
  obtain ⟨s, hs, hfields⟩ := Option.bind_eq_some_iff.mp hfields
  obtain ⟨t, ht, hst⟩ := exists_scopeAt_of_forall₂ h hs
  exact ⟨fields, Option.bind_eq_some_iff.mpr ⟨t, ht, hst.trans hfields⟩, rfl⟩

/-- A scope changes in its stream only, and in the code of its initialisers. -/
structure Scope.ChangesText (s t : Scope) : Prop extends s.Evolves t where
  started : t.started = s.started
  same : t.fields = s.fields

/-- A run from one chain to another looks items up, which leads to events. Their fields are
registered with the structs of the chain. Whatever has been begun further in does not matter. -/
structure Chain.Traverses (c : Chain) (items : List Item) (es : List Event) (c' : Chain) :
    Prop where
  evolves : List.Forall₂ Scope.Evolves c.scopes c'.scopes
  leads : ∀ above : Set (Nat × Nat), (∀ p ∈ above, c.scopes.length ≤ p.1) →
    Leads (begunIn c.scopes ∪ above) items es (begunIn c'.scopes ∪ above)
  registers : c.Registers es c'
  outside : ∀ level, c.scopes.length ≤ level → fieldsAt level es = []

namespace Chain.Traverses

theorem of_text (h : List.Forall₂ Scope.ChangesText c.scopes c'.scopes) : c.Traverses [] [] c' where
  evolves := h.imp fun _ _ => Scope.ChangesText.toEvolves
  leads above _ := by
    rw [begunIn_congr (h.imp fun _ _ => Scope.ChangesText.started)]
    exact .done
  registers := registers_nil (h.imp fun _ _ => Scope.ChangesText.same)
  outside _ _ := rfl

theorem refl (c : Chain) : c.Traverses [] [] c :=
  .of_text (List.forall₂_same.mpr fun s _ => ⟨.refl s, rfl, rfl⟩)

theorem leads_here (h : c.Traverses items es c') :
    Leads (begunIn c.scopes) items es (begunIn c'.scopes) := by
  have hleads := h.leads ∅ fun _ hp => absurd hp (Set.notMem_empty _)
  rwa [Set.union_empty, Set.union_empty] at hleads

theorem length_eq (h : c.Traverses items es c') : c'.scopes.length = c.scopes.length :=
  h.evolves.length_eq.symm

theorem trans (h : c.Traverses items es c') (h' : c'.Traverses items' es' c'') :
    c.Traverses (items ++ items') (es ++ es') c'' where
  evolves := forall₂_trans (fun _ _ _ => .trans) h.evolves h'.evolves
  leads above habove :=
    (h.leads above habove).append (h'.leads above (by rwa [h.length_eq]))
  registers := h.registers.trans h'.registers
  outside level hlevel := by
    rw [fieldsAt_append, h.outside level hlevel, h'.outside level (h.length_eq.trans_le hlevel)]
    rfl

/-- Scopes that are set aside stay as they are. -/
theorem inside (h : Traverses ⟨outer, sink⟩ items es ⟨outer', sink'⟩) (inner : List Scope) :
    Traverses ⟨inner ++ outer, sink⟩ items es ⟨inner ++ outer', sink'⟩ where
  evolves := List.rel_append (List.forall₂_same.mpr fun s _ => Scope.Evolves.refl s) h.evolves
  leads above habove := by
    have hlength : outer'.length = outer.length := h.length_eq
    -- what has been begun in the scopes that are set aside
    have hsplit (outer₀ : List Scope) (hlength : outer₀.length = outer.length) :
        begunIn (inner ++ outer₀) ∪ above =
          begunIn outer₀ ∪ ({p | outer.length ≤ p.1 ∧ p ∈ begunIn (inner ++ outer)} ∪ above) := by
      rw [← Set.union_assoc]
      congr 1
      ext p
      by_cases hp : p.1 < outer.length
      · have hscope := scopeAt_append (hlength.symm ▸ hp) inner
        simp [begunIn, hscope, Nat.not_le.mpr hp]
      · have hscope := scopeAt_append_of_le hlength (Nat.not_lt.mp hp) inner
        have hsame : p ∈ begunIn (inner ++ outer₀) ↔ p ∈ begunIn (inner ++ outer) := by
          simp only [begunIn, Set.mem_ofPred_eq, hscope]
        have hnone : p ∉ begunIn outer₀ := by
          rintro ⟨s, hs, -⟩
          exact hp (hlength ▸ lt_of_scopeAt hs)
        simp [hsame, hnone, Nat.not_lt.mp hp]
    dsimp only
    rw [hsplit outer rfl, hsplit outer' hlength]
    refine h.leads _ ?_
    rintro p (hp | hp)
    · exact hp.1
    · refine Nat.le_trans ?_ (habove p hp)
      dsimp only
      rw [List.length_append]
      exact Nat.le_add_left _ _
  registers level fields hfields := by
    by_cases hlevel : level < outer.length
    · dsimp only at hfields ⊢
      rw [structAt, scopeAt_append hlevel] at hfields
      rw [structAt, scopeAt_append (h.length_eq.symm ▸ hlevel)]
      exact h.registers level fields hfields
    · dsimp only at hfields ⊢
      rw [h.outside level (Nat.not_lt.mp hlevel), structAt,
        scopeAt_append_of_le h.length_eq (Nat.not_lt.mp hlevel)]
      exact ⟨fields, hfields, rfl⟩
  outside level hlevel := by
    refine h.outside level (Nat.le_trans ?_ hlevel)
    dsimp only
    rw [List.length_append]
    exact Nat.le_add_left _ _

end Chain.Traverses

/-! ### Registering a field -/

/-- A run from one chain to another does what an event says: the field of the event, if it has one,
is registered with its struct. -/
structure Chain.Adds (c : Chain) (e : Event) (c' : Chain) : Prop where
  evolves : List.Forall₂ Scope.Evolves c.scopes c'.scopes
  begun : begunIn c'.scopes = begunIn c.scopes
  registers : c.Registers [e] c'
  outside : ∀ level, c.scopes.length ≤ level → fieldsAt level [e] = []

namespace Chain.Adds

variable {e e' : Event} {b : Binding}

theorem congr (h : c.Adds e c') (he : ∀ level, e'.fieldAt? level = e.fieldAt? level) :
    c.Adds e' c' := by
  have hfields (level : Nat) : fieldsAt level [e'] = fieldsAt level [e] := by
    rw [fieldsAt, fieldsAt, List.filterMap_cons, List.filterMap_cons, he]
  exact ⟨h.evolves, h.begun, fun level => hfields level ▸ h.registers level,
    fun level => hfields level ▸ h.outside level⟩

/-- A binding without a field adds none. -/
theorem of_field_eq_none (hb : b.field = none) (c : Chain) (scopes : List Scope) (name : String) :
    c.Adds (.resolved scopes name b) c := by
  have hnone (level : Nat) : fieldsAt level [.resolved scopes name b] = [] := by
    rw [fieldsAt, List.filterMap_cons, Event.fieldAt?, hb, ite_self]
    rfl
  refine ⟨List.forall₂_same.mpr fun s _ => Scope.Evolves.refl s, rfl, fun level fields h => ?_,
    fun level _ => hnone level⟩
  rw [hnone]
  exact ⟨fields, h, rfl⟩

end Chain.Adds

namespace Emit

variable {α β : Type} {u : Unit}

/-- A registered field is one for the nearest struct. -/
theorem fieldsAt_registered {nearest : Nat} (field : StructField)
    (h : structLevel? scopes = some nearest) (level : Nat) :
    fieldsAt level [.registered scopes field] = if level = nearest then [field] else [] := by
  rw [fieldsAt, List.filterMap_cons, Event.fieldAt?, h]
  by_cases hlevel : level = nearest
  · rw [if_pos (congrArg some hlevel.symm), if_pos hlevel]
    rfl
  · rw [if_neg fun heq => hlevel (Option.some.inj heq).symm, if_neg hlevel]
    rfl

/-- A field is registered with the nearest struct. -/
theorem adds_registerField {field : StructField}
    (hscopes : List.Forall₂ Scope.Evolves scopes c.scopes)
    (h : (registerField field).runOn c = (.ok u, c')) : c.Adds (.registered scopes field) c' := by
  obtain ⟨inner, s, outer, fields, hspan, hregister, rfl⟩ := runOn_registerField_eq_ok.mp h
  obtain ⟨happend, hhead⟩ := eq_append_of_span hspan
  have hinner : ∀ u ∈ inner, u.fields.isSome = false := by
    intro u hu
    rw [List.span_eq_takeWhile_dropWhile] at hspan
    have hnone := List.mem_takeWhile_imp (by rwa [(Prod.mk.inj hspan).1] : u ∈ c.scopes.takeWhile _)
    simpa using hnone
  obtain ⟨old, hold⟩ : ∃ old, s.fields = some old := by
    simpa [Option.isNone_eq_false_iff, Option.isSome_iff_exists] using hhead s rfl
  have hlevel : structLevel? scopes = some outer.length := by
    rw [← structLevel?_congr hscopes, happend, structLevel?_append hinner, structLevel?, hold]
    rfl
  have hfields := fieldsAt_registered field hlevel
  obtain ⟨scopes', sink⟩ := c
  dsimp only at happend hscopes
  subst happend
  constructor
  case evolves =>
    exact List.rel_append (List.forall₂_same.mpr fun t _ => Scope.Evolves.refl t)
      (.cons ⟨rfl, rfl, le_rfl, by rw [hold]; rfl⟩
        (List.forall₂_same.mpr fun t _ => Scope.Evolves.refl t))
  case begun =>
    have hsame (others : List Scope) :
        List.Forall₂ (fun s t : Scope => t.started = s.started) others others :=
      List.forall₂_same.mpr fun _ _ => rfl
    exact begunIn_congr (List.rel_append (hsame inner) (.cons rfl (hsame outer)))
  case registers =>
    intro level before hbefore
    rw [hfields]
    by_cases hp : level = outer.length
    · subst hp
      rw [structAt, scopeAt_length, Option.bind_some, hold] at hbefore
      cases hbefore
      rw [hold] at hregister
      refine ⟨fields, ?_, ?_⟩
      · rw [structAt, scopeAt_length]
        rfl
      · rw [if_pos rfl, registerAll, List.foldlM_cons]
        exact bind_eq_ok.mpr ⟨fields, hregister, rfl⟩
    · rw [if_neg hp]
      refine ⟨before, ?_, rfl⟩
      rw [structAt, scopeAt_update hp inner _ s]
      exact hbefore
  case outside =>
    intro level hle
    have hlt := structLevel?_lt hlevel
    rw [hscopes.length_eq] at hlt
    rw [hfields, if_neg]
    exact Nat.ne_of_gt (hlt.trans_le hle)

/-! ### Lookups -/

/-- Wherever the computation has a result, it has looked items up, which depend on the scopes that
it starts from. -/
def LooksUp (m : Emit α) (items : List Scope → List Item) : Prop :=
  ∀ scopes c a c', List.Forall₂ Scope.Evolves scopes c.scopes → m.runOn c = (.ok a, c') →
    ∃ es, c.Traverses (items scopes) es c'

namespace LooksUp

variable {m : Emit α} {first second : List Scope → List Item}

theorem pure (a : α) : LooksUp (Pure.pure a) fun _ => [] := by
  intro scopes c b c' _ h
  obtain ⟨rfl, rfl⟩ := runOn_pure_eq_ok.mp h
  exact ⟨[], .refl c⟩

theorem bind {f : α → Emit β} (hm : LooksUp m first) (hf : ∀ a, LooksUp (f a) second) :
    LooksUp (m >>= f) fun scopes => first scopes ++ second scopes := by
  intro scopes c b c'' hscopes h
  obtain ⟨a, c', hrun, hrest⟩ := runOn_bind_eq_ok.mp h
  obtain ⟨es, hes⟩ := hm scopes c a c' hscopes hrun
  obtain ⟨es', hes'⟩ := hf a scopes c' b c''
    (forall₂_trans (fun _ _ _ => .trans) hscopes hes.evolves) hrest
  exact ⟨es ++ es', hes.trans hes'⟩

theorem bind_pure (hm : LooksUp m first) (f : α → β) :
    LooksUp (m >>= fun a => Pure.pure (f a)) first := by
  have hall := hm.bind fun a => pure (f a)
  simpa only [List.append_nil] using hall

theorem forM {f : β → Emit PUnit} (item : β → List Scope → Item)
    (h : ∀ x, LooksUp (f x) fun scopes => [item x scopes]) (xs : List β) :
    LooksUp (xs.forM f) fun scopes => xs.map fun x => item x scopes := by
  induction xs with
  | nil => exact pure _
  | cons x xs ih => exact (h x).bind fun _ => ih

theorem render {lookup : String → Emit String} (item : String → List Scope → Item)
    (h : ∀ name, LooksUp (lookup name) fun scopes => [item name scopes]) (t : Template) :
    LooksUp (t.render lookup) fun scopes => t.markerNames.map fun m => item m scopes := by
  induction t with
  | nil => exact pure ""
  | cons segment rest ih =>
      cases segment with
      | text cs => exact ih.bind_pure _
      | marker name => exact (h _).bind fun _ => ih.bind_pure _

end LooksUp

theorem mem_begunIn_head : (outer.length, i) ∈ begunIn (s :: outer) ↔ i ∈ s.started := by
  have hscope : scopeAt (s :: outer) outer.length = some s := scopeAt_length [] s outer
  simp only [begunIn, Set.mem_ofPred_eq, hscope, Option.some.injEq, exists_eq_left']

/-- An initialiser of the innermost scope that is begun or emitted is one of those that have been
begun. -/
theorem begunIn_setState {x : Initialiser} {state : InitState}
    (hx : t.initialisers[i]? = some x) (hstate : state ≠ .unused) :
    begunIn (t.setState i state :: outer) = insert (outer.length, i) (begunIn (t :: outer)) := by
  ext p
  by_cases hp : p.1 = outer.length
  · obtain ⟨level, j⟩ := p
    dsimp only at hp
    subst hp
    rw [mem_begunIn_head, Scope.started_setState hx hstate, Set.mem_insert_iff, Set.mem_insert_iff,
      mem_begunIn_head]
    simp
  · have hscope := scopeAt_update hp [] (t.setState i state) t
    have hne : p ≠ (outer.length, i) := fun heq => hp (congrArg Prod.fst heq)
    simp only [List.nil_append] at hscope
    simp [begunIn, hscope, hne]

theorem structAt_setState (t : Scope) (i : Nat) (state : InitState) (outer : List Scope)
    (level : Nat) : structAt (t.setState i state :: outer) level = structAt (t :: outer) level := by
  by_cases hlevel : level = outer.length
  · rw [structAt, structAt, hlevel, scopeAt, if_pos rfl, scopeAt, if_pos rfl]
    rfl
  · rw [structAt, structAt, scopeAt, if_neg hlevel, scopeAt, if_neg hlevel]

theorem exists_initialiser_of_evolves {y : Initialiser} (hs : s.Evolves t)
    (hy : t.initialisers[i]? = some y) :
    ∃ x, s.initialisers[i]? = some x ∧ x.template = y.template := by
  have hget := congrArg (fun ts => ts[i]?) hs.templates
  simp only [List.getElem?_map, hy, Option.map_some] at hget
  obtain ⟨x, hx, htemplate⟩ := Option.map_eq_some_iff.mp hget.symm
  exact ⟨x, hx, htemplate⟩

/-- The code of an initialiser that has not been begun is looked up once it is begun. -/
theorem traverses_first {template : Template} (hs : s.Evolves t)
    (houter : outer'.length = outer.length) (hx : t.initialisers[i]? = some ⟨template, .unused⟩)
    (h : Chain.Traverses ⟨t.setState i .pending :: outer', sink⟩ (template.items (s :: outer)) es
      c') :
    Chain.Traverses ⟨t :: outer', sink⟩ [.initialiser (s :: outer) i] es c' := by
  obtain ⟨x, hx', htemplate⟩ := exists_initialiser_of_evolves hs hx
  constructor
  case evolves =>
    have hfirst : List.Forall₂ Scope.Evolves (t :: outer') (t.setState i .pending :: outer') :=
      .cons (t.evolves_setState i (by decide)) (List.forall₂_same.mpr fun u _ => .refl u)
    exact forall₂_trans (fun _ _ _ => .trans) hfirst h.evolves
  case leads =>
    intro above habove
    have hfresh : (outer.length, i) ∉ begunIn (t :: outer') ∪ above := by
      rintro (hi | hi)
      · rw [← houter, mem_begunIn_head] at hi
        exact (Scope.mem_started_iff hx).mp hi rfl
      · have hle := habove _ hi
        dsimp only at hle
        rw [List.length_cons] at hle
        omega
    have hcode := h.leads above habove
    dsimp only at hcode
    rw [begunIn_setState hx (by decide), Set.insert_union, houter] at hcode
    have hall := Leads.first hx' hfresh (by rwa [htemplate]) .done
    rwa [List.append_nil] at hall
  case registers =>
    intro level fields hfields
    exact h.registers level fields ((structAt_setState t i .pending outer' level).trans hfields)
  case outside => exact h.outside

/-- An initialiser that has been begun leads to nothing. -/
theorem traverses_again {template : Template} {state : InitState}
    (houter : outer'.length = outer.length) (hx : t.initialisers[i]? = some ⟨template, state⟩)
    (hstate : state ≠ .unused) :
    Chain.Traverses ⟨t :: outer', sink⟩ [.initialiser (s :: outer) i] [] ⟨t :: outer', sink⟩ := by
  refine { Chain.Traverses.refl ⟨t :: outer', sink⟩ with leads := fun above _ => ?_ }
  refine .again (.inl ?_) .done
  rw [← houter, mem_begunIn_head]
  exact (Scope.mem_started_iff hx).mpr hstate

/-- When the code of an initialiser that has been begun is emitted, nothing is looked up. -/
theorem traverses_emit (hbegun : i ∈ t.started) (text : String) :
    Chain.Traverses ⟨t :: outer, sink⟩ [] []
      ⟨{ t.setState i .emitted with emitted := t.emitted ++ [text] } :: outer, sink⟩ := by
  obtain ⟨x, hx, -⟩ := id hbegun
  have hemit : t.ChangesText { t.setState i .emitted with emitted := t.emitted ++ [text] } :=
    { (t.evolves_setState i (by decide)).trans ⟨rfl, rfl, le_rfl, rfl⟩ with
      started := (Scope.started_setState hx (by decide)).trans (Set.insert_eq_of_mem hbegun)
      same := rfl }
  exact .of_text (.cons hemit (List.forall₂_same.mpr fun u _ => ⟨.refl u, rfl, rfl⟩))

variable {lookup : String → Emit String}

/-- An initialiser is looked up where it is needed for the first time. -/
theorem looksUp_require
    (hlookup : ∀ name, LooksUp (lookup name) fun scopes => [.name scopes name none]) (i : Nat) :
    LooksUp (require lookup i) fun scopes => [.initialiser scopes i] := by
  intro scopes c u c' hscopes h
  obtain ⟨_, _, hget, h⟩ := runOn_bind_eq_ok.mp h
  cases hget
  obtain ⟨actual, sink⟩ := c
  cases hscopes with
  | nil => cases congrArg Prod.fst h
  | @cons s t outer outer' hs houter =>
      have hlength := houter.length_eq.symm
      have hhead : (t :: outer').head?.bind (·.initialisers[i]?) = t.initialisers[i]? := rfl
      dsimp only at h
      rw [hhead] at h
      cases hx : t.initialisers[i]? with
      | none =>
          rw [hx] at h
          cases congrArg Prod.fst h
      | some x =>
          obtain ⟨template, state⟩ := x
          rw [hx] at h
          cases state with
          | pending =>
              cases h
              exact ⟨[], traverses_again hlength hx (by decide)⟩
          | emitted =>
              cases h
              exact ⟨[], traverses_again hlength hx (by decide)⟩
          | unused =>
              -- the initialiser is begun,
              obtain ⟨_, c₁, hbegin, h⟩ := runOn_bind_eq_ok.mp h
              obtain ⟨t₁, ht₁, rfl⟩ := runOn_changeScope_eq_ok.mp hbegin
              cases ht₁
              -- its code is put together,
              obtain ⟨text, c₂, hrender, h⟩ := runOn_bind_eq_ok.mp h
              obtain ⟨es, hes⟩ := LooksUp.render _ hlookup template (s :: outer) _ text c₂
                (.cons (hs.trans (t.evolves_setState i (by decide))) houter) hrender
              obtain ⟨u, outer₂, -, houter₂, hscopes₂⟩ := List.forall₂_cons_left_iff.mp hes.evolves
              obtain ⟨scopes₂, sink₂⟩ := c₂
              dsimp only at hscopes₂
              subst hscopes₂
              have hbegun : i ∈ u.started := by
                have hi : (outer'.length, i) ∈ begunIn (t.setState i .pending :: outer') := by
                  rw [begunIn_setState hx (by decide)]
                  exact Set.mem_insert _ _
                have hi' := hes.leads_here.begun_subset hi
                rwa [houter₂.length_eq, mem_begunIn_head] at hi'
              -- and that code is emitted
              obtain ⟨u₁, hu₁, rfl⟩ := runOn_changeScope_eq_ok.mp h
              cases hu₁
              have hcode := hes.trans (traverses_emit hbegun text)
              rw [List.append_nil, List.append_nil] at hcode
              exact ⟨es, traverses_first hs hlength hx hcode⟩

/-- With the innermost scope set aside, items are looked up in the others. -/
theorem looksUp_without_innermost {m : Emit α} {items : List Scope → List Item}
    (hm : LooksUp m items) :
    LooksUp (do
      let inner := (← get).scopes.take 1
      without inner m) fun scopes => items scopes.tail := by
  intro scopes c a c' hscopes h
  obtain ⟨_, _, hget, h⟩ := runOn_bind_eq_ok.mp h
  cases hget
  obtain ⟨actual, sink⟩ := c
  have htail : List.Forall₂ Scope.Evolves scopes.tail (actual.drop 1) := by
    rw [← List.drop_one]
    exact List.forall₂_drop 1 hscopes
  have hsplit : Chain.mk actual sink = ⟨actual.take 1 ++ actual.drop 1, sink⟩ := by
    rw [List.take_append_drop]
  dsimp only at h
  rw [hsplit] at h
  obtain ⟨⟨outer', sink'⟩, hrun, rfl⟩ := runOn_without_eq_ok.mp h
  obtain ⟨es, hes⟩ := hm scopes.tail ⟨actual.drop 1, sink⟩ a _ htail hrun
  refine ⟨es, ?_⟩
  rw [hsplit]
  exact hes.inside (actual.take 1)

/-- The field of a binding is registered before what the binding needs is looked up. -/
theorem looksUp_expand
    (hlookup : ∀ name, LooksUp (lookup name) fun scopes => [.name scopes name none])
    {b : Binding} {code : String} (hscopes : List.Forall₂ Scope.Evolves scopes c.scopes)
    (h : (expand lookup name b).runOn c = (.ok code, c')) :
    ∃ c₁ es, c.Adds (.resolved scopes name b) c₁ ∧ c₁.Traverses (b.items name scopes) es c' := by
  have hmarker (marker : String) : LooksUp (if marker = name then do
      let inner := (← get).scopes.take 1
      without inner (lookup marker)
    else lookup marker)
      fun scopes => [.name (if marker = name then scopes.tail else scopes) marker none] := by
    split
    next => exact looksUp_without_innermost (hlookup marker)
    next => exact hlookup marker
  have hrequire := LooksUp.forM (fun i scopes => .initialiser scopes i) (looksUp_require hlookup)
    b.initialisers
  have hrender := LooksUp.render
    (fun m scopes => .name (if m = name then scopes.tail else scopes) m none) hmarker b.template
  have hrest := hrequire.bind fun _ => hrender
  rw [expand] at h
  cases hb : b.field with
  | none =>
      rw [hb] at h
      obtain ⟨es, hes⟩ := hrest scopes c code c' hscopes h
      exact ⟨c, es, .of_field_eq_none hb c scopes name, hes⟩
  | some field =>
      rw [hb] at h
      obtain ⟨_, c₁, hfield, h⟩ := runOn_bind_eq_ok.mp h
      have hadds := adds_registerField hscopes hfield
      obtain ⟨es, hes⟩ := hrest scopes c₁ code c'
        (forall₂_trans (fun _ _ _ => .trans) hscopes hadds.evolves) h
      refine ⟨c₁, es, hadds.congr fun level => ?_, hes⟩
      rw [Event.fieldAt?, Event.fieldAt?, hb]

/-- What a name leads to begins with its binding. -/
theorem traverses_name {s : Scope} {wanted : Option CType} {b : Binding} {c₁ : Chain}
    (hinner : ∀ u ∈ inner, u.binds name = false) (hselect : s.select? name wanted = some b)
    (hadds : c.Adds (.resolved (s :: outer) name b) c₁)
    (h : c₁.Traverses (b.items name (s :: outer)) es c') :
    c.Traverses [.name (inner ++ s :: outer) name wanted] (.resolved (s :: outer) name b :: es)
      c' := by
  have hfields (level : Nat) : fieldsAt level (.resolved (s :: outer) name b :: es) =
      fieldsAt level [.resolved (s :: outer) name b] ++ fieldsAt level es :=
    fieldsAt_append level [_] es
  have hlength : c₁.scopes.length = c.scopes.length := hadds.evolves.length_eq.symm
  constructor
  case evolves => exact forall₂_trans (fun _ _ _ => .trans) hadds.evolves h.evolves
  case leads =>
    intro above habove
    have hparts := h.leads above (by rwa [hlength])
    rw [hadds.begun] at hparts
    have hall := Leads.name hinner hselect hparts .done
    rwa [List.append_nil] at hall
  case registers => exact hadds.registers.trans h.registers
  case outside =>
    intro level hle
    rw [hfields, hadds.outside level hle, h.outside level (hlength.trans_le hle)]
    rfl

theorem looksUp_resolveWithin (fuel : Nat) (name : String) (wanted : Option CType) :
    LooksUp (resolveWithin fuel name wanted) fun scopes => [.name scopes name wanted] := by
  induction fuel generalizing name wanted with
  | zero => exact fun _ _ _ _ _ h => nomatch congrArg Prod.fst h
  | succ fuel ih =>
      intro scopes c code c' hscopes h
      obtain ⟨inner', t, outer', b, hspan, hselect, hrun⟩ := runOn_resolveWithin_eq_ok.mp h
      obtain ⟨actual, sink⟩ := c
      obtain ⟨happend, -⟩ := eq_append_of_span hspan
      have hinner' : ∀ u ∈ inner', u.binds name = false := by
        intro u hu
        rw [Chain.splitAt, List.span_eq_takeWhile_dropWhile] at hspan
        have hnone := List.mem_takeWhile_imp
          (by rwa [(Prod.mk.inj hspan).1] : u ∈ actual.takeWhile _)
        simpa using hnone
      dsimp only at happend hscopes
      subst happend
      -- the name belongs to the same scope as at first
      obtain ⟨inner, s, outer, rfl, hinner, hs, houter⟩ := exists_of_evolves_append hscopes hinner'
      obtain ⟨c₂, hexpand, rfl⟩ := runOn_without_eq_ok.mp hrun
      have hscopes' : List.Forall₂ Scope.Evolves (s :: outer) (t :: outer') := .cons hs houter
      obtain ⟨c₁, es, hadds, hes⟩ := looksUp_expand (fun other => ih other none) hscopes' hexpand
      rw [hs.select?] at hselect
      obtain ⟨scopes₂, sink₂⟩ := c₂
      exact ⟨_, (traverses_name hinner hselect hadds hes).inside inner'⟩

theorem looksUp_resolve (name : String) (wanted : Option CType) :
    LooksUp (resolve name wanted) fun scopes => [.name scopes name wanted] := by
  intro scopes c code c' hscopes h
  obtain ⟨_, _, hget, h⟩ := runOn_bind_eq_ok.mp h
  cases hget
  exact looksUp_resolveWithin _ name wanted scopes c code c' hscopes h

theorem looksUp_expandText (template : String) :
    LooksUp (expandText template) (Template.ofString template).items :=
  .render (fun m scopes => .name scopes m none) (fun name => looksUp_resolve name none) _

end Emit

end KernelWeaver.Code
