import KernelWeaver.Proofs.Code.Reached
import KernelWeaver.Proofs.Code.RowLoop

/-!
# Runs on what became of scopes

While code is emitted, scopes evolve, but what they bind does not change, and only fields of their
bindings are registered. A computation that is made of lookups and lines keeps to this on every run
that has a result, and so whatever it runs on the way is run on scopes that have evolved from those
at its start.
-/

namespace KernelWeaver.Code

/-- The scopes that an item is looked up from. -/
def Item.scopes : Item → List Scope
  | name scopes _ _ | initialiser scopes _ => scopes

variable {α β : Type} {scopes outer : List Scope} {s : Scope} {c c' : Chain}

/-! ### Lookups -/

theorem mem_iff_exists_scopeAt : s ∈ scopes ↔ ∃ level, scopeAt scopes level = some s := by
  induction scopes with
  | nil => simp [scopeAt]
  | cons t outer ih =>
      constructor
      · intro hs
        rcases List.mem_cons.mp hs with rfl | hs
        · exact ⟨outer.length, if_pos rfl⟩
        · obtain ⟨level, hlevel⟩ := ih.mp hs
          exact ⟨level, (if_neg (lt_of_scopeAt hlevel).ne).trans hlevel⟩
      · rintro ⟨level, hlevel⟩
        rw [scopeAt] at hlevel
        split at hlevel
        next =>
          cases hlevel
          exact List.mem_cons_self
        next => exact List.mem_cons_of_mem t (ih.mpr ⟨level, hlevel⟩)

theorem StructFields.mem_of_registerAll {fields fields' : StructFields} {new : List StructField}
    {f : StructField} (h : registerAll fields new = .ok fields') (hf : f ∈ fields') :
    f ∈ fields ∨ f ∈ new := by
  induction new generalizing fields with
  | nil =>
      cases h
      exact .inl hf
  | cons g new ih =>
      obtain ⟨between, hregister, hrest⟩ := bind_eq_ok.mp h
      rcases ih hrest with hbetween | hnew
      · rw [eq_of_register hregister] at hbetween
        split at hbetween
        next => exact .inl hbetween
        next =>
          rcases List.mem_append.mp hbetween with hold | hg
          · exact .inl hold
          · exact .inr (List.mem_singleton.mp hg ▸ List.mem_cons_self)
      · exact .inr (List.mem_cons_of_mem g hnew)

/-- The fields that lookups lead to are those of bindings in the scopes. -/
theorem Leads.usesField {begun begun' : Set (Nat × Nat)} {items : List Item} {es : List Event}
    (h : Leads begun items es begun') (hitems : ∀ item ∈ items, item.scopes ⊆ scopes)
    {level : Nat} {f : StructField} (hf : f ∈ fieldsAt level es) : UsesField scopes f := by
  induction h with
  | done => cases hf
  | @name _ _ _ inner outer s name wanted b rest es es' _ hselect _ _ ihparts ihrest =>
      obtain ⟨hfirst, hrest⟩ := List.forall_mem_cons.mp hitems
      have hsub : s :: outer ⊆ scopes := List.Subset.trans (List.subset_append_right inner _) hfirst
      obtain ⟨e, he, hfield⟩ := List.mem_filterMap.mp hf
      rcases List.mem_cons.mp he with rfl | he
      · rw [Event.fieldAt?] at hfield
        split at hfield
        next =>
          refine ⟨s, hsub List.mem_cons_self, .inl ⟨name, b, ?_, hfield⟩⟩
          exact Scope.offers_of_select? hselect
        next => cases hfield
      rcases List.mem_append.mp he with he | he
      · refine ihparts (fun item hitem => ?_) (List.mem_filterMap.mpr ⟨e, he, hfield⟩)
        rcases List.mem_append.mp hitem with hitem | hitem
        · obtain ⟨i, -, rfl⟩ := List.mem_map.mp hitem
          exact hsub
        · obtain ⟨m, -, rfl⟩ := List.mem_map.mp hitem
          rw [Item.scopes]
          split
          next => exact List.Subset.trans (List.subset_cons_self s outer) hsub
          next => exact hsub
      · exact ihrest hrest (List.mem_filterMap.mpr ⟨e, he, hfield⟩)
  | @first _ _ _ outer s i x rest es es' _ _ _ _ ihparts ihrest =>
      obtain ⟨hfirst, hrest⟩ := List.forall_mem_cons.mp hitems
      rw [fieldsAt_append] at hf
      rcases List.mem_append.mp hf with hf | hf
      · refine ihparts (fun item hitem => ?_) hf
        obtain ⟨m, -, rfl⟩ := List.mem_map.mp hitem
        exact hfirst
      · exact ihrest hrest hf
  | again _ _ ih => exact ih (List.forall_mem_cons.mp hitems).2 hf

/-- Looking items up changes scopes as emitting code does. -/
theorem Chain.Traverses.evolves_of_items {items : List Item} {es : List Event}
    (h : c.Traverses items es c') (hc : Evolves scopes c.scopes)
    (hitems : ∀ item ∈ items, item.scopes ⊆ scopes) : Evolves scopes c'.scopes where
  scopes := forall₂_trans (fun _ _ _ => .trans) hc.scopes h.evolves
  fields f := by
    rintro ⟨t, ht, huse⟩
    obtain ⟨level, ht⟩ := mem_iff_exists_scopeAt.mp ht
    obtain ⟨s, hs, hst⟩ := exists_scopeAt_of_forall₂ h.evolves.flip ht
    have hmem : s ∈ c.scopes := mem_iff_exists_scopeAt.mpr ⟨level, hs⟩
    rcases huse with ⟨name, b, hb, hf⟩ | ⟨fields', hfields', hf⟩
    · exact hc.fields f ⟨s, hmem, .inl ⟨name, b, Scope.Evolves.offers hst |>.mp hb, hf⟩⟩
    · obtain ⟨fields, hfields⟩ : ∃ fields, s.fields = some fields :=
        Option.isSome_iff_exists.mp (hst.fields ▸ hfields' ▸ rfl)
      obtain ⟨last, hlast, hregistered⟩ := h.registers level fields (by
        rw [structAt, hs, Option.bind_some, hfields])
      rw [structAt, ht, Option.bind_some, hfields'] at hlast
      cases hlast
      rcases StructFields.mem_of_registerAll hregistered hf with hf | hf
      · exact hc.fields f ⟨s, hmem, .inr ⟨fields, hfields, hf⟩⟩
      · exact h.leads_here.usesField hitems hf

namespace Emit

/-- The computation has been run, with this result, on what became of the scopes. -/
def HasGiven (scopes : List Scope) (m : Emit α) (a : α) : Prop :=
  ∃ c c', Evolves scopes c.scopes ∧ m.runOn c = (.ok a, c')

/-- Wherever the computation has a result on what became of the scopes, it leaves what became of
them, and `P` holds of the result. -/
def Ensures (scopes : List Scope) (m : Emit α) (P : α → Prop) : Prop :=
  ∀ c a c', Evolves scopes c.scopes → m.runOn c = (.ok a, c') →
    Evolves scopes c'.scopes ∧ P a

namespace Ensures

variable {m : Emit α} {f : α → Emit β} {P Q : α → Prop} {R : β → Prop}

theorem imp (h : Ensures scopes m P) (hPQ : ∀ a, P a → Q a) : Ensures scopes m Q :=
  fun c a c' hc hrun => (h c a c' hc hrun).imp_right (hPQ a)

theorem pure {a : α} (h : P a) : Ensures scopes (pure a) P := by
  intro c b c' hc hrun
  obtain ⟨rfl, rfl⟩ := runOn_pure_eq_ok.mp hrun
  exact ⟨hc, h⟩

theorem fail (e : Error) : Ensures scopes (fail e) P :=
  fun _ _ _ _ hrun => nomatch congrArg Prod.fst hrun

theorem bind (h : Ensures scopes m P) (hf : ∀ a, P a → Ensures scopes (f a) R) :
    Ensures scopes (m >>= f) R := by
  intro c b c'' hc hrun
  obtain ⟨a, c', hm, hrest⟩ := runOn_bind_eq_ok.mp hrun
  obtain ⟨hc', ha⟩ := h c a c' hc hm
  exact hf a ha c' b c'' hc' hrest

/-- What is found by the first part does not matter. -/
theorem next (h : Ensures scopes m P) (hf : ∀ a, Ensures scopes (f a) R) :
    Ensures scopes (m >>= f) R := .bind h fun a _ => hf a

/-- The run that has the result is one that has been made. -/
theorem given (h : Ensures scopes m P) :
    Ensures scopes m fun a => HasGiven scopes m a ∧ P a := by
  intro c a c' hc hrun
  obtain ⟨hc', ha⟩ := h c a c' hc hrun
  exact ⟨hc', ⟨c, c', hc, hrun⟩, ha⟩

/-- A value behind the computation does not matter. -/
theorem of_bind_pure {T : Prop} {b : β}
    (h : Ensures scopes (m >>= fun _ => Pure.pure b) fun _ => T) :
    Ensures scopes m fun _ => T := by
  intro c a c' hc hrun
  exact h c b c' hc (runOn_bind_eq_ok.mpr ⟨a, c', hrun, rfl⟩)

theorem write (f : CodeStream → CodeStream) : Ensures scopes (write f) fun _ => True := by
  intro c u c' hc hrun
  cases hrun
  exact ⟨hc.trans (.modifyStream c f), trivial⟩

theorem line (text : String) : Ensures scopes (line text) fun _ => True := .write (·.line text)

end Ensures

theorem HasGiven.of_ensures {m : Emit α} {P : α → Prop} {a : α} (h : HasGiven scopes m a)
    (hm : Ensures scopes m P) : P a := by
  obtain ⟨c, c', hc, hrun⟩ := h
  exact (hm c a c' hc hrun).2

theorem LooksUp.ensures {m : Emit α} {items : List Scope → List Item} (h : LooksUp m items)
    (hitems : ∀ item ∈ items scopes, item.scopes ⊆ scopes) :
    Ensures scopes m fun _ => True := by
  intro c a c' hc hrun
  obtain ⟨es, hes⟩ := h scopes c a c' hc.scopes hrun
  exact ⟨hes.evolves_of_items hc hitems, trivial⟩

theorem resolve_ensures (name : String) (wanted : Option CType) :
    Ensures scopes (resolve name wanted) fun _ => True :=
  (looksUp_resolve name wanted).ensures fun item hitem => by
    cases List.mem_singleton.mp hitem
    exact List.Subset.refl _

theorem expandLine_ensures (template : String) :
    Ensures scopes (expandLine template) fun _ => True := by
  refine .next ((looksUp_expandText template).ensures fun item hitem => ?_) .line
  obtain ⟨name, -, rfl⟩ := List.mem_map.mp hitem
  exact List.Subset.refl _

/-- In a scope of its own a computation runs inside of the others, whatever it declares there. -/
theorem inScope_ensures {m : Emit α} {P : α → Prop}
    (h : ∀ (c : Chain) a c', Evolves scopes c.scopes →
      m.runOn (c.push (.empty none)) = (.ok a, c') →
      (∃ s outer, c'.scopes = s :: outer ∧ Evolves scopes outer) ∧ P a) :
    Ensures scopes (inScope m) P := by
  intro c a c' hc hrun
  obtain ⟨_, c₁, hpush, hrest⟩ := runOn_bind_eq_ok.mp hrun
  cases hpush
  obtain ⟨c₂, hm, rfl⟩ := runOn_afterwards_eq_ok.mp hrest
  obtain ⟨⟨s, outer, hscopes, houter⟩, ha⟩ := h c a c₂ hc hm
  refine ⟨?_, ha⟩
  rw [Chain.pop, hscopes]
  exact houter.trans (.modifyStream { c₂ with scopes := outer } s.flushInto)

end Emit

/-! ### Loops -/

theorem Emit.scopes_of_bind {name : String} {b : Binding} {u : Unit} (hc : c.scopes = s :: outer)
    (h : (changeScope (·.bind name b)).runOn c = (.ok u, c')) :
    c'.scopes = { s with bindings := s.bindings ++ [(name, [b])] } :: outer := by
  obtain ⟨scopes, sink⟩ := c
  cases hc
  obtain ⟨t, ht, rfl⟩ := runOn_changeScope_eq_ok.mp h
  rw [Scope.bind] at ht
  split at ht
  next => cases ht
  next hnew =>
    rw [Bool.not_eq_true] at hnew
    cases ht
    rw [Table.insert_of_not_has _ hnew]

namespace RowLoop

variable {loop : RowLoop}

theorem scopes_of_bindAll {bs : List LoopBinding} {u : PUnit} (hc : c.scopes = s :: outer)
    (h : (bs.forM fun b => Emit.bind b.name b.type b.template).runOn c = (.ok u, c')) :
    c'.scopes = { s with bindings :=
      s.bindings ++ bs.map fun b => (b.name, [.ofText b.type b.template]) } :: outer := by
  induction bs generalizing c s with
  | nil =>
      obtain ⟨-, rfl⟩ := Emit.runOn_pure_eq_ok.mp h
      rw [hc, List.map_nil, List.append_nil]
  | cons b bs ih =>
      obtain ⟨_, c₁, hb, hrest⟩ := Emit.runOn_bind_eq_ok.mp h
      rw [ih (Emit.scopes_of_bind hc hb) hrest, List.append_assoc]
      rfl

/-- The names of the loop are bound in its scope, or the run has no result. -/
theorem scopes_of_bindNames {u : Unit} (hc : c.scopes = .empty none :: outer)
    (h : loop.bindNames.runOn c = (.ok u, c')) : c'.scopes = loop.scope :: outer := by
  obtain ⟨_, ⟨scopes₁, sink₁⟩, hpost, h⟩ := Emit.runOn_bind_eq_ok.mp h
  cases Emit.scopes_of_bind hc hpost
  obtain ⟨slot, c₂, hslot, h⟩ := Emit.runOn_bind_eq_ok.mp h
  cases hslot
  obtain ⟨_, c₃, hsyn, h⟩ := Emit.runOn_bind_eq_ok.mp h
  obtain ⟨_, c₄, hremove, h⟩ := Emit.runOn_bind_eq_ok.mp h
  exact scopes_of_bindAll (Emit.scopes_of_bind (Emit.scopes_of_bind rfl hsyn) hremove) h

/-- The body of a loop runs inside of the scope of the loop. -/
theorem emit_ensures {body : Emit α} {P : α → Prop}
    (h : Emit.Ensures (loop.scope :: scopes) body P) : Emit.Ensures scopes (loop.emit body) P := by
  refine .next (Emit.expandLine_ensures _) fun _ => .next (.line _) fun _ => ?_
  refine .bind (P := P) (Emit.inScope_ensures fun c a c' hc hrun => ?_)
    fun a ha => .next (.line _) fun _ => .pure ha
  obtain ⟨_, c₁, hnames, hbody⟩ := Emit.runOn_bind_eq_ok.mp hrun
  have hc₁ : Evolves (loop.scope :: scopes) c₁.scopes := by
    rw [scopes_of_bindNames rfl hnames]
    exact hc.append_left [loop.scope]
  obtain ⟨hc', ha⟩ := h c₁ a c' hc₁ hbody
  obtain ⟨s, outer, -, -, hscopes⟩ := List.forall₂_cons_left_iff.mp hc'.scopes
  rw [hscopes] at hc'
  exact ⟨⟨s, outer, hscopes, hc'.tail loop.not_usesField_scope⟩, ha⟩

end RowLoop

end KernelWeaver.Code
