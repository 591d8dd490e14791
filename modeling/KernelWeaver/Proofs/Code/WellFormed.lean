import KernelWeaver.Code.Emit
import KernelWeaver.Proofs.Table
import Mathlib

/-!
# Well-formed scopes

Scopes are well formed if the code of every name in them can be put together: what the templates
refer to is bound, no reference leads back to itself, the initialisers exist, and every field has a
struct and one type. Emitting code into scopes changes none of this.
-/

namespace KernelWeaver.Code

/-- Some of the scopes binds the name. -/
def BoundIn (scopes : List Scope) (name : String) : Prop :=
  ∃ s ∈ scopes, s.binds name = true

namespace Scope

/-- The scope has the binding under the name, perhaps among others. -/
def Offers (s : Scope) (name : String) (b : Binding) : Prop :=
  ∃ bs, s.bindings.find? name = some bs ∧ b ∈ bs

/-- The code of a name needs that of another name of the scope. A marker takes the first binding of
its name, so the other bindings of a name are never on a cycle; an initialiser is begun only once,
so what its code refers to need not be counted either. -/
def RefersTo (s : Scope) (name other : String) : Prop :=
  other ≠ name ∧ s.binds other = true ∧
    ∃ b, s.select? name none = some b ∧ other ∈ b.template.markerNames

/-- The scopes in which a marker in a template of a name is looked up. A marker for the name itself
means the name in the scopes around. -/
def seenFrom (s : Scope) (outer : List Scope) (name marker : String) : List Scope :=
  if marker = name then outer else s :: outer

/-- A scope whose names can all be resolved, inside `outer`. -/
structure WellFormed (s : Scope) (outer : List Scope) : Prop where
  /-- A name that is bound has a binding, as `bind` and `overload` leave it. -/
  nonempty : ∀ name bs, s.bindings.find? name = some bs → bs ≠ []
  markers : ∀ name b, s.Offers name b → ∀ m ∈ b.template.markerNames,
    BoundIn (s.seenFrom outer name m) m
  initialiserMarkers : ∀ i ∈ s.initialisers, ∀ m ∈ i.template.markerNames, BoundIn (s :: outer) m
  initialisers : ∀ name b, s.Offers name b → ∀ i ∈ b.initialisers, i < s.initialisers.length
  fields : ∀ name b, s.Offers name b → b.field.isSome →
    ∃ t ∈ s :: outer, t.fields.isSome = true
  acyclic : ∀ name, ¬ Relation.TransGen s.RefersTo name name

/-- The number of initialisers that have not been needed yet. -/
def unused (s : Scope) : Nat := s.initialisers.countP (·.state = .unused)

/-- What emitting code can do to a scope: bindings and initialisers stay, initialisers may be used
up, and fields may be registered. -/
structure Evolves (s t : Scope) : Prop where
  bindings : t.bindings = s.bindings
  templates : t.initialisers.map Initialiser.template = s.initialisers.map Initialiser.template
  unused : t.unused ≤ s.unused
  fields : t.fields.isSome = s.fields.isSome

end Scope

/-- A binding of the scopes reads the field, or it is registered with one of them. -/
def UsesField (scopes : List Scope) (field : StructField) : Prop :=
  ∃ s ∈ scopes, (∃ name b, s.Offers name b ∧ b.field = some field) ∨
    ∃ fields, s.fields = some fields ∧ field ∈ fields

/-- Each of the scopes is well formed inside those behind it. -/
def EachWellFormed : List Scope → Prop
  | [] => True
  | s :: outer => s.WellFormed outer ∧ EachWellFormed outer

/-- Scopes, the innermost first, in which every name can be resolved. -/
structure WellFormed (scopes : List Scope) : Prop where
  each : EachWellFormed scopes
  /-- No field name is used with two kinds of type. -/
  agree : ∀ f g, UsesField scopes f → UsesField scopes g → f.name = g.name →
    f.type.sameKind g.type = true

/-- What emitting code can do to the scopes. A field that it registers belongs to one of their
bindings. -/
structure Evolves (old new : List Scope) : Prop where
  scopes : List.Forall₂ Scope.Evolves old new
  fields : ∀ f, UsesField new f → UsesField old f

/-- The number of initialisers in scopes that have not been needed yet. -/
def unusedIn (scopes : List Scope) : Nat := (scopes.map Scope.unused).sum

variable {inner outer scopes old new : List Scope} {s t : Scope} {name : String} {b : Binding}
  {f : StructField}

theorem boundIn_cons : BoundIn (s :: outer) name ↔ s.binds name = true ∨ BoundIn outer name := by
  simp only [BoundIn, List.mem_cons, exists_eq_or_imp]

theorem usesField_append :
    UsesField (inner ++ outer) f ↔ UsesField inner f ∨ UsesField outer f := by
  simp only [UsesField, List.mem_append, or_and_right, exists_or]

theorem unusedIn_cons : unusedIn (s :: outer) = s.unused + unusedIn outer := by
  rw [unusedIn, List.map_cons, List.sum_cons, unusedIn]

theorem unusedIn_append : unusedIn (inner ++ outer) = unusedIn inner + unusedIn outer := by
  rw [unusedIn, List.map_append, List.sum_append, unusedIn, unusedIn]

namespace Scope

theorem Evolves.refl (s : Scope) : s.Evolves s := ⟨rfl, rfl, Nat.le_refl _, rfl⟩

theorem Evolves.trans {u : Scope} (h : s.Evolves t) (h' : t.Evolves u) : s.Evolves u :=
  ⟨h'.bindings.trans h.bindings, h'.templates.trans h.templates, Nat.le_trans h'.unused h.unused,
    h'.fields.trans h.fields⟩

theorem Evolves.binds (h : s.Evolves t) (name : String) : t.binds name = s.binds name := by
  rw [Scope.binds, Scope.binds, h.bindings]

theorem Evolves.select? (h : s.Evolves t) (name : String) (wanted : Option CType) :
    t.select? name wanted = s.select? name wanted := by
  rw [Scope.select?, Scope.select?, h.bindings]

theorem Evolves.offers (h : s.Evolves t) : t.Offers name b ↔ s.Offers name b := by
  rw [Offers, Offers, h.bindings]

theorem Evolves.refersTo (h : s.Evolves t) : t.RefersTo = s.RefersTo := by
  funext name other
  rw [RefersTo, RefersTo, h.binds, h.select?]

theorem Evolves.length_initialisers (h : s.Evolves t) :
    t.initialisers.length = s.initialisers.length := by
  rw [← List.length_map Initialiser.template, h.templates, List.length_map]

theorem Evolves.exists_initialiser (h : s.Evolves t) {i : Initialiser} (hi : i ∈ t.initialisers) :
    ∃ j ∈ s.initialisers, j.template = i.template := by
  have hmem := List.mem_map_of_mem (f := Initialiser.template) hi
  rw [h.templates] at hmem
  exact List.mem_map.mp hmem

theorem binds_of_select? {wanted : Option CType} (h : s.select? name wanted = some b) :
    s.binds name = true := by
  rw [select?] at h
  cases hfind : s.bindings.find? name with
  | none => rw [hfind] at h; cases h
  | some bs => rw [Scope.binds, Table.has, hfind]; rfl

theorem offers_of_select? {wanted : Option CType} (h : s.select? name wanted = some b) :
    s.Offers name b := by
  rw [select?] at h
  cases hfind : s.bindings.find? name with
  | none => rw [hfind] at h; cases h
  | some bs =>
      refine ⟨bs, hfind, ?_⟩
      rw [hfind, Option.bind_eq_bind, Option.bind_some] at h
      split at h
      next =>
        rcases Option.or_eq_some_iff.mp (Option.orElse_eq_or.symm.trans h) with hfound | ⟨_, hhead⟩
        · exact List.mem_of_find?_eq_some hfound
        · exact List.mem_of_mem_head? hhead
      next => exact List.mem_of_mem_head? h

/-- A name with bindings has one of every wanted type, be it the first of another type. -/
theorem exists_select?_of_ne_nil {bs : List Binding} (hfind : s.bindings.find? name = some bs)
    (hne : bs ≠ []) (wanted : Option CType) : ∃ b ∈ bs, s.select? name wanted = some b := by
  have hsome : ∃ b, s.select? name wanted = some b := by
    obtain ⟨x, xs, rfl⟩ := List.exists_cons_of_ne_nil hne
    rw [select?, hfind, Option.bind_eq_bind, Option.bind_some]
    split
    next =>
      generalize List.find? _ (x :: xs) = found
      cases found with
      | none => exact ⟨x, rfl⟩
      | some b => exact ⟨b, rfl⟩
    next => exact ⟨x, rfl⟩
  obtain ⟨b, hselect⟩ := hsome
  obtain ⟨bs', hfind', hb⟩ := offers_of_select? hselect
  rw [hfind] at hfind'
  cases hfind'
  exact ⟨b, hb, hselect⟩

theorem WellFormed.exists_select? (h : s.WellFormed outer) (hb : s.binds name = true)
    (wanted : Option CType) : ∃ b, s.select? name wanted = some b := by
  obtain ⟨bs, hfind⟩ := Option.isSome_iff_exists.mp hb
  obtain ⟨b, -, hselect⟩ := exists_select?_of_ne_nil hfind (h.nonempty name bs hfind) wanted
  exact ⟨b, hselect⟩

end Scope

theorem forall₂_trans {α : Type} {R : α → α → Prop} (hR : ∀ x y z, R x y → R y z → R x z)
    {xs ys zs : List α} (h : List.Forall₂ R xs ys) (h' : List.Forall₂ R ys zs) :
    List.Forall₂ R xs zs := by
  induction h generalizing zs with
  | nil =>
      cases h'
      exact .nil
  | cons hx _ ih =>
      cases h' with
      | cons hy hrest => exact .cons (hR _ _ _ hx hy) (ih hrest)

theorem boundIn_congr (h : List.Forall₂ Scope.Evolves old new) :
    BoundIn new name ↔ BoundIn old name := by
  induction h with
  | nil => rfl
  | cons hs _ ih => rw [boundIn_cons, boundIn_cons, hs.binds, ih]

theorem exists_fields_congr (h : List.Forall₂ Scope.Evolves old new)
    (hold : ∃ s ∈ old, s.fields.isSome = true) : ∃ s ∈ new, s.fields.isSome = true := by
  induction h with
  | nil => exact hold
  | cons hs _ ih =>
      obtain ⟨u, hu, hf⟩ := hold
      rcases List.mem_cons.mp hu with rfl | hu
      · exact ⟨_, List.mem_cons_self, hs.fields.trans hf⟩
      · obtain ⟨v, hv, hvf⟩ := ih ⟨u, hu, hf⟩
        exact ⟨v, List.mem_cons_of_mem _ hv, hvf⟩

theorem Scope.WellFormed.congr (h : s.WellFormed old) (hs : s.Evolves t)
    (hscopes : List.Forall₂ Scope.Evolves old new) : t.WellFormed new where
  nonempty := by
    rw [hs.bindings]
    exact h.nonempty
  markers name b hb m hm := by
    refine (boundIn_congr ?_).mpr (h.markers name b (hs.offers.mp hb) m hm)
    rw [Scope.seenFrom, Scope.seenFrom]
    split
    next => exact hscopes
    next => exact .cons hs hscopes
  initialiserMarkers i hi m hm := by
    obtain ⟨j, hj, htemplate⟩ := hs.exists_initialiser hi
    rw [← htemplate] at hm
    exact (boundIn_congr (.cons hs hscopes)).mpr (h.initialiserMarkers j hj m hm)
  initialisers name b hb i hi := by
    rw [hs.length_initialisers]
    exact h.initialisers name b (hs.offers.mp hb) i hi
  fields name b hb hf :=
    exists_fields_congr (.cons hs hscopes) (h.fields name b (hs.offers.mp hb) hf)
  acyclic := by
    rw [hs.refersTo]
    exact h.acyclic

theorem EachWellFormed.congr (h : EachWellFormed old)
    (hscopes : List.Forall₂ Scope.Evolves old new) : EachWellFormed new := by
  induction hscopes with
  | nil => trivial
  | cons hs hrest ih => exact ⟨h.1.congr hs hrest, ih h.2⟩

theorem EachWellFormed.of_append (h : EachWellFormed (inner ++ outer)) : EachWellFormed outer := by
  induction inner with
  | nil => exact h
  | cons s inner ih => exact ih h.2

namespace WellFormed

theorem of_append (h : WellFormed (inner ++ outer)) : WellFormed outer where
  each := h.each.of_append
  agree f g hf hg := h.agree f g (usesField_append.mpr (.inr hf)) (usesField_append.mpr (.inr hg))

theorem tail (h : WellFormed (s :: outer)) : WellFormed outer :=
  have happend : WellFormed ([s] ++ outer) := h
  happend.of_append

theorem evolves (h : WellFormed old) (he : Evolves old new) : WellFormed new where
  each := h.each.congr he.scopes
  agree f g hf hg := h.agree f g (he.fields f hf) (he.fields g hg)

end WellFormed

namespace Evolves

theorem refl (scopes : List Scope) : Evolves scopes scopes :=
  ⟨List.forall₂_same.mpr fun s _ => .refl s, fun _ h => h⟩

theorem trans {last : List Scope} (h : Evolves old new) (h' : Evolves new last) :
    Evolves old last where
  scopes := forall₂_trans (fun _ _ _ => .trans) h.scopes h'.scopes
  fields f hf := h.fields f (h'.fields f hf)

theorem append_left (inner : List Scope) (h : Evolves old new) :
    Evolves (inner ++ old) (inner ++ new) where
  scopes := List.rel_append (List.forall₂_same.mpr fun s _ => .refl s) h.scopes
  fields f hf := usesField_append.mpr ((usesField_append.mp hf).imp_right (h.fields f))

/-- A change of one scope, with which only fields of the scopes are registered. -/
theorem of_scope (h : s.Evolves t) (hfields : ∀ fields, t.fields = some fields →
    ∀ f ∈ fields, UsesField (inner ++ s :: outer) f) :
    Evolves (inner ++ s :: outer) (inner ++ t :: outer) where
  scopes := List.rel_append (List.forall₂_same.mpr fun u _ => .refl u)
    (.cons h (List.forall₂_same.mpr fun u _ => .refl u))
  fields f := by
    rintro ⟨u, hu, huse⟩
    rcases List.mem_append.mp hu with hu | hu
    · exact ⟨u, List.mem_append_left _ hu, huse⟩
    rcases List.mem_cons.mp hu with rfl | hu
    · rcases huse with ⟨name, b, hb, hf⟩ | ⟨fields, hsome, hf⟩
      · exact ⟨s, by simp, .inl ⟨name, b, h.offers.mp hb, hf⟩⟩
      · exact hfields fields hsome f hf
    · exact ⟨u, List.mem_append_right _ (List.mem_cons_of_mem _ hu), huse⟩

/-- A change of the innermost scope that registers no field. -/
theorem head (h : s.Evolves t) (hf : t.fields = s.fields) : Evolves (s :: outer) (t :: outer) :=
  (of_scope h fun fields hsome _ hmem => ⟨s, by simp, .inr ⟨fields, hf ▸ hsome, hmem⟩⟩ :
    Evolves ([] ++ s :: outer) ([] ++ t :: outer))

theorem boundIn (h : Evolves old new) : BoundIn new name ↔ BoundIn old name :=
  boundIn_congr h.scopes

theorem unusedIn_le (h : Evolves old new) : unusedIn new ≤ unusedIn old := by
  obtain ⟨hscopes, _⟩ := h
  clear * - hscopes
  induction hscopes with
  | nil => exact Nat.le_refl _
  | cons hs _ ih =>
      rw [unusedIn_cons, unusedIn_cons]
      exact Nat.add_le_add hs.unused ih

end Evolves

/-! ## Establishing well-formedness

What has to hold of the entries of given scopes can be decided; that no reference leads back to
itself follows from heights that fall along the references. -/

instance (scopes : List Scope) (name : String) : Decidable (BoundIn scopes name) :=
  inferInstanceAs (Decidable (∃ s ∈ scopes, s.binds name = true))

theorem Scope.Offers.exists_entry (h : s.Offers name b) :
    ∃ bs, (name, bs) ∈ s.bindings ∧ b ∈ bs := by
  obtain ⟨bs, hfind, hb⟩ := h
  exact ⟨bs, Table.mem_of_find? hfind, hb⟩

theorem Scope.WellFormed.of_entries (height : String → Nat)
    (hentries : ∀ entry ∈ s.bindings, entry.2.isEmpty = false ∧ ∀ b ∈ entry.2,
      (∀ m ∈ b.template.markerNames, BoundIn (s.seenFrom outer entry.1 m) m ∧
        (m ≠ entry.1 → s.binds m = true → height m < height entry.1)) ∧
      (∀ i ∈ b.initialisers, i < s.initialisers.length) ∧
      (b.field.isSome = true → ∃ t ∈ s :: outer, t.fields.isSome = true))
    (hinitialisers : ∀ i ∈ s.initialisers, ∀ m ∈ i.template.markerNames,
      BoundIn (s :: outer) m) : s.WellFormed outer where
  nonempty name bs hfind := by
    have hnonempty := (hentries _ (Table.mem_of_find? hfind)).1
    rintro rfl
    cases hnonempty
  markers name b hb m hm := by
    obtain ⟨bs, hentry, hb⟩ := hb.exists_entry
    exact (((hentries _ hentry).2 b hb).1 m hm).1
  initialiserMarkers := hinitialisers
  initialisers name b hb := by
    obtain ⟨bs, hentry, hb⟩ := hb.exists_entry
    exact ((hentries _ hentry).2 b hb).2.1
  fields name b hb := by
    obtain ⟨bs, hentry, hb⟩ := hb.exists_entry
    exact ((hentries _ hentry).2 b hb).2.2
  acyclic name hcycle := by
    have hstep : ∀ a m, s.RefersTo a m → height m < height a := by
      rintro a m ⟨hne, hbinds, b, hselect, hm⟩
      obtain ⟨bs, hentry, hb⟩ := (offers_of_select? hselect).exists_entry
      exact (((hentries _ hentry).2 b hb).1 m hm).2 hne hbinds
    have hfalls : ∀ a m, Relation.TransGen s.RefersTo a m → height m < height a := by
      intro a m hpath
      induction hpath with
      | single hr => exact hstep _ _ hr
      | tail _ hr ih => exact Nat.lt_trans (hstep _ _ hr) ih
    exact Nat.lt_irrefl _ (hfalls name name hcycle)

/-- The fields that bindings of the scopes read or that are registered with them. -/
def fieldsOf (scopes : List Scope) : List StructField :=
  scopes.flatMap fun s =>
    s.bindings.flatMap (fun entry => entry.2.filterMap Binding.field) ++ s.fields.getD []

theorem UsesField.mem_fieldsOf (h : UsesField scopes f) : f ∈ fieldsOf scopes := by
  obtain ⟨s, hs, huse⟩ := h
  refine List.mem_flatMap.mpr ⟨s, hs, List.mem_append.mpr ?_⟩
  rcases huse with ⟨name, b, hb, hf⟩ | ⟨fields, hfields, hf⟩
  · obtain ⟨bs, hentry, hb⟩ := hb.exists_entry
    exact .inl (List.mem_flatMap.mpr ⟨_, hentry, List.mem_filterMap.mpr ⟨b, hb, hf⟩⟩)
  · rw [hfields]
    exact .inr hf

theorem WellFormed.of_fieldsOf (heach : EachWellFormed scopes)
    (hagree : ∀ f ∈ fieldsOf scopes, ∀ g ∈ fieldsOf scopes, f.name = g.name →
      f.type.sameKind g.type = true) : WellFormed scopes :=
  ⟨heach, fun f g hf hg => hagree f hf.mem_fieldsOf g hg.mem_fieldsOf⟩

end KernelWeaver.Code
