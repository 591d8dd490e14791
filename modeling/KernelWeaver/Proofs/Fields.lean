import KernelWeaver.Generate.Update
import KernelWeaver.Proofs.Code.Binding
import KernelWeaver.Proofs.Code.Sessions
import KernelWeaver.Proofs.Compile
import KernelWeaver.Proofs.Merge.Storage
import KernelWeaver.Proofs.Printing.Occurrences
import KernelWeaver.Proofs.Snippet.Recovery

/-!
# Fields of a group's code

The names that the code of a group sees are bound before the code is emitted, and the struct gets
its fields from their bindings. In an update a binding reads no field but that of its own name, and
no name is bound twice. So what the code reads for a name are the values that were given for it.
-/

namespace KernelWeaver

open Code Code.Emit Snippet Typing Printing

/-! ### Compiling into scopes -/

section Compiling

variable {α : Type} {scopes : List Scope} {aliases : Aliases} {label source : String}

theorem ofAttempt_ensures (x : Attempt α) :
    Ensures scopes (ofAttempt x) fun a => x = .ok a := by
  cases x with
  | ok a => exact .pure rfl
  | error f =>
      intro c a c' _ hrun
      cases congrArg Prod.fst hrun

theorem rejectIf_ensures (label : String) (report : Report) :
    Ensures scopes (rejectIf label report) fun _ => report.hasError = false := by
  rw [rejectIf]
  split
  next => exact .fail _
  next h => exact .pure (Bool.eq_false_of_not_eq_true h)

theorem readTokens_ensures : Ensures scopes (readTokens aliases label source) fun _ => True :=
  .next (ofAttempt_ensures _) fun _ => .next (rejectIf_ensures _ _) fun _ => .pure trivial

/-- Compiling a snippet changes the scopes around it as emitting code does. -/
theorem compileSnippet_ensures (loop : Option RowLoop) :
    Ensures scopes (compileSnippet aliases loop label source) fun _ => True := by
  refine .next readTokens_ensures fun found => ?_
  refine .bind (rejectIf_ensures _ _) fun _ herror => ?_
  have hclean : (parseItems found.1).2 = [] := by
    refine List.eq_nil_iff_forall_not_mem.mpr fun d hd => ?_
    have hnot := List.any_eq_false.mp herror d (List.mem_append_right _ hd)
    rw [severity_of_mem_parseItems hd] at hnot
    exact hnot (decide_eq_true rfl)
  obtain ⟨ts, hderives⟩ := derives_of_clean hclean
  -- inside the loop, if there is one, its scope is around what is printed
  let around (inLoop : Bool) : List Scope :=
    if inLoop then (loop.map RowLoop.scope).toList ++ scopes else scopes
  refine .next (m := get) (P := fun _ => True) ?_ fun c => .next (rejectIf_ensures _ _) fun _ => ?_
  · intro c c₁ c₂ hc hrun
    cases hrun
    exact ⟨hc, trivial⟩
  · have hprinted : PrintedPhrase around
        (checkSnippet (settingIn aliases c (loop.map RowLoop.names)) (parseItems found.1).1).types
        (.items (parseItems found.1).1) := printedPhrase hderives
    have hloop : ∀ l ∈ loop, around true = l.scope :: scopes := by
      intro l hl
      cases hl
      rfl
    exact .next (hprinted [] loop hloop) fun _ => .pure trivial

end Compiling

/-! ### Binding names -/

namespace Code

variable {s t : Scope} {b : Binding}

/-- The struct of the innermost scope gets the fields of the bindings there, if there are no others
around. -/
theorem Evolves.offers_of_mem_struct {outer scopes : List Scope} {f : StructField}
    (h : Evolves (s :: outer) scopes) (hs : s.fields = some [])
    (houter : ∀ f, ¬ UsesField outer f) (hf : f ∈ (scopes.head?.bind Scope.fields).getD []) :
    ∃ name b, s.Offers name b ∧ b.field = some f := by
  obtain ⟨t, outer', -, -, rfl⟩ := List.forall₂_cons_left_iff.mp h.scopes
  rw [List.head?_cons, Option.bind_some] at hf
  cases hfields : t.fields with
  | none =>
      rw [hfields] at hf
      cases hf
  | some fields =>
      rw [hfields, Option.getD_some] at hf
      obtain ⟨u, hu, huse⟩ := h.fields f ⟨t, List.mem_cons_self, .inr ⟨fields, hfields, hf⟩⟩
      rcases List.mem_cons.mp hu with rfl | hu
      · rcases huse with hoffers | ⟨old, hold, hmem⟩
        · exact hoffers
        · rw [hs] at hold
          cases hold
          cases hmem
      · exact absurd ⟨u, hu, huse⟩ (houter f)

/-- Each name of the scope has one binding, and if that reads a field, then one of this name that
is as it should be. -/
structure Scope.Owns (P : StructField → Prop) (s : Scope) : Prop where
  single : ∀ name b b', s.Offers name b → s.Offers name b' → b = b'
  own : ∀ name b f, s.Offers name b → b.field = some f → f.name = name ∧ P f

variable {P : StructField → Prop}

theorem Scope.Owns.empty (fields : Option StructFields) : (Scope.empty fields).Owns P where
  single name b b' h := by
    obtain ⟨bs, hfind, -⟩ := h
    cases hfind
  own name b f h := by
    obtain ⟨bs, hfind, -⟩ := h
    cases hfind

theorem Scope.offers_of_bind {name other : String} {b' : Binding} (h : s.bind name b = .ok t) :
    t.Offers other b' ↔ if other = name then b' = b else s.Offers other b' := by
  rw [Scope.Offers, Scope.find?_bind h]
  split
  next => simp
  next => rfl

theorem Scope.Owns.bind {name : String} (hs : s.Owns P) (h : s.bind name b = .ok t)
    (hb : ∀ f, b.field = some f → f.name = name ∧ P f) : t.Owns P where
  single other b₁ b₂ h₁ h₂ := by
    rw [Scope.offers_of_bind h] at h₁ h₂
    split at h₁
    next heq =>
      rw [if_pos heq] at h₂
      exact h₁.trans h₂.symm
    next hne =>
      rw [if_neg hne] at h₂
      exact hs.single other b₁ b₂ h₁ h₂
  own other b₁ f h₁ hf := by
    rw [Scope.offers_of_bind h] at h₁
    split at h₁
    next heq =>
      rw [h₁] at hf
      rw [heq]
      exact hb f hf
    next => exact hs.own other b₁ f h₁ hf

namespace Emit

variable {α β : Type}

/-- Names are bound in the innermost scope, each at most once and to what reads no field but one of
this name that is as it should be. -/
def BindsOwn (P : StructField → Prop) (m : Emit α) : Prop :=
  ∀ s outer sink a c, s.Owns P → m.runOn ⟨s :: outer, sink⟩ = (.ok a, c) →
    ∃ t, c = ⟨t :: outer, sink⟩ ∧ t.Owns P ∧ t.fields = s.fields

namespace BindsOwn

theorem pure (a : α) : BindsOwn P (Pure.pure a) := by
  intro s outer sink b c hs h
  obtain ⟨-, rfl⟩ := runOn_pure_eq_ok.mp h
  exact ⟨s, rfl, hs, rfl⟩

theorem bind {m : Emit α} {f : α → Emit β} (hm : BindsOwn P m) (hf : ∀ a, BindsOwn P (f a)) :
    BindsOwn P (m >>= f) := by
  intro s outer sink b c hs h
  obtain ⟨a, _, hrun, hrest⟩ := runOn_bind_eq_ok.mp h
  obtain ⟨t, rfl, ht, hfields⟩ := hm s outer sink a _ hs hrun
  obtain ⟨u, rfl, hu, hfields'⟩ := hf a t outer sink b c ht hrest
  exact ⟨u, rfl, hu, hfields'.trans hfields⟩

theorem ofError (x : Except Error α) : BindsOwn P (Emit.ofError x) := by
  intro s outer sink a c hs h
  obtain ⟨-, rfl⟩ := runOn_ofError_eq_ok.mp h
  exact ⟨s, rfl, hs, rfl⟩

theorem forM {f : β → Emit PUnit} {xs : List β} (h : ∀ x ∈ xs, BindsOwn P (f x)) :
    BindsOwn P (xs.forM f) := by
  induction xs with
  | nil => exact pure _
  | cons x xs ih =>
      obtain ⟨hx, hxs⟩ := List.forall_mem_cons.mp h
      exact hx.bind fun _ => ih hxs

theorem changeScope {name : String} {b : Binding}
    (hb : ∀ f, b.field = some f → f.name = name ∧ P f) :
    BindsOwn P (Emit.changeScope (·.bind name b)) := by
  intro s outer sink u c hs h
  obtain ⟨t, ht, rfl⟩ := runOn_changeScope_eq_ok.mp h
  refine ⟨t, rfl, hs.bind ht hb, ?_⟩
  rw [Scope.bind] at ht
  split at ht
  next => cases ht
  next =>
    cases ht
    rfl

theorem name (name : String) (type : CType) (template : String) :
    BindsOwn P (Emit.bind name type template) :=
  changeScope fun _ h => absurd h (Option.some_ne_none _).symm

theorem nameAfter (name : String) (type : CType) (template : String) (initialisers : List Nat) :
    BindsOwn P (Emit.bindAfter name type template initialisers) :=
  changeScope fun _ h => absurd h (Option.some_ne_none _).symm

theorem field {f : StructField} {name : String} (hf : f.name = name ∧ P f) (type : CType)
    (template : String) : BindsOwn P (Emit.bindField name type template f) :=
  changeScope fun _ h => Option.some.inj h ▸ hf

theorem addInitialiser (template : String) : BindsOwn P (Emit.addInitialiser template) := by
  intro s outer sink i c hs h
  cases h
  exact ⟨_, rfl, ⟨hs.single, hs.own⟩, rfl⟩

/-- The values of a parameter, each written as a literal. -/
theorem parameters {type : Numeric} {members : List (Table Float)} {names : List String}
    (h : ∀ name ∈ names,
      P ⟨name, .num type, fun i => .ok (type.literal (memberValue members i name))⟩) :
    BindsOwn P (bindParameters type "" members names) := by
  induction names with
  | nil => exact pure ()
  | cons first names ih =>
      obtain ⟨hfirst, hnames⟩ := List.forall_mem_cons.mp h
      rw [bindParameters]
      dsimp only
      split
      next => exact (BindsOwn.name _ _ _).bind fun _ => ih hnames
      next =>
        rw [String.append_empty]
        exact (field ⟨rfl, hfirst⟩ _ _).bind fun _ => ih hnames

end BindsOwn

end Emit

end Code

namespace Generate

variable {t : Target} {blockSize : Nat} {g : MergedGroup CustomUpdate} {c c' : Chain}
  {fields : StructFields}

/-! ### Updates -/

/-- What a name of an update stands for in one of its members. -/
inductive OwnText (t : Target) (model : UpdateModel) (u : CustomUpdate) :
    (name text : String) → Prop where
  | size : OwnText t model u "size" (toString u.size)
  | var {v : Var} : v ∈ model.vars → OwnText t model u v.name (deviceArray v.name u.name)
  | ref {slot : RefSlot} {r : VarReference} : slot ∈ model.refs →
      u.refs.find? slot.name = some r → OwnText t model u slot.name r.array
  | param {name : String} {value : Float} : name ∈ model.params →
      u.params.find? name = some value →
      OwnText t model u name (t.model.precision.literal value)
  | derived {d : DerivedParam} : d ∈ model.derived →
      OwnText t model u d.name (t.model.precision.literal (d.value u.params t.model.dt))
  | globalParam {p : GlobalParam} : p ∈ model.globals →
      OwnText t model u p.name (deviceArray p.name u.name)

/-- The field has for each member what its name stands for there. -/
def OwnField (t : Target) (g : MergedGroup CustomUpdate) (f : StructField) : Prop :=
  ∀ i u, g.members[i]? = some u →
    ∃ text, f.value i = .ok text ∧ OwnText t g.archetype.model u f.name text

/-- A field with a text for each member. -/
theorem ownField_of_texts {name : String} {type : CType} {text : CustomUpdate → String}
    (h : ∀ u, OwnText t g.archetype.model u name (text u)) :
    OwnField t g ⟨name, type, entry (g.members.map text)⟩ := by
  intro i u hu
  refine ⟨text u, entry_eq_ok_iff.mpr ?_, h u⟩
  rw [List.getElem?_map, hu, Option.map_some]

theorem ownField_of_mem_ofVars {arrays : List ArrayBinding} {a : ArrayBinding}
    (hmade : ArrayBinding.ofVars t.aliases (g.members.map (·.name)) g.archetype.model.vars =
      .ok arrays) (ha : a ∈ arrays) : OwnField t g a.field := by
  obtain ⟨k, hk⟩ := List.mem_iff_getElem?.mp ha
  obtain ⟨v, hv, hmade'⟩ := exists_getElem?_of_forall₂ (mapM_eq_ok_iff.mp hmade).flip hk
  intro i u hu
  have hvalue := value_of_ofVars hmade hv hk
    (show (g.members.map (·.name))[i]? = some u.name by rw [List.getElem?_map, hu, Option.map_some])
  obtain ⟨type, -, hpure⟩ := bind_eq_ok.mp hmade'
  cases hpure
  exact ⟨_, entry_eq_ok_iff.mpr hvalue, .var (List.mem_of_getElem? hv)⟩

theorem ownField_of_mem_ofRefs {arrays : List ArrayBinding} {a : ArrayBinding}
    (hmade : ArrayBinding.ofRefs t.aliases (g.members.map fun m => (m.name, m.refs))
      g.archetype.model.refs = .ok arrays) (ha : a ∈ arrays) : OwnField t g a.field := by
  obtain ⟨k, hk⟩ := List.mem_iff_getElem?.mp ha
  obtain ⟨slot, hslot, hmade'⟩ := exists_getElem?_of_forall₂ (mapM_eq_ok_iff.mp hmade).flip hk
  intro i u hu
  have hmember : (g.members.map fun m => (m.name, m.refs))[i]? = some (u.name, u.refs) := by
    rw [List.getElem?_map, hu, Option.map_some]
  obtain ⟨filled, hfilled, hrest⟩ := bind_eq_ok.mp hmade'
  obtain ⟨type, -, hpure⟩ := bind_eq_ok.mp hrest
  obtain ⟨r, -, hbound⟩ := exists_getElem?_of_forall₂ (mapM_eq_ok_iff.mp hfilled) hmember
  have hr := boundTo_eq_ok.mp hbound
  have hvalue := value_of_ofRefs hmade hslot hk hmember hr
  cases hpure
  exact ⟨_, entry_eq_ok_iff.mpr hvalue, .ref (List.mem_of_getElem? hslot) hr⟩

theorem bindsOwn_bindElements {P : StructField → Prop} (index : ArrayBinding → String)
    {arrays : List ArrayBinding} (h : ∀ a ∈ arrays, P a.field) :
    BindsOwn P (bindElements index arrays) :=
  .forM fun a ha => .field (show a.field.name = a.name ∧ P a.field from ⟨rfl, h a ha⟩) _ _

theorem bindsOwn_bindParams : BindsOwn (OwnField t g) (bindParams t.model g.archetype.model.params
    g.archetype.model.derived (g.members.map fun m => (m.name, m.params))) := by
  intro s outer sink u c hs h
  unfold bindParams at h
  obtain ⟨_, _, hrun, h⟩ := runOn_bind_eq_ok.mp h
  obtain ⟨hchecks, rfl⟩ := runOn_forM_ofError_eq_ok
    (f := fun m : String × Table Float => checkParams g.archetype.model.params m.1 m.2) |>.mp hrun
  obtain ⟨_, _, hparams, hderived⟩ := runOn_bind_eq_ok.mp h
  have hmembers {i : Nat} {m : CustomUpdate} (hm : g.members[i]? = some m) :
      (g.members.map fun m => (m.name, m.params))[i]? = some (m.name, m.params) := by
    rw [List.getElem?_map, hm, Option.map_some]
  have hown : ∀ name ∈ g.archetype.model.params, OwnField t g ⟨name, .num t.model.precision,
      fun i => .ok (t.model.precision.literal (memberValue
        ((g.members.map fun m => (m.name, m.params)).map Prod.snd) i name))⟩ := by
    intro name hname i m hm
    obtain ⟨own, hown⟩ := exists_find?_of_checkParams
      (hchecks _ (List.mem_of_getElem? (hmembers hm))) name hname
    have hvalue : memberValue ((g.members.map fun m => (m.name, m.params)).map Prod.snd) i name =
        own := by
      simp [memberValue, hm, hown]
    exact ⟨_, rfl, hvalue ▸ .param hname hown⟩
  obtain ⟨s₁, rfl, hs₁, hfields₁⟩ := BindsOwn.parameters hown s outer sink _ _ hs hparams
  -- a derived parameter that is named twice would have been refused
  obtain ⟨-, -, -, hnodup, -⟩ := gives_of_bindParameters hderived
  have hderivedOwn : ∀ name ∈ g.archetype.model.derived.map DerivedParam.name,
      OwnField t g ⟨name, .num t.model.precision,
        fun i => .ok (t.model.precision.literal (memberValue
          (((g.members.map fun m => (m.name, m.params)).map Prod.snd).map
            (derivedValues g.archetype.model.derived t.model.dt)) i name))⟩ := by
    intro name hname i m hm
    obtain ⟨d, hd, rfl⟩ := List.mem_map.mp hname
    have hfind : (derivedValues g.archetype.model.derived t.model.dt m.params).find? d.name =
        some (d.value m.params t.model.dt) :=
      Table.find?_ofList (by simpa [Function.comp_def] using hnodup) (List.mem_map_of_mem hd)
    have hvalue : memberValue (((g.members.map fun m => (m.name, m.params)).map Prod.snd).map
        (derivedValues g.archetype.model.derived t.model.dt)) i d.name =
          d.value m.params t.model.dt := by
      simp [memberValue, hm, hfind]
    exact ⟨_, rfl, hvalue ▸ .derived hd⟩
  obtain ⟨s₂, rfl, hs₂, hfields₂⟩ := BindsOwn.parameters hderivedOwn s₁ outer sink _ _ hs₁ hderived
  exact ⟨s₂, rfl, hs₂, hfields₂.trans hfields₁⟩

theorem bindsOwn_bindGlobals : BindsOwn (OwnField t g)
    (bindGlobals t.aliases (g.members.map (·.name)) g.archetype.model.globals) := by
  refine .forM fun p hp => .bind (.ofError _) fun type => .field ?_ _ _
  refine ⟨rfl, ?_⟩
  rw [List.map_map]
  exact ownField_of_texts fun u => .globalParam hp

theorem bindsOwn_bindBatches {P : StructField → Prop} (lid : String) (blockSize : Nat) :
    BindsOwn P (bindBatches lid blockSize) := by
  refine .bind (.addInitialiser _) fun _ => .bind (.nameAfter _ _ _ _) fun _ => ?_
  refine .bind (.addInitialiser _) fun _ => .bind (.nameAfter _ _ _ _) fun _ => ?_
  refine .bind (.addInitialiser _) fun _ => .bind (.nameAfter _ _ _ _) fun _ => ?_
  exact .bind (.addInitialiser _) fun _ => .nameAfter _ _ _ _

/-- The element and the batch are bound in front of the rest. -/
theorem exists_of_bindIds {α : Type} {P : StructField → Prop} {batched : Bool} {lid : String}
    {rest : Emit α} {s : Scope} {outer : List Scope} {sink : CodeStream} {a : α} (hs : s.Owns P)
    (h : (if batched = true then do
        bindBatches lid blockSize
        rest
      else do
        Emit.bind "id" idType lid
        Emit.bind "batch" idType "0"
        rest).runOn ⟨s :: outer, sink⟩ = (.ok a, c)) :
    ∃ u : Scope, u.Owns P ∧ u.fields = s.fields ∧
      rest.runOn ⟨u :: outer, sink⟩ = (.ok a, c) := by
  split at h
  next =>
    obtain ⟨_, _, hrun, h⟩ := runOn_bind_eq_ok.mp h
    obtain ⟨u, rfl, hu, hfields⟩ := bindsOwn_bindBatches _ _ _ _ _ _ _ hs hrun
    exact ⟨u, hu, hfields, h⟩
  next =>
    obtain ⟨_, _, hrun, h⟩ := runOn_bind_eq_ok.mp h
    obtain ⟨t, rfl, ht, hfields⟩ := BindsOwn.name _ _ _ _ _ _ _ _ hs hrun
    obtain ⟨_, _, hrun, h⟩ := runOn_bind_eq_ok.mp h
    obtain ⟨u, rfl, hu, hfields'⟩ := BindsOwn.name _ _ _ _ _ _ _ _ ht hrun
    exact ⟨u, hu, hfields'.trans hfields, h⟩

/-- The code of an update behind the bindings of its names. -/
def updateCode (t : Target) (g : MergedGroup CustomUpdate) : Emit Unit := do
  expandLine "if($(id) < $(size))"
  line "\x7b"
  compileSnippet t.aliases none
    ("custom update " ++ quoted g.archetype.name ++ " update code") g.archetype.model.code
  line "\x7d"

theorem updateCode_ensures (scopes : List Scope) :
    Ensures scopes (updateCode t g) fun _ => True :=
  .next (expandLine_ensures _) fun _ => .next (.line _) fun _ =>
    .next (compileSnippet_ensures none) fun _ => .line _

/-- The names of an update are bound in front of its code, each to what is the member's own. -/
theorem exists_scope_of_emitUpdate (h : (emitUpdate t blockSize g).runOn c = (.ok fields, c')) :
    ∃ (s : Scope) (c₀ c₁ : Chain), Evolves c.scopes c₀.scopes ∧ s.Owns (OwnField t g) ∧
      s.fields = some [] ∧ (updateCode t g).runOn ⟨s :: c₀.scopes, c₀.sink⟩ = (.ok (), c₁) ∧
      c' = c₁.pop ∧ fields = (c₁.scopes.head?.bind Scope.fields).getD [] := by
  rw [emitUpdate] at h
  dsimp only at h
  obtain ⟨vars, _, hrun, h⟩ := runOn_bind_eq_ok.mp h
  obtain ⟨hvars, rfl⟩ := runOn_ofError_eq_ok.mp hrun
  obtain ⟨refs, _, hrun, h⟩ := runOn_bind_eq_ok.mp h
  obtain ⟨hrefs, rfl⟩ := runOn_ofError_eq_ok.mp hrun
  obtain ⟨lid, c₀, hid, h⟩ := runOn_bind_eq_ok.mp h
  obtain ⟨⟨_, fields'⟩, c₂, hstruct, hlast⟩ := runOn_bind_eq_ok.mp h
  obtain ⟨rfl, rfl⟩ := runOn_pure_eq_ok.mp hlast
  obtain ⟨c₁, hin, hfields, rfl⟩ := exists_of_inStruct hstruct
  obtain ⟨_, _, hrun, hin⟩ := runOn_bind_eq_ok.mp hin
  have hsize : BindsOwn (OwnField t g) (bindCount "size" "size" (g.members.map (·.size))) := by
    refine .field ?_ _ _
    refine ⟨rfl, ?_⟩
    rw [List.map_map]
    exact ownField_of_texts fun u => .size
  obtain ⟨s₁, rfl, hs₁, hf₁⟩ := hsize _ _ _ _ _ (.empty _) hrun
  obtain ⟨s₂, hs₂, hf₂, hin⟩ := exists_of_bindIds hs₁ hin
  obtain ⟨_, _, hrun, hin⟩ := runOn_bind_eq_ok.mp hin
  obtain ⟨s₃, rfl, hs₃, hf₃⟩ := bindsOwn_bindElements _
    (fun a ha => ownField_of_mem_ofVars hvars ha) _ _ _ _ _ hs₂ hrun
  obtain ⟨_, _, hrun, hin⟩ := runOn_bind_eq_ok.mp hin
  obtain ⟨s₄, rfl, hs₄, hf₄⟩ := bindsOwn_bindElements _
    (fun a ha => ownField_of_mem_ofRefs hrefs ha) _ _ _ _ _ hs₃ hrun
  obtain ⟨_, _, hrun, hin⟩ := runOn_bind_eq_ok.mp hin
  obtain ⟨s₅, rfl, hs₅, hf₅⟩ := bindsOwn_bindParams _ _ _ _ _ hs₄ hrun
  obtain ⟨_, _, hrun, hin⟩ := runOn_bind_eq_ok.mp hin
  obtain ⟨s, rfl, hs, hf₆⟩ := bindsOwn_bindGlobals _ _ _ _ _ hs₅ hrun
  have hempty : s.fields = some [] :=
    hf₆.trans (hf₅.trans (hf₄.trans (hf₃.trans (hf₂.trans hf₁))))
  exact ⟨s, c₀, c₁, (resolve_ensures _ _ _ _ _ (.refl _) hid).1, hs, hempty, hin, rfl, hfields⟩

/-- The code of an update is emitted behind the bindings of its names. Where no struct is around,
the struct of the update has fields of these bindings only, and each field has for each member what
its name stands for there. If a binding reads a field and the struct has one of that name, it is the
one that the binding supplies. -/
theorem update_reads_own_fields (hplain : ∀ f, ¬ UsesField c.scopes f)
    (h : (emitUpdate t blockSize g).runOn c = (.ok fields, c')) :
    ∃ (s : Scope) (c₀ c₁ : Chain),
      (updateCode t g).runOn ⟨s :: c₀.scopes, c₀.sink⟩ = (.ok (), c₁) ∧ c' = c₁.pop ∧
      (∀ f ∈ fields, OwnField t g f ∧ ∃ b, s.Offers f.name b ∧ b.field = some f) ∧
      ∀ name b f, s.Offers name b → b.field = some f →
        f.name = name ∧ ∀ k ∈ fields, k.name = f.name → k = f := by
  obtain ⟨s, c₀, c₁, hc₀, hs, hempty, hrun, rfl, hfields⟩ := exists_scope_of_emitUpdate h
  -- the code registers fields of these bindings only
  have hevolves := (updateCode_ensures (s :: c₀.scopes) _ _ _ (.refl _) hrun).1
  have hoffered : ∀ f ∈ fields, OwnField t g f ∧ ∃ b, s.Offers f.name b ∧ b.field = some f := by
    intro f hf
    obtain ⟨name, b, hb, hfield⟩ := hevolves.offers_of_mem_struct hempty
      (fun f hf => hplain f (hc₀.fields f hf)) (hfields ▸ hf)
    obtain ⟨rfl, hown⟩ := hs.own name b f hb hfield
    exact ⟨hown, b, hb, hfield⟩
  refine ⟨s, c₀, c₁, hrun, rfl, hoffered, fun name b f hb hf => ?_⟩
  obtain ⟨hname, -⟩ := hs.own name b f hb hf
  refine ⟨hname, fun k hk hkname => ?_⟩
  obtain ⟨-, b', hb', hfield⟩ := hoffered k hk
  rw [hkname, hname] at hb'
  rw [hs.single name b b' hb hb', hfield] at hf
  exact Option.some.inj hf

end Generate

end KernelWeaver
