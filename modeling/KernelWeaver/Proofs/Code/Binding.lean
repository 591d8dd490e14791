import KernelWeaver.Proofs.Code.Parameters

/-!
# Computations that bind names

The names that the code of a group sees are bound before any of the code is emitted. Until then
nothing but the bindings of the innermost scope changes, and no binding is lost.
-/

namespace KernelWeaver

namespace Code

theorem Scope.Keeps.find?_eq_none {s t : Scope} {name : String} (h : s.Keeps t)
    (hnone : t.bindings.find? name = none) : s.bindings.find? name = none := by
  rw [Option.eq_none_iff_forall_ne_some] at hnone ⊢
  exact fun bs hbs => hnone bs (h _ _ hbs)

namespace Emit

variable {α β : Type}

/-- A result leaves nothing behind but new names in the innermost scope. -/
def OnlyBinds (m : Emit α) : Prop :=
  ∀ s outer sink a c, m.runOn ⟨s :: outer, sink⟩ = (.ok a, c) →
    ∃ bindings, c = ⟨{ s with bindings } :: outer, sink⟩ ∧ s.Keeps { s with bindings }

namespace OnlyBinds

theorem pure (a : α) : OnlyBinds (Pure.pure a) := by
  intro s outer sink b c h
  obtain ⟨-, rfl⟩ := runOn_pure_eq_ok.mp h
  exact ⟨s.bindings, rfl, fun _ _ hfind => hfind⟩

theorem bind {m : Emit α} {f : α → Emit β} (hm : OnlyBinds m) (hf : ∀ a, OnlyBinds (f a)) :
    OnlyBinds (m >>= f) := by
  intro s outer sink b c h
  obtain ⟨a, _, hrun, hrest⟩ := runOn_bind_eq_ok.mp h
  obtain ⟨_, rfl, hkeeps⟩ := hm s outer sink a _ hrun
  obtain ⟨bindings, rfl, hkeeps'⟩ := hf a _ outer sink b c hrest
  exact ⟨bindings, rfl, hkeeps.trans hkeeps'⟩

theorem ofError (x : Except Error α) : OnlyBinds (Emit.ofError x) := by
  intro s outer sink a c h
  obtain ⟨-, rfl⟩ := runOn_ofError_eq_ok.mp h
  exact ⟨s.bindings, rfl, fun _ _ hfind => hfind⟩

theorem forM {f : β → Emit PUnit} (h : ∀ x, OnlyBinds (f x)) (xs : List β) :
    OnlyBinds (xs.forM f) := by
  induction xs with
  | nil => exact pure _
  | cons x xs ih => exact (h x).bind fun _ => ih

end OnlyBinds

theorem onlyBinds_changeScope (name : String) (b : Binding) :
    OnlyBinds (changeScope (·.bind name b)) := by
  intro s outer sink _ c h
  obtain ⟨t, ht, rfl⟩ := runOn_changeScope_eq_ok.mp h
  obtain ⟨hkeeps, -, -⟩ := Scope.keeps_bind ht
  unfold Scope.bind at ht
  split at ht
  next => cases ht
  next =>
    cases ht
    exact ⟨_, rfl, hkeeps⟩

/-- Names that are bound one after another are new, and each keeps its binding. -/
theorem bound_of_forM {name : β → String} {b : β → Binding} {xs : List β} {s : Scope}
    {outer : List Scope} {sink : CodeStream} {c : Chain} {u : PUnit}
    (h : (xs.forM fun x => changeScope (·.bind (name x) (b x))).runOn ⟨s :: outer, sink⟩ =
      (.ok u, c)) :
    ∃ bindings, c = ⟨{ s with bindings } :: outer, sink⟩ ∧ s.Keeps { s with bindings } ∧
      ∀ x ∈ xs, s.bindings.find? (name x) = none ∧ bindings.find? (name x) = some [b x] := by
  induction xs generalizing s with
  | nil =>
      obtain ⟨-, rfl⟩ := runOn_pure_eq_ok.mp h
      exact ⟨s.bindings, rfl, fun _ _ hfind => hfind, fun _ hx => absurd hx List.not_mem_nil⟩
  | cons first xs ih =>
      obtain ⟨_, _, hbind, hrest⟩ := runOn_bind_eq_ok.mp h
      obtain ⟨t, ht, rfl⟩ := runOn_changeScope_eq_ok.mp hbind
      obtain ⟨hkeeps, hnone, hfind⟩ := Scope.keeps_bind ht
      obtain ⟨_, heq, -⟩ := onlyBinds_changeScope _ _ _ _ _ _ _ hbind
      cases heq
      obtain ⟨bindings, rfl, hkeeps', hall⟩ := ih hrest
      refine ⟨bindings, rfl, hkeeps.trans hkeeps', List.forall_mem_cons.mpr ⟨⟨hnone, ?_⟩, ?_⟩⟩
      · exact hkeeps' _ _ hfind
      · intro x hx
        obtain ⟨hnew, hbound⟩ := hall x hx
        exact ⟨hkeeps.find?_eq_none hnew, hbound⟩

theorem onlyBinds_bindParameters (type : Numeric) (suffix : String) (members : List (Table Float))
    (names : List String) : OnlyBinds (bindParameters type suffix members names) := by
  induction names with
  | nil => exact .pure ()
  | cons name names ih =>
      rw [bindParameters]
      dsimp only
      split
      next => exact (onlyBinds_changeScope name _).bind fun _ => ih
      next => exact (onlyBinds_changeScope name _).bind fun _ => ih

end Emit

end Code

namespace Generate

open Code Code.Emit

theorem onlyBinds_bindParams (model : Model) (params : List String) (derived : List DerivedParam)
    (members : List (String × Table Float)) :
    OnlyBinds (bindParams model params derived members) := by
  have hchecks : OnlyBinds (members.forM fun m => ofError (checkParams params m.1 m.2)) :=
    .forM (fun m => .ofError _) members
  exact hchecks.bind fun _ => (onlyBinds_bindParameters _ _ _ _).bind fun _ =>
    onlyBinds_bindParameters _ _ _ _

theorem onlyBinds_bindGlobals (aliases : Aliases) (owners : List String)
    (globals : List GlobalParam) : OnlyBinds (bindGlobals aliases owners globals) :=
  .forM (fun _ => (OnlyBinds.ofError _).bind fun _ => onlyBinds_changeScope _ _) globals

/-- The field with pointers to an array. -/
def ArrayBinding.field (a : ArrayBinding) : StructField :=
  ⟨a.name, a.type.toPointer, entry a.values⟩

/-- The element of an array at an index. -/
def ArrayBinding.at (a : ArrayBinding) (index : String) : String :=
  "group->" ++ a.name ++ "[" ++ index ++ "]"

/-- The binding of the name of an array to its element at an index. -/
def ArrayBinding.elementAt (a : ArrayBinding) (index : String) : Binding :=
  { Binding.ofText a.boundType (a.at index) with field := some a.field }

/-- The binding of a name to the pointer to an array. -/
def ArrayBinding.pointer (a : ArrayBinding) : Binding :=
  { Binding.ofText a.type.toPointer (fieldCode a.name) with field := some a.field }

end Generate

end KernelWeaver
