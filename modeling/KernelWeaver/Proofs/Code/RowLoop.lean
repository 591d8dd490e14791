import KernelWeaver.Code.RowLoop
import KernelWeaver.Proofs.Code.Resolution
import KernelWeaver.Proofs.Table

/-!
# Loops over the synapses of a row in well-formed scopes

The names of a loop form a scope of their own around its body. The loop can be emitted wherever this
scope is well formed, and it leaves the scopes around it as emitting code does.
-/

namespace KernelWeaver.Code

open Emit (Succeeds)

variable {c : Chain} {outer : List Scope} {s : Scope}

namespace Evolves

theorem modifyStream (c : Chain) (f : CodeStream → CodeStream) :
    Evolves c.scopes (c.modifyStream f).scopes := by
  obtain ⟨scopes, sink⟩ := c
  cases scopes with
  | nil => exact .refl []
  | cons s outer => exact .head ⟨rfl, rfl, le_rfl, rfl⟩ rfl

/-- The scopes around one that reads no fields. -/
theorem tail {old new : List Scope} {t : Scope} (h : Evolves (s :: old) (t :: new))
    (hs : ∀ f, ¬ UsesField [s] f) : Evolves old new where
  scopes := (List.forall₂_cons.mp h.scopes).2
  fields f hf := by
    have huse := h.fields f (usesField_append.mpr (.inr hf) : UsesField ([t] ++ new) f)
    exact (usesField_append.mp (huse : UsesField ([s] ++ old) f)).resolve_left (hs f)

end Evolves

namespace Emit

theorem line_succeeds (text : String) (c : Chain) :
    Succeeds (line text) c fun _ c' => Evolves c.scopes c'.scopes :=
  .modify (.modifyStream c _)

theorem expandLine_succeeds {template : String} (hwf : WellFormed c.scopes)
    (hb : ∀ m ∈ (Template.ofString template).markerNames, BoundIn c.scopes m) :
    Succeeds (expandLine template) c fun _ c' => Evolves c.scopes c'.scopes :=
  .bind (expandText_succeeds hwf hb) fun text c' hc' =>
    (line_succeeds text c').imp fun _ _ he => hc'.trans he

/-- A name that the innermost scope does not bind yet is bound behind the others. -/
theorem bind_succeeds {name : String} (type : CType) (template : String)
    (hc : c.scopes = s :: outer) (hs : s.binds name = false) :
    Succeeds (bind name type template) c fun _ c' =>
      c'.scopes =
        { s with bindings := s.bindings ++ [(name, [.ofText type template])] } :: outer := by
  refine .changeScope hc ?_ rfl
  rw [Scope.bind, hs, if_neg Bool.false_ne_true, Table.insert_of_not_has _ hs]

end Emit

namespace RowLoop

/-- The initialiser that names the slot. -/
def slotTemplate : Template := .ofString "const unsigned int idx = $(_row_start_idx) + j;"

/-- The bindings of the loop's own names. -/
def ownBindings (loop : RowLoop) : Table (List Binding) :=
  [("id_post", [.ofText idType "$(_ind)[$(_row_start_idx) + j]"]),
    ("id_syn", [{ Binding.ofText idType "idx" with initialisers := [0] }]),
    ("remove_synapse", [.ofText removalType loop.removal])]

/-- The bindings of what else the body can name. -/
def moreBindings (loop : RowLoop) : Table (List Binding) :=
  loop.bindings.map fun b => (b.name, [.ofText b.type b.template])

/-- The scope around the body of the loop. -/
def scope (loop : RowLoop) : Scope :=
  ⟨loop.ownBindings ++ loop.moreBindings, [⟨slotTemplate, .unused⟩], [], .empty, none⟩

theorem binds_scope (loop : RowLoop) (name : String) :
    loop.scope.binds name = true ↔ name ∈ loop.names.map Prod.fst := by
  rw [Scope.binds, Table.has_iff, scope, names]
  simp only [ownBindings, moreBindings, List.map_append, List.map_map]
  rfl

theorem bindAll_succeeds {bs : List LoopBinding} (hc : c.scopes = s :: outer)
    (hdistinct : (bs.map LoopBinding.name).Nodup) (hs : ∀ b ∈ bs, s.binds b.name = false) :
    Succeeds (bs.forM fun b => Emit.bind b.name b.type b.template) c fun _ c' =>
      c'.scopes = { s with bindings :=
        s.bindings ++ bs.map fun b => (b.name, [.ofText b.type b.template]) } :: outer := by
  induction bs generalizing c s with
  | nil => exact .pure (by simpa using hc)
  | cons b bs ih =>
      obtain ⟨hb, hrest⟩ := List.nodup_cons.mp hdistinct
      refine .bind (Emit.bind_succeeds b.type b.template hc (hs b List.mem_cons_self))
        fun _ c' hc' => ?_
      refine (ih hc' hrest fun d hd => ?_).imp fun _ c'' h => ?_
      · have hne : d.name ≠ b.name := fun heq => hb (heq ▸ List.mem_map_of_mem hd)
        have hold := hs d (List.mem_cons_of_mem b hd)
        rw [Scope.binds, Table.has_eq_false_iff] at hold ⊢
        simpa [hne] using hold
      · simpa using h

/-- The names of the loop are bound in a new scope, unless one of them is bound twice. -/
theorem bindNames_succeeds (loop : RowLoop) (hc : c.scopes = .empty none :: outer)
    (hdistinct : (loop.names.map Prod.fst).Nodup) :
    Succeeds loop.bindNames c fun _ c' => c'.scopes = loop.scope :: outer := by
  rw [names, List.map_append, List.map_map, List.nodup_append] at hdistinct
  obtain ⟨-, hmore, hapart⟩ := hdistinct
  refine .bind (Emit.bind_succeeds _ _ hc rfl) fun _ c₁ hc₁ => ?_
  refine .bind (P := fun slot c₂ => slot = 0 ∧ c₂.scopes = ({ Scope.empty none with
    bindings := loop.ownBindings.take 1, initialisers := [⟨slotTemplate, .unused⟩] }) :: outer) ?_ ?_
  · refine .bind (P := fun a c₂ => a = c₁ ∧ c₂ = c₁) (.get ⟨rfl, rfl⟩) ?_
    rintro _ _ ⟨rfl, rfl⟩
    rw [hc₁]
    exact .bind (.changeScope hc₁ rfl rfl) fun _ c₂ hc₂ => .pure ⟨rfl, hc₂⟩
  rintro _ c₂ ⟨rfl, hc₂⟩
  refine .bind (P := fun _ c₃ => c₃.scopes = ({ Scope.empty none with
    bindings := loop.ownBindings.take 2, initialisers := [⟨slotTemplate, .unused⟩] }) :: outer)
    (.changeScope hc₂ rfl rfl) fun _ c₃ hc₃ => ?_
  refine .bind (Emit.bind_succeeds _ _ hc₃ rfl) fun _ c₄ hc₄ => ?_
  refine (bindAll_succeeds hc₄ hmore fun b hb => ?_).imp fun _ c₅ h => h
  rw [Scope.binds, Table.has_eq_false_iff]
  exact fun hmem => hapart _ hmem _ (List.mem_map_of_mem hb) rfl

/-- The names that the head of the loop refers to, outside the scope of the loop. -/
def headNames : List String := ["_row_length", "id_pre"]

theorem markerNames_head :
    (Template.ofString "for(int j = 0; j < $(_row_length)[$(id_pre)]; j++)").markerNames =
      headNames := by
  decide +kernel

/-- The loop can be emitted in the scopes: its head refers to names that they bind, and the scope
of its body is well formed inside them. -/
structure FitsIn (loop : RowLoop) (scopes : List Scope) : Prop where
  head : ∀ name ∈ headNames, BoundIn scopes name
  body : WellFormed (loop.scope :: scopes)

theorem FitsIn.evolves {loop : RowLoop} {old new : List Scope} (h : loop.FitsIn old)
    (he : Evolves old new) : loop.FitsIn new where
  head name hname := he.boundIn.mpr (h.head name hname)
  body := h.body.evolves (he.append_left [loop.scope])

theorem not_usesField_scope (loop : RowLoop) (f : StructField) : ¬ UsesField [loop.scope] f := by
  rintro ⟨s, hs, ⟨name, b, ⟨bs, hfind, hb⟩, hf⟩ | ⟨fields, hfields, -⟩⟩
  · rw [List.mem_singleton.mp hs] at hfind
    have hmem := Table.mem_of_find? hfind
    simp only [scope, ownBindings, moreBindings, List.mem_append, List.mem_cons, List.mem_map,
      Prod.mk.injEq, List.not_mem_nil, or_false] at hmem
    obtain (⟨-, rfl⟩ | ⟨-, rfl⟩ | ⟨-, rfl⟩) | ⟨_, -, -, rfl⟩ := hmem <;>
      · cases List.mem_singleton.mp hb
        cases hf
  · rw [List.mem_singleton.mp hs] at hfields
    cases hfields

/-- A loop whose body can be emitted inside the scope of the loop. -/
theorem emit_succeeds {α : Type} {loop : RowLoop} {body : Emit α} {P : α → Prop}
    (hloop : loop.FitsIn c.scopes) (hdistinct : (loop.names.map Prod.fst).Nodup)
    (hbody : ∀ c', Evolves (loop.scope :: c.scopes) c'.scopes →
      Succeeds body c' fun a c'' => P a ∧ Evolves c'.scopes c''.scopes) :
    Succeeds (loop.emit body) c fun a c' => P a ∧ Evolves c.scopes c'.scopes := by
  have hwf : WellFormed c.scopes := hloop.body.tail
  refine .bind (Emit.expandLine_succeeds hwf fun m hm =>
    hloop.head m (markerNames_head ▸ hm)) fun _ c₁ hc₁ => ?_
  refine .bind (Emit.line_succeeds _ c₁) fun _ c₂ hc₂ => ?_
  refine .bind (P := fun a c₃ => P a ∧ Evolves c₂.scopes c₃.scopes) ?_ fun a c₃ hc₃ => ?_
  · refine .bind (P := fun _ c' => c'.scopes = .empty none :: c₂.scopes) (.modify rfl)
      fun _ c' hc' => .afterwards ?_
    refine .bind (bindNames_succeeds loop hc' hdistinct) fun _ c₃ hc₃ => ?_
    refine (hbody c₃ ?_).imp fun a c₄ ⟨hP, hc₄⟩ => ⟨hP, ?_⟩
    · rw [hc₃]
      exact (hc₁.trans hc₂).append_left [loop.scope]
    · rw [hc₃] at hc₄
      obtain ⟨t, outer', -, -, hcons⟩ := List.forall₂_cons_left_iff.mp hc₄.scopes
      rw [hcons] at hc₄
      rw [Chain.pop, hcons]
      exact (hc₄.tail loop.not_usesField_scope).trans
        (.modifyStream { c₄ with scopes := outer' } _)
  · refine .bind (Emit.line_succeeds _ c₃) fun _ c₄ hc₄ => ?_
    exact .pure ⟨hc₃.1, ((hc₁.trans hc₂).trans hc₃.2).trans hc₄⟩

end RowLoop

end KernelWeaver.Code
