import KernelWeaver.Code.StructFields
import KernelWeaver.Proofs.Outcome
import Mathlib

/-!
# Fields that are registered one after the other

A struct keeps the first field that is registered under each name, in the order of these first
registrations. A later field of the same name adds nothing, or is refused.
-/

namespace KernelWeaver.Code.StructFields

/-- Registers fields one after the other. -/
def registerAll (fields : StructFields) (new : List StructField) : Except Error StructFields :=
  new.foldlM register fields

/-- The first field of each name. -/
def firsts : List StructField → StructFields
  | [] => []
  | f :: rest => f :: (firsts rest).filter (·.name ≠ f.name)

variable {fields fields' : StructFields} {f : StructField} {all new : List StructField}

theorem find?_eq_none_iff {name : String} :
    fields.find? name = none ↔ name ∉ fields.map StructField.name := by
  rw [find?, List.find?_eq_none]
  simp

/-- A field is added behind the others, unless there is one of its name. -/
theorem eq_of_register (h : fields.register f = .ok fields') :
    fields' = if f.name ∈ fields.map StructField.name then fields else fields ++ [f] := by
  rw [register] at h
  cases hfind : fields.find? f.name with
  | none =>
      rw [hfind] at h
      cases h
      rw [if_neg (find?_eq_none_iff.mp hfind)]
  | some old =>
      have hmem : f.name ∈ fields.map StructField.name := by
        by_contra hnew
        rw [find?_eq_none_iff.mpr hnew] at hfind
        cases hfind
      rw [hfind] at h
      rw [if_pos hmem]
      dsimp only at h
      split at h
      next =>
        cases h
        rfl
      next => cases h

theorem registerAll_append (fields : StructFields) (front back : List StructField) :
    registerAll fields (front ++ back) =
      registerAll fields front >>= fun between => registerAll between back := by
  rw [registerAll, List.foldlM_append]
  rfl

/-! ### The first of each name -/

theorem mem_names_firsts {name : String} :
    name ∈ (firsts all).map StructField.name ↔ name ∈ all.map StructField.name := by
  induction all with
  | nil => rfl
  | cons g rest ih =>
      rw [firsts, List.map_cons, List.map_cons, List.mem_cons, List.mem_cons, ← ih]
      by_cases hname : name = g.name
      · simp [hname]
      · simp only [hname, false_or, List.mem_map, List.mem_filter, decide_eq_true_eq]
        constructor
        · rintro ⟨k, ⟨hk, -⟩, rfl⟩
          exact ⟨k, hk, rfl⟩
        · rintro ⟨k, hk, rfl⟩
          exact ⟨k, ⟨hk, hname⟩, rfl⟩

theorem nodup_names_firsts (all : List StructField) :
    ((firsts all).map StructField.name).Nodup := by
  induction all with
  | nil => exact List.nodup_nil
  | cons g rest ih =>
      rw [firsts, List.map_cons, List.nodup_cons]
      refine ⟨?_, ih.sublist (List.filter_sublist.map _)⟩
      simp

/-- A field is kept if none of its name stands before it. -/
theorem mem_firsts_iff :
    f ∈ firsts all ↔
      ∃ front back, all = front ++ f :: back ∧ f.name ∉ front.map StructField.name := by
  induction all with
  | nil => simp [firsts]
  | cons g rest ih =>
      rw [firsts, List.mem_cons, List.mem_filter, ih, decide_eq_true_eq]
      constructor
      · rintro (rfl | ⟨⟨front, back, rfl, hfront⟩, hname⟩)
        · exact ⟨[], rest, rfl, List.not_mem_nil⟩
        · exact ⟨g :: front, back, rfl, List.not_mem_cons_of_ne_of_not_mem hname hfront⟩
      · rintro ⟨front, back, hall, hfront⟩
        cases front with
        | nil => exact .inl (List.cons.inj hall).1.symm
        | cons k front =>
            obtain ⟨rfl, rfl⟩ := List.cons.inj hall
            rw [List.map_cons, List.mem_cons, not_or] at hfront
            exact .inr ⟨⟨front, back, rfl, hfront.2⟩, hfront.1⟩

theorem mem_of_mem_firsts (h : f ∈ firsts all) : f ∈ all := by
  obtain ⟨front, back, rfl, -⟩ := mem_firsts_iff.mp h
  exact List.mem_append_right _ List.mem_cons_self

theorem firsts_concat (all : List StructField) (f : StructField) :
    firsts (all ++ [f]) =
      if f.name ∈ all.map StructField.name then firsts all else firsts all ++ [f] := by
  induction all with
  | nil => rfl
  | cons g rest ih =>
      rw [List.cons_append, firsts, ih, firsts, List.map_cons]
      by_cases hrest : f.name ∈ rest.map StructField.name
      · rw [if_pos hrest, if_pos (List.mem_cons_of_mem _ hrest)]
      · rw [if_neg hrest, List.filter_append]
        by_cases hname : f.name = g.name
        · rw [if_pos (by rw [hname]; exact List.mem_cons_self)]
          simp [hname]
        · rw [if_neg (List.not_mem_cons_of_ne_of_not_mem hname hrest)]
          simp [hname]

/-- A new struct keeps the first field of each name. -/
theorem eq_firsts_of_registerAll (h : registerAll [] all = .ok fields) : fields = firsts all := by
  induction all using List.reverseRecOn generalizing fields with
  | nil =>
      cases h
      rfl
  | append_singleton front f ih =>
      rw [registerAll_append] at h
      obtain ⟨between, hfront, hlast⟩ := bind_eq_ok.mp h
      obtain ⟨last, hregister, hpure⟩ := bind_eq_ok.mp hlast
      cases hpure
      rw [firsts_concat, eq_of_register hregister, ih hfront]
      simp only [mem_names_firsts]

/-- A field that has been registered is there under its name, though its value may be that of an
earlier one. -/
theorem exists_of_registerAll (h : registerAll [] all = .ok fields) (hf : f ∈ all) :
    ∃ g ∈ fields, g.name = f.name ∧ g.type.sameKind f.type = true := by
  induction all using List.reverseRecOn generalizing fields with
  | nil => exact absurd hf List.not_mem_nil
  | append_singleton front last ih =>
      rw [registerAll_append] at h
      obtain ⟨between, hfront, hlast⟩ := bind_eq_ok.mp h
      obtain ⟨after, hregister, hpure⟩ := bind_eq_ok.mp hlast
      cases hpure
      rcases List.mem_append.mp hf with hf | hf
      · obtain ⟨g, hg, hname, hkind⟩ := ih hfront hf
        refine ⟨g, ?_, hname, hkind⟩
        rw [eq_of_register hregister]
        split
        next => exact hg
        next => exact List.mem_append_left _ hg
      · obtain rfl := List.mem_singleton.mp hf
        rw [register] at hregister
        cases hfind : between.find? f.name with
        | none =>
            rw [hfind] at hregister
            cases hregister
            refine ⟨f, List.mem_append_right _ List.mem_cons_self, rfl, ?_⟩
            rw [CType.sameKind, decide_eq_true_iff]
        | some old =>
            rw [hfind] at hregister
            dsimp only at hregister
            split at hregister
            next hkind =>
              cases hregister
              exact ⟨old, List.mem_of_find?_eq_some hfind,
                by simpa using List.find?_some hfind, hkind⟩
            next => cases hregister

end KernelWeaver.Code.StructFields
