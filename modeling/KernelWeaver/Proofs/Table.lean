import KernelWeaver.Table
import Mathlib.Data.List.Induction

/-!
# Names in tables

Which names a table has, and how a new name is added to it.
-/

namespace KernelWeaver.Table

variable {α : Type} {t : Table α} {name : String}

theorem has_iff : t.has name = true ↔ name ∈ t.map Prod.fst := by
  induction t with
  | nil => simp [has, find?]
  | cons head rest ih =>
      obtain ⟨key, entry⟩ := head
      rw [has] at ih
      by_cases hkey : name = key
      · simp [has, find?, hkey]
      · simp [has, find?, hkey, ih]

theorem has_eq_false_iff : t.has name = false ↔ name ∉ t.map Prod.fst := by
  rw [← has_iff, Bool.not_eq_true]

theorem mem_of_find? {entry : α} (h : t.find? name = some entry) : (name, entry) ∈ t := by
  induction t with
  | nil => cases h
  | cons head rest ih =>
      obtain ⟨key, old⟩ := head
      rw [find?] at h
      split at h
      next hkey =>
        cases h
        exact hkey ▸ List.mem_cons_self
      next => exact List.mem_cons_of_mem _ (ih h)

/-- A new name is added behind the others. -/
theorem insert_of_not_has (entry : α) (h : t.has name = false) :
    t.insert name entry = t ++ [(name, entry)] := by
  induction t with
  | nil => rfl
  | cons head rest ih =>
      obtain ⟨key, old⟩ := head
      rw [has_eq_false_iff, List.map_cons, List.mem_cons, not_or] at h
      rw [insert, if_neg h.1, ih (has_eq_false_iff.mpr h.2)]
      rfl

/-- Entries whose names are all different are found in the table made from them. -/
theorem find?_ofList {entries : List (String × α)} {entry : α}
    (hnodup : (entries.map Prod.fst).Nodup) (h : (name, entry) ∈ entries) :
    (ofList entries).find? name = some entry := by
  induction entries using List.reverseRecOn with
  | nil => cases h
  | append_singleton entries last ih =>
      rw [List.map_append, List.nodup_append] at hnodup
      obtain ⟨hfront, -, hdifferent⟩ := hnodup
      rw [ofList, List.foldl_append]
      refine (find?_insert _ _ _ _).trans ?_
      rcases List.mem_append.mp h with hmem | hmem
      · rw [if_neg]
        · exact ih hfront hmem
        · exact hdifferent name (List.mem_map_of_mem hmem) last.1 (by simp)
      · cases List.mem_singleton.mp hmem
        rw [if_pos rfl]

theorem find?_eq_none_iff : t.find? name = none ↔ name ∉ t.map Prod.fst := by
  rw [← has_eq_false_iff, has, Option.isSome_eq_false_iff, Option.isNone_iff_eq_none]

/-- Names that are in the order of a table find all its entries, each once. -/
theorem flatMap_find?_getD {t : Table (List α)} {names : List String} (hnames : names.Nodup)
    (h : (t.map Prod.fst).Sublist names) :
    (names.flatMap fun name => (t.find? name).getD []) = t.flatMap Prod.snd := by
  induction names generalizing t with
  | nil =>
      rw [List.sublist_nil, List.map_eq_nil_iff] at h
      rw [h]
      rfl
  | cons name names ih =>
      obtain ⟨hname, hothers⟩ := List.nodup_cons.mp hnames
      rw [List.flatMap_cons]
      rcases List.sublist_cons_iff.mp h with hrest | ⟨rest, heq, hrest⟩
      · have hmissing : t.find? name = none :=
          find?_eq_none_iff.mpr fun hmem => hname (hrest.subset hmem)
        rw [hmissing, ih hothers hrest]
        rfl
      · obtain ⟨⟨key, entry⟩, t', rfl, rfl, rfl⟩ := List.map_eq_cons_iff.mp heq
        have hfind : ∀ other ∈ names,
            (find? ((key, entry) :: t') other).getD [] = (find? t' other).getD [] := by
          intro other hother
          have hne : other ≠ key := fun h => hname (h ▸ hother)
          rw [find?, if_neg hne]
        rw [find?, if_pos rfl, List.flatMap_def, List.map_congr_left hfind, ← List.flatMap_def,
          ih hothers hrest]
        rfl

end KernelWeaver.Table
