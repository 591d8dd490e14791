import KernelWeaver.Merge.SynapseArrays
import KernelWeaver.Proofs.Merge.Group
import KernelWeaver.Proofs.Merge.Structure
import KernelWeaver.Proofs.Outcome

/-!
# Arrays of merged connectivity updates

The arrays of a merged group have a value for each member. Variables that the members do not name
are put in the order of their digests, by which the members were merged, so that each array stands
for variables of one type with the same copies, and each such variable of a member has an array.
-/

namespace KernelWeaver

open Synapses Encoding

section Lists

variable {α β : Type} {R : α → β → Prop} {xs : List α} {ys : List β} {k : Nat} {x : α}

theorem exists_forall₂ (h : ∀ x ∈ xs, ∃ y, R x y) : ∃ ys, List.Forall₂ R xs ys := by
  induction xs with
  | nil => exact ⟨[], .nil⟩
  | cons x xs ih =>
      obtain ⟨⟨y, hy⟩, hrest⟩ := List.forall_mem_cons.mp h
      obtain ⟨ys, hys⟩ := ih hrest
      exact ⟨y :: ys, .cons hy hys⟩

theorem exists_getElem?_of_forall₂ (h : List.Forall₂ R xs ys) (hx : xs[k]? = some x) :
    ∃ y, ys[k]? = some y ∧ R x y := by
  induction h generalizing k with
  | nil => cases hx
  | cons hhead _ ih =>
      cases k with
      | zero =>
          cases hx
          exact ⟨_, rfl, hhead⟩
      | succ k => exact ih hx

theorem mem_of_forall₂_right {y : β} (h : List.Forall₂ R xs ys) (hy : y ∈ ys) :
    ∃ x ∈ xs, R x y := by
  obtain ⟨k, hk⟩ := List.getElem?_of_mem hy
  obtain ⟨x, hx, hR⟩ := exists_getElem?_of_forall₂ h.flip hk
  exact ⟨x, List.mem_of_getElem? hx, hR⟩

theorem exists_mem_iff_of_forall₂ (h : List.Forall₂ R xs ys) {P : β → Prop} {Q : α → Prop}
    (hiff : ∀ x ∈ xs, ∀ y, R x y → (P y ↔ Q x)) : (∃ y ∈ ys, P y) ↔ ∃ x ∈ xs, Q x := by
  induction h with
  | nil => simp
  | cons hhead _ ih =>
      obtain ⟨hfirst, hrest⟩ := List.forall_mem_cons.mp hiff
      simp only [List.exists_mem_cons_iff, ih hrest, hfirst _ hhead]

theorem forall₂_of_getElem? (hlength : xs.length = ys.length)
    (h : ∀ (i : Nat) (x : α) (y : β), xs[i]? = some x → ys[i]? = some y → R x y) :
    List.Forall₂ R xs ys := by
  apply List.forall₂_iff_get.mpr
  constructor
  · exact hlength
  · intro i hx hy
    exact h i _ _ (List.getElem?_eq_getElem hx) (List.getElem?_eq_getElem hy)

theorem forall₂_filterMap {f : α → Option β} (h : ∀ x ∈ xs, ∃ y, f x = some y) :
    List.Forall₂ (fun x y => f x = some y) xs (xs.filterMap f) := by
  induction xs with
  | nil => exact .nil
  | cons x xs ih =>
      obtain ⟨⟨y, hy⟩, hrest⟩ := List.forall_mem_cons.mp h
      rw [List.filterMap_cons_some hy]
      exact .cons hy (ih hrest)

theorem getElem?_filterMap {f : α → Option β} (h : ∀ x ∈ xs, ∃ y, f x = some y)
    (hx : xs[k]? = some x) : (xs.filterMap f)[k]? = f x := by
  obtain ⟨y, hy, hf⟩ := exists_getElem?_of_forall₂ (forall₂_filterMap h) hx
  rw [hy, hf]

end Lists

namespace Synapses.SynapseArray

variable (a : SynapseArray) (aliases : Aliases) (k : Nat)

/-- For the member with the given number the array is that of its own variable. -/
structure IsOwn (u : ConnectivityUpdate) (v : Var) : Prop where
  binding : a.binding = some v.name
  value : a.values[k]? = some (deviceArray v.name u.name)
  type : aliases.parseType? v.type = some a.type
  duplicated : a.duplicated = false

/-- For the member with the given number the array is that of what fills a slot. -/
structure IsReferred (u : ConnectivityUpdate) (slot : RefSlot) : Prop where
  binding : a.binding = some slot.name
  type : aliases.parseType? slot.type = some a.type
  reference : ∃ r, u.refs.find? slot.name = some r ∧ a.values[k]? = some r.array ∧
    r.duplicated = a.duplicated

/-- For the member with the given number the array is that of a variable it does not name. -/
structure IsDependent (v : SynapseVar) : Prop where
  binding : a.binding = none
  value : a.values[k]? = some v.array
  type : aliases.parseType? v.type = some a.type
  duplicated : v.duplicated = a.duplicated

end Synapses.SynapseArray

/-- The member with the given number has an array for each of its variables, for what fills each of
its slots, and for each of the variables that it does not name, in some order. -/
structure HasArrays (aliases : Aliases) (k : Nat) (u : ConnectivityUpdate)
    (own referred dependent : List SynapseArray) : Prop where
  own : List.Forall₂ (fun v a => a.IsOwn aliases k u v) u.model.vars own
  referred : List.Forall₂ (fun slot a => a.IsReferred aliases k u slot) u.model.refs referred
  dependent : ∃ vars, vars.Perm u.dependentVars ∧
    List.Forall₂ (fun v a => a.IsDependent aliases k v) vars dependent

namespace ConnectivityUpdate

/-- The types, as written, of the arrays that are stored with the synapses of an update. -/
def typeTexts (u : ConnectivityUpdate) : List String :=
  u.model.vars.map (·.type) ++ u.model.refs.map (·.type) ++ u.dependentVars.map (·.type)

/-- The digests of the variables that the updates do not name tell their types and copies apart. -/
def DependentsTellApart (updates : List ConnectivityUpdate) : Prop :=
  ∀ x ∈ updates.flatMap dependentVars, ∀ y ∈ updates.flatMap dependentVars,
    x.digest = y.digest → x.type = y.type ∧ x.duplicated = y.duplicated

/-- Updates may be merged: they have the same declarations, slots filled in the same shapes, and the
same digests of the variables that they do not name. -/
structure Mergeable (u v : ConnectivityUpdate) : Prop where
  model : u.model.SameCode v.model
  refs : BoundAlike u.model.refs u.refs v.refs
  dependent : u.dependentDigests = v.dependentDigests

theorem mergeable_of_encoding_eq {u v : ConnectivityUpdate} (hhash : IsHashable u.encoding)
    (h : u.encoding = v.encoding) : u.Mergeable v := by
  have hmodel := ConnectivityModel.tellsApart (tellsApart_globals u.model.globals v.model.globals)
  obtain ⟨⟨hcode, -⟩, -, hrefs, -, -, hdependent⟩ :=
    ((tellsApart hmodel And.left).eq_iff hhash).mp h
  exact ⟨hcode, hrefs, hdependent⟩

theorem perm_sortedDependentVars (u : ConnectivityUpdate) :
    (sortedDependentVars u).Perm u.dependentVars :=
  List.mergeSort_perm _ _

theorem exists_place_iff {u : ConnectivityUpdate} {x : SynapseVar} :
    (∃ i : Nat, (sortedDependentVars u)[i]? = some x) ↔ x ∈ u.dependentVars := by
  rw [← List.mem_iff_getElem?, u.perm_sortedDependentVars.mem_iff]

/-- The digests by which variables are ordered are those by which updates are merged. -/
theorem map_digest_sortedDependentVars (u : ConnectivityUpdate) :
    (sortedDependentVars u).map SynapseVar.digest = u.dependentDigests :=
  List.map_mergeSort fun _ _ _ _ => rfl

variable {u v : ConnectivityUpdate}

theorem Mergeable.length_sortedDependentVars (h : u.Mergeable v) :
    (sortedDependentVars u).length = (sortedDependentVars v).length := by
  have hdigests := congrArg List.length h.dependent
  rwa [← map_digest_sortedDependentVars, ← map_digest_sortedDependentVars, List.length_map,
    List.length_map] at hdigests

/-- As many places as an update has variables hold all of them. -/
theorem exists_place_of_length_eq {P : SynapseVar → Prop}
    (h : (sortedDependentVars u).length = (sortedDependentVars v).length) :
    (∃ p ∈ (sortedDependentVars v).zipIdx, ∃ y, (sortedDependentVars u)[p.2]? = some y ∧ P y) ↔
      ∃ y ∈ u.dependentVars, P y := by
  constructor
  · intro ⟨p, _, y, hy, hP⟩
    exact ⟨y, exists_place_iff.mp ⟨_, hy⟩, hP⟩
  · intro ⟨y, hy, hP⟩
    obtain ⟨i, hi⟩ := exists_place_iff.mpr hy
    have hlength := (List.getElem?_eq_some_iff.mp hi).1
    rw [h] at hlength
    exact ⟨((sortedDependentVars v)[i], i),
      List.mem_zipIdx_iff_getElem?.mpr (List.getElem?_eq_getElem hlength), y, hi, hP⟩

/-- Variables of the same place have the same digest. -/
theorem Mergeable.exists_digest_eq (h : u.Mergeable v) {i : Nat} {x : SynapseVar}
    (hx : (sortedDependentVars u)[i]? = some x) :
    ∃ y, (sortedDependentVars v)[i]? = some y ∧ y.digest = x.digest := by
  apply Option.map_eq_some_iff.mp
  rw [← List.getElem?_map, map_digest_sortedDependentVars, ← h.dependent,
    ← map_digest_sortedDependentVars, List.getElem?_map, hx, Option.map_some]

end ConnectivityUpdate

section Parts

variable {aliases : Aliases}

theorem resolveType_eq_ok {text : String} {t : CType} :
    resolveType aliases text = .ok t ↔ aliases.parseType? text = some t := by
  unfold resolveType
  split <;> simp_all

theorem boundTo_eq_ok {owner : String} {refs : Table VarReference} {slot : RefSlot}
    {r : VarReference} : boundTo owner refs slot = .ok r ↔ refs.find? slot.name = some r := by
  unfold boundTo
  split <;> simp_all

end Parts

namespace MergedGroup

variable {aliases : Aliases} {g : MergedGroup ConnectivityUpdate} {a : SynapseArray}
  {arrays : List SynapseArray}

theorem ownArray_eq_ok {v : Var} : g.ownArray aliases v = .ok a ↔
    ∃ t, aliases.parseType? v.type = some t ∧
      ⟨some v.name, v.name, t, false, v.access.isReadOnly,
        g.members.map fun u => deviceArray v.name u.name⟩ = a := by
  simp only [ownArray, bind_eq_ok, resolveType_eq_ok, pure, Except.pure, Except.ok.injEq]

theorem referredArray_eq_ok {slot : RefSlot} : g.referredArray aliases slot = .ok a ↔
    ∃ refs, List.Forall₂ (fun u r => u.refs.find? slot.name = some r) g.members refs ∧
      ∃ t, aliases.parseType? slot.type = some t ∧
        ⟨some slot.name, slot.name, t, refs.any (·.duplicated), slot.readOnly,
          refs.map VarReference.array⟩ = a := by
  simp only [referredArray, bind_eq_ok, mapM_eq_ok_iff, boundTo_eq_ok, resolveType_eq_ok, pure,
    Except.pure, Except.ok.injEq]

theorem dependentArray_eq_ok {i : Nat} {v : SynapseVar} : g.dependentArray aliases i v = .ok a ↔
    ∃ t, aliases.parseType? v.type = some t ∧
      ⟨none, "_dependentVar" ++ toString i, t, v.duplicated, false,
        g.members.filterMap fun u => (sortedDependentVars u)[i]?.map SynapseVar.array⟩ = a := by
  simp only [dependentArray, bind_eq_ok, resolveType_eq_ok, pure, Except.pure, Except.ok.injEq]

theorem checkDependent_eq_ok {count : Nat} {u : ConnectivityUpdate} :
    checkDependent count u = .ok () ↔ (sortedDependentVars u).length = count := by
  simp only [checkDependent]
  split <;> simp_all

theorem synapseArrays_eq_ok : g.synapseArrays aliases = .ok arrays ↔
    ∃ own, List.Forall₂ (fun v a => g.ownArray aliases v = .ok a) g.archetype.model.vars own ∧
    ∃ referred, List.Forall₂ (fun slot a => g.referredArray aliases slot = .ok a)
      g.archetype.model.refs referred ∧
    (∀ u ∈ g.members,
      (sortedDependentVars u).length = (sortedDependentVars g.archetype).length) ∧
    ∃ dependent, List.Forall₂ (fun p a => g.dependentArray aliases p.2 p.1 = .ok a)
      (sortedDependentVars g.archetype).zipIdx dependent ∧
    own ++ referred ++ dependent = arrays := by
  simp only [synapseArrays, bind_eq_ok, mapM_eq_ok_iff, pure, Except.pure, Except.ok.injEq]
  constructor
  · intro ⟨own, hown, referred, hreferred, _, hcounts, dependent, hdependent, heq⟩
    have hcounts := forM_eq_ok_iff.mp hcounts
    simp only [checkDependent_eq_ok] at hcounts
    exact ⟨own, hown, referred, hreferred, hcounts, dependent, hdependent, heq⟩
  · intro ⟨own, hown, referred, hreferred, hcounts, dependent, hdependent, heq⟩
    have hcounts := forM_eq_ok_iff.mpr fun u hu => checkDependent_eq_ok.mpr (hcounts u hu)
    exact ⟨own, hown, referred, hreferred, (), hcounts, dependent, hdependent, heq⟩

section Values

theorem exists_value_of_places {members : List ConnectivityUpdate} {i : Nat}
    (hplaces : ∀ u ∈ members, i < (sortedDependentVars u).length) :
    ∀ u ∈ members, ∃ value, (sortedDependentVars u)[i]?.map SynapseVar.array = some value := by
  intro u hu
  exact ⟨_, by rw [List.getElem?_eq_getElem (hplaces u hu), Option.map_some]⟩

theorem length_values_of_dependentArray {i : Nat} {v : SynapseVar}
    (hplaces : ∀ u ∈ g.members, i < (sortedDependentVars u).length)
    (h : g.dependentArray aliases i v = .ok a) : a.values.length = g.members.length := by
  obtain ⟨t, -, rfl⟩ := dependentArray_eq_ok.mp h
  exact (forall₂_filterMap (exists_value_of_places hplaces)).length_eq.symm

variable {k : Nat} {u : ConnectivityUpdate} (hk : g.members[k]? = some u)
include hk

theorem value_of_ownArray {v : Var} (h : g.ownArray aliases v = .ok a) :
    a.values[k]? = some (deviceArray v.name u.name) := by
  obtain ⟨t, -, rfl⟩ := ownArray_eq_ok.mp h
  simp [hk]

theorem value_of_referredArray {slot : RefSlot} (h : g.referredArray aliases slot = .ok a) :
    ∃ r, u.refs.find? slot.name = some r ∧ a.values[k]? = some r.array := by
  obtain ⟨refs, hrefs, t, -, rfl⟩ := referredArray_eq_ok.mp h
  obtain ⟨r, hr, hfound⟩ := exists_getElem?_of_forall₂ hrefs hk
  exact ⟨r, hfound, by simp [hr]⟩

theorem value_of_dependentArray {i : Nat} {v : SynapseVar}
    (hplaces : ∀ u ∈ g.members, i < (sortedDependentVars u).length)
    (h : g.dependentArray aliases i v = .ok a) :
    ∃ y, (sortedDependentVars u)[i]? = some y ∧ a.values[k]? = some y.array := by
  obtain ⟨t, -, rfl⟩ := dependentArray_eq_ok.mp h
  have hplace := List.getElem?_eq_getElem (hplaces u (List.mem_of_getElem? hk))
  refine ⟨_, hplace, ?_⟩
  rw [getElem?_filterMap (exists_value_of_places hplaces) hk, hplace, Option.map_some]

/-- What a member has arrays of, if the group has arrays: the variables that are declared, what
fills the slots that are declared, and the variables that it does not name. -/
theorem exists_value_iff (h : g.synapseArrays aliases = .ok arrays) {array : String} :
    (∃ a ∈ arrays, a.values[k]? = some array) ↔
      (∃ v ∈ g.archetype.model.vars, deviceArray v.name u.name = array) ∨
      (∃ slot ∈ g.archetype.model.refs, ∃ r, u.refs.find? slot.name = some r ∧ r.array = array) ∨
      ∃ v ∈ u.dependentVars, v.array = array := by
  obtain ⟨own, hown, referred, hreferred, hcounts, dependent, hdependent, rfl⟩ :=
    synapseArrays_eq_ok.mp h
  have hownIff := exists_mem_iff_of_forall₂ hown (P := fun a => a.values[k]? = some array)
    (Q := fun v => deviceArray v.name u.name = array) (by
      intro v _ a ha
      rw [value_of_ownArray hk ha, Option.some.injEq])
  have hreferredIff := exists_mem_iff_of_forall₂ hreferred
    (P := fun a => a.values[k]? = some array)
    (Q := fun slot => ∃ r, u.refs.find? slot.name = some r ∧ r.array = array) (by
      intro slot _ a ha
      obtain ⟨r, hr, hvalue⟩ := value_of_referredArray hk ha
      simp [hr, hvalue])
  have hdependentIff := exists_mem_iff_of_forall₂ hdependent
    (P := fun a => a.values[k]? = some array)
    (Q := fun p => ∃ y, (sortedDependentVars u)[p.2]? = some y ∧ y.array = array) (by
      intro p hp a ha
      have hi := (List.getElem?_eq_some_iff.mp (List.mem_zipIdx_iff_getElem?.mp hp)).1
      have hplaces : ∀ u ∈ g.members, p.2 < (sortedDependentVars u).length := by
        intro u hu
        rw [hcounts u hu]
        exact hi
      obtain ⟨y, hy, hvalue⟩ := value_of_dependentArray hk hplaces ha
      simp [hy, hvalue])
  rw [ConnectivityUpdate.exists_place_of_length_eq (hcounts u (List.mem_of_getElem? hk))]
    at hdependentIff
  simp only [List.mem_append, or_and_right, exists_or, hownIff, hreferredIff, hdependentIff,
    or_assoc]

/-- No stored variable of a member is left out of the arrays, as long as a variable of the update
itself is declared and one that a reference names fills a slot that is declared. -/
theorem exists_array_of_stored (h : g.synapseArrays aliases = .ok arrays) {v : SynapseVar}
    (hv : v ∈ u.synapses.vars)
    (hown : v.owner = u.name → ∃ w ∈ g.archetype.model.vars, w.name = v.name)
    (hreferred : ∀ r ∈ u.refs.entries, r.target = v.owner → r.var = v.name →
      ∃ slot ∈ g.archetype.model.refs, u.refs.find? slot.name = some r) :
    ∃ a ∈ arrays, a.values[k]? = some v.array := by
  apply (exists_value_iff hk h).mpr
  by_cases howner : v.owner = u.name
  · obtain ⟨w, hw, hname⟩ := hown howner
    exact Or.inl ⟨w, hw, by rw [SynapseVar.array, hname, howner]⟩
  · by_cases hnamed : ∃ r ∈ u.refs.entries, r.target = v.owner ∧ r.var = v.name
    · obtain ⟨r, hr, htarget, hvar⟩ := hnamed
      obtain ⟨slot, hslot, hfound⟩ := hreferred r hr htarget hvar
      exact Or.inr (Or.inl ⟨slot, hslot, r, hfound, by
        rw [VarReference.array, SynapseVar.array, htarget, hvar]⟩)
    · refine Or.inr (Or.inr ⟨v, ?_, rfl⟩)
      simp_all [ConnectivityUpdate.dependentVars]

end Values

theorem exists_ownArray {v : Var} (htype : ∃ t, aliases.parseType? v.type = some t) :
    ∃ a, g.ownArray aliases v = .ok a ∧ a.values.length = g.members.length ∧
      ∀ k u, g.members[k]? = some u → a.IsOwn aliases k u v := by
  obtain ⟨t, ht⟩ := htype
  have hmade := ownArray_eq_ok (g := g) |>.mpr ⟨t, ht, rfl⟩
  refine ⟨_, hmade, List.length_map _, ?_⟩
  intro k u hk
  exact ⟨rfl, value_of_ownArray hk hmade, ht, rfl⟩

/-- Members whose slot is filled in the same shape have one array for it. -/
theorem exists_referredArray {slot : RefSlot} (htype : ∃ t, aliases.parseType? slot.type = some t)
    {first : VarReference} (hfirst : g.archetype.refs.find? slot.name = some first)
    (hshape : ∀ u ∈ g.members, (g.archetype.refs.find? slot.name).map VarReference.shape =
      (u.refs.find? slot.name).map VarReference.shape) :
    ∃ a, g.referredArray aliases slot = .ok a ∧ a.values.length = g.members.length ∧
      ∀ k u, g.members[k]? = some u → a.IsReferred aliases k u slot := by
  obtain ⟨t, ht⟩ := htype
  have hfilled : ∀ u ∈ g.members, ∃ r, u.refs.find? slot.name = some r ∧
      r.duplicated = first.duplicated := by
    intro u hu
    have hmap := (hshape u hu).symm
    rw [hfirst, Option.map_some, Option.map_eq_some_iff] at hmap
    obtain ⟨r, hr, hsame⟩ := hmap
    exact ⟨r, hr, congrArg Prod.snd hsame⟩
  obtain ⟨refs, hrefs⟩ := exists_forall₂ hfilled
  have hduplicated : ∀ r ∈ refs, r.duplicated = first.duplicated := by
    intro r hr
    obtain ⟨u, -, -, hsame⟩ := mem_of_forall₂_right hrefs hr
    exact hsame
  -- there is always a first member, so that `any` cannot be false for want of references
  have hany : refs.any (·.duplicated) = first.duplicated := by
    obtain ⟨r, rest, -, -, rfl⟩ := List.forall₂_cons_left_iff.mp hrefs
    cases h : first.duplicated <;> simp_all
  have hmade := referredArray_eq_ok.mpr ⟨refs, hrefs.imp fun _ _ h => h.1, t, ht, rfl⟩
  refine ⟨_, hmade, ?_, ?_⟩
  · rw [List.length_map, hrefs.length_eq]
  · intro k u hk
    obtain ⟨r, hr, hvalue⟩ := value_of_referredArray hk hmade
    obtain ⟨s, hs, hsame⟩ := hfilled u (List.mem_of_getElem? hk)
    cases hr.symm.trans hs
    exact ⟨rfl, ht, r, hr, hvalue, hsame.trans hany.symm⟩

/-- Variables of the same place in the orders of the members share an array. -/
theorem exists_dependentArray {i : Nat} {x : SynapseVar}
    (hx : (sortedDependentVars g.archetype)[i]? = some x)
    (htype : ∃ t, aliases.parseType? x.type = some t)
    (hsame : ∀ u ∈ g.members, g.archetype.Mergeable u)
    (hapart : ConnectivityUpdate.DependentsTellApart g.members) :
    ∃ a, g.dependentArray aliases i x = .ok a ∧ a.values.length = g.members.length ∧
      ∀ k u, g.members[k]? = some u →
        ∃ y, (sortedDependentVars u)[i]? = some y ∧ a.IsDependent aliases k y := by
  obtain ⟨t, ht⟩ := htype
  have hplaces : ∀ u ∈ g.members, i < (sortedDependentVars u).length := by
    intro u hu
    rw [← (hsame u hu).length_sortedDependentVars]
    exact (List.getElem?_eq_some_iff.mp hx).1
  have hmade := dependentArray_eq_ok (g := g) (i := i) |>.mpr ⟨t, ht, rfl⟩
  refine ⟨_, hmade, length_values_of_dependentArray hplaces hmade, ?_⟩
  intro k u hk
  have hu : u ∈ g.members := List.mem_of_getElem? hk
  obtain ⟨y, hy, hvalue⟩ := value_of_dependentArray hk hplaces hmade
  obtain ⟨z, hz, hdigest⟩ := (hsame u hu).exists_digest_eq hx
  cases hy.symm.trans hz
  have hmem {v : ConnectivityUpdate} {z : SynapseVar} (hv : v ∈ g.members)
      (hz : (sortedDependentVars v)[i]? = some z) :
      z ∈ g.members.flatMap ConnectivityUpdate.dependentVars :=
    List.mem_flatMap.mpr ⟨v, hv, ConnectivityUpdate.exists_place_iff.mp ⟨i, hz⟩⟩
  obtain ⟨htype, hduplicated⟩ :=
    hapart y (hmem hu hy) x (hmem g.archetype_mem_members hx) hdigest
  exact ⟨y, hy, rfl, hvalue, htype ▸ ht, hduplicated⟩

/-- Arrays that can be made one by one can be made together. -/
theorem exists_arrays {α β : Type} {xs : List β} {members : List α}
    {make : β → Except Error SynapseArray} {P : Nat → α → β → SynapseArray → Prop}
    (h : ∀ x ∈ xs, ∃ a, make x = .ok a ∧ a.values.length = members.length ∧
      ∀ k u, members[k]? = some u → P k u x a) :
    ∃ arrays, List.Forall₂ (fun x a => make x = .ok a) xs arrays ∧
      (∀ a ∈ arrays, a.values.length = members.length) ∧
      ∀ k u, members[k]? = some u → List.Forall₂ (P k u) xs arrays := by
  obtain ⟨arrays, harrays⟩ := exists_forall₂ h
  refine ⟨arrays, harrays.imp fun _ _ h => h.1, ?_, ?_⟩
  · intro a ha
    obtain ⟨x, -, -, hlength, -⟩ := mem_of_forall₂_right harrays ha
    exact hlength
  · intro k u hk
    exact harrays.imp fun _ _ h => h.2.2 k u hk

/-- The arrays of variables that members do not name, one for each in the order of the digests. -/
theorem exists_dependentArrays
    (htypes : ∀ x ∈ g.archetype.dependentVars, ∃ t, aliases.parseType? x.type = some t)
    (hsame : ∀ u ∈ g.members, g.archetype.Mergeable u)
    (hapart : ConnectivityUpdate.DependentsTellApart g.members) :
    ∃ arrays, List.Forall₂ (fun p a => g.dependentArray aliases p.2 p.1 = .ok a)
        (sortedDependentVars g.archetype).zipIdx arrays ∧
      (∀ a ∈ arrays, a.values.length = g.members.length) ∧
      ∀ k u, g.members[k]? = some u →
        List.Forall₂ (fun v a => a.IsDependent aliases k v) (sortedDependentVars u) arrays := by
  have hparts : ∀ p ∈ (sortedDependentVars g.archetype).zipIdx, ∃ a,
      g.dependentArray aliases p.2 p.1 = .ok a ∧ a.values.length = g.members.length ∧
      ∀ k u, g.members[k]? = some u →
        ∃ y, (sortedDependentVars u)[p.2]? = some y ∧ a.IsDependent aliases k y := by
    intro ⟨x, i⟩ hp
    have hx := List.mem_zipIdx_iff_getElem?.mp hp
    have hmem := ConnectivityUpdate.exists_place_iff.mp ⟨i, hx⟩
    exact exists_dependentArray hx (htypes x hmem) hsame hapart
  obtain ⟨arrays, hmade, hlength, hplace⟩ := exists_arrays hparts
  refine ⟨arrays, hmade, hlength, ?_⟩
  -- the arrays are made from the places of the first member, which are those of every member
  intro k u hk
  have hmerge := hsame u (List.mem_of_getElem? hk)
  apply forall₂_of_getElem?
  · rw [← hmerge.length_sortedDependentVars, ← hmade.length_eq, List.length_zipIdx]
  · intro i y a hy ha
    have hi := (List.getElem?_eq_some_iff.mp hy).1
    rw [← hmerge.length_sortedDependentVars] at hi
    have hpair : (sortedDependentVars g.archetype).zipIdx[i]? =
        some ((sortedDependentVars g.archetype)[i], i) := by
      rw [List.getElem?_zipIdx, List.getElem?_eq_getElem hi, Option.map_some, Nat.zero_add]
    obtain ⟨b, hb, z, hz, hdependent⟩ := exists_getElem?_of_forall₂ (hplace k u hk) hpair
    cases ha.symm.trans hb
    cases hy.symm.trans hz
    exact hdependent

/-- A group that was merged by digests has arrays, each with one value for every member, as long as
digests tell the encodings of its members apart. In the array of a variable that the members do not
name, the variables of all members have the type and the copies of the array, and what fills a slot
has the copies of the array of the slot. No member leaves out a variable, whatever the order in
which it declares them. -/
theorem synapseArrays_aligned_of_mem_merge {kind : String} {onHost : Bool} {index : Nat}
    {updates : List ConnectivityUpdate}
    (hg : g ∈ merge kind onHost index ConnectivityUpdate.encoding updates)
    (hhash : ∀ u ∈ g.members, IsHashable u.encoding)
    (hfree : CollisionFree ConnectivityUpdate.encoding g.members)
    (hapart : ConnectivityUpdate.DependentsTellApart g.members)
    (hbound : ∀ u ∈ g.members, ∀ slot ∈ u.model.refs, ∃ r, u.refs.find? slot.name = some r)
    (htypes : ∀ u ∈ g.members, ∀ text ∈ u.typeTexts, ∃ t, aliases.parseType? text = some t) :
    ∃ own referred dependent, g.synapseArrays aliases = .ok (own ++ referred ++ dependent) ∧
      (∀ a ∈ own ++ referred ++ dependent, a.values.length = g.members.length) ∧
      ∀ k u, g.members[k]? = some u → HasArrays aliases k u own referred dependent := by
  have hfirst := g.archetype_mem_members
  have hsame : ∀ u ∈ g.members, g.archetype.Mergeable u := fun u hu =>
    ConnectivityUpdate.mergeable_of_encoding_eq (hhash _ hfirst)
      (encoding_eq_of_mem_merge hg hfree hfirst hu)
  have htype := htypes g.archetype hfirst
  simp only [ConnectivityUpdate.typeTexts, List.forall_mem_append, List.forall_mem_map] at htype
  obtain ⟨⟨hvarTypes, hslotTypes⟩, hdependentTypes⟩ := htype
  obtain ⟨own, hown, hownLength, hownPlace⟩ :=
    exists_arrays fun v hv => exists_ownArray (hvarTypes v hv)
  obtain ⟨referred, hreferred, hreferredLength, hreferredPlace⟩ :=
    exists_arrays fun slot hslot => by
      obtain ⟨r, hr⟩ := hbound g.archetype hfirst slot hslot
      exact exists_referredArray (hslotTypes slot hslot) hr
        fun u hu => (hsame u hu).refs slot hslot
  obtain ⟨dependent, hdependent, hdependentLength, hdependentPlace⟩ :=
    exists_dependentArrays hdependentTypes hsame hapart
  have hcounts : ∀ u ∈ g.members,
      (sortedDependentVars u).length = (sortedDependentVars g.archetype).length := fun u hu =>
    (hsame u hu).length_sortedDependentVars.symm
  refine ⟨own, referred, dependent, synapseArrays_eq_ok.mpr
    ⟨own, hown, referred, hreferred, hcounts, dependent, hdependent, rfl⟩, ?_, ?_⟩
  · rw [List.forall_mem_append, List.forall_mem_append]
    exact ⟨⟨hownLength, hreferredLength⟩, hdependentLength⟩
  · intro k u hk
    have hmodel := (hsame u (List.mem_of_getElem? hk)).model
    constructor
    · rw [← hmodel.vars]
      exact hownPlace k u hk
    · rw [← hmodel.refs]
      exact hreferredPlace k u hk
    · exact ⟨sortedDependentVars u, u.perm_sortedDependentVars, hdependentPlace k u hk⟩

/-- Two updates that store variables in opposite orders: each variable shares its array with the one
that has the same copies. -/
theorem synapseArrays_aligned_of_mem_merge_reordered :
    ∃ g ∈ merge "CustomConnectivityUpdate" false 0 ConnectivityUpdate.encoding
        [thinningTrace, thinningCount],
      g.members = [thinningTrace, thinningCount] ∧
      ConnectivityUpdate.DependentsTellApart g.members ∧
      ∃ own referred dependent,
        g.synapseArrays (.ofPrecision .float) = .ok (own ++ referred ++ dependent) ∧
        (∀ a ∈ own ++ referred ++ dependent, a.values.length = 2) ∧
        ∀ a ∈ dependent,
          a.values = ["d_traceSyn", "d_eSyn"] ∨ a.values = ["d_countSyn", "d_mSyn"] := by
  have hencoding : thinningTrace.encoding = thinningCount.encoding :=
    ((ConnectivityUpdate.tellsApart_rows (ConnectivityModel.tellsApart_alike (by decide)
      (by decide))).eq_iff isHashable_thinningTrace).mpr sameRows_thinning
  obtain ⟨g, hg, hmembers⟩ : ∃ g ∈ merge "CustomConnectivityUpdate" false 0
      ConnectivityUpdate.encoding [thinningTrace, thinningCount],
      g.members = [thinningTrace, thinningCount] := by
    simp [merge, add, members, hencoding]
  have hsame : ∀ u ∈ g.members, u.encoding = thinningTrace.encoding := by
    simp [hmembers, hencoding]
  have hhash : ∀ u ∈ g.members, IsHashable u.encoding := by
    intro u hu
    rw [hsame u hu]
    exact isHashable_thinningTrace
  have hfree : CollisionFree ConnectivityUpdate.encoding g.members := by
    intro u hu v hv _
    rw [hsame u hu, hsame v hv]
  have hapart : ConnectivityUpdate.DependentsTellApart g.members := by
    rw [hmembers, ConnectivityUpdate.DependentsTellApart]
    decide +kernel
  have hbound : ∀ u ∈ g.members, ∀ slot ∈ u.model.refs,
      ∃ r, u.refs.find? slot.name = some r := by
    rw [hmembers]
    simp [thinningTrace, thinningCount, thinning, Table.find?]
  have htypes : ∀ u ∈ g.members, ∀ text ∈ u.typeTexts,
      ∃ t, (Aliases.ofPrecision .float).parseType? text = some t := by
    have hparsed : ∀ u ∈ [thinningTrace, thinningCount], ∀ text ∈ u.typeTexts,
        ((Aliases.ofPrecision .float).parseType? text).isSome := by
      decide +kernel
    intro u hu text htext
    exact Option.isSome_iff_exists.mp (hparsed u (hmembers ▸ hu) text htext)
  obtain ⟨own, referred, dependent, harrays, hlength, hplace⟩ :=
    synapseArrays_aligned_of_mem_merge hg hhash hfree hapart hbound htypes
  rw [hmembers] at hlength hplace
  refine ⟨g, hg, hmembers, hapart, own, referred, dependent, harrays, hlength, ?_⟩
  intro a ha
  obtain ⟨vars, hvars, hfirst⟩ := (hplace 0 thinningTrace rfl).dependent
  obtain ⟨others, hothers, hsecond⟩ := (hplace 1 thinningCount rfl).dependent
  obtain ⟨v, hv, hisv⟩ := mem_of_forall₂_right hfirst ha
  obtain ⟨w, hw, hisw⟩ := mem_of_forall₂_right hsecond ha
  rw [hvars.mem_iff, dependentVars_thinningTrace] at hv
  rw [hothers.mem_iff, dependentVars_thinningCount] at hw
  have hvalues : a.values = [v.array, w.array] := by
    obtain ⟨p, q, hpair⟩ := List.length_eq_two.mp (hlength a (List.mem_append_right _ ha))
    have hp := hisv.value
    have hq := hisw.value
    simp_all
  have hcopies : v.duplicated = w.duplicated := hisv.duplicated.trans hisw.duplicated.symm
  rw [hvalues]
  simp only [List.mem_cons, List.not_mem_nil, or_false] at hv hw
  -- the variables of one array have the same copies, which leaves two of the four cases
  rcases hv with rfl | rfl <;> rcases hw with rfl | rfl
  · exact absurd hcopies (by decide)
  · exact Or.inl (by decide)
  · exact Or.inr (by decide)
  · exact absurd hcopies (by decide)

end MergedGroup

end KernelWeaver
