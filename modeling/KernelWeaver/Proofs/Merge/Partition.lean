import KernelWeaver.Merge.Model
import KernelWeaver.Proofs.Merge.Group
import KernelWeaver.Proofs.Merge.Names
import Mathlib.Data.List.Perm.Basic

/-!
# Merging divides the updates

Merged groups are the classes of updates with equal digests, in the order in which the digests were
first seen. Each of the lists of a merged model therefore has every update it is about exactly once,
and no two groups of the model share a name.
-/

namespace KernelWeaver

variable {α β : Type}

/-! ### Division by a key -/

theorem eraseDups_concat [DecidableEq β] (keys : List β) (k : β) :
    (keys ++ [k]).eraseDups = if k ∈ keys then keys.eraseDups else keys.eraseDups ++ [k] := by
  rw [List.eraseDups_append]
  by_cases hk : k ∈ keys <;> simp [List.removeAll, hk, List.eraseDups_cons]

/-- Erasing repetitions leaves none. -/
theorem nodup_eraseDups [DecidableEq β] (keys : List β) : keys.eraseDups.Nodup := by
  induction keys using List.reverseRecOn with
  | nil => exact .nil
  | append_singleton keys k ih =>
      rw [eraseDups_concat]
      split
      next => exact ih
      next hk =>
        rw [← List.concat_eq_append]
        exact ih.concat (List.mem_eraseDups.not.mpr hk)

/-- The parts with the keys of a list make up the items, if all their keys are in the list. -/
theorem flatMap_filter_perm [DecidableEq β] (key : α → β) {keys : List β} {items : List α}
    (hkeys : keys.Nodup) (hall : ∀ a ∈ items, key a ∈ keys) :
    (keys.flatMap fun k => items.filter fun a => key a = k).Perm items := by
  induction keys generalizing items with
  | nil =>
      have hnil : items = [] := List.eq_nil_iff_forall_not_mem.mpr fun a ha =>
        List.not_mem_nil (hall a ha)
      rw [hnil]
      exact .nil
  | cons k keys ih =>
      obtain ⟨hk, hkeys⟩ := List.nodup_cons.mp hkeys
      have hothers : (keys.flatMap fun k' => items.filter fun a => key a = k') =
          keys.flatMap fun k' =>
            (items.filter fun a => !decide (key a = k)).filter fun a => key a = k' := by
        apply List.flatMap_congr
        intro k' hk'
        rw [List.filter_filter]
        apply List.filter_congr
        intro a _
        by_cases ha : key a = k'
        · have hne : k' ≠ k := fun h => hk (h ▸ hk')
          simp [ha, hne]
        · simp [ha]
      rw [List.flatMap_cons, hothers]
      apply List.Perm.trans ((ih hkeys ?_).append_left _)
      · exact List.filter_append_perm (fun a => decide (key a = k)) items
      · intro a ha
        obtain ⟨hmem, hne⟩ := List.mem_filter.mp ha
        have hne : key a ≠ k := by simpa using hne
        exact (List.mem_cons.mp (hall a hmem)).resolve_left hne

/-- The names of the update groups are those of the updates, without repetitions. -/
theorem Model.groups_eq_eraseDups (m : Model) :
    m.groups = (m.updates.map (·.group) ++ m.connectivity.map (·.group)).eraseDups := by
  rw [Model.groups]
  induction m.updates.map (·.group) ++ m.connectivity.map (·.group) using List.reverseRecOn with
  | nil => rfl
  | append_singleton names name ih =>
      rw [List.foldl_append, ih, eraseDups_concat]
      simp [List.mem_eraseDups]

namespace MergedGroup

variable {kind : String} {onHost : Bool} {index : Nat} {encode : α → Encoding}
  {updates : List α} {groups : List (MergedGroup α)} {g : MergedGroup α} {u v : α}
  {digest : Digest}

/-! ### Merging -/

/-- The digest by which an update is merged. -/
def keyOf (encode : α → Encoding) (u : α) : Digest := .ofEncoding (encode u)

theorem add_of_mem (hnodup : (groups.map (·.digest)).Nodup)
    (hdigest : digest ∈ groups.map (·.digest)) :
    add kind onHost index u digest groups =
      groups.map fun g => if g.digest = digest then { g with others := g.others ++ [u] } else g := by
  induction groups generalizing index with
  | nil => exact absurd hdigest List.not_mem_nil
  | cons group groups ih =>
      rw [List.map_cons, List.nodup_cons] at hnodup
      rw [add, List.map_cons]
      split
      next heq =>
        have hrest : groups.map (fun g =>
            if g.digest = digest then { g with others := g.others ++ [u] } else g) = groups := by
          apply (List.map_congr_left ?_).trans groups.map_id
          intro g hg
          have hne : g.digest ≠ digest := fun h =>
            hnodup.1 (heq.trans h.symm ▸ List.mem_map_of_mem hg)
          exact if_neg hne
        rw [hrest]
      next hne =>
        have hmem : digest ∈ groups.map (·.digest) :=
          (List.mem_cons.mp hdigest).resolve_left fun h => hne h.symm
        rw [ih hnodup.2 hmem]

theorem add_of_not_mem (hdigest : digest ∉ groups.map (·.digest)) :
    add kind onHost index u digest groups =
      groups ++ [⟨⟨kind, index + groups.length, onHost⟩, u, [], digest⟩] := by
  induction groups generalizing index with
  | nil => rfl
  | cons group groups ih =>
      rw [List.map_cons, List.mem_cons, not_or] at hdigest
      rw [add, if_neg (Ne.symm hdigest.1), ih hdigest.2, List.length_cons, List.cons_append,
        Nat.add_assoc, Nat.add_comm 1]

/-- The groups are the classes of updates with equal digests. -/
structure Divides (kind : String) (onHost : Bool) (index : Nat) (encode : α → Encoding)
    (updates : List α) (groups : List (MergedGroup α)) : Prop where
  /-- The groups are numbered in order. -/
  ids : groups.map (·.id) = (List.range' index groups.length).map fun i => ⟨kind, i, onHost⟩
  /-- There is a group for each digest, in the order in which they were first seen. -/
  digests : groups.map (·.digest) = (updates.map (keyOf encode)).eraseDups
  /-- A group has the updates with its digest, in their order. -/
  members : ∀ g ∈ groups, g.members = updates.filter fun u => keyOf encode u = g.digest

namespace Divides

theorem nodup_digests (h : Divides kind onHost index encode updates groups) :
    (groups.map (·.digest)).Nodup := h.digests ▸ nodup_eraseDups _

theorem mem_digests (h : Divides kind onHost index encode updates groups) :
    digest ∈ groups.map (·.digest) ↔ ∃ u ∈ updates, keyOf encode u = digest := by
  rw [h.digests, List.mem_eraseDups, List.mem_map]

/-- An update with a known digest goes to the group of the digest. -/
theorem add_known (h : Divides kind onHost index encode updates groups)
    (hu : keyOf encode u ∈ updates.map (keyOf encode)) :
    Divides kind onHost index encode (updates ++ [u])
      (add kind onHost index u (keyOf encode u) groups) := by
  have hmem : keyOf encode u ∈ groups.map (·.digest) := by
    rwa [h.digests, List.mem_eraseDups]
  rw [add_of_mem h.nodup_digests hmem]
  constructor
  · rw [List.map_map, List.length_map, ← h.ids]
    apply List.map_congr_left
    intro g _
    rw [Function.comp_apply]
    split <;> rfl
  · rw [List.map_append, List.map_singleton, eraseDups_concat, if_pos hu, ← h.digests,
      List.map_map]
    apply List.map_congr_left
    intro g _
    rw [Function.comp_apply]
    split <;> rfl
  · intro g hg
    obtain ⟨old, hold, rfl⟩ := List.mem_map.mp hg
    have hmembers := h.members old hold
    split
    next heq =>
      have hlast : (updates ++ [u]).filter (fun v => keyOf encode v = old.digest) =
          old.members ++ [u] := by
        rw [List.filter_append, ← hmembers]
        simp [heq]
      exact hlast.symm
    next hne =>
      rw [List.filter_append, ← hmembers]
      simp [Ne.symm hne]

/-- An update with a new digest gets a group of its own. -/
theorem add_new (h : Divides kind onHost index encode updates groups)
    (hu : keyOf encode u ∉ updates.map (keyOf encode)) :
    Divides kind onHost index encode (updates ++ [u])
      (add kind onHost index u (keyOf encode u) groups) := by
  have hmem : keyOf encode u ∉ groups.map (·.digest) := by
    rwa [h.digests, List.mem_eraseDups]
  rw [add_of_not_mem hmem]
  constructor
  · rw [List.map_append, h.ids, List.length_append, List.length_singleton, List.range'_concat,
      List.map_append]
    simp
  · rw [List.map_append, h.digests, List.map_append, List.map_singleton, List.map_singleton,
      eraseDups_concat, if_neg hu]
  · intro g hg
    rcases List.mem_append.mp hg with hg | hg
    · have hne : g.digest ≠ keyOf encode u := fun heq => hmem (heq ▸ List.mem_map_of_mem hg)
      rw [List.filter_append, ← h.members g hg]
      simp [Ne.symm hne]
    · rw [List.mem_singleton] at hg
      subst hg
      have hnone : (updates.filter fun v => keyOf encode v = keyOf encode u) = [] := by
        apply List.filter_eq_nil_iff.mpr
        intro v hv heq
        exact hu (of_decide_eq_true heq ▸ List.mem_map_of_mem hv)
      rw [List.filter_append, hnone]
      simp [MergedGroup.members]

end Divides

/-- Merging makes the classes of updates with equal digests. -/
theorem divides_merge (kind : String) (onHost : Bool) (index : Nat) (encode : α → Encoding)
    (updates : List α) :
    Divides kind onHost index encode updates (merge kind onHost index encode updates) := by
  induction updates using List.reverseRecOn with
  | nil => exact ⟨rfl, rfl, fun g hg => absurd hg List.not_mem_nil⟩
  | append_singleton updates u ih =>
      rw [merge, List.foldl_append]
      by_cases hu : keyOf encode u ∈ updates.map (keyOf encode)
      · exact ih.add_known hu
      · exact ih.add_new hu

/-- The groups are the classes of updates with equal digests: each update is in one of them, once,
and together with those of its digest. -/
structure Partitions (kind : String) (onHost : Bool) (index : Nat) (encode : α → Encoding)
    (updates : List α) (groups : List (MergedGroup α)) : Prop
    extends Divides kind onHost index encode updates groups where
  nonempty : ∀ g ∈ groups, g.members ≠ []
  once : (groups.flatMap MergedGroup.members).Perm updates
  share_iff : ∀ u ∈ updates, ∀ v ∈ updates,
    (∃ g ∈ groups, u ∈ g.members ∧ v ∈ g.members) ↔ keyOf encode u = keyOf encode v

theorem Divides.members_perm (h : Divides kind onHost index encode updates groups) :
    (groups.flatMap MergedGroup.members).Perm updates := by
  have hmembers : groups.flatMap MergedGroup.members =
      (groups.map (·.digest)).flatMap fun d => updates.filter fun u => keyOf encode u = d := by
    rw [List.flatMap_map]
    exact List.flatMap_congr h.members
  rw [hmembers]
  apply flatMap_filter_perm (keyOf encode) h.nodup_digests
  intro u hu
  exact h.mem_digests.mpr ⟨u, hu, rfl⟩

theorem Divides.exists_mem_members_iff (h : Divides kind onHost index encode updates groups)
    (hu : u ∈ updates) (hv : v ∈ updates) :
    (∃ g ∈ groups, u ∈ g.members ∧ v ∈ g.members) ↔ keyOf encode u = keyOf encode v := by
  constructor
  · intro ⟨g, hg, humem, hvmem⟩
    rw [h.members g hg, List.mem_filter, decide_eq_true_iff] at humem hvmem
    exact humem.2.trans hvmem.2.symm
  · intro heq
    obtain ⟨g, hg, hdigest⟩ := List.mem_map.mp (h.mem_digests.mpr ⟨u, hu, rfl⟩)
    refine ⟨g, hg, ?_⟩
    rw [h.members g hg, List.mem_filter, List.mem_filter, decide_eq_true_iff, decide_eq_true_iff]
    exact ⟨⟨hu, hdigest.symm⟩, hv, heq.symm.trans hdigest.symm⟩

theorem partitions_merge (kind : String) (onHost : Bool) (index : Nat) (encode : α → Encoding)
    (updates : List α) :
    Partitions kind onHost index encode updates (merge kind onHost index encode updates) where
  toDivides := divides_merge kind onHost index encode updates
  nonempty := fun g _ => List.cons_ne_nil g.archetype g.others
  once := (divides_merge kind onHost index encode updates).members_perm
  share_iff := fun _ hu _ hv =>
    (divides_merge kind onHost index encode updates).exists_mem_members_iff hu hv

/-! ### Merging by update groups -/

/-- The groups of each update group are the classes of its updates. -/
structure PartitionsByName (kind : String) (onHost : Bool) (index : Nat) (encode : α → Encoding)
    (groupOf : α → String) (updates : List α) (names : List String)
    (merged : List (String × List (MergedGroup α))) : Prop where
  /-- The groups of all update groups are numbered in order. -/
  ids : (MergedModel.flatten merged).map (·.id) =
    (List.range' index (MergedModel.flatten merged).length).map fun i => ⟨kind, i, onHost⟩
  /-- There is an entry for each update group with any of the updates, in their order. -/
  names : merged.map Prod.fst = names.filter fun name => updates.any fun u => groupOf u = name
  nonempty : ∀ entry ∈ merged, entry.2 ≠ []
  /-- An entry has the updates of its update group. -/
  entries : ∀ entry ∈ merged, ∃ first, Partitions kind onHost first encode
    (updates.filter fun u => groupOf u = entry.1) entry.2
  /-- Each update is under the name of its update group, once. -/
  once : (merged.flatMap fun entry =>
    (entry.2.flatMap MergedGroup.members).map fun u => (entry.1, u)).Perm
      (updates.map fun u => (groupOf u, u))

theorem merge_eq_nil_iff : merge kind onHost index encode updates = [] ↔ updates = [] := by
  constructor
  · intro h
    have honce := (divides_merge kind onHost index encode updates).members_perm
    rw [h] at honce
    exact honce.nil_eq.symm
  · intro h
    rw [h]
    rfl

/-- An entry has all updates of its update group, of which there is one. -/
theorem of_mem_mergeByName {groupOf : α → String} {names : List String}
    {entry : String × List (MergedGroup α)}
    (hentry : entry ∈ mergeByName kind onHost encode groupOf updates index names) :
    entry.2 ≠ [] ∧ ∃ first, entry.2 =
      merge kind onHost first encode (updates.filter fun u => groupOf u = entry.1) := by
  induction names generalizing index with
  | nil => exact absurd hentry List.not_mem_nil
  | cons name names ih =>
      simp only [mergeByName, List.isEmpty_iff] at hentry
      split at hentry
      next => exact ih hentry
      next hmerged =>
        rcases List.mem_cons.mp hentry with rfl | hentry
        · exact ⟨hmerged, index, rfl⟩
        · exact ih hentry

theorem map_fst_mergeByName (groupOf : α → String) (names : List String) :
    (mergeByName kind onHost encode groupOf updates index names).map Prod.fst =
      names.filter fun name => updates.any fun u => groupOf u = name := by
  induction names generalizing index with
  | nil => rfl
  | cons name names ih =>
      have hany : (updates.any fun u => groupOf u = name) = true ↔
          merge kind onHost index encode (updates.filter fun u => groupOf u = name) ≠ [] := by
        rw [ne_eq, merge_eq_nil_iff, List.filter_eq_nil_iff, List.any_eq_true]
        push Not
        rfl
      simp only [mergeByName, List.isEmpty_iff, List.filter_cons]
      split
      next hnil => rw [if_neg fun h => hany.mp h hnil, ih]
      next hmerged => rw [if_pos (hany.mpr hmerged), List.map_cons, ih]

theorem map_id_mergeByName (groupOf : α → String) (names : List String) :
    (MergedModel.flatten (mergeByName kind onHost encode groupOf updates index names)).map (·.id) =
      (List.range' index (MergedModel.flatten
        (mergeByName kind onHost encode groupOf updates index names)).length).map
          fun i => ⟨kind, i, onHost⟩ := by
  induction names generalizing index with
  | nil => rfl
  | cons name names ih =>
      simp only [mergeByName, List.isEmpty_iff]
      split
      next hnil =>
        rw [hnil]
        exact ih
      next =>
        rw [MergedModel.flatten, List.flatMap_cons, List.map_append, List.length_append,
          (divides_merge _ _ _ _ _).ids, ← List.range'_append_1, List.map_append]
        exact congrArg _ ih

theorem exists_partitions_of_mem_mergeByName {groupOf : α → String} {names : List String}
    {entry : String × List (MergedGroup α)}
    (hentry : entry ∈ mergeByName kind onHost encode groupOf updates index names) :
    ∃ first, Partitions kind onHost first encode
      (updates.filter fun u => groupOf u = entry.1) entry.2 := by
  obtain ⟨_, first, hmerge⟩ := of_mem_mergeByName hentry
  exact ⟨first, hmerge ▸ partitions_merge ..⟩

/-- Each update is found under the name of its update group, once. -/
theorem named_members_perm (groupOf : α → String) {names : List String} (hnames : names.Nodup)
    (hall : ∀ u ∈ updates, groupOf u ∈ names) :
    ((mergeByName kind onHost encode groupOf updates index names).flatMap fun entry =>
      (entry.2.flatMap MergedGroup.members).map fun u => (entry.1, u)).Perm
        (updates.map fun u => (groupOf u, u)) := by
  have hentry : ∀ entry ∈ mergeByName kind onHost encode groupOf updates index names,
      ((entry.2.flatMap MergedGroup.members).map fun u => (entry.1, u)).Perm
        ((updates.map fun u => (groupOf u, u)).filter fun item => item.1 = entry.1) := by
    intro entry hentry
    obtain ⟨_, hpartitions⟩ := exists_partitions_of_mem_mergeByName hentry
    apply (hpartitions.once.map fun u => (entry.1, u)).trans
    rw [List.filter_map]
    apply List.Perm.of_eq
    apply List.map_congr_left
    intro u hu
    rw [of_decide_eq_true (List.mem_filter.mp hu).2]
  have hkeys : (mergeByName kind onHost encode groupOf updates index names).map Prod.fst =
      names.filter fun name => updates.any fun u => groupOf u = name :=
    map_fst_mergeByName groupOf names
  apply (List.Perm.flatMap_left _ hentry).trans
  rw [← List.flatMap_map Prod.fst fun name =>
    (updates.map fun u => (groupOf u, u)).filter fun item => item.1 = name]
  apply flatMap_filter_perm Prod.fst
  · rw [hkeys]
    exact hnames.filter _
  · intro item hitem
    obtain ⟨u, hu, rfl⟩ := List.mem_map.mp hitem
    rw [hkeys, List.mem_filter, List.any_eq_true]
    exact ⟨hall u hu, u, hu, decide_eq_true rfl⟩

theorem partitionsByName_mergeByName (kind : String) (onHost : Bool) (encode : α → Encoding)
    (groupOf : α → String) {updates : List α} {names : List String} (hnames : names.Nodup)
    (hall : ∀ u ∈ updates, groupOf u ∈ names) :
    PartitionsByName kind onHost 0 encode groupOf updates names
      (mergeByName kind onHost encode groupOf updates 0 names) where
  ids := map_id_mergeByName groupOf names
  names := map_fst_mergeByName groupOf names
  nonempty := fun _ hentry => (of_mem_mergeByName hentry).1
  entries := fun _ => exists_partitions_of_mem_mergeByName
  once := named_members_perm groupOf hnames hall

end MergedGroup

/-! ### Merged models -/

/-- One of the variables gets values. -/
def HasInitialised (inits : Table VarInit) (vars : List Var) : Prop :=
  ∃ v ∈ vars, initOf inits v ≠ .uninitialised

theorem anyInitialised_iff {inits : Table VarInit} {vars : List Var} :
    anyInitialised inits vars = true ↔ HasInitialised inits vars := by
  rw [anyInitialised, List.any_eq_true, HasInitialised]
  apply exists_congr
  intro v
  apply and_congr_right
  intro _
  cases initOf inits v <;> simp [VarInit.isInitialised]

instance (inits : Table VarInit) (vars : List Var) : Decidable (HasInitialised inits vars) :=
  decidable_of_iff (anyInitialised inits vars = true) anyInitialised_iff

theorem decide_hasInitialised (inits : Table VarInit) (vars : List Var) :
    decide (HasInitialised inits vars) = anyInitialised inits vars := by
  rw [Bool.eq_iff_iff, decide_eq_true_iff, anyInitialised_iff]

namespace MergedModel

open MergedGroup

/-- The merged groups that code is generated for, by the lists they are in. -/
def ids (merged : MergedModel) : List GroupId :=
  (flatten merged.updates).map (·.id) ++ (flatten merged.connectivity).map (·.id) ++
    (flatten merged.host).map (·.id) ++ merged.init.map (·.id) ++ merged.preInit.map (·.id) ++
    merged.postInit.map (·.id) ++ merged.sparseInit.map (·.id)

/-- Each list has the updates of the model that it is about, each once and in the group of its
digest, and the names of all groups are distinct. -/
structure PartitionOf (m : Model) (merged : MergedModel) : Prop where
  updates : PartitionsByName "CustomUpdate" false 0 CustomUpdate.encoding (·.group) m.updates
    m.groups merged.updates
  connectivity : PartitionsByName "CustomConnectivityUpdate" false 0 ConnectivityUpdate.encoding
    (·.group) (m.connectivity.filter (·.model.hasRowCode)) m.groups merged.connectivity
  host : PartitionsByName "CustomConnectivityHostUpdate" true 0 ConnectivityUpdate.hostEncoding
    (·.group) (m.connectivity.filter (·.model.hasHostCode)) m.groups merged.host
  init : Partitions "CustomUpdateInit" false 0 CustomUpdate.initEncoding
    (m.updates.filter fun u => HasInitialised u.inits u.model.vars) merged.init
  preInit : Partitions "CustomConnectivityUpdatePreInit" false 0
    ConnectivityUpdate.preInitEncoding
    (m.connectivity.filter fun u => u.model.usesRandom ∨ HasInitialised u.preInits u.model.preVars)
    merged.preInit
  postInit : Partitions "CustomConnectivityUpdatePostInit" false 0
    ConnectivityUpdate.postInitEncoding
    (m.connectivity.filter fun u => HasInitialised u.postInits u.model.postVars) merged.postInit
  sparseInit : Partitions "CustomConnectivityUpdateSparseInit" false 0
    ConnectivityUpdate.sparseInitEncoding
    (m.connectivity.filter fun u => HasInitialised u.inits u.model.vars) merged.sparseInit
  names : (merged.ids.flatMap GroupId.names).Nodup

theorem mem_groups_of_mem_updates {m : Model} {u : CustomUpdate} (hu : u ∈ m.updates) :
    u.group ∈ m.groups := by
  rw [Model.groups_eq_eraseDups, List.mem_eraseDups]
  exact List.mem_append_left _ (List.mem_map_of_mem hu)

theorem mem_groups_of_mem_connectivity {m : Model} {u : ConnectivityUpdate}
    (hu : u ∈ m.connectivity) : u.group ∈ m.groups := by
  rw [Model.groups_eq_eraseDups, List.mem_eraseDups]
  exact List.mem_append_right _ (List.mem_map_of_mem hu)

/-- The kinds of groups, whether they are kept on the host, and how many there are of each. -/
def blocks (merged : MergedModel) : List (String × Bool × Nat) :=
  [("CustomUpdate", false, (flatten merged.updates).length),
    ("CustomConnectivityUpdate", false, (flatten merged.connectivity).length),
    ("CustomConnectivityHostUpdate", true, (flatten merged.host).length),
    ("CustomUpdateInit", false, merged.init.length),
    ("CustomConnectivityUpdatePreInit", false, merged.preInit.length),
    ("CustomConnectivityUpdatePostInit", false, merged.postInit.length),
    ("CustomConnectivityUpdateSparseInit", false, merged.sparseInit.length)]

theorem ids_ofModel (m : Model) :
    (ofModel m).ids = (ofModel m).blocks.flatMap fun block =>
      (List.range' 0 block.2.2).map fun i => ⟨block.1, i, block.2.1⟩ := by
  simp only [ids, blocks, List.flatMap_cons, List.flatMap_nil, List.append_nil, List.append_assoc]
  simp only [ofModel, map_id_mergeByName, (divides_merge _ _ _ _ _).ids]

/-- No two groups of a merged model share a name. -/
theorem nodup_names_ofModel (m : Model) : ((ofModel m).ids.flatMap GroupId.names).Nodup := by
  have hkinds : ((ofModel m).blocks.map Prod.fst).Nodup ∧
      ∀ kind ∈ (ofModel m).blocks.map Prod.fst, GroupId.Digitless kind := by
    simp only [blocks, List.map_cons, List.map_nil]
    decide
  rw [ids_ofModel]
  apply GroupId.nodup_flatMap_names
  · intro g hg
    obtain ⟨block, hblock, hg⟩ := List.mem_flatMap.mp hg
    obtain ⟨i, _, rfl⟩ := List.mem_map.mp hg
    exact hkinds.2 block.1 (List.mem_map_of_mem hblock)
  · rw [List.map_flatMap, List.nodup_flatMap]
    constructor
    · intro block _
      rw [List.map_map]
      exact List.Nodup.map (fun i j h => (Prod.mk.inj h).2) List.nodup_range'
    · apply (List.pairwise_map.mp hkinds.1).imp
      intro block block' hne name hname hname'
      simp only [List.map_map, List.mem_map] at hname hname'
      obtain ⟨_, _, rfl⟩ := hname
      obtain ⟨_, _, heq⟩ := hname'
      exact hne (Prod.mk.inj heq).1.symm

/-- A merged model has each update of the model in the groups it is meant for. -/
theorem partitionOf_ofModel (m : Model) : PartitionOf m (ofModel m) := by
  have hgroups : m.groups.Nodup := m.groups_eq_eraseDups ▸ nodup_eraseDups _
  have hconnectivity : ∀ p : ConnectivityUpdate → Bool, ∀ u ∈ m.connectivity.filter p,
      u.group ∈ m.groups := fun _ _ hu =>
    mem_groups_of_mem_connectivity (List.mem_of_mem_filter hu)
  constructor
  · exact partitionsByName_mergeByName _ _ _ _ hgroups fun _ => mem_groups_of_mem_updates
  · exact partitionsByName_mergeByName _ _ _ _ hgroups (hconnectivity _)
  · exact partitionsByName_mergeByName _ _ _ _ hgroups (hconnectivity _)
  · simp only [decide_hasInitialised]
    exact partitions_merge ..
  · simp only [Bool.decide_or, Bool.decide_eq_true, decide_hasInitialised]
    exact partitions_merge ..
  · simp only [decide_hasInitialised]
    exact partitions_merge ..
  · simp only [decide_hasInitialised]
    exact partitions_merge ..
  · exact nodup_names_ofModel m

end MergedModel

end KernelWeaver
