import KernelWeaver.Generate.Bindings
import KernelWeaver.Merge.Model
import KernelWeaver.Proofs.Merge.SynapseArrays
import KernelWeaver.Proofs.Snippet.Lexemes

/-!
# Which variables share an array

The name of an array on the device is put together from the names of a variable and its owner, with
nothing between them. Two variables share an array exactly if one of them has a longer name and its
owner a shorter one, and the same text makes up both differences.
-/

namespace KernelWeaver

open Generate

/-- The end of one variable's name is the front of the other's owner. -/
def NamesOverlap (var owner var' owner' : String) : Prop :=
  ∃ part, part ≠ "" ∧ var = var' ++ part ∧ owner' = part ++ owner

/-- Names are put together alike if they are the same or one part of them can be cut in two ways. -/
theorem append_eq_append_iff_overlap {var owner var' owner' : String} :
    var ++ owner = var' ++ owner' ↔
      (var = var' ∧ owner = owner') ∨ NamesOverlap var owner var' owner' ∨
        NamesOverlap var' owner' var owner := by
  constructor
  · intro h
    have hlists := congrArg String.toList h
    rw [String.toList_append, String.toList_append] at hlists
    have hcut {a b c d : String} {part : List Char} (hfront : c.toList = a.toList ++ part)
        (hback : b.toList = part ++ d.toList) :
        (a = c ∧ b = d) ∨ NamesOverlap c d a b := by
      have hfront : c = a ++ String.ofList part := by simp [← String.toList_inj, hfront]
      have hback : b = String.ofList part ++ d := by simp [← String.toList_inj, hback]
      by_cases hempty : String.ofList part = ""
      · rw [hempty, String.append_empty] at hfront
        rw [hempty, String.empty_append] at hback
        exact Or.inl ⟨hfront.symm, hback⟩
      · exact Or.inr ⟨String.ofList part, hempty, hfront, hback⟩
    rcases List.append_eq_append_iff.mp hlists with ⟨part, hfront, hback⟩ | ⟨part, hfront, hback⟩
    · exact (hcut hfront hback).imp_right Or.inr
    · exact (hcut hfront hback).imp (fun h => ⟨h.1.symm, h.2.symm⟩) Or.inl
  · rintro (⟨rfl, rfl⟩ | ⟨part, -, rfl, rfl⟩ | ⟨part, -, rfl, rfl⟩)
    · rfl
    · exact String.append_assoc ..
    · exact (String.append_assoc ..).symm

theorem deviceArray_eq_iff {var owner var' owner' : String} :
    deviceArray var owner = deviceArray var' owner' ↔
      (var = var' ∧ owner = owner') ∨ NamesOverlap var owner var' owner' ∨
        NamesOverlap var' owner' var owner := by
  rw [← append_eq_append_iff_overlap]
  simp only [deviceArray, ← String.toList_inj, String.toList_append, List.append_assoc,
    List.append_cancel_left_eq]

section Values

variable {aliases : Aliases} {i k : Nat}

theorem value_of_ofVars {owners : List String} {vars : List Var} {arrays : List ArrayBinding}
    {v : Var} {a : ArrayBinding} {owner : String}
    (hmade : ArrayBinding.ofVars aliases owners vars = .ok arrays) (hv : vars[i]? = some v)
    (ha : arrays[i]? = some a) (howner : owners[k]? = some owner) :
    a.values[k]? = some (deviceArray v.name owner) := by
  obtain ⟨_, ha', hmade⟩ := exists_getElem?_of_forall₂ (mapM_eq_ok_iff.mp hmade) hv
  cases ha.symm.trans ha'
  obtain ⟨type, -, hmade⟩ := bind_eq_ok.mp hmade
  cases hmade
  rw [List.getElem?_map, howner, Option.map_some]

theorem value_of_ofRefs {members : List (String × Table VarReference)} {slots : List RefSlot}
    {arrays : List ArrayBinding} {slot : RefSlot} {a : ArrayBinding} {owner : String}
    {refs : Table VarReference} {r : VarReference}
    (hmade : ArrayBinding.ofRefs aliases members slots = .ok arrays)
    (hslot : slots[i]? = some slot) (ha : arrays[i]? = some a)
    (hmember : members[k]? = some (owner, refs)) (hr : refs.find? slot.name = some r) :
    a.values[k]? = some r.array := by
  obtain ⟨_, ha', hmade⟩ := exists_getElem?_of_forall₂ (mapM_eq_ok_iff.mp hmade) hslot
  cases ha.symm.trans ha'
  obtain ⟨filled, hfilled, hmade⟩ := bind_eq_ok.mp hmade
  obtain ⟨type, -, hmade⟩ := bind_eq_ok.mp hmade
  cases hmade
  obtain ⟨_, hk, hbound⟩ := exists_getElem?_of_forall₂ (mapM_eq_ok_iff.mp hfilled) hmember
  cases hr.symm.trans (boundTo_eq_ok.mp hbound)
  rw [List.getElem?_map, hk, Option.map_some]

variable {g : MergedGroup ConnectivityUpdate} {arrays : List Synapses.SynapseArray}
  {a : Synapses.SynapseArray} {u : ConnectivityUpdate}

/-- The arrays of a group are those of its variables, of its slots and of what members do not name,
one behind the other. -/
theorem value_of_synapseArrays (hmade : g.synapseArrays aliases = .ok arrays)
    (hu : g.members[k]? = some u) :
    (∀ v, g.archetype.model.vars[i]? = some v → arrays[i]? = some a →
      a.values[k]? = some (deviceArray v.name u.name)) ∧
    (∀ slot r, g.archetype.model.refs[i]? = some slot → u.refs.find? slot.name = some r →
      arrays[g.archetype.model.vars.length + i]? = some a → a.values[k]? = some r.array) ∧
    ∀ v, (sortedDependentVars u)[i]? = some v →
      arrays[g.archetype.model.vars.length + g.archetype.model.refs.length + i]? = some a →
      a.values[k]? = some v.array := by
  obtain ⟨own, hown, referred, hreferred, hcounts, dependent, hdependent, rfl⟩ :=
    MergedGroup.synapseArrays_eq_ok.mp hmade
  refine ⟨?_, ?_, ?_⟩
  · intro v hv ha
    obtain ⟨b, hb, hmade⟩ := exists_getElem?_of_forall₂ hown hv
    have hi := (List.getElem?_eq_some_iff.mp hb).1
    rw [List.append_assoc, List.getElem?_append_left hi, hb] at ha
    cases ha
    exact MergedGroup.value_of_ownArray hu hmade
  · intro slot r hslot hr ha
    obtain ⟨b, hb, hmade⟩ := exists_getElem?_of_forall₂ hreferred hslot
    have hi := (List.getElem?_eq_some_iff.mp hb).1
    rw [hown.length_eq, List.append_assoc, List.getElem?_append_right (Nat.le_add_right _ _),
      Nat.add_sub_cancel_left, List.getElem?_append_left hi, hb] at ha
    cases ha
    obtain ⟨_, hr', hvalue⟩ := MergedGroup.value_of_referredArray hu hmade
    cases hr.symm.trans hr'
    exact hvalue
  · intro v hv ha
    have hi := (List.getElem?_eq_some_iff.mp hv).1
    rw [hcounts u (List.mem_of_getElem? hu)] at hi
    have hplace : (sortedDependentVars g.archetype).zipIdx[i]? =
        some ((sortedDependentVars g.archetype)[i], i) := by
      rw [List.getElem?_zipIdx, List.getElem?_eq_getElem hi, Option.map_some, Nat.zero_add]
    obtain ⟨b, hb, hmade⟩ := exists_getElem?_of_forall₂ hdependent hplace
    rw [hown.length_eq, hreferred.length_eq, ← List.length_append,
      List.getElem?_append_right (Nat.le_add_right _ _), Nat.add_sub_cancel_left, hb] at ha
    cases ha
    have hplaces : ∀ u ∈ g.members, i < (sortedDependentVars u).length := by
      intro u hu
      rwa [hcounts u hu]
    obtain ⟨_, hv', hvalue⟩ := MergedGroup.value_of_dependentArray hu hplaces hmade
    cases hv.symm.trans hv'
    exact hvalue

end Values

namespace Model

open MergedModel

/-- The names of the members of a group. -/
def ownersOf {α : Type} (name : α → String) (g : MergedGroup α) : List String :=
  g.members.map name

/-- The variables of members whose arrays are fields of structs, each list with its owners. -/
def ownedVars (m : Model) : List (List String × List Var) :=
  let merged := ofModel m
  (flatten merged.updates ++ merged.init).map
      (fun g => (ownersOf CustomUpdate.name g, g.archetype.model.vars)) ++
    (flatten merged.connectivity ++ merged.preInit).map
      (fun g => (ownersOf ConnectivityUpdate.name g, g.archetype.model.preVars)) ++
    (flatten merged.connectivity ++ merged.postInit).map
      (fun g => (ownersOf ConnectivityUpdate.name g, g.archetype.model.postVars)) ++
    merged.sparseInit.map fun g => (ownersOf ConnectivityUpdate.name g, g.archetype.model.vars)

/-- The slots that are filled with fields of structs, each list with what fills them. -/
def filledSlots (m : Model) : List (List (String × Table VarReference) × List RefSlot) :=
  let merged := ofModel m
  (flatten merged.updates).map
      (fun g => (g.members.map fun u => (u.name, u.refs), g.archetype.model.refs)) ++
    (flatten merged.connectivity).map
      (fun g => (g.members.map fun u => (u.name, u.preRefs), g.archetype.model.preRefs)) ++
    (flatten merged.connectivity).map
      (fun g => (g.members.map fun u => (u.name, u.postRefs), g.archetype.model.postRefs))

/-- In the code of a model, the array is that of the variable of the owner. -/
inductive NamesArray (m : Model) : (var owner array : String) → Prop where
  | owned {owners : List String} {vars : List Var} {arrays : List ArrayBinding} {i k : Nat}
      {v : Var} {a : ArrayBinding} {owner array : String} (listed : (owners, vars) ∈ m.ownedVars)
      (made : ArrayBinding.ofVars (.ofPrecision m.precision) owners vars = .ok arrays)
      (var : vars[i]? = some v) (binding : arrays[i]? = some a) (member : owners[k]? = some owner)
      (value : a.values[k]? = some array) : NamesArray m v.name owner array
  | slot {members : List (String × Table VarReference)} {slots : List RefSlot}
      {arrays : List ArrayBinding} {i k : Nat} {slot : RefSlot} {a : ArrayBinding} {owner : String}
      {refs : Table VarReference} {r : VarReference} {array : String}
      (listed : (members, slots) ∈ m.filledSlots)
      (made : ArrayBinding.ofRefs (.ofPrecision m.precision) members slots = .ok arrays)
      (var : slots[i]? = some slot) (binding : arrays[i]? = some a)
      (member : members[k]? = some (owner, refs)) (filled : refs.find? slot.name = some r)
      (value : a.values[k]? = some array) : NamesArray m r.var r.target array
  | synapse {g : MergedGroup ConnectivityUpdate} {arrays : List Synapses.SynapseArray} {i k : Nat}
      {v : Var} {a : Synapses.SynapseArray} {u : ConnectivityUpdate} {array : String}
      (listed : g ∈ flatten (ofModel m).connectivity)
      (made : g.synapseArrays (.ofPrecision m.precision) = .ok arrays)
      (var : g.archetype.model.vars[i]? = some v) (binding : arrays[i]? = some a)
      (member : g.members[k]? = some u) (value : a.values[k]? = some array) :
      NamesArray m v.name u.name array
  | referred {g : MergedGroup ConnectivityUpdate} {arrays : List Synapses.SynapseArray} {i k : Nat}
      {slot : RefSlot} {a : Synapses.SynapseArray} {u : ConnectivityUpdate} {r : VarReference}
      {array : String} (listed : g ∈ flatten (ofModel m).connectivity)
      (made : g.synapseArrays (.ofPrecision m.precision) = .ok arrays)
      (var : g.archetype.model.refs[i]? = some slot)
      (binding : arrays[g.archetype.model.vars.length + i]? = some a)
      (member : g.members[k]? = some u) (filled : u.refs.find? slot.name = some r)
      (value : a.values[k]? = some array) : NamesArray m r.var r.target array
  | dependent {g : MergedGroup ConnectivityUpdate} {arrays : List Synapses.SynapseArray} {i k : Nat}
      {v : SynapseVar} {a : Synapses.SynapseArray} {u : ConnectivityUpdate} {array : String}
      (listed : g ∈ flatten (ofModel m).connectivity)
      (made : g.synapseArrays (.ofPrecision m.precision) = .ok arrays)
      (member : g.members[k]? = some u) (var : (sortedDependentVars u)[i]? = some v)
      (binding : arrays[g.archetype.model.vars.length + g.archetype.model.refs.length + i]? = some a)
      (value : a.values[k]? = some array) : NamesArray m v.name v.owner array

/-- All names of arrays are made in the same way. -/
theorem NamesArray.eq_deviceArray {m : Model} {var owner array : String}
    (h : m.NamesArray var owner array) : array = deviceArray var owner := by
  cases h with
  | owned _ made var binding member value =>
      exact Option.some.inj (value.symm.trans (value_of_ofVars made var binding member))
  | slot _ made var binding member filled value =>
      exact Option.some.inj (value.symm.trans (value_of_ofRefs made var binding member filled))
  | synapse _ made var binding member value =>
      obtain ⟨hown, -, -⟩ := value_of_synapseArrays made member
      exact Option.some.inj (value.symm.trans (hown _ var binding))
  | referred _ made var binding member filled value =>
      obtain ⟨-, hreferred, -⟩ := value_of_synapseArrays made member
      exact Option.some.inj (value.symm.trans (hreferred _ _ var filled binding))
  | dependent _ made member var binding value =>
      obtain ⟨-, -, hdependent⟩ := value_of_synapseArrays made member
      exact Option.some.inj (value.symm.trans (hdependent _ var binding))

/-- Two variables of a model, owned, referred to or kept aligned, have the same array exactly if
they are the same variable or one's name ends with the text that is missing at the front of its
owner's name to make it the other's. -/
theorem arrays_shared_iff_names_overlap {m : Model} {var owner array var' owner' array' : String}
    (h : m.NamesArray var owner array) (h' : m.NamesArray var' owner' array') :
    array = array' ↔
      (var = var' ∧ owner = owner') ∨ NamesOverlap var owner var' owner' ∨
        NamesOverlap var' owner' var owner := by
  rw [h.eq_deviceArray, h'.eq_deviceArray, deviceArray_eq_iff]

/-- The names of updates and groups of synapses. A group may be changed by several updates. -/
def entities (m : Model) : List String :=
  m.updates.map CustomUpdate.name ++ m.connectivity.map ConnectivityUpdate.name ++
    (m.connectivity.map (·.synapses.name)).dedup

/-- What the references of a model fill its slots with. -/
def references (m : Model) : List VarReference :=
  m.updates.flatMap (fun u => u.refs.entries) ++
    m.connectivity.flatMap fun u => u.refs.entries ++ u.preRefs.entries ++ u.postRefs.entries

/-- Names are words, no two entities have the same name, and no two variables of one entity. -/
structure WellNamed (m : Model) : Prop where
  entities_nodup : m.entities.Nodup
  entities_words : ∀ name ∈ m.entities, Snippet.Lexer.IsWord name.toList
  references_words : ∀ r ∈ m.references,
    Snippet.Lexer.IsWord r.target.toList ∧ Snippet.Lexer.IsWord r.var.toList
  update_vars : ∀ u ∈ m.updates, (u.model.vars.map Var.name).Nodup ∧
    ∀ v ∈ u.model.vars, Snippet.Lexer.IsWord v.name.toList
  connectivity_vars : ∀ u ∈ m.connectivity,
    ((u.model.vars ++ u.model.preVars ++ u.model.postVars).map Var.name).Nodup ∧
    ∀ v ∈ u.model.vars ++ u.model.preVars ++ u.model.postVars, Snippet.Lexer.IsWord v.name.toList
  stored_vars : ∀ u ∈ m.connectivity,
    (u.synapses.vars.map fun v => (v.owner, v.name)).Nodup ∧
    ∀ v ∈ u.synapses.vars, v.owner ∈ m.entities ∧ Snippet.Lexer.IsWord v.name.toList

/-- An update `E` with a variable `wE` of the synapses `EE`, which have a weight `w`. -/
def pruning : ConnectivityUpdate where
  name := "E"
  group := "Tick"
  model :=
    { name := "Prune"
      params := []
      derived := []
      vars := [⟨"wE", "scalar", .readWrite⟩]
      preVars := [⟨"x", "scalar", .readWrite⟩]
      postVars := []
      refs := []
      preRefs := []
      postRefs := []
      globals := []
      rowCode := "for_each_synapse \x7b if(wE > x) \x7b remove_synapse(); \x7d \x7d"
      hostCode := "" }
  params := []
  synapses :=
    { name := "EE"
      numPre := 4
      numPost := 8
      rowStride := 3
      vars := [⟨"EE", "w", "scalar", false⟩, ⟨"E", "wE", "scalar", false⟩] }
  inits := []
  preInits := []
  postInits := []
  refs := []
  preRefs := []
  postRefs := []

def pruningNetwork : Model where
  name := "net"
  precision := .float
  batchSize := 1
  seed := 0
  dt := 0.1
  updates := []
  connectivity := [pruning]

theorem wellNamed_pruningNetwork : pruningNetwork.WellNamed := by
  have hword {name : String} (h : name.toList.head?.any Snippet.Lexer.isNameStart = true ∧
      name.toList.all Text.isAsciiWord = true) : Snippet.Lexer.IsWord name.toList :=
    Snippet.Lexer.isWord_of_all h.1 h.2
  constructor
  · decide
  · intro name hname
    exact hword (by revert name; decide)
  · intro r hr
    cases hr
  · intro u hu
    cases hu
  · simp only [pruningNetwork, List.forall_mem_singleton]
    refine ⟨by decide, ?_⟩
    intro v hv
    exact hword (by revert v; decide)
  · simp only [pruningNetwork, List.forall_mem_singleton]
    refine ⟨by decide, ?_⟩
    intro v hv
    exact ⟨by revert v; decide, hword (by revert v; decide)⟩

def pruningGroup : MergedGroup ConnectivityUpdate :=
  ⟨⟨"CustomConnectivityUpdate", 0, false⟩, pruning, [], .ofEncoding pruning.encoding⟩

theorem flatten_pruningNetwork :
    flatten (ofModel pruningNetwork).connectivity = [pruningGroup] := by
  have hcode : pruning.model.hasRowCode = true := by decide
  simp [ofModel, flatten, MergedGroup.mergeByName, MergedGroup.merge, MergedGroup.add, groups,
    pruningNetwork, pruningGroup, hcode]

theorem mem_flatten_pruningNetwork :
    pruningGroup ∈ flatten (ofModel pruningNetwork).connectivity := by
  rw [flatten_pruningNetwork]
  exact List.mem_singleton_self _

theorem sortedDependentVars_pruning :
    sortedDependentVars pruning = [⟨"EE", "w", "scalar", false⟩] := by
  have hdependent : pruning.dependentVars = [⟨"EE", "w", "scalar", false⟩] := by decide
  rw [sortedDependentVars, hdependent, List.mergeSort_singleton]

theorem synapseArrays_pruning : pruningGroup.synapseArrays (.ofPrecision .float) =
    .ok [⟨some "wE", "wE", .num .float, false, false, ["d_wEE"]⟩,
      ⟨none, "_dependentVar0", .num .float, false, false, ["d_wEE"]⟩] := by
  have hscalar : (Aliases.ofPrecision .float).parseType? "scalar" = some (.num .float) := by decide
  have hsorted : sortedDependentVars pruningGroup.archetype = [⟨"EE", "w", "scalar", false⟩] :=
    sortedDependentVars_pruning
  have hown := MergedGroup.ownArray_eq_ok (g := pruningGroup) (v := ⟨"wE", "scalar", .readWrite⟩)
    |>.mpr ⟨_, hscalar, rfl⟩
  have hdependent := MergedGroup.dependentArray_eq_ok (g := pruningGroup) (i := 0)
    (v := ⟨"EE", "w", "scalar", false⟩) |>.mpr ⟨_, hscalar, rfl⟩
  simp only [MergedGroup.members, pruningGroup, sortedDependentVars_pruning, List.filterMap_cons,
    List.filterMap_nil] at hdependent
  refine MergedGroup.synapseArrays_eq_ok.mpr
    ⟨[_], .cons hown .nil, [], .nil, ?_, [_], ?_, rfl⟩
  · intro u hu
    rw [List.mem_singleton.mp hu]
  · rw [hsorted]
    exact .cons hdependent .nil

theorem namesArray_own : pruningNetwork.NamesArray "wE" "E" "d_wEE" :=
  .synapse (i := 0) (k := 0) (v := ⟨"wE", "scalar", .readWrite⟩) (u := pruning)
    mem_flatten_pruningNetwork synapseArrays_pruning rfl rfl rfl rfl

theorem namesArray_dependent : pruningNetwork.NamesArray "w" "EE" "d_wEE" := by
  have hvar : (sortedDependentVars pruning)[0]? = some ⟨"EE", "w", "scalar", false⟩ := by
    rw [sortedDependentVars_pruning]
    rfl
  exact .dependent (i := 0) (k := 0) (u := pruning) mem_flatten_pruningNetwork synapseArrays_pruning
    rfl hvar rfl rfl

theorem namesArray_pre : pruningNetwork.NamesArray "x" "E" "d_xE" := by
  have hlisted : (["E"], [⟨"x", "scalar", .readWrite⟩]) ∈ pruningNetwork.ownedVars := by
    simp [ownedVars, flatten_pruningNetwork, ownersOf, MergedGroup.members, pruningGroup, pruning]
  exact .owned (i := 0) (k := 0) (v := ⟨"x", "scalar", .readWrite⟩)
    (a := ⟨"x", .num .float, false, true, ["d_xE"]⟩) hlisted rfl rfl rfl rfl rfl

/-- Two variables of a model whose names are all different may have the same array. -/
theorem arrays_not_apart :
    ¬ ∀ m : Model, m.WellNamed → ∀ var owner array var' owner' array',
      m.NamesArray var owner array → m.NamesArray var' owner' array' →
        (var, owner) ≠ (var', owner') → array ≠ array' := by
  intro h
  exact h pruningNetwork wellNamed_pruningNetwork "wE" "E" "d_wEE" "w" "EE" "d_wEE"
    namesArray_own namesArray_dependent (by decide) rfl

/-- The variable `x` of `E` has an array of its own, `wE` has that of the weight. -/
theorem arrays_shared_iff_names_overlap_pruning : pruningNetwork.WellNamed ∧
    pruningNetwork.NamesArray "x" "E" "d_xE" ∧ pruningNetwork.NamesArray "wE" "E" "d_wEE" ∧
    pruningNetwork.NamesArray "w" "EE" "d_wEE" ∧ ¬ NamesOverlap "x" "E" "w" "EE" ∧
    (NamesOverlap "wE" "E" "w" "EE" ∨ NamesOverlap "w" "EE" "wE" "E") := by
  refine ⟨wellNamed_pruningNetwork, namesArray_pre, namesArray_own, namesArray_dependent, ?_, ?_⟩
  · intro hoverlap
    have hshared := (arrays_shared_iff_names_overlap namesArray_pre namesArray_dependent).mpr
      (Or.inr (Or.inl hoverlap))
    exact absurd hshared (by decide)
  · exact ((arrays_shared_iff_names_overlap namesArray_own namesArray_dependent).mp rfl).resolve_left
      (by decide)

end Model

end KernelWeaver
