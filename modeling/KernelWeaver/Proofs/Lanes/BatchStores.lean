import KernelWeaver.Generate.ElementInit
import KernelWeaver.Proofs.Code.Sessions
import KernelWeaver.Proofs.Lanes.BatchCode

/-!
# First values in every batch

Where the variables of a custom update are initialised, each lane has an element of its own and
stores the first value of a duplicated variable once for every batch.
-/

namespace KernelWeaver.Generate

open Code Code.Emit Batches

/-- The scope binds the names of a lane that has an element of its own. -/
structure BindsLane (counts : List Nat) (s : Scope) : Prop where
  size : s.bindings.find? "size" =
    some [{ Binding.ofText idType "group->size" with field := some (sizeField counts) }]
  id : s.bindings.find? "id" = some [Binding.ofText idType "lid"]

/-- The lines that store the first value of an element of an array for every batch. -/
def storeLines (a : ArrayBinding) (count : Nat) : List String :=
  ["for(unsigned int b = 0; b < " ++ toString count ++ "; b++)", "\x7b",
    a.at storeIndex.text ++ " = initVal;", "\x7d"]

variable {counts : List Nat} {s u : Scope} {inner outer : List Scope} {sink : CodeStream}
  {fields fields' : StructFields}

theorem runOn_countName (hs : BindsLane counts s) (hfields : s.fields = some fields)
    (hregister : fields.register (sizeField counts) = .ok fields')
    (hinner : ∀ w ∈ inner, w.binds "size" = false) :
    (resolve "size" none).runOn ⟨inner ++ s :: outer, sink⟩ =
      (.ok "group->size", ⟨inner ++ { s with fields := some fields' } :: outer, sink⟩) :=
  runOn_resolve_of_find? hinner hs.size fun _ =>
    (runOn_expand_field hfields hregister).trans (runOn_expand_ofText (by decide) (by decide))

theorem runOn_lane (hs : BindsLane counts s) (hinner : ∀ w ∈ inner, w.binds "id" = false) :
    (resolve "id" none).runOn ⟨inner ++ s :: outer, sink⟩ =
      (.ok "lid", ⟨inner ++ s :: outer, sink⟩) :=
  runOn_resolve_of_find? hinner hs.id fun _ => runOn_expand_ofText (by decide) (by decide)

theorem runOn_storeGuard (hs : BindsLane counts s) (hfields : s.fields = some fields)
    (hregister : fields.register (sizeField counts) = .ok fields') :
    (expandText "if($(id) < $(size))").runOn ⟨s :: outer, sink⟩ =
      (.ok storeGuard.text, ⟨{ s with fields := some fields' } :: outer, sink⟩) := by
  have hcode : "if(" ++ ("lid" ++ (" < " ++ ("group->size" ++ (")" ++ "")))) = storeGuard.text := by
    decide +kernel
  have hid := @runOn_lane counts s [] outer sink hs (by simp)
  have hsize := @runOn_countName counts s [] outer sink _ _ hs hfields hregister (by simp)
  rw [expandText, ofString_guard, ← hcode]
  exact runOn_render_text _ <| runOn_render_marker hid <| runOn_render_text _ <|
    runOn_render_marker hsize <| runOn_render_text _ runOn_render_nil

/-- The template of the line that stores a first value. -/
theorem ofString_store {name : String} (hword : ∀ c ∈ name.toList, Text.isWordChar c = true) :
    Template.ofString ("$(_array_" ++ name ++ ")" ++ "[(b * $(" ++ "size" ++ ")) + " ++ "$(id)" ++
      "] = initVal;") =
    [.marker ("_array_" ++ name).toList, .text "[(b * ".toList, .marker "size".toList,
      .text ") + ".toList, .marker "id".toList, .text "] = initVal;".toList] := by
  have hback : Template.ofString "[(b * $(size)) + $(id)] = initVal;" =
      [.text "[(b * ".toList, .marker "size".toList, .text ") + ".toList, .marker "id".toList,
        .text "] = initVal;".toList] := by decide +kernel
  have hchars : ("_array_" ++ name).toList = '_' :: ("array_".toList ++ name.toList) := by
    rw [String.toList_append]
    rfl
  have hall : ∀ c ∈ "array_".toList ++ name.toList, Text.isWordChar c = true := by
    rw [List.forall_mem_append]
    exact ⟨List.all_eq_true.mp (by decide), hword⟩
  have hsplit : "$(_array_" ++ name ++ ")" ++ "[(b * $(" ++ "size" ++ ")) + " ++ "$(id)" ++
      "] = initVal;" =
        "$(" ++ ("_array_" ++ name) ++ ")" ++ "[(b * $(size)) + $(id)] = initVal;" := by
    have hfront : "$(_array_" = "$(" ++ "_array_" := by decide +kernel
    have hrest : "[(b * $(size)) + $(id)] = initVal;" =
      "[(b * $(" ++ ("size" ++ (")) + " ++ ("$(id)" ++ "] = initVal;"))) := by decide +kernel
    rw [hfront, hrest]
    simp only [String.append_assoc]
  rw [hsplit, Template.ofString_marker _ hchars (by decide) hall, hback]

section Stores

variable {a : ArrayBinding} (hs : BindsLane counts s)
  (hbound : s.bindings.find? ("_array_" ++ a.name) = some [a.pointer])
  (hword : ∀ c ∈ a.name.toList, Text.isWordChar c = true) (hfields : s.fields = some fields)
  (hsize : fields.register (sizeField counts) = .ok fields)
  (hregister : fields.register a.field = .ok fields')
include hs hbound hword hfields hsize hregister

theorem runOn_expandStore
    (hinner : ∀ name ∈ ["size", "id", "_array_" ++ a.name], ∀ w ∈ inner, w.binds name = false) :
    (expandText ("$(_array_" ++ a.name ++ ")" ++ "[(b * $(" ++ "size" ++ ")) + " ++ "$(id)" ++
      "] = initVal;")).runOn ⟨inner ++ s :: outer, sink⟩ =
        (.ok (a.at storeIndex.text ++ " = initVal;"),
          ⟨inner ++ { s with fields := some fields' } :: outer, sink⟩) := by
  have hname : '$' ∉ (fieldCode a.name).toList := by
    rw [fieldCode, String.toList_append, List.mem_append, not_or]
    exact ⟨by decide, fun h => absurd (hword _ h) (by decide)⟩
  have hpointer : (resolve ("_array_" ++ a.name) none).runOn ⟨inner ++ s :: outer, sink⟩ =
      (.ok (fieldCode a.name), ⟨inner ++ { s with fields := some fields' } :: outer, sink⟩) :=
    runOn_resolve_of_find? (hinner _ (by simp)) hbound fun _ =>
      (runOn_expand_field hfields hregister).trans
        (runOn_expand_ofText hname (by simp [fieldCode]))
  have hagain := StructFields.register_behind hsize hregister
  have hs' : BindsLane counts { s with fields := some fields' } := ⟨hs.size, hs.id⟩
  have hcount := @runOn_countName counts _ inner outer sink _ _ hs' rfl hagain
    (hinner _ (by simp))
  have hlane := @runOn_lane counts _ inner outer sink hs' (hinner _ (by simp))
  have hcode : fieldCode a.name ++ ("[(b * " ++ ("group->size" ++ (") + " ++ ("lid" ++
      ("] = initVal;" ++ ""))))) = a.at storeIndex.text ++ " = initVal;" := by
    have hindex : storeIndex.text = "(b * " ++ ("group->size" ++ (") + " ++ "lid")) := by
      decide +kernel
    have hopen : "[(b * " = "[" ++ "(b * " := by decide +kernel
    have hclose : "] = initVal;" = "]" ++ " = initVal;" := by decide +kernel
    rw [ArrayBinding.at, fieldCode, hindex, hopen, hclose]
    simp only [String.append_assoc, String.append_empty]
  rw [expandText, ofString_store hword, ← hcode]
  exact runOn_render_marker hpointer <| runOn_render_text "[(b * " <|
    runOn_render_marker hcount <| runOn_render_text ") + " <| runOn_render_marker hlane <|
      runOn_render_text "] = initVal;" runOn_render_nil

/-- Wherever a duplicated variable is initialised, its first value is stored for every batch at the
index of the batch and the lane. -/
theorem runOn_storeInitial {v : Var} {count : Nat} (hname : a.name = v.name)
    (hduplicated : v.access.isDuplicated = true)
    (hinner : ∀ name ∈ ["size", "id", "_array_" ++ a.name], ∀ w ∈ u :: inner,
      w.binds name = false) :
    (storeInitial ⟨"$(id)", some (count, "size")⟩ v).runOn ⟨u :: inner ++ s :: outer, sink⟩ =
      (.ok (), ⟨{ u with stream := u.stream.writeAll (storeLines a count) } ::
        inner ++ { s with fields := some fields' } :: outer, sink⟩) := by
  have hline (stream : CodeStream) (scopes : List Scope) (text : String) :
      (line text).runOn ⟨{ u with stream } :: scopes, sink⟩ =
        (.ok (), ⟨{ u with stream := stream.line text } :: scopes, sink⟩) := rfl
  have hstore (stream : CodeStream) := @runOn_expandStore counts s ({ u with stream } :: inner)
    outer sink _ _ a hs hbound hword hfields hsize hregister fun name hmem =>
      List.forall_mem_cons.mpr (List.forall_mem_cons.mp (hinner name hmem))
  rw [storeInitial, hduplicated, ← hname, CodeStream.writeAll, storeLines, List.foldl_cons,
    List.foldl_cons, List.foldl_cons, List.foldl_cons, List.foldl_nil]
  dsimp only
  refine runOn_bind_eq_ok.mpr ⟨(), _, hline _ _ _, ?_⟩
  refine runOn_bind_eq_ok.mpr ⟨(), _, hline _ _ _, ?_⟩
  refine runOn_bind_eq_ok.mpr ⟨(), _, ?_, hline _ _ _⟩
  exact runOn_bind_eq_ok.mpr ⟨_, _, hstore _, hline _ _ _⟩

end Stores

/-! ### Runs that initialise batched updates -/

variable {t : Target} {g : MergedGroup CustomUpdate} {c c₀ c' : Chain}

/-- The initialisation of the element of a lane in a batched update. -/
def initElement (t : Target) (g : MergedGroup CustomUpdate) : Emit Unit := do
  let inits := g.members.map (·.inits)
  let vars := g.archetype.model.vars
  if anyRandom inits vars then Random.bindLane t.model.precision (Random.laneSequence "id" 0)
  emitVarInits t ⟨"$(id)", some (t.model.batchSize, "size")⟩
    ("custom update " ++ quoted g.archetype.name) inits vars

theorem emitElement_ofUpdates (hbatched : t.isBatched g.archetype = true) :
    (ElementInit.ofUpdates t g).emitElement t = initElement t g := by
  obtain ⟨hflag, hsize⟩ := Bool.and_eq_true_iff.mp hbatched
  have hcount : (ElementInit.ofUpdates t g).batchSize = t.model.batchSize := if_pos hflag
  rw [ElementInit.emitElement, hcount, if_pos (decide_eq_true_iff.mp hsize)]
  rfl

/-- What a run that initialises a batched update leaves of its scope: the test for the element of a
lane, with the initialisation of the element behind it. -/
structure InitialisesBatches (t : Target) (g : MergedGroup CustomUpdate) (c₀ c' : Chain)
    (arrays : List ArrayBinding) (s : Scope) : Prop where
  arrays_eq :
    ArrayBinding.ofVars t.aliases (g.members.map (·.name)) g.archetype.model.vars = .ok arrays
  test : s.stream = CodeStream.empty.line storeGuard.text
  fields : s.fields = some [sizeField (g.members.map (·.size))]
  body : ∃ c₁, (do
    line "\x7b"
    inScope (initElement t g)
    line "\x7d" : Emit Unit).runOn ⟨s :: c₀.scopes, c₀.sink⟩ = (.ok (), c₁) ∧ c' = c₁.pop
  /-- Wherever a duplicated variable is initialised, its first value is stored for every batch. -/
  store : ∀ a ∈ arrays, ∀ v : Var, a.name = v.name → v.access.isDuplicated = true →
    (∀ c ∈ a.name.toList, Text.isWordChar c = true) →
    ∀ (stream : CodeStream) (fields fields' : StructFields) (u : Scope)
      (inner outer : List Scope) (sink : CodeStream),
      (∀ name ∈ ["size", "id", "_array_" ++ a.name], ∀ w ∈ u :: inner, w.binds name = false) →
      fields.register (sizeField (g.members.map (·.size))) = .ok fields →
      fields.register a.field = .ok fields' →
      (storeInitial ⟨"$(id)", some (t.model.batchSize, "size")⟩ v).runOn
          ⟨u :: inner ++ { s with stream, fields := some fields } :: outer, sink⟩ =
        (.ok (), ⟨{ u with stream := u.stream.writeAll (storeLines a t.model.batchSize) } ::
          inner ++ { s with stream, fields := some fields' } :: outer, sink⟩)

theorem initialisesBatches_of_run (hbatched : t.isBatched g.archetype = true)
    (hid : (resolve "id" none).runOn c = (.ok "lid", c₀))
    (h : ((ElementInit.ofUpdates t g).emit t).runOn c = (.ok fields, c')) :
    ∃ arrays s, InitialisesBatches t g c₀ c' arrays s := by
  rw [ElementInit.emit, emitElement_ofUpdates hbatched] at h
  obtain ⟨arrays, _, hrun, h₁⟩ := runOn_bind_eq_ok.mp h
  obtain ⟨harrays, rfl⟩ := runOn_ofError_eq_ok.mp hrun
  rw [runOn_bind_of_ok hid] at h₁
  obtain ⟨⟨_, fields'⟩, c₁, hstruct, hlast⟩ := runOn_bind_eq_ok.mp h₁
  obtain ⟨-, rfl⟩ := runOn_pure_eq_ok.mp hlast
  obtain ⟨c₁, hrun, -, rfl⟩ := exists_of_inStruct hstruct
  -- what runs in the scope of the struct
  obtain ⟨_, _, hcount, h₂⟩ := runOn_bind_eq_ok.mp hrun
  cases hcount
  obtain ⟨_, _, hlane, h₃⟩ := runOn_bind_eq_ok.mp h₂
  cases hlane
  obtain ⟨_, _, hpointers, h₄⟩ := runOn_bind_eq_ok.mp h₃
  obtain ⟨bindings, rfl, hkeeps, hbound⟩ := bound_of_forM hpointers
  have hs : BindsLane (g.members.map (·.size))
      { Scope.empty (some []) with bindings } :=
    ⟨hkeeps "size" _ rfl, hkeeps "id" _ rfl⟩
  obtain ⟨_, _, hguard, h₅⟩ := runOn_bind_eq_ok.mp h₄
  obtain ⟨text, _, htext, hline⟩ := runOn_bind_eq_ok.mp hguard
  cases (runOn_storeGuard hs rfl rfl).symm.trans htext
  cases hline
  let written : Scope :=
    ⟨bindings, [], [], CodeStream.empty.line storeGuard.text,
      some [sizeField (g.members.map (·.size))]⟩
  refine ⟨arrays, written, harrays, rfl, rfl, ⟨c₁, h₅, rfl⟩, ?_⟩
  intro a ha v hname hduplicated hword stream fields fields' u inner outer sink hinner hsize
    hregister
  have hlater : BindsLane (g.members.map (·.size)) { written with stream, fields := some fields } :=
    ⟨hs.size, hs.id⟩
  exact runOn_storeInitial hlater (hbound a ha).2 hword rfl hsize hregister hname hduplicated hinner

end KernelWeaver.Generate
