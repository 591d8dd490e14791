import KernelWeaver.Proofs.Lanes.BatchStores

/-!
# Batched updates

A run that emits a batched update binds the names of the update, writes the test for the element of
a lane, and then puts the update's own code behind it. In that code the elements of duplicated
arrays are those at the index of the lane.
-/

namespace KernelWeaver.Generate

open Code Code.Emit Batches

variable {counts : List Nat} {blockSize : Nat} {s u : Scope} {inner outer : List Scope}
  {sink : CodeStream} {t : Target} {g : MergedGroup CustomUpdate} {c c₀ c' : Chain}
  {fields : StructFields}

/-- What is bound first in a batched update. -/
def batchBindings (counts : List Nat) : Table (List Binding) :=
  [("size", [{ Binding.ofText idType "group->size" with field := some (sizeField counts) }]),
    ("_padded_size", [{ Binding.ofText idType "paddedSize" with initialisers := [0] }]),
    ("id", [{ Binding.ofText idType "bid" with initialisers := [1] }]),
    ("batch", [{ Binding.ofText idType "batch" with initialisers := [2] }]),
    ("_batch_offset", [{ Binding.ofText idType "batchOffset" with initialisers := [3] }])]

theorem bindsBatches_of_keeps
    (hkeeps : Scope.Keeps { Scope.empty none with bindings := batchBindings counts } s) :
    BindsBatches counts s where
  size := hkeeps _ _ rfl
  paddedSize := hkeeps _ _ rfl
  id := hkeeps _ _ rfl
  batch := hkeeps _ _ rfl
  offset := hkeeps _ _ rfl

theorem runOn_bindBatches (counts : List Nat) (blockSize : Nat) (outer : List Scope)
    (sink : CodeStream) :
    (do
        bindCount "size" "size" counts
        bindBatches "lid" blockSize : Emit Unit).runOn ⟨.empty (some []) :: outer, sink⟩ =
      (.ok (), ⟨declaredScope { Scope.empty none with bindings := batchBindings counts } blockSize 0
        [] :: outer, sink⟩) := by
  have hbid : "const unsigned int bid = lid % $(_padded_size);" =
    "const unsigned int bid = " ++ "lid" ++ " % $(_padded_size);" := by decide +kernel
  have hbatch : "const unsigned int batch = lid / $(_padded_size);" =
    "const unsigned int batch = " ++ "lid" ++ " / $(_padded_size);" := by decide +kernel
  have hsize : "group->size" = "group->" ++ "size" := by decide +kernel
  rw [declaredScope, batchScope, templates_eq, hbid, hbatch, batchBindings, hsize]
  rfl

/-- The code of a batched update behind the test for the element of a lane. -/
def batchBody (t : Target) (g : MergedGroup CustomUpdate) : Emit Unit := do
  line "\x7b"
  compileSnippet t.aliases none
    ("custom update " ++ quoted g.archetype.name ++ " update code") g.archetype.model.code
  line "\x7d"

/-- The arrays that the code of an update sees. -/
def updateArrays (t : Target) (g : MergedGroup CustomUpdate) :
    Except Error (List ArrayBinding) := do
  let vars ← ArrayBinding.ofVars t.aliases (g.members.map (·.name)) g.archetype.model.vars
  let refs ← ArrayBinding.ofRefs t.aliases (g.members.map fun m => (m.name, m.refs))
    g.archetype.model.refs
  return vars ++ refs

/-- What a run that emits a batched update leaves of its scope: the test for the element of a lane
and what that test needs declared, with the update's own code behind it. -/
structure EmitsBatches (t : Target) (blockSize : Nat) (g : MergedGroup CustomUpdate)
    (c₀ c' : Chain) (arrays : List ArrayBinding) (s : Scope) : Prop where
  arrays_eq : updateArrays t g = .ok arrays
  test : s.stream = CodeStream.empty.line guard.text
  body : ∃ c₁, (batchBody t g).runOn
    ⟨declaredScope s blockSize 2 [sizeField (g.members.map (·.size))] :: c₀.scopes, c₀.sink⟩ =
      (.ok (), c₁) ∧ c' = c₁.pop
  /-- Wherever the code refers to a duplicated array, however many of the declarations stand by
  then, that is the element at the index of the lane, and all declarations stand behind that. -/
  element : ∀ a ∈ arrays, a.duplicated = true → (∀ c ∈ a.name.toList, Text.isWordChar c = true) →
    ∀ (k : Nat) (stream : CodeStream) (fields fields' : StructFields) (inner outer : List Scope)
      (sink : CodeStream), 2 ≤ k → k ≤ 4 → (∀ w ∈ inner, w.binds a.name = false) →
      fields.register (sizeField (g.members.map (·.size))) = .ok fields →
      fields.register a.field = .ok fields' →
      (resolve a.name none).runOn
          ⟨inner ++ declaredScope { s with stream } blockSize k fields :: outer, sink⟩ =
        (.ok (a.at index.text),
          ⟨inner ++ declaredScope { s with stream } blockSize 4 fields' :: outer, sink⟩)

theorem emitsBatches_of_run (hbatched : t.isBatched g.archetype = true)
    (hid : (resolve "id" none).runOn c = (.ok "lid", c₀))
    (h : (emitUpdate t blockSize g).runOn c = (.ok fields, c')) :
    ∃ arrays s, EmitsBatches t blockSize g c₀ c' arrays s := by
  rw [emitUpdate] at h
  dsimp only at h
  obtain ⟨vars, _, hrun, h₁⟩ := runOn_bind_eq_ok.mp h
  obtain ⟨hvars, rfl⟩ := runOn_ofError_eq_ok.mp hrun
  obtain ⟨refs, _, hrun, h₂⟩ := runOn_bind_eq_ok.mp h₁
  obtain ⟨hrefs, rfl⟩ := runOn_ofError_eq_ok.mp hrun
  rw [runOn_bind_of_ok hid, hbatched] at h₂
  obtain ⟨⟨_, fields'⟩, c₁, hstruct, hlast⟩ := runOn_bind_eq_ok.mp h₂
  obtain ⟨-, rfl⟩ := runOn_pure_eq_ok.mp hlast
  -- what runs in the scope of the struct
  obtain ⟨c₁, hrun, -, rfl⟩ := exists_of_inStruct hstruct
  obtain ⟨_, c₂, hcount, h₃⟩ := runOn_bind_eq_ok.mp hrun
  rw [if_pos rfl] at h₃
  obtain ⟨_, c₃, hnames, h₄⟩ := runOn_bind_eq_ok.mp h₃
  have hbind := runOn_bindBatches (g.members.map (·.size)) blockSize c₀.scopes c₀.sink
  obtain ⟨_, _, hcount', hnames'⟩ := runOn_bind_eq_ok.mp hbind
  cases hcount'.symm.trans hcount
  cases hnames'.symm.trans hnames
  obtain ⟨_, _, hbind, h₅⟩ := runOn_bind_eq_ok.mp h₄
  obtain ⟨b₁, rfl, hkeeps₁, hvarsBound⟩ := bound_of_forM hbind
  obtain ⟨_, _, hbind, h₆⟩ := runOn_bind_eq_ok.mp h₅
  obtain ⟨b₂, rfl, hkeeps₂, hrefsBound⟩ := bound_of_forM hbind
  obtain ⟨_, _, hbind, h₇⟩ := runOn_bind_eq_ok.mp h₆
  obtain ⟨b₃, rfl, hkeeps₃⟩ := onlyBinds_bindParams _ _ _ _ _ _ _ _ _ hbind
  obtain ⟨_, _, hbind, h₈⟩ := runOn_bind_eq_ok.mp h₇
  obtain ⟨b₄, rfl, hkeeps₄⟩ := onlyBinds_bindGlobals _ _ _ _ _ _ _ _ hbind
  have hlater := hkeeps₃.trans hkeeps₄
  have hs : BindsBatches (g.members.map (·.size)) { Scope.empty none with bindings := b₄ } :=
    bindsBatches_of_keeps (hkeeps₁.trans (hkeeps₂.trans hlater))
  -- the test for the element of a lane
  obtain ⟨_, _, hguard, h₉⟩ := runOn_bind_eq_ok.mp h₈
  obtain ⟨text, _, htext, hline⟩ := runOn_bind_eq_ok.mp hguard
  cases (runOn_guard hs rfl).symm.trans htext
  cases hline
  have hnew : ∀ a ∈ vars ++ refs, b₄.find? a.name = some [a.elementAt (elementIndex true a)] ∧
      (batchBindings (g.members.map (·.size))).find? a.name = none := by
    rw [List.forall_mem_append]
    constructor
    · intro a ha
      obtain ⟨hnew, hbound⟩ := hvarsBound a ha
      exact ⟨hlater _ _ (hkeeps₂ _ _ hbound), hnew⟩
    · intro a ha
      obtain ⟨hnew, hbound⟩ := hrefsBound a ha
      exact ⟨hlater _ _ hbound, hkeeps₁.find?_eq_none hnew⟩
  let written : Scope :=
    { Scope.empty none with bindings := b₄, stream := CodeStream.empty.line guard.text }
  refine ⟨vars ++ refs, written, bind_eq_ok.mpr ⟨vars, hvars, bind_eq_ok.mpr ⟨refs, hrefs, rfl⟩⟩,
    rfl, ⟨c₁, h₉, rfl⟩, ?_⟩
  intro a ha hduplicated hword k stream fields fields' inner outer sink hk hk' hinner hsize
    hregister
  obtain ⟨hbound, hname⟩ := hnew a ha
  have hat : elementIndex true a = "$(_batch_offset) + $(id)" :=
    if_pos (by rw [hduplicated]; rfl)
  rw [hat] at hbound
  have hthere : BindsBatches (g.members.map (·.size)) { written with stream } :=
    ⟨hs.size, hs.paddedSize, hs.id, hs.batch, hs.offset⟩
  refine runOn_element hthere hbound (fun h => ?_) (fun heq => ?_) (fun heq => ?_) hinner hk hk'
    hsize hregister
  · exact absurd (hword _ h) (by decide)
  · rw [heq] at hname
    cases hname
  · rw [heq] at hname
    cases hname

theorem fits_of_updateLanes {u : CustomUpdate} {lanes : Nat} (hbatched : t.isBatched u = true)
    (hword : blockSize < 2 ^ 32) (hlanes : t.updateLanes blockSize u = .ok lanes) :
    Fits blockSize u.size t.model.batchSize ∧
      padSize u.size blockSize = .ok (roundUp blockSize u.size) ∧
      lanes = roundUp blockSize u.size * t.model.batchSize := by
  rw [Target.updateLanes, if_pos hbatched] at hlanes
  obtain ⟨padded, hpad, hfit⟩ := bind_eq_ok.mp hlanes
  obtain ⟨hlt, rfl⟩ := fit_eq_ok_iff.mp hfit
  have hpos : 0 < blockSize := by
    refine Nat.pos_of_ne_zero ?_
    rintro rfl
    obtain ⟨_, hquotient, -⟩ := bind_eq_ok.mp hpad
    exact (quotient_eq_ok_iff.mp hquotient).1 rfl
  have hpadded := hpad
  rw [padSize_eq_fit hpos] at hpadded
  obtain ⟨-, rfl⟩ := fit_eq_ok_iff.mp hpadded
  obtain ⟨-, hcount⟩ := Bool.and_eq_true_iff.mp hbatched
  exact ⟨⟨hpos, hword, decide_eq_true_iff.mp hcount, hlt⟩, hpad, rfl⟩

theorem sizeField_value {members : List CustomUpdate} {u : CustomUpdate} {i : Nat}
    (hi : members[i]? = some u) :
    (sizeField (members.map (·.size))).value i = .ok (toString u.size) := by
  rw [sizeField, entry_eq_ok_iff]
  simp [hi]

/-- An update of 40 elements of which each batch has its own. -/
def decay : CustomUpdate where
  name := "Decay"
  group := "tick"
  model :=
    { name := "Decay"
      params := []
      derived := []
      vars := [⟨"V", "scalar", .readWrite⟩]
      refs := []
      globals := []
      code := "V *= 0.5;" }
  params := []
  inits := [("V", .constant 1)]
  refs := []
  size := 40
  batched := true

def decayTarget : Target where
  backend := ⟨.reference, .standard, .uniform 32⟩
  model :=
    { name := "decay"
      precision := .float
      batchSize := 4
      seed := 0
      dt := 0.1
      updates := [decay]
      connectivity := [] }

end KernelWeaver.Generate
