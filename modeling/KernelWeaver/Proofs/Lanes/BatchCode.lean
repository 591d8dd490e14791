import KernelWeaver.Generate.Update
import KernelWeaver.Proofs.Code.Binding
import KernelWeaver.Proofs.Code.Expand
import KernelWeaver.Proofs.Code.Slots
import KernelWeaver.Proofs.Lanes.Batches

/-!
# The code of batches

What a batched update emits for its lanes are the declarations, the test and the index of a working
lane. A declaration is emitted where it is first needed, behind those that it needs itself, so that
all of them come in one order once the test has been written.
-/

namespace KernelWeaver.Generate

open Code Code.Emit Batches

/-! ### Templates -/

/-- The templates of what a lane declares. -/
def batchTemplates (blockSize : Nat) : List Template :=
  let block := toString blockSize
  [[.text ("const unsigned int paddedSize = " ++ block ++ " * ((").toList, .marker "size".toList,
      .text (" + " ++ block ++ " - 1) / " ++ block ++ ");").toList],
    [.text "const unsigned int bid = lid % ".toList, .marker "_padded_size".toList,
      .text ";".toList],
    [.text "const unsigned int batch = lid / ".toList, .marker "_padded_size".toList,
      .text ";".toList],
    [.text "const unsigned int batchOffset = ".toList, .marker "size".toList, .text " * ".toList,
      .marker "batch".toList, .text ";".toList]]

theorem ofString_paddedSize (blockSize : Nat) :
    Template.ofString ("const unsigned int paddedSize = " ++ toString blockSize ++
      " * (($(size) + " ++ toString blockSize ++ " - 1) / " ++ toString blockSize ++ ");") =
    [.text ("const unsigned int paddedSize = " ++ toString blockSize ++ " * ((").toList,
      .marker "size".toList,
      .text (" + " ++ toString blockSize ++ " - 1) / " ++ toString blockSize ++ ");").toList] := by
  have hmiddle : " * (($(size) + " = " * ((" ++ ("$(size)" ++ " + ") := rfl
  have hsplit : "const unsigned int paddedSize = " ++ toString blockSize ++ " * (($(size) + " ++
      toString blockSize ++ " - 1) / " ++ toString blockSize ++ ");" =
      ("const unsigned int paddedSize = " ++ toString blockSize ++ " * ((") ++ ("$(size)" ++
        (" + " ++ toString blockSize ++ " - 1) / " ++ toString blockSize ++ ");")) := by
    rw [hmiddle]
    simp only [String.append_assoc]
  have hdigits : '$' ∉ (toString blockSize).toList := not_mem_toString (by decide)
  generalize toString blockSize = block at *
  have hback : Template.ofString (" + " ++ block ++ " - 1) / " ++ block ++ ");") =
      [.text (" + " ++ block ++ " - 1) / " ++ block ++ ");").toList] := by
    refine Printing.ofString_of_not_mem ?_ (by simp)
    simp only [String.toList_append, List.mem_append, hdigits, or_false]
    decide
  have hmarker (rest : String) :
      Template.ofString ("$(size)" ++ rest) = .marker "size".toList :: Template.ofString rest := by
    rw [Template.ofString, String.toList_append]
    rfl
  rw [hsplit]
  refine Template.ofString_append ?_ (by simp) ((hmarker _).trans (congrArg _ hback))
  simp only [String.toList_append, List.mem_append, hdigits, or_false]
  decide

/-- The initialisers of a batched update, in the order in which they are added. -/
theorem templates_eq (blockSize : Nat) : batchTemplates blockSize =
    ["const unsigned int paddedSize = " ++ toString blockSize ++ " * (($(size) + " ++
        toString blockSize ++ " - 1) / " ++ toString blockSize ++ ");",
      "const unsigned int bid = lid % $(_padded_size);",
      "const unsigned int batch = lid / $(_padded_size);",
      "const unsigned int batchOffset = $(size) * $(batch);"].map Template.ofString := by
  have hbid : Template.ofString "const unsigned int bid = lid % $(_padded_size);" =
      [.text "const unsigned int bid = lid % ".toList, .marker "_padded_size".toList,
        .text ";".toList] := by decide +kernel
  have hbatch : Template.ofString "const unsigned int batch = lid / $(_padded_size);" =
      [.text "const unsigned int batch = lid / ".toList, .marker "_padded_size".toList,
        .text ";".toList] := by decide +kernel
  have hoffset : Template.ofString "const unsigned int batchOffset = $(size) * $(batch);" =
      [.text "const unsigned int batchOffset = ".toList, .marker "size".toList,
        .text " * ".toList, .marker "batch".toList, .text ";".toList] := by decide +kernel
  rw [batchTemplates, List.map_cons, List.map_cons, List.map_cons, List.map_cons, List.map_nil,
    ofString_paddedSize, hbid, hbatch, hoffset]

/-! ### Scopes of batched updates -/

/-- The field with the number of elements of each member. -/
def sizeField (counts : List Nat) : StructField := ⟨"size", .uint, entry (counts.map toString)⟩

/-- The scope binds the names of a batched update, each to what is declared for it. -/
structure BindsBatches (counts : List Nat) (s : Scope) : Prop where
  size : s.bindings.find? "size" =
    some [{ Binding.ofText idType "group->size" with field := some (sizeField counts) }]
  paddedSize : s.bindings.find? "_padded_size" =
    some [{ Binding.ofText idType "paddedSize" with initialisers := [0] }]
  id : s.bindings.find? "id" = some [{ Binding.ofText idType "bid" with initialisers := [1] }]
  batch : s.bindings.find? "batch" =
    some [{ Binding.ofText idType "batch" with initialisers := [2] }]
  offset : s.bindings.find? "_batch_offset" =
    some [{ Binding.ofText idType "batchOffset" with initialisers := [3] }]

/-- The scope with the initialisers of a batched update in the given states, what they have
emitted, and fields. -/
def batchScope (s : Scope) (blockSize : Nat) (states : List InitState) (emitted : List String)
    (fields : StructFields) : Scope :=
  { s with
    initialisers := List.zipWith Initialiser.mk (batchTemplates blockSize) states
    emitted
    fields := some fields }

/-- The text of the declaration of the padded size. -/
def paddedText (blockSize : Nat) : String :=
  WordDeclaration.text ⟨"paddedSize", paddedSize blockSize⟩

theorem paddedText_eq (blockSize : Nat) :
    paddedText blockSize = ("const unsigned int paddedSize = " ++ toString blockSize ++ " * ((") ++
      ("group->size" ++
        ((" + " ++ toString blockSize ++ " - 1) / " ++ toString blockSize ++ ");") ++ "")) := by
  have hdeclared : "const unsigned int paddedSize = " =
      "const unsigned int " ++ ("paddedSize" ++ " = ") := by decide +kernel
  have hopen : " * ((" = " * " ++ ("(" ++ "(") := by decide +kernel
  have hless : " - 1) / " = " - " ++ (toString 1 ++ (")" ++ " / ")) := by decide +kernel
  have hclose : ");" = ")" ++ ";" := by decide +kernel
  unfold paddedText WordDeclaration.text
  simp only [paddedSize, Batches.size, Formula.text, String.append_assoc, String.append_empty,
    hdeclared, hopen, hless, hclose]

/-- The texts of what a lane declares. -/
def batchTexts (blockSize : Nat) : List String :=
  [paddedText blockSize, "const unsigned int bid = lid % paddedSize;",
    "const unsigned int batch = lid / paddedSize;",
    "const unsigned int batchOffset = group->size * batch;"]

theorem batchTexts_eq (blockSize : Nat) :
    batchTexts blockSize = (declarations blockSize).map WordDeclaration.text := by
  have hbid : WordDeclaration.text ⟨"bid", .mod (.name "lid") (.name "paddedSize")⟩ =
      "const unsigned int bid = lid % paddedSize;" := by decide +kernel
  have hbatch : WordDeclaration.text ⟨"batch", .div (.name "lid") (.name "paddedSize")⟩ =
      "const unsigned int batch = lid / paddedSize;" := by decide +kernel
  have hoffset : WordDeclaration.text ⟨"batchOffset", .mul Batches.size (.name "batch")⟩ =
      "const unsigned int batchOffset = group->size * batch;" := by decide +kernel
  rw [declarations, List.map_cons, List.map_cons, List.map_cons, List.map_cons, List.map_nil, hbid,
    hbatch, hoffset]
  rfl

variable {blockSize fuel : Nat} {counts : List Nat} {s : Scope} {inner outer : List Scope}
  {sink : CodeStream} {states : List InitState} {emitted : List String}
  {fields fields' : StructFields} {lookup : String → Emit String}

theorem setState_batchScope (i : Nat) (state : InitState) :
    (batchScope s blockSize states emitted fields).setState i state =
      batchScope s blockSize (states.set i state) emitted fields := by
  have hmodify (ts : List Template) : (List.zipWith Initialiser.mk ts states).modify i
      (fun x => { x with state }) = List.zipWith Initialiser.mk ts (states.set i state) := by
    induction ts generalizing states i with
    | nil => simp
    | cons t ts ih =>
        cases states with
        | nil => simp
        | cons first states =>
            cases i with
            | zero => rfl
            | succ i => exact congrArg (_ :: ·) (ih i)
  rw [Scope.setState, batchScope, hmodify]
  rfl

/-- An initialiser of a batched update that nothing has needed yet. -/
theorem runOn_require_batch {i : Nat} {template : Template} {text : String}
    {states₁ states₂ states₃ : List InitState} {emitted' : List String}
    (htemplate : (batchTemplates blockSize)[i]? = some template)
    (hstate : states[i]? = some .unused) (hbegin : states.set i .pending = states₁)
    (hrender : (template.render lookup).runOn
      ⟨batchScope s blockSize states₁ emitted fields :: outer, sink⟩ =
        (.ok text, ⟨batchScope s blockSize states₂ emitted' fields' :: outer, sink⟩))
    (hend : states₂.set i .emitted = states₃) :
    (require lookup i).runOn ⟨batchScope s blockSize states emitted fields :: outer, sink⟩ =
      (.ok (), ⟨batchScope s blockSize states₃ (emitted' ++ [text]) fields' :: outer, sink⟩) := by
  have hi : (batchScope s blockSize states emitted fields).initialisers[i]? =
      some ⟨template, .unused⟩ := by
    simp [batchScope, List.getElem?_zipWith, htemplate, hstate]
  rw [← hbegin, ← setState_batchScope] at hrender
  rw [runOn_require_of_unused hi hrender, setState_batchScope, hend]
  rfl

theorem runOn_require_batch_started {i : Nat} {template : Template} {state : InitState}
    (htemplate : (batchTemplates blockSize)[i]? = some template)
    (hstate : states[i]? = some state) (hstarted : state ≠ .unused) :
    (require lookup i).runOn ⟨batchScope s blockSize states emitted fields :: outer, sink⟩ =
      (.ok (), ⟨batchScope s blockSize states emitted fields :: outer, sink⟩) := by
  have hi : (batchScope s blockSize states emitted fields).initialisers[i]? =
      some ⟨template, state⟩ := by
    simp [batchScope, List.getElem?_zipWith, htemplate, hstate]
  exact runOn_require_of_started ((Scope.mem_started_iff hi).mpr hstarted)

/-! ### The code of the names -/

section Names

variable {name code : String} {i : Nat} {state : InitState} {template : Template}

/-- A name whose declaration is not needed before. -/
theorem runOn_first {text : String} {states₁ states₂ states₃ : List InitState}
    {emitted' : List String} (hfind : s.bindings.find? name =
      some [{ Binding.ofText idType code with initialisers := [i] }])
    (hcode : '$' ∉ code.toList) (hne : code ≠ "")
    (htemplate : (batchTemplates blockSize)[i]? = some template)
    (hstate : states[i]? = some .unused) (hbegin : states.set i .pending = states₁)
    (hrender : (template.render (resolveWithin fuel · none)).runOn
      ⟨batchScope s blockSize states₁ emitted fields :: outer, sink⟩ =
        (.ok text, ⟨batchScope s blockSize states₂ emitted' fields' :: outer, sink⟩))
    (hend : states₂.set i .emitted = states₃) :
    (resolveWithin (fuel + 1) name none).runOn
      ⟨batchScope s blockSize states emitted fields :: outer, sink⟩ =
    (.ok code, ⟨batchScope s blockSize states₃ (emitted' ++ [text]) fields' :: outer, sink⟩) :=
  @runOn_resolveWithin_of_find? [] _ _ _ _ _ _ _ _ _ _ (by simp) hfind <|
    runOn_expand_initialiser (runOn_require_batch htemplate hstate hbegin hrender hend) hcode hne

/-- A name whose declaration stands already. -/
theorem runOn_again (hfind : s.bindings.find? name =
      some [{ Binding.ofText idType code with initialisers := [i] }])
    (hcode : '$' ∉ code.toList) (hne : code ≠ "")
    (htemplate : (batchTemplates blockSize)[i]? = some template)
    (hstate : states[i]? = some state) (hstarted : state ≠ .unused) :
    (resolveWithin (fuel + 1) name none).runOn
      ⟨batchScope s blockSize states emitted fields :: outer, sink⟩ =
    (.ok code, ⟨batchScope s blockSize states emitted fields :: outer, sink⟩) :=
  @runOn_resolveWithin_of_find? [] _ _ _ _ _ _ _ _ _ _ (by simp) hfind <|
    runOn_expand_initialiser (runOn_require_batch_started htemplate hstate hstarted) hcode hne

variable {padded bid batch offset : InitState} (hs : BindsBatches counts s)
  (hregister : fields.register (sizeField counts) = .ok fields')
include hs

include hregister in
theorem runOn_size :
    (resolveWithin (fuel + 1) "size" none).runOn
      ⟨batchScope s blockSize states emitted fields :: outer, sink⟩ =
    (.ok "group->size", ⟨batchScope s blockSize states emitted fields' :: outer, sink⟩) :=
  @runOn_resolveWithin_of_find? [] _ _ _ _ _ _ _ _ _ _ (by simp) hs.size
    ((runOn_expand_field rfl hregister).trans (runOn_expand_ofText (by decide) (by decide)))

include hregister in
theorem runOn_paddedSize :
    (resolveWithin (fuel + 2) "_padded_size" none).runOn
      ⟨batchScope s blockSize [.unused, bid, batch, offset] emitted fields :: outer, sink⟩ =
    (.ok "paddedSize", ⟨batchScope s blockSize [.emitted, bid, batch, offset]
      (emitted ++ [paddedText blockSize]) fields' :: outer, sink⟩) := by
  exact runOn_first hs.paddedSize (by decide) (by decide) rfl rfl rfl
    (runOn_render_between (resolveWithin (fuel + 1) · none) _ _ (runOn_size hs hregister)
      (paddedText_eq blockSize).symm) rfl

theorem runOn_paddedSize_again :
    (resolveWithin (fuel + 1) "_padded_size" none).runOn
      ⟨batchScope s blockSize [.emitted, bid, batch, offset] emitted fields :: outer, sink⟩ =
    (.ok "paddedSize",
      ⟨batchScope s blockSize [.emitted, bid, batch, offset] emitted fields :: outer, sink⟩) :=
  runOn_again hs.paddedSize (by decide) (by decide) rfl rfl (by decide)

include hregister in
theorem runOn_id :
    (resolveWithin (fuel + 3) "id" none).runOn
      ⟨batchScope s blockSize [.unused, .unused, batch, offset] emitted fields :: outer, sink⟩ =
    (.ok "bid", ⟨batchScope s blockSize [.emitted, .emitted, batch, offset]
      (emitted ++ [paddedText blockSize] ++ ["const unsigned int bid = lid % paddedSize;"])
      fields' :: outer, sink⟩) := by
  have hcode : "const unsigned int bid = lid % " ++ ("paddedSize" ++ (";" ++ "")) =
      "const unsigned int bid = lid % paddedSize;" := by decide +kernel
  exact runOn_first hs.id (by decide) (by decide) rfl rfl rfl
    (runOn_render_between (resolveWithin (fuel + 2) · none) _ _ (runOn_paddedSize hs hregister)
      hcode) rfl

theorem runOn_id_again :
    (resolveWithin (fuel + 1) "id" none).runOn
      ⟨batchScope s blockSize [padded, .emitted, batch, offset] emitted fields :: outer, sink⟩ =
    (.ok "bid",
      ⟨batchScope s blockSize [padded, .emitted, batch, offset] emitted fields :: outer, sink⟩) :=
  runOn_again hs.id (by decide) (by decide) rfl rfl (by decide)

theorem runOn_batch :
    (resolveWithin (fuel + 2) "batch" none).runOn
      ⟨batchScope s blockSize [.emitted, bid, .unused, offset] emitted fields :: outer, sink⟩ =
    (.ok "batch", ⟨batchScope s blockSize [.emitted, bid, .emitted, offset]
      (emitted ++ ["const unsigned int batch = lid / paddedSize;"]) fields :: outer, sink⟩) := by
  have hcode : "const unsigned int batch = lid / " ++ ("paddedSize" ++ (";" ++ "")) =
      "const unsigned int batch = lid / paddedSize;" := by decide +kernel
  exact runOn_first hs.batch (by decide) (by decide) rfl rfl rfl
    (runOn_render_between (resolveWithin (fuel + 1) · none) _ _ (runOn_paddedSize_again hs)
      hcode) rfl

theorem runOn_batch_again :
    (resolveWithin (fuel + 1) "batch" none).runOn
      ⟨batchScope s blockSize [padded, bid, .emitted, offset] emitted fields :: outer, sink⟩ =
    (.ok "batch",
      ⟨batchScope s blockSize [padded, bid, .emitted, offset] emitted fields :: outer, sink⟩) :=
  runOn_again hs.batch (by decide) (by decide) rfl rfl (by decide)

include hregister in
/-- The declaration of the batch may stand in front of that of the offset or not. -/
theorem runOn_offset {emitted' : List String}
    (hbatch : (resolveWithin (fuel + 1) "batch" none).runOn
      ⟨batchScope s blockSize [padded, bid, batch, .pending] emitted fields' :: outer, sink⟩ =
      (.ok "batch", ⟨batchScope s blockSize [padded, bid, .emitted, .pending] emitted'
        fields' :: outer, sink⟩)) :
    (resolveWithin (fuel + 2) "_batch_offset" none).runOn
      ⟨batchScope s blockSize [padded, bid, batch, .unused] emitted fields :: outer, sink⟩ =
    (.ok "batchOffset", ⟨batchScope s blockSize [padded, bid, .emitted, .emitted]
      (emitted' ++ ["const unsigned int batchOffset = group->size * batch;"])
      fields' :: outer, sink⟩) := by
  have hcode : "const unsigned int batchOffset = " ++
      ("group->size" ++ (" * " ++ ("batch" ++ (";" ++ "")))) =
        "const unsigned int batchOffset = group->size * batch;" := by decide +kernel
  have hrender : (Template.render (resolveWithin (fuel + 1) · none) _).runOn _ = _ :=
    runOn_render_text "const unsigned int batchOffset = " <| runOn_render_marker
      (runOn_size hs hregister) <| runOn_render_text " * " <| runOn_render_marker hbatch <|
        runOn_render_text ";" runOn_render_nil
  rw [hcode] at hrender
  exact runOn_first hs.offset (by decide) (by decide) rfl rfl rfl hrender rfl

theorem runOn_offset_again :
    (resolveWithin (fuel + 1) "_batch_offset" none).runOn
      ⟨batchScope s blockSize [padded, bid, batch, .emitted] emitted fields :: outer, sink⟩ =
    (.ok "batchOffset",
      ⟨batchScope s blockSize [padded, bid, batch, .emitted] emitted fields :: outer, sink⟩) :=
  runOn_again hs.offset (by decide) (by decide) rfl rfl (by decide)

end Names

/-! ### The test and the elements of a lane -/

/-- The scope of a batched update where the first `k` declarations stand. -/
def declaredScope (s : Scope) (blockSize k : Nat) (fields : StructFields) : Scope :=
  batchScope s blockSize ((List.range 4).map fun i => if i < k then .emitted else .unused)
    (((declarations blockSize).take k).map WordDeclaration.text) fields

theorem declaredScope_eq (s : Scope) (blockSize k : Nat) (fields : StructFields) :
    declaredScope s blockSize k fields =
      batchScope s blockSize ((List.range 4).map fun i => if i < k then .emitted else .unused)
        ((batchTexts blockSize).take k) fields := by
  rw [declaredScope, List.map_take, batchTexts_eq]

/-- In the scope of a batched update there is room for all of its names to lead to one another. -/
theorem runOn_resolve {name : String} {r : Except Failure String × Chain} (inner : List Scope)
    (hlength : states.length = 4)
    (h : ∀ fuel, (resolveWithin (fuel + 5) name none).runOn
      ⟨inner ++ batchScope s blockSize states emitted fields :: outer, sink⟩ = r) :
    (resolve name none).runOn
      ⟨inner ++ batchScope s blockSize states emitted fields :: outer, sink⟩ = r := by
  have hcount : (batchScope s blockSize states emitted fields).initialisers.length = 4 := by
    rw [batchScope, List.length_zipWith, hlength]
    rfl
  have hbound : 5 ≤ Chain.resolutionBound
      ⟨inner ++ batchScope s blockSize states emitted fields :: outer, sink⟩ := by
    rw [Chain.resolutionBound, total_eq_sum, total_eq_sum, List.map_append, List.map_cons,
      List.sum_append, List.sum_cons, hcount]
    exact (Nat.le_mul_of_pos_right 5 (Nat.succ_pos _)).trans (Nat.mul_le_mul_right _ (by omega))
  obtain ⟨fuel, hfuel⟩ := Nat.exists_eq_add_of_le' hbound
  have hget (c : Chain) : (get : Emit Chain).runOn c = (.ok c, c) := rfl
  rw [resolve, runOn_bind_of_ok (hget _), hfuel]
  exact h fuel

theorem ofString_guard : Template.ofString "if($(id) < $(size))" =
    [.text "if(".toList, .marker "id".toList, .text " < ".toList, .marker "size".toList,
      .text ")".toList] := by decide +kernel

theorem runOn_guard (hs : BindsBatches counts s)
    (hregister : fields.register (sizeField counts) = .ok fields') :
    (expandText "if($(id) < $(size))").runOn ⟨declaredScope s blockSize 0 fields :: outer, sink⟩ =
      (.ok guard.text, ⟨declaredScope s blockSize 2 fields' :: outer, sink⟩) := by
  have hcode : "if(" ++ ("bid" ++ (" < " ++ ("group->size" ++ (")" ++ "")))) = guard.text := by
    decide +kernel
  have hagain := StructFields.register_twice hregister
  rw [declaredScope_eq, declaredScope_eq]
  rw [expandText, ofString_guard, ← hcode]
  exact runOn_render_text _ <|
    runOn_render_marker (runOn_resolve [] rfl fun _ => runOn_id hs hregister) <|
      runOn_render_text _ <|
        runOn_render_marker (runOn_resolve [] rfl fun _ => runOn_size hs hagain) <|
          runOn_render_text _ runOn_render_nil

/-- Wherever the code of an update refers to an element of a duplicated array, the element is that
at the index of the lane, and all that the index needs is declared. -/
theorem runOn_element {a : ArrayBinding} {k : Nat} (hs : BindsBatches counts s)
    (hbound : s.bindings.find? a.name = some [a.elementAt "$(_batch_offset) + $(id)"])
    (hname : '$' ∉ a.name.toList) (hoffset : a.name ≠ "_batch_offset") (hid : a.name ≠ "id")
    (hinner : ∀ u ∈ inner, u.binds a.name = false) (hk : 2 ≤ k) (hk' : k ≤ 4)
    (hsize : fields.register (sizeField counts) = .ok fields)
    (hregister : fields.register a.field = .ok fields') :
    (resolve a.name none).runOn ⟨inner ++ declaredScope s blockSize k fields :: outer, sink⟩ =
      (.ok (a.at index.text),
        ⟨inner ++ declaredScope s blockSize 4 fields' :: outer, sink⟩) := by
  have hagain := StructFields.register_behind hsize hregister
  have hback : Template.ofString "$(_batch_offset) + $(id)]" =
      [.marker "_batch_offset".toList, .text " + ".toList, .marker "id".toList,
        .text "]".toList] := by decide +kernel
  have htemplate : Template.ofString (a.at "$(_batch_offset) + $(id)") =
      .text ("group->" ++ a.name ++ "[").toList :: .marker "_batch_offset".toList ::
        [.text " + ".toList, .marker "id".toList, .text "]".toList] := by
    have hat : a.at "$(_batch_offset) + $(id)" =
        ("group->" ++ a.name ++ "[") ++ "$(_batch_offset) + $(id)]" := by
      have hclose : "$(_batch_offset) + $(id)]" = "$(_batch_offset) + $(id)" ++ "]" := rfl
      rw [ArrayBinding.at, hclose, ← String.append_assoc]
    rw [hat]
    refine Template.ofString_append ?_ (by simp) hback
    simp only [String.toList_append, List.mem_append, hname, or_false]
    decide
  have hcode : ("group->" ++ a.name ++ "[") ++
      ("batchOffset" ++ (" + " ++ ("bid" ++ ("]" ++ "")))) = a.at index.text := by
    have hindex : index.text = "batchOffset" ++ (" + " ++ "bid") := rfl
    rw [ArrayBinding.at, hindex]
    simp only [String.append_assoc, String.append_empty]
  -- the declarations that are still missing are those of the batch and its offset
  have hbatchOffset (fuel : Nat) : (resolveWithin (fuel + 4) "_batch_offset" none).runOn
      ⟨declaredScope s blockSize k fields' :: outer, sink⟩ =
        (.ok "batchOffset", ⟨declaredScope s blockSize 4 fields' :: outer, sink⟩) := by
    rw [declaredScope_eq, declaredScope_eq]
    obtain rfl | rfl | rfl : k = 2 ∨ k = 3 ∨ k = 4 := by omega
    case inl => exact runOn_offset hs hagain (runOn_batch hs)
    case inr.inl => exact runOn_offset hs hagain (runOn_batch_again hs)
    case inr.inr => exact runOn_offset_again hs
  have hbid (fuel : Nat) : (resolveWithin (fuel + 4) "id" none).runOn
      ⟨declaredScope s blockSize 4 fields' :: outer, sink⟩ =
        (.ok "bid", ⟨declaredScope s blockSize 4 fields' :: outer, sink⟩) := runOn_id_again hs
  refine runOn_resolve inner rfl fun fuel => ?_
  refine runOn_resolveWithin_of_find? hinner hbound ?_
  refine (runOn_expand_field rfl hregister).trans ?_
  rw [expand_ofText, htemplate, ← hcode]
  · exact runOn_render_text _ <| runOn_render_marker (hbatchOffset fuel) <| runOn_render_text _ <|
      runOn_render_marker (hbid fuel) <| runOn_render_text _ runOn_render_nil
  · rw [htemplate]
    simpa [Template.markerNames] using ⟨hoffset, hid⟩

end KernelWeaver.Generate
