import KernelWeaver.Proofs.Code.Settled
import KernelWeaver.Proofs.Printing.PlainText

/-!
# Lookups step by step

A name leads to the binding of the innermost scope that has it. What it needs is done first: its
field is registered, and an initialiser that nothing has needed yet is emitted. Then the names in
its template are looked up in order.
-/

namespace KernelWeaver.Code

/-! ### Reading templates -/

namespace Template

/-- A text without markers in front of a marker. -/
theorem ofString_append {front rest : String} {name : List Char} {t : Template}
    (hfront : '$' ∉ front.toList) (hne : front ≠ "") (hrest : ofString rest = .marker name :: t) :
    ofString (front ++ rest) = .text front.toList :: .marker name :: t := by
  have hchars : front.toList ≠ [] := by simpa using hne
  rw [ofString] at hrest
  rw [ofString, String.toList_append, readFrom_plain (isPlain_of_not_mem hfront _), hrest]
  exact foldr_push hchars fun ds hds => nomatch hds

/-- A marker is read as such where its name is a word. -/
theorem ofString_marker {name : String} {c : Char} {cs : List Char} (rest : String)
    (hname : name.toList = c :: cs) (hstart : isNameStart c = true)
    (hword : ∀ d ∈ cs, Text.isWordChar d = true) :
    ofString ("$(" ++ name ++ ")" ++ rest) = .marker name.toList :: ofString rest := by
  have hmarker : IsMarkerName name.toList :=
    ⟨c, cs, hname, by simpa [isNameStart] using hstart, hword⟩
  have hchars : ("$(" ++ name ++ ")" ++ rest).toList =
      (Segment.marker name.toList).written ++ rest.toList := by
    simp [Segment.written]
  rw [ofString, hchars, readFrom_marker hmarker, ofString]

/-- Only what is found for the names of markers matters. -/
theorem render_congr {m : Type → Type} [Monad m] {lookup lookup' : String → m String} {t : Template}
    (h : ∀ name ∈ t.markerNames, lookup name = lookup' name) :
    t.render lookup = t.render lookup' := by
  induction t with
  | nil => rfl
  | cons segment t ih =>
      cases segment with
      | text cs => rw [render, render, ih h]
      | marker name =>
          rw [markerNames, List.filterMap_cons, List.forall_mem_cons] at h
          rw [render, render, h.1, ih h.2]

end Template

/-! ### Fields that are there already -/

namespace StructFields

variable {fields fields' : StructFields} {f other : StructField}

theorem register_twice (h : fields.register f = .ok fields') : fields'.register f = .ok fields' := by
  simpa using (register_again h).2 []

theorem register_behind (h : fields.register f = .ok fields)
    (hother : fields.register other = .ok fields') : fields'.register f = .ok fields' := by
  obtain ⟨more, rfl⟩ := (register_again hother).1
  exact (register_again h).2 more

end StructFields

namespace Emit

variable {α : Type} {inner outer outer' : List Scope} {s s' : Scope} {sink sink' : CodeStream}
  {fuel i : Nat} {name code text : String} {type : CType} {b : Binding} {c c' : Chain}
  {lookup : String → Emit String}

theorem runOn_render_nil : (Template.render lookup []).runOn c = (.ok "", c) := rfl

theorem runOn_render_text {t : Template} (front : String)
    (h : (t.render lookup).runOn c = (.ok code, c')) :
    (Template.render lookup (.text front.toList :: t)).runOn c = (.ok (front ++ code), c') := by
  rw [Template.render, runOn_bind_of_ok h, String.ofList_toList]
  rfl

theorem runOn_render_marker {t : Template} {c₁ : Chain}
    (hname : (lookup name).runOn c = (.ok text, c₁))
    (h : (t.render lookup).runOn c₁ = (.ok code, c')) :
    (Template.render lookup (.marker name.toList :: t)).runOn c = (.ok (text ++ code), c') := by
  rw [Template.render, String.ofList_toList, runOn_bind_of_ok hname, runOn_bind_of_ok h]
  rfl

/-- The code of a name between two texts. -/
theorem runOn_render_between (lookup : String → Emit String) (front back : String)
    (h : (lookup name).runOn c = (.ok text, c'))
    (hcode : front ++ (text ++ (back ++ "")) = code) :
    (Template.render lookup [.text front.toList, .marker name.toList, .text back.toList]).runOn c =
      (.ok code, c') := by
  rw [← hcode]
  exact runOn_render_text front (runOn_render_marker h (runOn_render_text back runOn_render_nil))

/-! ### Bindings -/

/-- A name is looked up in the innermost scope that binds it. -/
theorem runOn_resolveWithin_of_find? (hinner : ∀ u ∈ inner, u.binds name = false)
    (hfind : s.bindings.find? name = some [b])
    (h : (expand (resolveWithin fuel · none) name b).runOn ⟨s :: outer, sink⟩ =
      (.ok code, ⟨s' :: outer', sink'⟩)) :
    (resolveWithin (fuel + 1) name none).runOn ⟨inner ++ s :: outer, sink⟩ =
      (.ok code, ⟨inner ++ s' :: outer', sink'⟩) := by
  have hbinds : s.binds name = true := by rw [Scope.binds, Table.has, hfind]; rfl
  have hselect : s.select? name none = some b := by rw [Scope.select?, hfind]; rfl
  have hsplit : Chain.splitAt ⟨inner ++ s :: outer, sink⟩ name = (inner, s :: outer) := by
    have hskip : ∀ u ∈ inner, (!u.binds name) = true := fun u hu => by rw [hinner u hu]; rfl
    rw [Chain.splitAt, List.span_eq_takeWhile_dropWhile, List.takeWhile_append_of_pos hskip,
      List.dropWhile_append_of_pos hskip]
    simp [hbinds]
  refine runOn_resolveWithin_eq_ok.mpr ⟨inner, s, outer, b, hsplit, hselect, ?_⟩
  exact runOn_without_eq_ok.mpr ⟨_, h, rfl⟩

theorem runOn_resolve_of_find? (hinner : ∀ u ∈ inner, u.binds name = false)
    (hfind : s.bindings.find? name = some [b])
    (h : ∀ fuel, (expand (resolveWithin fuel · none) name b).runOn ⟨s :: outer, sink⟩ =
      (.ok code, ⟨s' :: outer', sink'⟩)) :
    (resolve name none).runOn ⟨inner ++ s :: outer, sink⟩ =
      (.ok code, ⟨inner ++ s' :: outer', sink'⟩) := by
  have hpos (c : Chain) : 0 < c.resolutionBound := Nat.mul_pos (Nat.succ_pos _) (Nat.succ_pos _)
  have hget (c : Chain) : (get : Emit Chain).runOn c = (.ok c, c) := rfl
  obtain ⟨fuel, hfuel⟩ := Nat.exists_eq_succ_of_ne_zero (hpos ⟨inner ++ s :: outer, sink⟩).ne'
  rw [resolve, runOn_bind_of_ok (hget _), hfuel]
  exact runOn_resolveWithin_of_find? hinner hfind (h fuel)

theorem runOn_registerField {field : StructField} {fields fields' : StructFields}
    (hfields : s.fields = some fields) (hregister : fields.register field = .ok fields') :
    (registerField field).runOn ⟨s :: outer, sink⟩ =
      (.ok (), ⟨{ s with fields := some fields' } :: outer, sink⟩) := by
  refine runOn_registerField_eq_ok.mpr ⟨[], s, outer, fields', ?_, ?_, rfl⟩
  · rw [List.span_eq_takeWhile_dropWhile]
    simp [hfields]
  · rwa [hfields]

theorem runOn_expand_ofText (hcode : '$' ∉ code.toList) (hne : code ≠ "") :
    (expand lookup name (.ofText type code)).runOn c = (.ok code, c) := by
  rw [Printing.expand_of_isPlainCode (Printing.isPlainCode_ofText type hcode hne)]
  rfl

/-- A name whose code does not refer to the name itself. -/
theorem expand_ofText (h : name ∉ (Template.ofString code).markerNames) :
    expand lookup name (.ofText type code) = (Template.ofString code).render lookup := by
  rw [expand, Binding.ofText]
  dsimp only
  refine (pure_bind PUnit.unit _).trans (Template.render_congr fun marker hmarker => if_neg ?_)
  rintro rfl
  exact h hmarker

/-- A name with a field registers it, and then has the code that it has without. -/
theorem runOn_expand_field {field : StructField} {fields fields' : StructFields}
    (hfields : s.fields = some fields) (hregister : fields.register field = .ok fields') :
    (expand lookup name { Binding.ofText type code with field := some field }).runOn
      ⟨s :: outer, sink⟩ = (expand lookup name (.ofText type code)).runOn
        ⟨{ s with fields := some fields' } :: outer, sink⟩ :=
  runOn_bind_of_ok (runOn_registerField hfields hregister) _

/-- The code of a name with an initialiser, behind that initialiser. -/
theorem runOn_expand_initialiser
    (hrequire : (require lookup i).runOn c = (.ok (), c'))
    (hcode : '$' ∉ code.toList) (hne : code ≠ "") :
    (expand lookup name { Binding.ofText type code with initialisers := [i] }).runOn c =
      (.ok code, c') := by
  have hall : (([i] : List Nat).forM (require lookup)).runOn c = (.ok (), c') :=
    runOn_bind_eq_ok.mpr ⟨(), c', hrequire, rfl⟩
  have hplain := @runOn_expand_ofText name code type c' lookup hcode hne
  exact (runOn_bind_of_ok hall _).trans hplain

/-- An initialiser that nothing has needed yet is emitted behind those that it needs itself. -/
theorem runOn_require_of_unused {template : Template}
    (hi : s.initialisers[i]? = some ⟨template, .unused⟩)
    (hrender : (template.render lookup).runOn ⟨s.setState i .pending :: outer, sink⟩ =
      (.ok text, ⟨s' :: outer', sink'⟩)) :
    (require lookup i).runOn ⟨s :: outer, sink⟩ =
      (.ok (), ⟨{ s'.setState i .emitted with emitted := s'.emitted ++ [text] } :: outer',
        sink'⟩) := by
  have hhead : (s :: outer).head?.bind (·.initialisers[i]?) = some ⟨template, .unused⟩ := hi
  refine runOn_bind_eq_ok.mpr ⟨⟨s :: outer, sink⟩, _, rfl, ?_⟩
  dsimp only
  rw [hhead]
  refine runOn_bind_eq_ok.mpr ⟨(), _, runOn_changeScope_eq_ok.mpr ⟨_, rfl, rfl⟩, ?_⟩
  refine runOn_bind_eq_ok.mpr ⟨text, _, hrender, ?_⟩
  exact runOn_changeScope_eq_ok.mpr ⟨_, rfl, rfl⟩

end Emit

end KernelWeaver.Code
