import KernelWeaver.Proofs.Code.Recording
import KernelWeaver.Proofs.Code.Resolution

/-!
# Settled scopes

A lookup that has succeeded has nothing left to do: its fields are registered and its initialisers
begun. Done again, it finds the same code and changes nothing. This stays so while further lookups
change the scopes, which is why the parts of a computation can be taken one after the other.
-/

namespace KernelWeaver.Code

/-- What lookups leave of a scope: initialisers that have been begun stay so, and fields are only
added. The code of its initialisers and its own code may be any. -/
structure Scope.Advances (s t : Scope) : Prop extends s.Evolves t where
  started : s.started ⊆ t.started
  registered : ∃ more, t.fields = s.fields.map (· ++ more)

/-- Each scope of the chain advances. -/
def Chain.Advances (c d : Chain) : Prop := List.Forall₂ Scope.Advances c.scopes d.scopes

namespace Scope.Advances

variable {s t u : Scope}

theorem refl (s : Scope) : s.Advances s where
  toEvolves := .refl s
  started := subset_rfl
  registered := ⟨[], by simp⟩

theorem trans (h : s.Advances t) (h' : t.Advances u) : s.Advances u where
  toEvolves := h.toEvolves.trans h'.toEvolves
  started := h.started.trans h'.started
  registered := by
    obtain ⟨more, hmore⟩ := h.registered
    obtain ⟨last, hlast⟩ := h'.registered
    exact ⟨more ++ last, by simp [hlast, hmore, Function.comp_def]⟩

/-- An initialiser is begun or emitted. -/
theorem setState (s : Scope) {i : Nat} {x : Initialiser} {state : InitState}
    (hx : s.initialisers[i]? = some x) (hstate : state ≠ .unused) :
    s.Advances (s.setState i state) where
  toEvolves := s.evolves_setState i hstate
  started := by
    rw [started_setState hx hstate]
    exact Set.subset_insert _ _
  registered := ⟨[], by simp [Scope.setState]⟩

end Scope.Advances

variable {c c' d : Chain} {s t : Scope} {inner outer inner' outer' scopes scopes' : List Scope}

namespace Chain.Advances

theorem refl (c : Chain) : c.Advances c := List.forall₂_same.mpr fun s _ => .refl s

theorem trans (h : c.Advances c') (h' : c'.Advances d) : c.Advances d :=
  forall₂_trans (fun _ _ _ => .trans) h h'

theorem append_left (inner : List Scope) {sink sink' : CodeStream}
    (h : Advances ⟨outer, sink⟩ ⟨outer', sink'⟩) :
    Advances ⟨inner ++ outer, sink⟩ ⟨inner ++ outer', sink'⟩ :=
  List.rel_append (refl ⟨inner, sink⟩) h

theorem cons {sink sink' : CodeStream} (hs : s.Advances t)
    (h : Advances ⟨outer, sink⟩ ⟨outer', sink'⟩) :
    Advances ⟨s :: outer, sink⟩ ⟨t :: outer', sink'⟩ :=
  List.Forall₂.cons hs h

/-- Behind as many scopes the others advance. -/
theorem of_append {sink sink' : CodeStream} (hlength : inner'.length = inner.length)
    (h : Advances ⟨inner ++ outer, sink⟩ ⟨inner' ++ outer', sink'⟩) :
    Advances ⟨outer, sink⟩ ⟨outer', sink'⟩ := by
  have hdrop := List.forall₂_drop_append _ inner' outer' h
  rw [hlength] at hdrop
  dsimp only at hdrop
  rwa [List.drop_left] at hdrop

theorem exists_of_cons {sink : CodeStream} (h : Advances ⟨s :: outer, sink⟩ d) :
    ∃ t outer', d.scopes = t :: outer' ∧ s.Advances t ∧
      Advances ⟨outer, sink⟩ ⟨outer', d.sink⟩ := by
  obtain ⟨t, outer', hs, houter, hscopes⟩ := List.forall₂_cons_left_iff.mp h
  exact ⟨t, outer', hscopes, hs, houter⟩

/-- Where a condition does not change, the scopes are divided by it in the same place. -/
theorem exists_span {p : Scope → Bool} (hp : ∀ s t : Scope, s.Advances t → p t = p s)
    (h : c.Advances d) (hspan : c.scopes.span p = (inner, outer)) :
    ∃ inner' outer', d.scopes.span p = (inner', outer') ∧ d.scopes = inner' ++ outer' ∧
      inner'.length = inner.length := by
  rw [List.span_eq_takeWhile_dropWhile] at hspan ⊢
  obtain ⟨rfl, -⟩ := Prod.mk.inj hspan
  refine ⟨_, _, rfl, List.takeWhile_append_dropWhile.symm, ?_⟩
  clear hspan
  obtain ⟨scopes, sink⟩ := c
  obtain ⟨scopes', sink'⟩ := d
  change List.Forall₂ Scope.Advances scopes scopes' at h
  dsimp only
  induction h with
  | nil => rfl
  | @cons s t _ _ hs _ ih =>
      rw [List.takeWhile_cons, List.takeWhile_cons, hp s t hs]
      split
      · rw [List.length_cons, List.length_cons, ih]
      · rfl

end Chain.Advances

theorem eq_append_of_span {α : Type} {p : α → Bool} {l front back : List α}
    (h : l.span p = (front, back)) : l = front ++ back ∧ ∀ x ∈ back.head?, p x = false := by
  rw [List.span_eq_takeWhile_dropWhile] at h
  obtain ⟨rfl, rfl⟩ := Prod.mk.inj h
  refine ⟨List.takeWhile_append_dropWhile.symm, fun x hx => ?_⟩
  have hhead := List.head?_dropWhile_not p l
  rwa [Option.mem_def.mp hx] at hhead

/-- A field that has been registered is registered already, whatever fields have come after it. -/
theorem StructFields.register_again {fields fields' : StructFields} {f : StructField}
    (h : fields.register f = .ok fields') :
    (∃ more, fields' = fields ++ more) ∧
      ∀ more, register (fields' ++ more) f = .ok (fields' ++ more) := by
  rw [register] at h
  cases hfind : fields.find? f.name with
  | none =>
      rw [hfind] at h
      cases h
      refine ⟨⟨[f], rfl⟩, fun more => ?_⟩
      have hfound : find? (fields ++ [f] ++ more) f.name = some f := by
        rw [find?, List.find?_append, List.find?_append, ← find?, hfind]
        simp
      rw [register, hfound]
      exact if_pos (decide_eq_true rfl)
  | some old =>
      rw [hfind] at h
      dsimp only at h
      split at h
      next hkind =>
        cases h
        refine ⟨⟨[], (List.append_nil _).symm⟩, fun more => ?_⟩
        have hfound : find? (fields ++ more) f.name = some old := by
          rw [find?, List.find?_append, ← find?, hfind]
          rfl
        rw [register, hfound]
        exact if_pos hkind
      next => cases h

namespace Emit

variable {α β : Type}

/-- Where the computation has a result, it has nothing left to do: on whatever scopes come of those
that it leaves, it has the same result and changes nothing. -/
def Settles (m : Emit α) : Prop :=
  ∀ c a c', m.runOn c = (.ok a, c') →
    c.Advances c' ∧ ∀ d, c'.Advances d → m.runOn d = (.ok a, d)

namespace Settles

variable {m : Emit α}

theorem pure (a : α) : Settles (Pure.pure a) := by
  intro c b c' h
  obtain ⟨rfl, rfl⟩ := runOn_pure_eq_ok.mp h
  exact ⟨.refl c, fun d _ => rfl⟩

theorem fail (e : Error) : Settles (fail e : Emit α) := fun _ _ _ h => nomatch congrArg Prod.fst h

/-- The second part leaves nothing to do for the first. -/
theorem bind {f : α → Emit β} (hm : Settles m) (hf : ∀ a, Settles (f a)) : Settles (m >>= f) := by
  intro c b c'' h
  obtain ⟨a, c', hrun, hrest⟩ := runOn_bind_eq_ok.mp h
  obtain ⟨hfirst, hagain⟩ := hm c a c' hrun
  obtain ⟨hsecond, hagain'⟩ := hf a c' b c'' hrest
  refine ⟨hfirst.trans hsecond, fun d hd => ?_⟩
  exact runOn_bind_eq_ok.mpr ⟨a, d, hagain d (hsecond.trans hd), hagain' d hd⟩

theorem render {lookup : String → Emit String} (h : ∀ name, Settles (lookup name))
    (t : Template) : Settles (t.render lookup) := by
  induction t with
  | nil => exact pure ""
  | cons segment rest ih =>
      cases segment with
      | text cs => exact ih.bind fun _ => pure _
      | marker name => exact (h _).bind fun _ => ih.bind fun _ => pure _

theorem forM {f : β → Emit PUnit} (h : ∀ x, Settles (f x)) (xs : List β) : Settles (xs.forM f) := by
  induction xs with
  | nil => exact pure _
  | cons x xs ih => exact (h x).bind fun _ => ih

/-- What is computed from the chain may be so that it does not change any more. -/
theorem get {f : Chain → Emit α} (hf : ∀ c, Settles (f c))
    (hsame : ∀ c d : Chain, c.Advances d → f d = f c) : Settles (get >>= f) := by
  intro c a c' h
  obtain ⟨_, _, hget, hrun⟩ := runOn_bind_eq_ok.mp h
  cases hget
  obtain ⟨hadvances, hagain⟩ := hf c c a c' hrun
  refine ⟨hadvances, fun d hd => runOn_bind_eq_ok.mpr ⟨d, d, rfl, ?_⟩⟩
  rw [hsame c d (hadvances.trans hd)]
  exact hagain d hd

/-- With as many scopes set aside, the computation has nothing left to do on the others. -/
theorem without (hm : Settles m) {sink : CodeStream} {a : α}
    (h : (Emit.without inner m).runOn ⟨inner ++ outer, sink⟩ = (.ok a, c')) :
    Chain.Advances ⟨inner ++ outer, sink⟩ c' ∧
      ∀ inner' outer' sink', inner'.length = inner.length →
        c'.Advances ⟨inner' ++ outer', sink'⟩ →
        (Emit.without inner' m).runOn ⟨inner' ++ outer', sink'⟩ =
          (.ok a, ⟨inner' ++ outer', sink'⟩) := by
  obtain ⟨c₁, hrun, rfl⟩ := runOn_without_eq_ok.mp h
  obtain ⟨hadvances, hagain⟩ := hm _ a c₁ hrun
  refine ⟨hadvances.append_left inner, fun inner' outer' sink' hlength hd => ?_⟩
  exact runOn_without_eq_ok.mpr ⟨_, hagain _ (.of_append hlength hd), rfl⟩

end Settles

theorem settles_registerField (field : StructField) : Settles (registerField field) := by
  intro c _ c' h
  obtain ⟨inner, s, outer, fields, hspan, hregister, rfl⟩ := runOn_registerField_eq_ok.mp h
  obtain ⟨hscopes, hhead⟩ := eq_append_of_span hspan
  obtain ⟨⟨more, hmore⟩, hagain⟩ := StructFields.register_again hregister
  obtain ⟨old, hold⟩ : ∃ old, s.fields = some old := by
    simpa [Option.isNone_eq_false_iff, Option.isSome_iff_exists] using hhead s rfl
  have hs : s.Advances { s with fields := some fields } :=
    { toEvolves := ⟨rfl, rfl, le_rfl, by rw [hold]; rfl⟩
      started := subset_rfl
      registered := ⟨more, by simp [hmore, hold]⟩ }
  have hfirst : c.Advances ⟨inner ++ { s with fields := some fields } :: outer, c.sink⟩ := by
    have happend := Chain.Advances.append_left inner (.cons hs (.refl ⟨outer, c.sink⟩))
    rwa [← hscopes] at happend
  refine ⟨hfirst, fun d hd => ?_⟩
  have hsame (s t : Scope) (h : s.Advances t) : t.fields.isNone = s.fields.isNone := by
    rw [← Option.not_isSome, ← Option.not_isSome, h.fields]
  obtain ⟨inner', scopes', hspan', hscopes', hlength⟩ :=
    (hfirst.trans hd).exists_span hsame hspan
  obtain ⟨d, sink⟩ := d
  dsimp only at hscopes'
  subst hscopes'
  obtain ⟨t, outer', hcons, ht, -⟩ := (hd.of_append hlength).exists_of_cons
  dsimp only at hcons
  subst hcons
  obtain ⟨last, hlast⟩ : ∃ last, t.fields = some (fields ++ last) := ht.registered
  refine runOn_registerField_eq_ok.mpr ⟨inner', t, outer', fields ++ last, hspan', ?_, ?_⟩
  · rw [hlast]
    exact hagain last
  · rw [← hlast]

/-- An initialiser that is begun is not begun again. -/
theorem runOn_require_of_started {lookup : String → Emit String} {i : Nat} {sink : CodeStream}
    (hi : i ∈ s.started) :
    (require lookup i).runOn ⟨s :: outer, sink⟩ = (.ok (), ⟨s :: outer, sink⟩) := by
  obtain ⟨⟨template, state⟩, hx, hstate⟩ := hi
  have hhead : (s :: outer).head?.bind (·.initialisers[i]?) = some ⟨template, state⟩ := hx
  refine runOn_bind_eq_ok.mpr ⟨⟨s :: outer, sink⟩, _, rfl, ?_⟩
  dsimp only
  rw [hhead]
  cases state with
  | unused => exact absurd rfl hstate
  | pending => rfl
  | emitted => rfl

/-- Behind a request the initialiser is begun. -/
theorem advances_require {lookup : String → Emit String} (hlookup : ∀ name, Settles (lookup name))
    {i : Nat} {u : Unit} (h : (require lookup i).runOn c = (.ok u, c')) :
    c.Advances c' ∧ ∃ t outer, c'.scopes = t :: outer ∧ i ∈ t.started := by
  obtain ⟨_, _, hget, h⟩ := runOn_bind_eq_ok.mp h
  cases hget
  obtain ⟨scopes, sink⟩ := c
  cases scopes with
  | nil => cases congrArg Prod.fst h
  | cons s outer =>
      have hhead : (s :: outer).head?.bind (·.initialisers[i]?) = s.initialisers[i]? := rfl
      dsimp only at h
      rw [hhead] at h
      cases hx : s.initialisers[i]? with
      | none =>
          rw [hx] at h
          cases congrArg Prod.fst h
      | some x =>
          obtain ⟨template, state⟩ := x
          rw [hx] at h
          have hbegun (hstate : state ≠ .unused) : i ∈ s.started :=
            (Scope.mem_started_iff hx).mpr hstate
          cases state with
          | pending =>
              cases h
              exact ⟨.refl _, s, outer, rfl, hbegun (by decide)⟩
          | emitted =>
              cases h
              exact ⟨.refl _, s, outer, rfl, hbegun (by decide)⟩
          | unused =>
              -- the initialiser is begun,
              obtain ⟨_, c₁, hbegin, h⟩ := runOn_bind_eq_ok.mp h
              obtain ⟨s₁, hs₁, rfl⟩ := runOn_changeScope_eq_ok.mp hbegin
              cases hs₁
              have hs : s.Advances (s.setState i .pending) := .setState s hx (by decide)
              have hstarted : i ∈ (s.setState i .pending).started := by
                rw [Scope.started_setState hx (by decide)]
                exact Set.mem_insert i _
              -- its code is put together,
              obtain ⟨text, c₂, hrender, h⟩ := runOn_bind_eq_ok.mp h
              obtain ⟨hcode, -⟩ := Settles.render hlookup template _ _ _ hrender
              obtain ⟨t, outer', hscopes, ht, houter⟩ := hcode.exists_of_cons
              obtain ⟨scopes, sink'⟩ := c₂
              dsimp only at hscopes
              subst hscopes
              -- and that code is emitted
              obtain ⟨t₁, ht₁, rfl⟩ := runOn_changeScope_eq_ok.mp h
              cases ht₁
              obtain ⟨y, hy, -⟩ := ht.started hstarted
              have hemit : t.Advances (t.setState i .emitted) := .setState t hy (by decide)
              have hlast : s.Advances { t.setState i .emitted with emitted := t.emitted ++ [text] } :=
                hs.trans <| ht.trans <| hemit.trans
                  { toEvolves := ⟨rfl, rfl, le_rfl, rfl⟩
                    started := subset_rfl
                    registered := ⟨[], by simp⟩ }
              exact ⟨.cons hlast houter, _, outer', rfl, hemit.started (ht.started hstarted)⟩

theorem settles_require {lookup : String → Emit String} (hlookup : ∀ name, Settles (lookup name))
    (i : Nat) : Settles (require lookup i) := by
  intro c _ c' h
  obtain ⟨hadvances, t, outer, hscopes, hi⟩ := advances_require hlookup h
  refine ⟨hadvances, fun d hd => ?_⟩
  obtain ⟨scopes, sink⟩ := c'
  dsimp only at hscopes
  subst hscopes
  obtain ⟨u, outer', hscopes', hu, -⟩ := hd.exists_of_cons
  obtain ⟨scopes', sink'⟩ := d
  dsimp only at hscopes'
  subst hscopes'
  exact runOn_require_of_started (hu.started hi)

/-- With the innermost scope set aside a lookup settles as it does without. -/
theorem settles_without_innermost {m : Emit α} (hm : Settles m) :
    Settles (do
      let inner := (← get).scopes.take 1
      without inner m) := by
  intro c a c' h
  obtain ⟨_, _, hget, h⟩ := runOn_bind_eq_ok.mp h
  cases hget
  obtain ⟨scopes, sink⟩ := c
  have hsplit (scopes : List Scope) (sink : CodeStream) :
      Chain.mk scopes sink = ⟨scopes.take 1 ++ scopes.drop 1, sink⟩ := by
    rw [List.take_append_drop]
  dsimp only at h
  have hrun := h
  rw [hsplit scopes sink] at hrun
  obtain ⟨hadvances, hagain⟩ := hm.without hrun
  rw [← hsplit] at hadvances
  refine ⟨hadvances, fun d hd => runOn_bind_eq_ok.mpr ⟨d, d, rfl, ?_⟩⟩
  obtain ⟨scopes', sink'⟩ := d
  have hlength : scopes.length = scopes'.length := (hadvances.trans hd).length_eq
  have hdone := hagain (scopes'.take 1) (scopes'.drop 1) sink'
    (by rw [List.length_take, List.length_take, hlength]) (by rwa [← hsplit])
  rwa [← hsplit] at hdone

/-- A marker for the name itself is looked up with the innermost scope set aside. -/
theorem settles_expand {lookup : String → Emit String} (hlookup : ∀ name, Settles (lookup name))
    (name : String) (b : Binding) : Settles (expand lookup name b) := by
  have hmarker (marker : String) : Settles (if marker = name then do
      let inner := (← get).scopes.take 1
      without inner (lookup marker)
    else lookup marker) := by
    split
    · exact settles_without_innermost (hlookup marker)
    · exact hlookup marker
  have hrest := (Settles.forM (settles_require hlookup) b.initialisers).bind fun _ =>
    Settles.render hmarker b.template
  rw [expand]
  cases b.field with
  | none => exact hrest
  | some field => exact (settles_registerField field).bind fun _ => hrest

theorem settles_resolveWithin (fuel : Nat) (name : String) (wanted : Option CType) :
    Settles (resolveWithin fuel name wanted) := by
  induction fuel generalizing name wanted with
  | zero => exact fun _ _ _ h => nomatch congrArg Prod.fst h
  | succ fuel ih =>
      intro c code c' h
      obtain ⟨inner, s, outer, b, hspan, hselect, hrun⟩ := runOn_resolveWithin_eq_ok.mp h
      obtain ⟨scopes, sink⟩ := c
      obtain ⟨hscopes, -⟩ := eq_append_of_span hspan
      dsimp only at hscopes
      subst hscopes
      obtain ⟨hadvances, hagain⟩ :=
        (settles_expand (fun other => ih other none) name b).without hrun
      refine ⟨hadvances, fun d hd => ?_⟩
      -- the name belongs to the same scope as before
      have hsame (s t : Scope) (h : s.Advances t) : (!t.binds name) = !s.binds name := by
        rw [h.binds]
      obtain ⟨inner', scopes', hspan', hscopes', hlength⟩ :=
        (hadvances.trans hd).exists_span hsame hspan
      obtain ⟨d, sink'⟩ := d
      dsimp only at hscopes'
      subst hscopes'
      obtain ⟨t, outer', hcons, ht, -⟩ := ((hadvances.trans hd).of_append hlength).exists_of_cons
      dsimp only at hcons
      subst hcons
      exact runOn_resolveWithin_eq_ok.mpr ⟨inner', t, outer', b, hspan',
        (ht.select? name wanted).trans hselect, hagain inner' (t :: outer') sink' hlength hd⟩

theorem resolutionBound_eq (h : c.Advances d) : d.resolutionBound = c.resolutionBound := by
  have htotal (count : Scope → Nat) (hcount : ∀ s t : Scope, s.Advances t → count t = count s) :
      Chain.resolutionBound.total d count = Chain.resolutionBound.total c count := by
    have hmap := List.rel_map (fun s t hst => (hcount s t hst).symm) h
    rw [List.forall₂_eq_eq_eq] at hmap
    rw [total_eq_sum, total_eq_sum, hmap]
  rw [Chain.resolutionBound, Chain.resolutionBound,
    htotal _ fun s t h => h.length_initialisers, htotal _ fun s t h => by rw [h.bindings]]

theorem settles_resolve (name : String) (wanted : Option CType) : Settles (resolve name wanted) :=
  .get (fun c => settles_resolveWithin _ _ _) fun c d h => by rw [resolutionBound_eq h]

theorem settles_expandText (template : String) : Settles (expandText template) :=
  .render (fun name => settles_resolve name none) _

end Emit

end KernelWeaver.Code
