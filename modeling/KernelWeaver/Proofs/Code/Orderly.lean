import KernelWeaver.Proofs.Code.Settled

/-!
# Lookups that finish what they begin

A lookup that ends with a result leaves no initialiser unfinished that it has begun. One that fails
leaves those unfinished whose code it was putting together. Neither takes back what had been begun
or emitted before. The proof goes along the definition of lookups, with one rule for each way to put
computations together.
-/

namespace KernelWeaver.Code

variable {c c' d : Chain} {s t u : Scope} {i : Nat} {inner outer outer' : List Scope}
  {sink sink' : CodeStream}

namespace Scope

/-- What has been begun stays as far as it has got, and what has been emitted stays. -/
structure Retains (s t : Scope) : Prop where
  pending : s.inState .pending ⊆ t.inState .pending
  emitted : s.inState .emitted ⊆ t.inState .emitted
  code : s.emitted <+: t.emitted

/-- Whatever is begun on the way is finished. -/
structure Finishes (s t : Scope) : Prop extends s.Retains t where
  finished : t.inState .pending ⊆ s.inState .pending

namespace Retains

theorem refl (s : Scope) : s.Retains s := ⟨subset_rfl, subset_rfl, List.prefix_rfl⟩

theorem trans (h : s.Retains t) (h' : t.Retains u) : s.Retains u where
  pending := h.pending.trans h'.pending
  emitted := h.emitted.trans h'.emitted
  code := h.code.trans h'.code

/-- An initialiser is begun. -/
theorem begin (hi : i ∈ s.inState .unused) : s.Retains (s.setState i .pending) where
  pending j hj := by
    rw [mem_inState_setState hi]
    exact or_iff_not_imp_left.mpr fun h => ⟨fun heq => h ⟨heq, rfl⟩, hj⟩
  emitted j hj := by
    rw [mem_inState_setState hi]
    refine .inr ⟨?_, hj⟩
    rintro rfl
    cases eq_of_mem_inState hi hj
  code := List.prefix_rfl

end Retains

namespace Finishes

theorem refl (s : Scope) : s.Finishes s := ⟨.refl s, subset_rfl⟩

theorem trans (h : s.Finishes t) (h' : t.Finishes u) : s.Finishes u where
  toRetains := h.toRetains.trans h'.toRetains
  finished := h'.finished.trans h.finished

theorem of_inState_eq (h : ∀ state ≠ .unused, t.inState state = s.inState state)
    (hcode : t.emitted = s.emitted) : s.Finishes t where
  pending := (h .pending (by decide)).ge
  emitted := (h .emitted (by decide)).ge
  code := hcode ▸ List.prefix_rfl
  finished := (h .pending (by decide)).le

/-- What leaves the initialisers and their code alone. -/
theorem of_eq (h : t.initialisers = s.initialisers) (hcode : t.emitted = s.emitted) :
    s.Finishes t :=
  .of_inState_eq (fun state _ => inState_congr h state) hcode

/-- An initialiser that has been begun is emitted when what its code refers to is finished. -/
theorem emit (hi : i ∈ s.inState .unused) (h : (s.setState i .pending).Finishes t)
    (text : String) :
    s.Finishes { t.setState i .emitted with emitted := t.emitted ++ [text] } := by
  have hbegun : i ∈ (s.setState i .pending).inState .pending :=
    (mem_inState_setState hi).mpr (.inl ⟨rfl, rfl⟩)
  have hlast (j : Nat) (state : InitState) :
      j ∈ Scope.inState { t.setState i .emitted with emitted := t.emitted ++ [text] } state ↔
        (j = i ∧ .emitted = state) ∨ (j ≠ i ∧ j ∈ t.inState state) :=
    mem_inState_setState (h.pending hbegun)
  have hfirst : s.Retains (s.setState i .pending) := .begin hi
  have hne (state : InitState) (hstate : state ≠ .unused) (j : Nat) (hj : j ∈ s.inState state) :
      j ≠ i := by
    rintro rfl
    exact hstate (eq_of_mem_inState hj hi)
  constructor
  case finished =>
    intro j hj
    rcases (hlast j .pending).mp hj with ⟨-, hstate⟩ | ⟨hji, hj⟩
    · cases hstate
    · rcases (mem_inState_setState hi).mp (h.finished hj) with ⟨heq, -⟩ | ⟨-, hj⟩
      · exact absurd heq hji
      · exact hj
  case toRetains =>
    constructor
    case pending =>
      intro j hj
      have hother := hne .pending (by decide) j hj
      exact (hlast j .pending).mpr (.inr ⟨hother, h.pending (hfirst.pending hj)⟩)
    case emitted =>
      intro j hj
      have hother := hne .emitted (by decide) j hj
      exact (hlast j .emitted).mpr (.inr ⟨hother, h.emitted (hfirst.emitted hj)⟩)
    case code => exact h.code.trans (List.prefix_append t.emitted [text])

end Finishes

end Scope

/-! ### Chains -/

namespace Chain

/-- Each scope keeps what has been begun in it. -/
def Retains (c d : Chain) : Prop := List.Forall₂ Scope.Retains c.scopes d.scopes

/-- Each scope finishes what is begun in it. -/
def Finishes (c d : Chain) : Prop := List.Forall₂ Scope.Finishes c.scopes d.scopes

theorem Retains.refl (c : Chain) : c.Retains c := List.forall₂_same.mpr fun s _ => .refl s

theorem Retains.trans (h : c.Retains c') (h' : c'.Retains d) : c.Retains d :=
  forall₂_trans (fun _ _ _ => .trans) h h'

namespace Finishes

theorem refl (c : Chain) : c.Finishes c := List.forall₂_same.mpr fun s _ => .refl s

theorem trans (h : c.Finishes c') (h' : c'.Finishes d) : c.Finishes d :=
  forall₂_trans (fun _ _ _ => .trans) h h'

theorem toRetains (h : c.Finishes d) : c.Retains d := h.imp fun _ _ => Scope.Finishes.toRetains

end Finishes

theorem finishes_modifyStream (c : Chain) (f : CodeStream → CodeStream) :
    c.Finishes (c.modifyStream f) := by
  obtain ⟨scopes, sink⟩ := c
  cases scopes with
  | nil => exact .refl _
  | cons s outer => exact List.Forall₂.cons (.of_eq rfl rfl) (Finishes.refl ⟨outer, sink⟩)

/-- What a run leaves of the chain: with a result all that was begun is finished, and with an error
what had been begun before is kept. -/
def Leaves {α : Type} (c : Chain) : Except Failure α × Chain → Prop
  | (.ok _, d) => c.Finishes d
  | (.error _, d) => c.Retains d

namespace Leaves

variable {α : Type} {r : Except Failure α}

theorem toRetains (h : c.Leaves (r, d)) : c.Retains d := by
  cases r with
  | ok a => exact Finishes.toRetains h
  | error e => exact h

theorem of_finishes {p : Except Failure α × Chain} (h : c.Finishes p.2) : c.Leaves p := by
  obtain ⟨r, d⟩ := p
  cases r with
  | ok a => exact h
  | error e => exact h.toRetains

theorem trans (h : c.Finishes c') (h' : c'.Leaves (r, d)) : c.Leaves (r, d) := by
  cases r with
  | ok a => exact Finishes.trans h h'
  | error e => exact h.toRetains.trans h'

theorem append_left (h : Leaves ⟨outer, sink⟩ (r, ⟨outer', sink'⟩)) (inner : List Scope) :
    Leaves ⟨inner ++ outer, sink⟩ (r, ⟨inner ++ outer', sink'⟩) := by
  cases r with
  | ok a => exact List.rel_append (Finishes.refl ⟨inner, sink⟩) h
  | error e => exact List.rel_append (Retains.refl ⟨inner, sink⟩) h

end Leaves

end Chain

/-! ### Lookups -/

namespace Emit

variable {α β : Type}

/-- The computation finishes what it begins, unless it fails. -/
def Orderly (m : Emit α) : Prop := ∀ c : Chain, c.Leaves (m.runOn c)

namespace Orderly

variable {m : Emit α}

theorem pure (a : α) : Orderly (Pure.pure a) := fun c => Chain.Finishes.refl c

theorem fail (e : Error) : Orderly (fail e : Emit α) := fun c => Chain.Retains.refl c

theorem bind {f : α → Emit β} (hm : Orderly m) (hf : ∀ a, Orderly (f a)) :
    Orderly (m >>= f) := by
  intro c
  have hfirst := hm c
  cases hrun : m.runOn c with
  | mk r c' =>
      rw [hrun] at hfirst
      cases r with
      | ok a =>
          rw [runOn_bind_of_ok hrun]
          exact .trans hfirst (hf a c')
      | error e =>
          rw [runOn_bind_of_error hrun]
          exact hfirst

/-- A computation may depend on the chain it starts from. -/
theorem get {f : Chain → Emit β} (h : ∀ c : Chain, c.Leaves ((f c).runOn c)) :
    Orderly (MonadState.get >>= f) := h

theorem render {lookup : String → Emit String} (h : ∀ name, Orderly (lookup name))
    (t : Template) : Orderly (t.render lookup) := by
  induction t with
  | nil => exact pure ""
  | cons segment rest ih =>
      cases segment with
      | text cs => exact ih.bind fun _ => pure _
      | marker name => exact (h _).bind fun _ => ih.bind fun _ => pure _

theorem forM {f : β → Emit PUnit} (h : ∀ x, Orderly (f x)) (xs : List β) :
    Orderly (xs.forM f) := by
  induction xs with
  | nil => exact pure _
  | cons x xs ih => exact (h x).bind fun _ => ih

theorem leaves_without (hm : Orderly m) (hc : c.scopes = inner ++ outer) :
    c.Leaves ((without inner m).runOn c) := by
  obtain ⟨scopes, sink⟩ := c
  subst hc
  rw [runOn_without]
  exact (hm ⟨outer, sink⟩).append_left inner

end Orderly

theorem finishes_changeScope {f : Scope → Except Error Scope}
    (h : ∀ s t, f s = .ok t → s.Finishes t) (c : Chain) :
    c.Finishes ((changeScope f).runOn c).2 := by
  obtain ⟨scopes, sink⟩ := c
  cases scopes with
  | nil => exact .refl _
  | cons s outer =>
      rw [runOn_changeScope]
      cases hf : f s with
      | ok t => exact List.Forall₂.cons (h s t hf) (Chain.Finishes.refl ⟨outer, sink⟩)
      | error e => exact .refl _

theorem orderly_changeScope {f : Scope → Except Error Scope}
    (h : ∀ s t, f s = .ok t → s.Finishes t) : Orderly (changeScope f) :=
  fun c => .of_finishes (finishes_changeScope h c)

theorem orderly_registerField (field : StructField) : Orderly (registerField field) := by
  refine .get fun c => ?_
  split
  next inner s outer hspan =>
    obtain ⟨hscopes, -⟩ := eq_append_of_span hspan
    split
    next fields _ =>
      have hs : List.Forall₂ Scope.Finishes (inner ++ s :: outer)
          (inner ++ { s with fields := some fields } :: outer) :=
        List.rel_append (Chain.Finishes.refl ⟨inner, c.sink⟩)
          (.cons (.of_eq rfl rfl) (Chain.Finishes.refl ⟨outer, c.sink⟩))
      rw [← hscopes] at hs
      exact hs
    next => exact Chain.Retains.refl c
  next => exact Chain.Retains.refl c

/-- An initialiser whose code cannot be put together stays begun. -/
theorem orderly_require {lookup : String → Emit String} (hlookup : ∀ name, Orderly (lookup name))
    (i : Nat) : Orderly (require lookup i) := by
  refine .get fun c => ?_
  obtain ⟨scopes, sink⟩ := c
  cases scopes with
  | nil => exact Chain.Retains.refl _
  | cons s outer =>
      have hhead : (s :: outer).head?.bind (·.initialisers[i]?) = s.initialisers[i]? := rfl
      dsimp only
      rw [hhead]
      cases hx : s.initialisers[i]? with
      | none => exact Chain.Retains.refl _
      | some x =>
          obtain ⟨template, state⟩ := x
          cases state with
          | pending => exact Chain.Finishes.refl _
          | emitted => exact Chain.Finishes.refl _
          | unused =>
              have hi : i ∈ s.inState .unused := ⟨_, hx, rfl⟩
              -- the initialiser is begun,
              have hbegin : (Emit.changeScope fun s => .ok (s.setState i .pending)).runOn
                  ⟨s :: outer, sink⟩ = (.ok (), ⟨s.setState i .pending :: outer, sink⟩) := rfl
              dsimp only
              rw [runOn_bind_of_ok hbegin]
              have hcode := Orderly.render hlookup template ⟨s.setState i .pending :: outer, sink⟩
              cases hrender : (template.render lookup).runOn
                  ⟨s.setState i .pending :: outer, sink⟩ with
              | mk r c₁ =>
                  rw [hrender] at hcode
                  cases r with
                  | error e =>
                      -- its code cannot be put together,
                      rw [runOn_bind_of_error hrender]
                      have hfirst : Chain.Retains ⟨s :: outer, sink⟩
                          ⟨s.setState i .pending :: outer, sink⟩ :=
                        List.Forall₂.cons (.begin hi) (Chain.Retains.refl ⟨outer, sink⟩)
                      exact hfirst.trans hcode
                  | ok text =>
                      -- or that code is emitted
                      rw [runOn_bind_of_ok hrender]
                      obtain ⟨scopes, sink'⟩ := c₁
                      cases hcode with
                      | cons ht houter => exact .cons (.emit hi ht text) houter

theorem orderly_expand {lookup : String → Emit String} (hlookup : ∀ name, Orderly (lookup name))
    (name : String) (b : Binding) : Orderly (expand lookup name b) := by
  have hmarker (marker : String) : Orderly (if marker = name then do
      let inner := (← get).scopes.take 1
      without inner (lookup marker)
    else lookup marker) := by
    split
    · exact .get fun c => (hlookup marker).leaves_without (List.take_append_drop 1 c.scopes).symm
    · exact hlookup marker
  have hrest := (Orderly.forM (orderly_require hlookup) b.initialisers).bind fun _ =>
    Orderly.render hmarker b.template
  rw [expand]
  cases b.field with
  | none => exact hrest
  | some field => exact (orderly_registerField field).bind fun _ => hrest

theorem orderly_resolveWithin (fuel : Nat) (name : String) (wanted : Option CType) :
    Orderly (resolveWithin fuel name wanted) := by
  induction fuel generalizing name wanted with
  | zero => exact fun c => Chain.Retains.refl c
  | succ fuel ih =>
      refine .get fun c => ?_
      have hsplit : c.scopes = (c.splitAt name).1 ++ (c.splitAt name).2 :=
        (eq_append_of_span rfl).1
      dsimp only
      cases (c.splitAt name).2.head?.bind (·.select? name wanted) with
      | none => exact Chain.Retains.refl c
      | some b => exact (orderly_expand (fun other => ih other none) name b).leaves_without hsplit

theorem orderly_resolve (name : String) (wanted : Option CType) : Orderly (resolve name wanted) :=
  .get fun c => orderly_resolveWithin c.resolutionBound name wanted c

theorem orderly_expandText (template : String) : Orderly (expandText template) :=
  .render (fun name => orderly_resolve name none) _

theorem orderly_write (f : CodeStream → CodeStream) : Orderly (write f) :=
  fun c => c.finishes_modifyStream f

end Emit

end KernelWeaver.Code
