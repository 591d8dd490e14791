import KernelWeaver.Proofs.Code.Run

/-!
# Successful runs

A run that succeeds ends with a result; what is known of the result and of the scopes left behind is
passed on from each part of a computation to the next.
-/

namespace KernelWeaver.Code.Emit

variable {α β : Type}

/-- Run on a chain, the computation ends with a result, of which `Q` holds together with the chain
that is left. -/
def Succeeds (m : Emit α) (c : Chain) (Q : α → Chain → Prop) : Prop :=
  ∃ a c', m.runOn c = (.ok a, c') ∧ Q a c'

/-- The computation succeeds wherever `I` holds, and `I` holds again at its end. -/
def Maintains (m : Emit α) (I : Chain → Prop) : Prop :=
  ∀ c, I c → Succeeds m c fun _ c' => I c'

/-- The computation succeeds wherever `I` holds, with a value of the property, and `I` holds again at
its end. -/
def Yields (I : Chain → Prop) (m : Emit α) (P : α → Prop) : Prop :=
  ∀ c, I c → Succeeds m c fun a c' => P a ∧ I c'

namespace Succeeds

variable {c : Chain} {P Q : α → Chain → Prop} {R : β → Chain → Prop} {m : Emit α}

theorem imp (h : Succeeds m c P) (hPQ : ∀ a c', P a c' → Q a c') : Succeeds m c Q := by
  obtain ⟨a, c', hrun, hP⟩ := h
  exact ⟨a, c', hrun, hPQ a c' hP⟩

theorem pure {a : α} (h : Q a c) : Succeeds (pure a) c Q := ⟨a, c, rfl, h⟩

theorem bind {f : α → Emit β} (h : Succeeds m c P)
    (hf : ∀ a c', P a c' → Succeeds (f a) c' R) : Succeeds (m >>= f) c R := by
  obtain ⟨a, c', hrun, hP⟩ := h
  obtain ⟨b, c'', hrun', hR⟩ := hf a c' hP
  exact ⟨b, c'', (runOn_bind_of_ok hrun f).trans hrun', hR⟩

theorem get {Q : Chain → Chain → Prop} (h : Q c c) : Succeeds get c Q := ⟨c, c, rfl, h⟩

theorem set {Q : PUnit → Chain → Prop} {c' : Chain} (h : Q ⟨⟩ c') : Succeeds (set c') c Q :=
  ⟨⟨⟩, c', rfl, h⟩

theorem modify {Q : PUnit → Chain → Prop} {f : Chain → Chain} (h : Q ⟨⟩ (f c)) :
    Succeeds (modify f) c Q := ⟨⟨⟩, f c, rfl, h⟩

theorem afterwards {f : Chain → Chain} (h : Succeeds m c fun a c' => Q a (f c')) :
    Succeeds (afterwards m f) c Q := by
  obtain ⟨a, c', hrun, hQ⟩ := h
  refine ⟨a, f c', ?_, hQ⟩
  change ((m.runOn c).1, f (m.runOn c).2) = _
  rw [hrun]

/-- With the innermost scopes set aside, a computation runs on the scopes around them. -/
theorem without {inner outer : List Scope} (hc : c.scopes = inner ++ outer)
    (h : Succeeds m { c with scopes := outer } fun a c' =>
      Q a { c' with scopes := inner ++ c'.scopes }) :
    Succeeds (without inner m) c Q := by
  refine .bind (P := fun _ c' => c' = { c with scopes := outer }) (.modify ?_) ?_
  · rw [hc, List.drop_left]
  · rintro _ _ rfl
    exact .afterwards h

theorem changeScope {s t : Scope} {outer : List Scope} {f : Scope → Except Error Scope}
    {Q : Unit → Chain → Prop} (hc : c.scopes = s :: outer) (hf : f s = .ok t)
    (h : Q () { c with scopes := t :: outer }) : Succeeds (changeScope f) c Q := by
  refine .bind (P := fun a c' => a = c ∧ c' = c) (.get ⟨rfl, rfl⟩) ?_
  rintro _ _ ⟨rfl, rfl⟩
  rw [hc]
  dsimp only
  rw [hf]
  exact .set h

end Succeeds

namespace Maintains

variable {I : Chain → Prop}

theorem forM {γ : Type} {f : γ → Emit PUnit} {xs : List γ} (h : ∀ x ∈ xs, Maintains (f x) I) :
    Maintains (xs.forM f) I := by
  induction xs with
  | nil => exact fun c hc => .pure hc
  | cons x xs ih =>
      intro c hc
      refine .bind (h x List.mem_cons_self c hc) fun _ c' hc' => ?_
      exact ih (fun y hy => h y (List.mem_cons_of_mem x hy)) c' hc'

theorem render {lookup : String → Emit String} {t : Template}
    (h : ∀ name ∈ t.markerNames, Maintains (lookup name) I) :
    Maintains (t.render lookup) I := by
  induction t with
  | nil => exact fun c hc => .pure hc
  | cons segment rest ih =>
      intro c hc
      cases segment with
      | text cs =>
          rw [Template.render]
          exact .bind (ih h c hc) fun _ _ hc' => .pure hc'
      | marker name =>
          rw [Template.render]
          refine .bind (h _ List.mem_cons_self c hc) fun _ c' hc' => ?_
          refine .bind (ih (fun n hn => h n (List.mem_cons_of_mem _ hn)) c' hc') fun _ _ hc'' => ?_
          exact .pure hc''

end Maintains

namespace Yields

variable {I : Chain → Prop} {m : Emit α} {P : α → Prop}

theorem pure {a : α} (h : P a) : Yields I (pure a) P := fun _ hc => .pure ⟨h, hc⟩

theorem bind {f : α → Emit β} {Q : β → Prop} (hm : Yields I m P)
    (hf : ∀ a, P a → Yields I (f a) Q) : Yields I (m >>= f) Q :=
  fun c hc => .bind (hm c hc) fun a c' h => hf a h.1 c' h.2

theorem imp {Q : α → Prop} (h : Yields I m P) (hPQ : ∀ a, P a → Q a) : Yields I m Q :=
  fun c hc => (h c hc).imp fun a _ h => ⟨hPQ a h.1, h.2⟩

end Yields

end KernelWeaver.Code.Emit
