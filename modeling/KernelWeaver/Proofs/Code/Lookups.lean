import KernelWeaver.Proofs.Code.Recording
import Mathlib.Data.List.TakeDrop

/-!
# The log of a lookup

Whatever looking a name up does to the scopes is in its log. The proof goes along the definition of
lookups, with one rule for each way to put computations together.
-/

namespace KernelWeaver.Code

variable {α β : Type} {c c' c'' : Chain} {todo left rest : List Nat} {log : Log} {a : α}

/-- A field is registered with one of the scopes, in which nothing else changes. -/
theorem Emit.follows_registerField {field : StructField} {u : Unit}
    (h : (Emit.registerField field).runOn c = (.ok u, c')) (todo : List Nat) :
    c.Follows todo [] [] c' todo := by
  obtain ⟨inner, s, outer, fields, hspan, -, rfl⟩ := Emit.runOn_registerField_eq_ok.mp h
  have hscopes : c.scopes = inner ++ s :: outer := by
    rw [List.span_eq_takeWhile_dropWhile, Prod.mk.injEq] at hspan
    rw [← hspan.1, ← hspan.2, List.takeWhile_append_dropWhile]
  refine ⟨?_, rfl, by simp⟩
  rw [hscopes]
  have hs (todo : List Nat) : s.Follows todo [] [] { s with fields := some fields } todo :=
    .quiet (.refl _) rfl (Scope.started_congr rfl)
  exact .update hs inner

namespace Logged

theorem run_bind_eq_ok {m : Logged α} {f : α → Logged β} {log'' : Log} {b : β} :
    ((m >>= f).run log).runOn c = (.ok (b, log''), c'') ↔
      ∃ a log' c', (m.run log).runOn c = (.ok (a, log'), c') ∧
        ((f a).run log').runOn c' = (.ok (b, log''), c'') := by
  rw [StateT.run_bind, Emit.runOn_bind_eq_ok]
  constructor
  · rintro ⟨⟨a, log'⟩, c', hm, hf⟩
    exact ⟨a, log', c', hm, hf⟩
  · rintro ⟨a, log', c', hm, hf⟩
    exact ⟨(a, log'), c', hm, hf⟩

theorem run_lift_eq_ok {n : Emit α} {log' : Log} :
    ((liftM n : Logged α).run log).runOn c = (.ok (a, log'), c') ↔
      n.runOn c = (.ok a, c') ∧ log' = log := by
  change ((n >>= fun a => pure (a, log) : Emit (α × Log))).runOn c = _ ↔ _
  rw [Emit.runOn_bind_eq_ok]
  constructor
  · rintro ⟨b, c₁, hn, hpure⟩
    cases hpure
    exact ⟨hn, rfl⟩
  · rintro ⟨hn, rfl⟩
    exact ⟨a, c', hn, rfl⟩

theorem run_without_eq_ok {m : Logged α} {inner outer : List Scope} {sink : CodeStream}
    {log' : Log} :
    ((without inner m).run log).runOn ⟨inner ++ outer, sink⟩ = (.ok (a, log'), c') ↔
      ∃ c₁, (m.run log).runOn ⟨outer, sink⟩ = (.ok (a, log'), c₁) ∧
        c' = { c₁ with scopes := inner ++ c₁.scopes } :=
  Emit.runOn_without_eq_ok

/-- What a run from the chain adds to the log accounts for what it does to the scopes. -/
def RecordsAt (c : Chain) (todo : List Nat) (m : Logged α) (left : List Nat) : Prop :=
  ∀ log a log' c', (m.run log).runOn c = (.ok (a, log'), c') →
    ∃ new, log' = log ++ new ∧ c.Follows todo [] new c' left

namespace RecordsAt

theorem pure (a : α) : RecordsAt c todo (pure a) todo := by
  intro log a' log' c' h
  cases h
  exact ⟨[], (List.append_nil _).symm, .refl c todo⟩

theorem bind {m : Logged α} {f : α → Logged β} (h : RecordsAt c todo m left)
    (hf : ∀ a c', c'.scopes.length = c.scopes.length → RecordsAt c' left (f a) rest) :
    RecordsAt c todo (m >>= f) rest := by
  intro log b log'' c'' hrun
  obtain ⟨a, log', c', hm, hfa⟩ := run_bind_eq_ok.mp hrun
  obtain ⟨new, rfl, hnew⟩ := h log a log' c' hm
  obtain ⟨more, rfl, hmore⟩ := hf a c' hnew.scopes.length_eq _ _ _ _ hfa
  exact ⟨new ++ more, List.append_assoc .., hnew.trans hmore⟩

theorem chain {f : Chain → Logged β} (h : RecordsAt c todo (f c) left) :
    RecordsAt c todo (chain >>= f) left := by
  intro log b log' c' hrun
  obtain ⟨a, log₁, c₁, hget, hfa⟩ := run_bind_eq_ok.mp hrun
  cases hget
  exact h _ _ _ _ hfa

theorem lift {n : Emit α} (h : ∀ a c', n.runOn c = (.ok a, c') → c.Follows todo [] [] c' left) :
    RecordsAt c todo (liftM n) left := by
  intro log a log' c' hrun
  obtain ⟨hn, rfl⟩ := run_lift_eq_ok.mp hrun
  exact ⟨[], (List.append_nil _).symm, h a c' hn⟩

theorem without {m : Logged α} {inner outer : List Scope} (hc : c.scopes = inner ++ outer)
    (h : RecordsAt { c with scopes := outer } [] m []) : RecordsAt c [] (without inner m) [] := by
  obtain ⟨scopes, sink⟩ := c
  subst hc
  intro log a log' c' hrun
  obtain ⟨c₁, hm, rfl⟩ := run_without_eq_ok.mp hrun
  obtain ⟨new, hlog, hnew⟩ := h log a log' c₁ hm
  refine ⟨new, hlog, hnew.scopes.inside hnew.levels inner, hnew.sink, fun entry hentry => ?_⟩
  exact Nat.lt_of_lt_of_le (hnew.levels entry hentry) (by simp)

theorem forM {f : Nat → Logged PUnit} {is : List Nat}
    (h : ∀ i rest c', c'.scopes.length = c.scopes.length → RecordsAt c' (i :: rest) (f i) rest) :
    RecordsAt c is (is.forM f) [] := by
  induction is generalizing c with
  | nil => exact .pure _
  | cons i is ih =>
      refine .bind (h i is c rfl) fun _ c' hc' => ih fun j rest c'' hc'' => ?_
      exact h j rest c'' (hc''.trans hc')

theorem render {lookup : String → Logged String} {t : Template}
    (h : ∀ name c', c'.scopes.length = c.scopes.length → RecordsAt c' [] (lookup name) []) :
    RecordsAt c [] (t.render lookup) [] := by
  induction t generalizing c with
  | nil => exact .pure _
  | cons segment t ih =>
      cases segment with
      | text cs => exact .bind (ih h) fun _ _ _ => .pure _
      | marker name =>
          refine .bind (h _ c rfl) fun _ c' hc' => .bind (ih fun name c'' hc'' => ?_) fun _ _ _ =>
            .pure _
          exact h name c'' (hc''.trans hc')

end RecordsAt

/-- A use is noted at the level of the innermost scope. -/
theorem run_note {s : Scope} {outer : List Scope} {sink : CodeStream} {use : Use} {u : Unit}
    {log' : Log} (h : ((note use).run log).runOn ⟨s :: outer, sink⟩ = (.ok (u, log'), c')) :
    log' = log ++ [(outer.length, use)] ∧ c' = ⟨s :: outer, sink⟩ := by
  cases h
  exact ⟨rfl, rfl⟩

theorem RecordsAt.note {s : Scope} {outer : List Scope} {sink : CodeStream} {use : Use}
    (h : s.Follows todo [] [use] s left) :
    RecordsAt ⟨s :: outer, sink⟩ todo (note use) left := by
  intro log u log' c' hrun
  obtain ⟨rfl, rfl⟩ := run_note hrun
  exact ⟨_, rfl, .head h⟩

/-! ### Lookups -/

variable {lookup : String → Logged String}

/-- An initialiser that is fetched is begun now, or has been begun before. -/
theorem recordsAt_require (hlookup : ∀ name c, RecordsAt c [] (lookup name) []) {i : Nat}
    (hc : c.scopes ≠ []) : RecordsAt c (i :: rest) (require lookup i) rest := by
  obtain ⟨scopes, sink⟩ := c
  obtain ⟨s, outer, rfl⟩ := List.exists_cons_of_ne_nil hc
  intro log u log' c' hrun
  obtain ⟨_, log₁, c₁, hnote, hrun⟩ := run_bind_eq_ok.mp hrun
  obtain ⟨rfl, rfl⟩ := run_note hnote
  obtain ⟨_, log₁, c₁, hget, hrun⟩ := run_bind_eq_ok.mp hrun
  cases hget
  have hhead : (s :: outer).head?.bind (·.initialisers[i]?) = s.initialisers[i]? := rfl
  dsimp only at hrun
  rw [hhead] at hrun
  cases hx : s.initialisers[i]? with
  | none =>
      rw [hx] at hrun
      cases congrArg Prod.fst hrun
  | some x =>
      obtain ⟨template, state⟩ := x
      rw [hx] at hrun
      have hold (hstate : state ≠ .unused) :
          Chain.Follows ⟨s :: outer, sink⟩ (i :: rest) [] [(outer.length, .needed i)]
            ⟨s :: outer, sink⟩ rest := .head (.again ((Scope.mem_started_iff hx).mpr hstate))
      cases state with
      | pending =>
          cases hrun
          exact ⟨_, rfl, hold (by decide)⟩
      | emitted =>
          cases hrun
          exact ⟨_, rfl, hold (by decide)⟩
      | unused =>
          -- the initialiser is begun,
          obtain ⟨_, log₁, c₁, hstep, hrun⟩ := run_bind_eq_ok.mp hrun
          obtain ⟨hbegin, rfl⟩ := run_lift_eq_ok.mp hstep
          obtain ⟨s₁, hs₁, rfl⟩ := Emit.runOn_changeScope_eq_ok.mp hbegin
          cases hs₁
          -- its code is put together,
          obtain ⟨text, log₂, c₂, hrender, hrun⟩ := run_bind_eq_ok.mp hrun
          obtain ⟨new, rfl, hnew⟩ :=
            RecordsAt.render (fun name c' _ => hlookup name c') _ _ _ _ hrender
          obtain ⟨t, outer', hc₂⟩ := List.exists_cons_of_ne_nil (hnew.ne_nil (by simp))
          obtain ⟨scopes, sink'⟩ := c₂
          cases hc₂
          -- and that code is emitted
          obtain ⟨_, log₃, c₃, hnote, hrun⟩ := run_bind_eq_ok.mp hrun
          obtain ⟨rfl, rfl⟩ := run_note hnote
          obtain ⟨hemit, rfl⟩ := run_lift_eq_ok.mp hrun
          obtain ⟨t₁, ht₁, rfl⟩ := Emit.runOn_changeScope_eq_ok.mp hemit
          cases ht₁
          rw [hnew.length_outer]
          exact ⟨_, by simp, hnew.first hx⟩

/-- The code of a binding: its initialisers are fetched, then its template is looked up. -/
theorem recordsAt_expand (hlookup : ∀ name c, RecordsAt c [] (lookup name) []) (name : String)
    (b : Binding) (hc : c.scopes ≠ []) : RecordsAt c [] (expand lookup name b) [] := by
  have hmarker (c' : Chain) (marker : String) : RecordsAt c' []
      (if marker = name then do
        let inner := (← chain).scopes.take 1
        without inner (lookup marker)
      else lookup marker) [] := by
    split
    next => exact .chain (.without (List.take_append_drop 1 c'.scopes).symm (hlookup marker _))
    next => exact hlookup marker c'
  obtain ⟨scopes, sink⟩ := c
  obtain ⟨s, outer, rfl⟩ := List.exists_cons_of_ne_nil hc
  have hfetch {c' : Chain} (hlength : c'.scopes.length = (s :: outer).length) :
      RecordsAt c' b.initialisers (b.initialisers.forM (require lookup)) [] := by
    refine .forM fun i rest c'' hlength' => recordsAt_require hlookup ?_
    rw [← List.length_pos_iff, hlength', hlength]
    exact Nat.succ_pos _
  have hrest {c' : Chain} (hlength : c'.scopes.length = (s :: outer).length) :=
    RecordsAt.bind (hfetch hlength) fun _ c₂ _ => .render (t := b.template) fun marker c₃ _ =>
      hmarker c₃ marker
  rw [expand]
  refine .bind (.note (.resolved s name b)) fun _ c₁ hc₁ => ?_
  -- a field, if there is one, is registered before the initialisers are fetched
  cases b.field with
  | none => exact hrest hc₁
  | some field =>
      refine .bind (.lift fun _ c₂ hfield => ?_) fun _ c₂ hc₂ => hrest (hc₂.trans hc₁)
      exact Emit.follows_registerField hfield _

theorem recordsAt_resolveWithin (fuel : Nat) (name : String) (wanted : Option CType) (c : Chain) :
    RecordsAt c [] (resolveWithin fuel name wanted) [] := by
  induction fuel generalizing name wanted c with
  | zero =>
      intro log a log' c' hrun
      cases congrArg Prod.fst hrun
  | succ fuel ih =>
      refine .chain ?_
      dsimp only
      cases hselect : (c.splitAt name).2.head?.bind (·.select? name wanted) with
      | none =>
          intro log a log' c' hrun
          cases congrArg Prod.fst hrun
      | some b =>
          have hsplit : c.scopes = (c.splitAt name).1 ++ (c.splitAt name).2 := by
            rw [Chain.splitAt, List.span_eq_takeWhile_dropWhile, List.takeWhile_append_dropWhile]
          refine .without hsplit (recordsAt_expand (fun other c' => ih other none c') name b ?_)
          intro hnil
          rw [show (c.splitAt name).2 = [] from hnil] at hselect
          cases hselect

/-- The log of a lookup accounts for what it does to the scopes. -/
theorem recordsAt_resolve (name : String) (wanted : Option CType) (c : Chain) :
    RecordsAt c [] (resolve name wanted) [] :=
  .chain (recordsAt_resolveWithin _ name wanted c)

theorem recordsAt_expandText (template : String) (c : Chain) :
    RecordsAt c [] (expandText template) [] :=
  .render fun name c' _ => recordsAt_resolve name none c'

end Logged

end KernelWeaver.Code
