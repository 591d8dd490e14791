import KernelWeaver.Code.Emit

/-!
# Runs of emitting computations

A run that ends with a result passes through a result of each of its parts.
-/

namespace KernelWeaver.Code

section Run

variable {α β σ ε : Type} {x : ExceptT ε (StateM σ) α} {s s' : σ}

theorem run_bind_of_ok {a : α} (h : x.run.run s = (.ok a, s')) (f : α → ExceptT ε (StateM σ) β) :
    (x >>= f).run.run s = (f a).run.run s' := by
  rw [ExceptT.run_bind, StateT.run_bind, h]
  rfl

theorem run_bind_of_error {e : ε} (h : x.run.run s = (.error e, s'))
    (f : α → ExceptT ε (StateM σ) β) : (x >>= f).run.run s = (.error e, s') := by
  rw [ExceptT.run_bind, StateT.run_bind, h]
  rfl

end Run

namespace Emit

variable {α β : Type}

theorem runOn_bind_of_ok {m : Emit α} {c c' : Chain} {a : α} (h : m.runOn c = (.ok a, c'))
    (f : α → Emit β) : (m >>= f).runOn c = (f a).runOn c' := run_bind_of_ok h f

theorem runOn_bind_of_error {m : Emit α} {c c' : Chain} {e : Failure}
    (h : m.runOn c = (.error e, c')) (f : α → Emit β) :
    (m >>= f).runOn c = (.error e, c') := run_bind_of_error h f

/-- What comes first may be replaced by what does the same on the chain. -/
theorem runOn_bind_congr {m m' : Emit α} {c : Chain} (h : m.runOn c = m'.runOn c)
    (f : α → Emit β) : (m >>= f).runOn c = (m' >>= f).runOn c := by
  cases hrun : m'.runOn c with
  | mk r c' =>
      cases r with
      | ok a => rw [runOn_bind_of_ok hrun, runOn_bind_of_ok (h.trans hrun)]
      | error e => rw [runOn_bind_of_error hrun, runOn_bind_of_error (h.trans hrun)]

theorem runOn_bind_eq_ok {m : Emit α} {f : α → Emit β} {c c'' : Chain} {b : β} :
    (m >>= f).runOn c = (.ok b, c'') ↔
      ∃ a c', m.runOn c = (.ok a, c') ∧ (f a).runOn c' = (.ok b, c'') := by
  constructor
  · intro h
    cases hrun : m.runOn c with
    | mk r c' =>
        cases r with
        | ok a => exact ⟨a, c', rfl, (runOn_bind_of_ok hrun f).symm.trans h⟩
        | error e =>
            rw [runOn_bind_of_error hrun] at h
            cases congrArg Prod.fst h
  · rintro ⟨a, c', hrun, h⟩
    rw [runOn_bind_of_ok hrun, h]

theorem runOn_map (f : α → β) (m : Emit α) (c : Chain) :
    (f <$> m).runOn c = ((m.runOn c).1.map f, (m.runOn c).2) := by
  rw [map_eq_pure_bind]
  cases hrun : m.runOn c with
  | mk r c' =>
      cases r with
      | ok a => exact runOn_bind_of_ok hrun _
      | error e => exact runOn_bind_of_error hrun _

theorem runOn_map_eq_ok {f : α → β} {m : Emit α} {c c' : Chain} {b : β} :
    (f <$> m).runOn c = (.ok b, c') ↔ ∃ a, m.runOn c = (.ok a, c') ∧ f a = b := by
  rw [runOn_map]
  constructor
  · intro h
    cases hrun : m.runOn c with
    | mk r c₁ =>
        rw [hrun] at h
        cases r with
        | error e => cases congrArg Prod.fst h
        | ok a =>
            cases h
            exact ⟨a, rfl, rfl⟩
  · rintro ⟨a, hrun, rfl⟩
    rw [hrun]
    rfl

theorem runOn_pure_eq_ok {a b : α} {c c' : Chain} :
    (pure a : Emit α).runOn c = (.ok b, c') ↔ a = b ∧ c = c' := by
  change (Except.ok a, c) = (Except.ok b, c') ↔ _
  simp

theorem runOn_afterwards_eq_ok {m : Emit α} {f : Chain → Chain} {c c' : Chain} {a : α} :
    (afterwards m f).runOn c = (.ok a, c') ↔ ∃ c₁, m.runOn c = (.ok a, c₁) ∧ c' = f c₁ := by
  change ((m.runOn c).1, f (m.runOn c).2) = _ ↔ _
  constructor
  · intro h
    obtain ⟨hresult, hchain⟩ := Prod.mk.inj h
    exact ⟨_, Prod.ext hresult rfl, hchain.symm⟩
  · rintro ⟨c₁, hm, rfl⟩
    rw [hm]

/-- With the innermost scopes set aside, a computation runs on the others. -/
theorem runOn_without (m : Emit α) (inner outer : List Scope) (sink : CodeStream) :
    (without inner m).runOn ⟨inner ++ outer, sink⟩ =
      ((m.runOn ⟨outer, sink⟩).1,
        { (m.runOn ⟨outer, sink⟩).2 with scopes := inner ++ (m.runOn ⟨outer, sink⟩).2.scopes }) := by
  have hset : (modify fun c : Chain => { c with scopes := c.scopes.drop inner.length } :
      Emit PUnit).runOn ⟨inner ++ outer, sink⟩ = (.ok ⟨⟩, ⟨outer, sink⟩) := by
    change (Except.ok PUnit.unit, Chain.mk (List.drop inner.length (inner ++ outer)) sink) = _
    rw [List.drop_left]
  exact runOn_bind_of_ok hset _

theorem runOn_without_eq_ok {m : Emit α} {inner outer : List Scope} {sink : CodeStream}
    {c' : Chain} {a : α} :
    (without inner m).runOn ⟨inner ++ outer, sink⟩ = (.ok a, c') ↔
      ∃ c₁, m.runOn ⟨outer, sink⟩ = (.ok a, c₁) ∧
        c' = { c₁ with scopes := inner ++ c₁.scopes } := by
  rw [runOn_without]
  constructor
  · intro h
    obtain ⟨hresult, hchain⟩ := Prod.mk.inj h
    exact ⟨_, Prod.ext hresult rfl, hchain.symm⟩
  · rintro ⟨c₁, hm, rfl⟩
    rw [hm]

theorem runOn_changeScope (f : Scope → Except Error Scope) (s : Scope) (outer : List Scope)
    (sink : CodeStream) :
    (changeScope f).runOn ⟨s :: outer, sink⟩ =
      match f s with
      | .ok t => (.ok (), ⟨t :: outer, sink⟩)
      | .error e => (.error (.error e), ⟨s :: outer, sink⟩) := by
  have hget : (get : Emit Chain).runOn ⟨s :: outer, sink⟩ =
      (.ok ⟨s :: outer, sink⟩, ⟨s :: outer, sink⟩) := rfl
  refine (runOn_bind_of_ok hget _).trans ?_
  dsimp only
  cases f s <;> rfl

theorem runOn_changeScope_eq_ok {f : Scope → Except Error Scope} {s : Scope} {outer : List Scope}
    {sink : CodeStream} {c' : Chain} {u : Unit} :
    (changeScope f).runOn ⟨s :: outer, sink⟩ = (.ok u, c') ↔
      ∃ t, f s = .ok t ∧ c' = ⟨t :: outer, sink⟩ := by
  rw [runOn_changeScope]
  cases f s with
  | error e => simp
  | ok t => simp [eq_comm]

theorem runOn_registerField_eq_ok {field : StructField} {c c' : Chain} {u : Unit} :
    (registerField field).runOn c = (.ok u, c') ↔
      ∃ inner s outer fields, c.scopes.span (·.fields.isNone) = (inner, s :: outer) ∧
        (s.fields.getD []).register field = .ok fields ∧
        c' = { c with scopes := inner ++ { s with fields := some fields } :: outer } := by
  have hget : (get : Emit Chain).runOn c = (.ok c, c) := rfl
  rw [registerField, runOn_bind_of_ok hget]
  split
  next inner s outer hspan =>
    constructor
    · intro h
      split at h
      next fields hregister =>
        cases h
        exact ⟨inner, s, outer, fields, hspan, hregister, rfl⟩
      next => cases congrArg Prod.fst h
    · rintro ⟨_, _, _, fields, hspan', hregister, rfl⟩
      cases hspan.symm.trans hspan'
      rw [hregister]
      rfl
  next hspan =>
    constructor
    · intro h
      cases congrArg Prod.fst h
    · rintro ⟨_, _, _, _, hspan', -⟩
      cases hspan.symm.trans hspan'

/-- A name is resolved by a binding of the innermost scope that has the name, with the scopes inside
set aside. -/
theorem runOn_resolveWithin_eq_ok {fuel : Nat} {name code : String} {wanted : Option CType}
    {c c' : Chain} :
    (resolveWithin (fuel + 1) name wanted).runOn c = (.ok code, c') ↔
      ∃ inner s outer b, c.splitAt name = (inner, s :: outer) ∧ s.select? name wanted = some b ∧
        (without inner (expand (resolveWithin fuel · none) name b)).runOn c = (.ok code, c') := by
  have hget : (get : Emit Chain).runOn c = (.ok c, c) := rfl
  rw [resolveWithin, runOn_bind_of_ok hget]
  cases hsplit : c.splitAt name with
  | mk inner scopes =>
      dsimp only
      cases scopes with
      | nil =>
          refine iff_of_false (fun h => nomatch congrArg Prod.fst h) ?_
          rintro ⟨_, _, _, _, hcons, -⟩
          cases hcons
      | cons s outer =>
          rw [List.head?_cons, Option.bind_some]
          cases hselect : s.select? name wanted with
          | none =>
              refine iff_of_false (fun h => nomatch congrArg Prod.fst h) ?_
              rintro ⟨_, _, _, b, hcons, hsome, -⟩
              cases hcons
              cases hselect.symm.trans hsome
          | some b =>
              constructor
              · exact fun h => ⟨inner, s, outer, b, rfl, hselect, h⟩
              · rintro ⟨_, _, _, b', hcons, hsome, h⟩
                cases hcons
                cases hselect.symm.trans hsome
                exact h

theorem runInto_eq_ok {m : Emit α} {s s' : CodeStream} {a : α} :
    m.runInto s = .ok (a, s') ↔ ∃ c', m.runOn (.before s) = (.ok a, c') ∧ c'.pop.sink = s' := by
  cases hrun : m.runOn (.before s) with
  | mk r c' =>
      rw [runInto, hrun]
      cases r with
      | error e => simp [Except.map]
      | ok b => simp [Except.map, and_assoc]

theorem runOn_mapM_cons_eq_ok {f : α → Emit β} {x : α} {xs : List α} {c c'' : Chain}
    {ys : List β} :
    ((x :: xs).mapM f).runOn c = (.ok ys, c'') ↔
      ∃ y zs c', ys = y :: zs ∧ (f x).runOn c = (.ok y, c') ∧
        (xs.mapM f).runOn c' = (.ok zs, c'') := by
  rw [List.mapM_cons, runOn_bind_eq_ok]
  constructor
  · rintro ⟨y, c', hy, hrest⟩
    obtain ⟨zs, c₂, hzs, hpure⟩ := runOn_bind_eq_ok.mp hrest
    obtain ⟨rfl, rfl⟩ := runOn_pure_eq_ok.mp hpure
    exact ⟨y, zs, c', rfl, hy, hzs⟩
  · rintro ⟨y, zs, c', rfl, hy, hzs⟩
    exact ⟨y, c', hy, runOn_bind_eq_ok.mpr ⟨zs, c'', hzs, rfl⟩⟩

theorem runOn_ofChecked_eq_ok {x : Checked α} {c c' : Chain} {a : α} :
    (ofChecked x).runOn c = (.ok a, c') ↔ x = .ok a ∧ c = c' := by
  cases x with
  | error f =>
      constructor
      · intro h
        cases congrArg Prod.fst h
      · rintro ⟨h, _⟩
        cases h
  | ok b =>
      change (Except.ok b, c) = (Except.ok a, c') ↔ _
      simp

theorem runOn_ofError_eq_ok {x : Except Error α} {c c' : Chain} {a : α} :
    (ofError x).runOn c = (.ok a, c') ↔ x = .ok a ∧ c = c' := by
  cases x with
  | error e =>
      constructor
      · intro h
        cases congrArg Prod.fst h
      · rintro ⟨h, _⟩
        cases h
  | ok b =>
      change (Except.ok b, c) = (Except.ok a, c') ↔ _
      simp

/-- Checks one after the other are all passed, and nothing is emitted. -/
theorem runOn_forM_ofError_eq_ok {f : α → Except Error Unit} {xs : List α} {c c' : Chain} :
    (xs.forM fun x => ofError (f x)).runOn c = (.ok (), c') ↔
      (∀ x ∈ xs, f x = .ok ()) ∧ c = c' := by
  induction xs with
  | nil =>
      refine runOn_pure_eq_ok.trans ?_
      simp
  | cons x xs ih =>
      refine runOn_bind_eq_ok.trans ?_
      simp only [runOn_ofError_eq_ok, List.forall_mem_cons]
      constructor
      · rintro ⟨_, _, ⟨hx, rfl⟩, hrest⟩
        obtain ⟨hrest, hchain⟩ := ih.mp hrest
        exact ⟨⟨hx, hrest⟩, hchain⟩
      · rintro ⟨⟨hx, hrest⟩, hchain⟩
        exact ⟨(), c, ⟨hx, rfl⟩, ih.mpr ⟨hrest, hchain⟩⟩

end Emit

end KernelWeaver.Code
