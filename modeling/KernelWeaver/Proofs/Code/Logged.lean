import KernelWeaver.Proofs.Code.Run
import KernelWeaver.Proofs.Code.Uses

/-!
# Emitting code with a log

The functions that put the code of names together, with a log of what they do to which scope.
Without its log a logged run is a run.
-/

namespace KernelWeaver.Code

/-- Uses of scopes in the order in which they are made. Each is noted with the level of its scope,
the number of scopes around it. -/
abbrev Log := List (Nat × Use)

/-- The uses of the scope at a level. -/
def Log.usesAt (log : Log) (level : Nat) : List Use :=
  log.filterMap fun entry => if entry.1 = level then some entry.2 else none

/-- A computation that emits code and keeps a log. -/
abbrev Logged := StateT Log Emit

theorem Emit.map_afterwards {α β : Type} (f : α → β) (m : Emit α) (g : Chain → Chain) :
    f <$> Emit.afterwards m g = Emit.afterwards (f <$> m) g := by
  funext c
  change (f <$> Emit.afterwards m g).runOn c = (Emit.afterwards (f <$> m) g).runOn c
  rw [Emit.runOn_map]
  change _ = (((f <$> m).runOn c).1, g ((f <$> m).runOn c).2)
  rw [Emit.runOn_map]
  rfl

namespace Logged

variable {α β : Type}

/-- The chain of scopes. -/
def chain : Logged Chain := liftM (get : Emit Chain)

/-- Notes a use of the innermost scope. -/
def note (use : Use) : Logged Unit := do
  let c ← chain
  modify (· ++ [(c.scopes.length - 1, use)])

/-- Runs with the innermost scopes set aside. -/
def without (inner : List Scope) (m : Logged α) : Logged α := fun log => Emit.without inner (m log)

/-- Emits an initialiser of the innermost scope, unless that has been done or begun. -/
def require (lookup : String → Logged String) (i : Nat) : Logged Unit := do
  note (.needed i)
  match ((← chain).scopes.head?.bind (·.initialisers[i]?)) with
  | none => liftM (Emit.fail (.undefinedInitialiser i) : Emit Unit)
  | some ⟨template, .unused⟩ =>
    liftM (Emit.changeScope fun s => .ok (s.setState i .pending))
    let text ← template.render lookup
    note (.emitted i text)
    liftM (Emit.changeScope fun s =>
      .ok { s.setState i .emitted with emitted := s.emitted ++ [text] })
  | some _ => return

/-- The code of a binding of the innermost scope. -/
def expand (lookup : String → Logged String) (name : String) (binding : Binding) :
    Logged String := do
  note (.resolved name binding)
  match binding.field with
  | some field => liftM (Emit.registerField field)
  | none => pure ()
  binding.initialisers.forM (require lookup)
  binding.template.render fun marker =>
    if marker = name then do
      let inner := (← chain).scopes.take 1
      without inner (lookup marker)
    else lookup marker

/-- The code of a name, as long as fewer than `fuel` names are being resolved at one time. -/
def resolveWithin : (fuel : Nat) → (name : String) → (wanted : Option CType) → Logged String
  | 0, _, _ => liftM (throw (.fault .endless) : Emit String)
  | fuel + 1, name, wanted => do
    let (inner, outer) := (← chain).splitAt name
    match outer.head?.bind (·.select? name wanted) with
    | none => liftM (Emit.fail (.undefinedName name) : Emit String)
    | some binding => without inner (expand (resolveWithin fuel · none) name binding)

/-- The code of a name. -/
def resolve (name : String) (wanted : Option CType) : Logged String := do
  resolveWithin (← chain).resolutionBound name wanted

/-- The text of a template with every marker replaced by the code of its name. -/
def expandText (template : String) : Logged String :=
  (Template.ofString template).render (resolve · none)

/-! ### Runs without their log -/

/-- The logged computation is the other one, whatever its log. -/
def Erases (m : Logged α) (n : Emit α) : Prop := ∀ log, Prod.fst <$> m.run log = n

namespace Erases

/-- A run that ends with a result also does so with a log. -/
theorem exists_run {m : Logged α} {n : Emit α} {c c' : Chain} {a : α} (h : Erases m n)
    (hrun : n.runOn c = (.ok a, c')) (log : Log) :
    ∃ log', (m.run log).runOn c = (.ok (a, log'), c') := by
  rw [← h log, Emit.runOn_map_eq_ok] at hrun
  obtain ⟨⟨b, log'⟩, hm, rfl⟩ := hrun
  exact ⟨log', hm⟩

theorem pure (a : α) : Erases (pure a) (pure a) := by
  intro log
  simp

theorem lift (n : Emit α) : Erases (liftM n) n := by
  intro log
  simp

theorem bind {m : Logged α} {n : Emit α} {f : α → Logged β} {g : α → Emit β} (h : Erases m n)
    (hfg : ∀ a, Erases (f a) (g a)) : Erases (m >>= f) (n >>= g) := by
  intro log
  rw [StateT.run_bind, map_bind, ← h log, bind_map_left]
  exact congrArg _ (funext fun p => hfg p.1 p.2)

theorem note {use : Use} {f : Unit → Logged β} {g : Emit β} (h : Erases (f ()) g) :
    Erases (note use >>= f) g := by
  intro log
  have hrun : (Logged.note use >>= f).run log = (get : Emit Chain) >>= fun c =>
      (f ()).run (log ++ [(c.scopes.length - 1, use)]) := rfl
  rw [hrun, map_bind]
  simp only [h _]
  rfl

theorem chain : Erases chain get := .lift get

theorem without {m : Logged α} {n : Emit α} (h : Erases m n) (inner : List Scope) :
    Erases (without inner m) (Emit.without inner n) := by
  intro log
  rw [← h log]
  refine (map_bind _ _ _).trans (congrArg _ (funext fun _ => ?_))
  exact Emit.map_afterwards _ _ _

theorem forM {γ : Type} {f : γ → Logged PUnit} {g : γ → Emit PUnit} (h : ∀ x, Erases (f x) (g x))
    (xs : List γ) : Erases (xs.forM f) (xs.forM g) := by
  induction xs with
  | nil => exact .pure _
  | cons x xs ih => exact .bind (h x) fun _ => ih

theorem render {lookup : String → Logged String} {find : String → Emit String}
    (h : ∀ name, Erases (lookup name) (find name)) (t : Template) :
    Erases (t.render lookup) (t.render find) := by
  induction t with
  | nil => exact .pure _
  | cons segment rest ih =>
      cases segment with
      | text cs => exact .bind ih fun _ => .pure _
      | marker name => exact .bind (h _) fun _ => .bind ih fun _ => .pure _

variable {lookup : String → Logged String} {find : String → Emit String}

theorem require (h : ∀ name, Erases (lookup name) (find name)) (i : Nat) :
    Erases (require lookup i) (Emit.require find i) := by
  refine .note (.bind .chain fun c => ?_)
  cases c.scopes.head?.bind (·.initialisers[i]?) with
  | none => exact .lift _
  | some x =>
      obtain ⟨template, state⟩ := x
      cases state with
      | unused =>
          refine .bind (.lift _) fun _ => .bind (.render h template) fun text => ?_
          exact .note (f := fun _ => liftM _) (.lift _)
      | pending => exact .pure _
      | emitted => exact .pure _

theorem expand (h : ∀ name, Erases (lookup name) (find name)) (name : String) (b : Binding) :
    Erases (expand lookup name b) (Emit.expand find name b) := by
  have hmarker (marker : String) : Erases
      (if marker = name then do
        let inner := (← Logged.chain).scopes.take 1
        Logged.without inner (lookup marker)
      else lookup marker)
      (if marker = name then do
        let inner := (← get).scopes.take 1
        Emit.without inner (find marker)
      else find marker) := by
    split
    next => exact .bind .chain fun c => .without (h marker) _
    next => exact h marker
  rw [Logged.expand, Emit.expand]
  refine .note ?_
  cases b.field with
  | none => exact .bind (.forM (.require h) _) fun _ => .render hmarker _
  | some field =>
      exact .bind (.lift _) fun _ => .bind (.forM (.require h) _) fun _ => .render hmarker _

theorem resolveWithin (fuel : Nat) (name : String) (wanted : Option CType) :
    Erases (resolveWithin fuel name wanted) (Emit.resolveWithin fuel name wanted) := by
  induction fuel generalizing name wanted with
  | zero => exact .lift _
  | succ fuel ih =>
      refine .bind .chain fun c => ?_
      dsimp only
      cases (c.splitAt name).2.head?.bind (·.select? name wanted) with
      | none => exact .lift _
      | some b => exact .without (.expand (fun other => ih other none) name b) _

theorem resolve (name : String) (wanted : Option CType) :
    Erases (resolve name wanted) (Emit.resolve name wanted) :=
  .bind .chain fun _ => .resolveWithin _ name wanted

theorem expandText (template : String) :
    Erases (expandText template) (Emit.expandText template) :=
  .render (fun name => .resolve name none) _

end Erases

end Logged

end KernelWeaver.Code
