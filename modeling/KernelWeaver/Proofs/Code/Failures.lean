import KernelWeaver.Proofs.Code.Flush
import KernelWeaver.Proofs.Code.Orderly

/-!
# What failed lookups leave behind

What the bindings on the way of a successful lookup list has been emitted behind it, but for
initialisers that were unfinished before. Along any operations these are the ones whose code a
failed lookup could not put together. They stay unfinished: a later lookup takes them for begun and
does without their code.
-/

namespace KernelWeaver.Code

variable {c c' d : Chain} {s t : Scope} {i level : Nat} {outer outer' : List Scope}

/-- Whatever is done with a scope finishes the initialisers that it begins, unless it fails. -/
theorem Act.orderly_run (a : Act) : Emit.Orderly a.run := by
  cases a with
  | bind name binding =>
      have hbind (s t : Scope) (h : s.bind name binding = .ok t) : s.Finishes t := by
        rw [Scope.bind] at h
        split at h
        next => cases h
        next =>
          cases h
          exact .of_eq rfl rfl
      exact fun c => .of_finishes (Emit.finishes_changeScope hbind c)
  | overload name type template =>
      rw [run, Emit.overload]
      apply Emit.orderly_changeScope
      intro s t h
      cases h
      exact .of_eq rfl rfl
  | initialiser template =>
      have hadd : Emit.Orderly (Emit.changeScope fun s => .ok { s with
          initialisers := s.initialisers ++ [⟨Template.ofString template, .unused⟩] }) := by
        apply Emit.orderly_changeScope
        intro s t h
        cases h
        exact .of_inState_eq (fun state hstate => Scope.inState_append hstate rfl) rfl
      exact .bind (.get fun c => (hadd.bind fun _ => .pure _) c) fun _ => .pure ()
  | lookUp name wanted => exact (Emit.orderly_resolve name wanted).bind fun _ => .pure ()
  | expand template => exact (Emit.orderly_expandText template).bind fun _ => .pure ()
  | expandLine template =>
      exact (Emit.orderly_expandText template).bind fun _ => Emit.orderly_write _
  | line text => exact Emit.orderly_write _
  | blank => exact Emit.orderly_write _
  | append block => exact Emit.orderly_write _

/-! ### Operations on nested scopes -/

/-- What can be done with nested scopes: something with the innermost, or one more is opened inside
all others, or the innermost is flushed. -/
inductive Op where
  | act (a : Act)
  | enter (fields : Option StructFields)
  | leave

/-- Does the operation. -/
def Op.run : Op → Emit Unit
  | act a => a.run
  | enter fields => modify (·.push (.empty fields))
  | leave => modify Chain.pop

/-- The operation ends with an error. -/
def Op.Fails (op : Op) (c : Chain) : Prop := ∃ e, (op.run.runOn c).1 = .error e

/-- The chain behind the operation, whether it fails or not. -/
def Op.next (op : Op) (c : Chain) : Chain := (op.run.runOn c).2

/-- The chain after operations, of which some may have failed. -/
def Chain.after (c : Chain) (ops : List Op) : Chain := ops.foldl (fun c op => op.next c) c

/-- The scope that has the given number of scopes around it. -/
def scopeAt : List Scope → Nat → Option Scope
  | [], _ => none
  | s :: outer, level => if level = outer.length then some s else scopeAt outer level

/-- The initialisers of the scope at a level that are in a state. -/
def Chain.inStateAt (c : Chain) (level : Nat) (state : InitState) : Set Nat :=
  {i | ∃ s, scopeAt c.scopes level = some s ∧ i ∈ s.inState state}

theorem exists_scopeAt {scopes : List Scope} (h : level < scopes.length) :
    ∃ s, scopeAt scopes level = some s := by
  induction scopes with
  | nil => exact absurd h (Nat.not_lt_zero level)
  | cons s outer ih =>
      rw [scopeAt]
      split
      next => exact ⟨s, rfl⟩
      next hne =>
        rw [List.length_cons] at h
        exact ih (by omega)

theorem lt_of_scopeAt {scopes : List Scope} (h : scopeAt scopes level = some s) :
    level < scopes.length := by
  induction scopes with
  | nil => cases h
  | cons s' outer ih =>
      rw [scopeAt] at h
      rw [List.length_cons]
      split at h
      next hlevel => exact Nat.lt_succ_of_le hlevel.le
      next => exact Nat.lt_succ_of_lt (ih h)

theorem exists_scopeAt_of_forall₂ {R : Scope → Scope → Prop} (h : List.Forall₂ R outer outer')
    (hs : scopeAt outer level = some s) : ∃ t, scopeAt outer' level = some t ∧ R s t := by
  induction h with
  | nil => cases hs
  | @cons s' t' _ _ hst hrest ih =>
      rw [scopeAt] at hs ⊢
      rw [← hrest.length_eq]
      split at hs
      next hlevel =>
        cases hs
        exact ⟨t', if_pos hlevel, hst⟩
      next hlevel =>
        rw [if_neg hlevel]
        exact ih hs

/-- The log tells of each scope what has happened to it. -/
theorem FollowsAll.exists_scopeAt {log : Log} {ls : List String}
    (h : FollowsAll log [] ls outer outer' []) (hs : scopeAt outer level = some s) :
    ∃ t ms, scopeAt outer' level = some t ∧ s.Follows [] ms (log.usesAt level) t [] := by
  induction outer generalizing outer' ls with
  | nil => cases hs
  | cons s' outer ih =>
      cases h with
      | @cons _ t' _ outer' _ _ _ hst hrest =>
          rw [scopeAt] at hs ⊢
          rw [hrest.length_eq]
          split at hs
          next hlevel =>
            cases hs
            exact ⟨t', ls, if_pos hlevel, hlevel ▸ hst⟩
          next hlevel =>
            rw [if_neg hlevel]
            exact ih hrest hs

namespace Chain

theorem Retains.pending_subset (h : c.Retains d) (level : Nat) :
    c.inStateAt level .pending ⊆ d.inStateAt level .pending := by
  rintro i ⟨s, hs, hi⟩
  obtain ⟨t, ht, hst⟩ := exists_scopeAt_of_forall₂ h hs
  exact ⟨t, ht, hst.pending hi⟩

theorem Finishes.pending_subset (h : c.Finishes d) (level : Nat) :
    d.inStateAt level .pending ⊆ c.inStateAt level .pending := by
  rintro i ⟨t, ht, hi⟩
  obtain ⟨s, hs, hst⟩ := exists_scopeAt_of_forall₂ h.flip ht
  exact ⟨s, hs, hst.finished hi⟩

end Chain

/-- Behind an act that succeeds, what the bindings on its way list has been emitted, but for what
was unfinished before. -/
theorem Act.emits (a : Act) (hc : c.scopes ≠ []) (h : a.run.runOn c = (.ok (), c')) :
    ∃ ls log, (a.record.run []).runOn c = (.ok (ls, log), c') ∧
      ∀ level i, Listed (log.usesAt level) i →
        i ∈ c'.inStateAt level .emitted ∨ i ∈ c.inStateAt level .pending := by
  obtain ⟨ls, log, hrecord, hfollows⟩ := a.follows hc h []
  refine ⟨ls, log, hrecord, fun level i hlisted => ?_⟩
  have hfinishes : c.Finishes c' := by
    have hleaves := a.orderly_run c
    rwa [h] at hleaves
  have hlevel : level < c.scopes.length := by
    obtain ⟨name, b, hmem, -⟩ := hlisted
    by_contra hge
    rw [Log.usesAt_eq_nil fun entry hentry => (hfollows.levels entry hentry).trans_le
      (Nat.not_lt.mp hge)] at hmem
    exact List.not_mem_nil hmem
  obtain ⟨s, hs⟩ := exists_scopeAt hlevel
  obtain ⟨t, ms, ht, hst⟩ := hfollows.scopes.exists_scopeAt hs
  have hneeded : i ∈ fetched (log.usesAt level) :=
    hst.isTrail.mem_fetched_iff.mpr (.inr hlisted)
  have hstarted : i ∈ t.started := by
    rw [hst.started]
    exact .inr hneeded
  rcases Scope.mem_started_iff_inState.mp hstarted with hpending | hemitted
  · exact .inr (hfinishes.pending_subset level ⟨t, ht, hpending⟩)
  · exact .inl ⟨t, ht, hemitted⟩

/-! ### Runs of operations -/

namespace Chain

theorem after_append (c : Chain) (front : List Op) (op : Op) :
    c.after (front ++ [op]) = op.next (c.after front) := by
  rw [after, after, List.foldl_append]
  rfl

theorem pending_subset_push (c : Chain) (fields : Option StructFields) (level : Nat) :
    (c.push (.empty fields)).inStateAt level .pending ⊆ c.inStateAt level .pending := by
  rintro i ⟨s, hs, hi⟩
  rw [scopes_push, scopeAt] at hs
  split at hs
  next =>
    cases hs
    obtain ⟨x, hx, -⟩ := hi
    cases hx
  next => exact ⟨s, hs, hi⟩

/-- A scope is flushed as it is. -/
theorem pending_subset_pop (c : Chain) (level : Nat) :
    c.pop.inStateAt level .pending ⊆ c.inStateAt level .pending := by
  obtain ⟨scopes, sink⟩ := c
  cases scopes with
  | nil => exact subset_rfl
  | cons s outer =>
      have hfinishes := finishes_modifyStream ⟨outer, sink⟩ s.flushInto
      intro i hi
      obtain ⟨t, ht, hstate⟩ := hfinishes.pending_subset level hi
      refine ⟨t, ?_, hstate⟩
      rw [scopeAt, if_neg (Nat.ne_of_lt (lt_of_scopeAt ht))]
      exact ht

end Chain

/-- Only an operation that fails leaves an initialiser unfinished. -/
theorem Op.pending_or_fails (op : Op) (h : i ∈ (op.next c).inStateAt level .pending) :
    i ∈ c.inStateAt level .pending ∨ op.Fails c := by
  cases op with
  | enter fields => exact .inl (c.pending_subset_push fields level h)
  | leave => exact .inl (c.pending_subset_pop level h)
  | act a =>
      have hleaves := a.orderly_run c
      rw [next, run] at h
      cases hrun : a.run.runOn c with
      | mk r d =>
          rw [hrun] at hleaves h
          cases r with
          | ok u => exact .inl (Chain.Finishes.pending_subset hleaves level h)
          | error e => exact .inr ⟨e, congrArg Prod.fst hrun⟩

/-- The operation fails and leaves an initialiser unfinished that was not unfinished before. -/
def Op.LeavesUnfinished (op : Op) (c : Chain) (level i : Nat) : Prop :=
  op.Fails c ∧ i ∉ c.inStateAt level .pending ∧ i ∈ (op.next c).inStateAt level .pending

/-- Every unfinished initialiser was left so by an operation that failed. -/
theorem Chain.exists_failure {ops : List Op} (h : i ∈ (c.after ops).inStateAt level .pending) :
    i ∈ c.inStateAt level .pending ∨ ∃ front op back, ops = front ++ op :: back ∧
      op.LeavesUnfinished (c.after front) level i := by
  induction ops using List.reverseRecOn with
  | nil => exact .inl h
  | append_singleton ops op ih =>
      rw [after_append] at h
      by_cases hbefore : i ∈ (c.after ops).inStateAt level .pending
      · rcases ih hbefore with hfirst | ⟨front, op', back, rfl, hfailed⟩
        · exact .inl hfirst
        · exact .inr ⟨front, op', back ++ [op], by simp, hfailed⟩
      · have hfails := (op.pending_or_fails h).resolve_left hbefore
        exact .inr ⟨ops, op, [], rfl, hfails, hbefore, h⟩

/-- Whatever has been done with scopes in which nothing was unfinished, and whatever has failed: an
operation that succeeds has emitted all initialisers that bindings on its way list, in the scopes of
these bindings, but for those that an operation before it left unfinished when it failed. -/
theorem emitted_or_left_unfinished (ops : List Op) (a : Act)
    (hfresh : ∀ level, c.inStateAt level .pending = ∅) (hscopes : (c.after ops).scopes ≠ [])
    (h : a.run.runOn (c.after ops) = (.ok (), c')) :
    ∃ ls log, (a.record.run []).runOn (c.after ops) = (.ok (ls, log), c') ∧
      ∀ level i, Listed (log.usesAt level) i →
        i ∈ c'.inStateAt level .emitted ∨ ∃ front op back, ops = front ++ op :: back ∧
          op.LeavesUnfinished (c.after front) level i := by
  obtain ⟨ls, log, hrecord, hemits⟩ := a.emits hscopes h
  refine ⟨ls, log, hrecord, fun level i hlisted => ?_⟩
  rcases hemits level i hlisted with hemitted | hpending
  · exact .inl hemitted
  · have hnew : i ∉ c.inStateAt level .pending := hfresh level ▸ Set.notMem_empty i
    exact .inr ((Chain.exists_failure hpending).resolve_left hnew)

/-- An initialiser that is left unfinished stays so, whatever is done with the innermost scope. -/
theorem Chain.pending_subset_after (c : Chain) (acts : List Act) (level : Nat) :
    c.inStateAt level .pending ⊆ (c.after (acts.map .act)).inStateAt level .pending := by
  induction acts generalizing c with
  | nil => exact subset_rfl
  | cons a acts ih =>
      have hretains : c.Retains (Op.next (.act a) c) := Leaves.toRetains (a.orderly_run c)
      exact (hretains.pending_subset level).trans (ih _)

/-- The first lookup fails at `n`; the second one finds everything, but the code of the initialiser
is left out. -/
example :
    (Chain.after (.before .empty)
      [.act (.initialiser "int k = $(n);"),
        .act (.bind "x" { Binding.ofText .int "k" with initialisers := [0] }),
        .act (.lookUp "x" none), .act (.bind "n" (.ofText .int "4")),
        .act (.expandLine "b = $(x);"), .leave]).sink.lines = ["b = k;"] := by
  decide +kernel

end KernelWeaver.Code
