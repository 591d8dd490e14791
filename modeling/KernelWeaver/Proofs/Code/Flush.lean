import KernelWeaver.Proofs.Code.Lookups
import KernelWeaver.Proofs.Code.Script
import KernelWeaver.Proofs.Outcome

/-!
# What reaches the sink

Scopes are flushed inside out. In the end every line that a script has written to one of them has
reached the sink, behind the initialisers of that scope, each of which is emitted once if it is
needed.
-/

namespace KernelWeaver.Code

variable {c c' : Chain} {s t : Scope} {outer outer' : List Scope} {sink : CodeStream}
  {fields : Option StructFields} {ls : List String} {uses : List Use}

/-- A scope that is flushed adds the code of its initialisers and the lines written to it. -/
theorem Scope.Follows.gains_flush (h : (Scope.empty fields).Follows [] ls uses t [])
    (target : CodeStream) :
    target.Gains ((texts uses).flatMap Text.lines ++ ls) (t.flushInto target) := by
  have hsingle : t.stream.Single := h.stream.single (by simp [Scope.empty, CodeStream.Single,
    CodeStream.empty])
  refine (Scope.gains_flushInto hsingle target).of_trim_eq ?_
  rw [List.map_append, List.map_append, h.emitted, h.stream.lines]
  rfl

theorem Scope.started_empty (fields : Option StructFields) : (Scope.empty fields).started = ∅ := by
  ext i
  simp [Scope.started, Scope.empty]

theorem Emit.exists_of_within {m : Emit Unit} {u : Unit}
    (h : (Emit.within fields m).runOn c = (.ok u, c')) :
    ∃ c₁, m.runOn (c.push (.empty fields)) = (.ok (), c₁) ∧ c' = c₁.pop := by
  cases fields with
  | none => exact Emit.runOn_afterwards_eq_ok.mp h
  | some fields =>
      obtain ⟨_, c₂, hstruct, hpure⟩ := Emit.runOn_bind_eq_ok.mp h
      cases hpure
      obtain ⟨c₁, hinside, rfl⟩ := Emit.runOn_afterwards_eq_ok.mp hstruct
      obtain ⟨_, c₂, hm, hget⟩ := Emit.runOn_bind_eq_ok.mp hinside
      cases hget
      exact ⟨c₁, hm, rfl⟩

theorem Logged.run_within {α : Type} {m : Logged α} {a : α} {new : Log} {c₁ : Chain}
    (h : (m.run []).runOn (c.push (.empty fields)) = (.ok (a, new), c₁)) (log : Log) :
    ((Logged.within fields m).run log).runOn c =
      (.ok ((new.usesAt c.scopes.length, a), log ++ new.filter (·.1 ≠ c.scopes.length)),
        c₁.pop) := by
  have hrun : (Emit.afterwards (m []) Chain.pop).runOn (c.push (.empty fields)) =
      (.ok (a, new), c₁.pop) := Emit.runOn_afterwards_eq_ok.mpr ⟨c₁, h, rfl⟩
  exact Emit.runOn_bind_of_ok hrun _

theorem Log.usesAt_filter_ne {log : Log} {level level' : Nat} (h : level' ≠ level) :
    Log.usesAt (log.filter (·.1 ≠ level)) level' = log.usesAt level' := by
  rw [usesAt, usesAt, List.filterMap_filter]
  congr 1
  funext entry
  by_cases hlevel : entry.1 = level'
  · simp [hlevel, h]
  · simp [hlevel]

/-- A scope inside, with all that happens in it, adds its lines to the innermost scope. -/
theorem Chain.Follows.pop {log : Log}
    (h : Chain.Follows ⟨.empty fields :: s :: outer, sink⟩ [] ls log c' []) :
    Chain.Follows ⟨s :: outer, sink⟩ []
      ((texts (log.usesAt (outer.length + 1))).flatMap Text.lines ++ ls)
      (log.filter (·.1 ≠ outer.length + 1)) c'.pop [] := by
  obtain ⟨hscopes, hsink, hlevels⟩ := h
  obtain ⟨scopes', sink'⟩ := c'
  cases hscopes with
  | @cons _ inner _ outer₁ _ _ _ hinner houter =>
      cases houter with
      | @cons _ t _ outer' _ _ _ hs hrest =>
          -- the entries of the scope inside are taken out, those of the others stay
          have hbelow (level : Nat) (hlevel : level < outer.length + 1) :
              Log.usesAt (log.filter (·.1 ≠ outer.length + 1)) level = log.usesAt level :=
            Log.usesAt_filter_ne (Nat.ne_of_lt hlevel)
          have hflush : t.Follows [] _ [] { t with stream := inner.flushInto t.stream } [] :=
            .quiet (hinner.gains_flush t.stream) rfl (Scope.started_congr rfl)
          refine ⟨.cons ?_ (hrest.congr fun level hlevel => hbelow level (by omega)), hsink, ?_⟩
          · rw [hbelow outer.length (by omega)]
            simpa using hs.trans hflush
          · intro entry hentry
            obtain ⟨hmem, hne⟩ := List.mem_filter.mp hentry
            have hlt := hlevels entry hmem
            simp only [List.length_cons, decide_eq_true_eq] at hlt hne ⊢
            omega

/-- The outermost scope is flushed into the sink. -/
theorem Chain.Follows.gains_pop {log : Log}
    (h : Chain.Follows ⟨[.empty fields], sink⟩ [] ls log c' []) :
    sink.Gains ((texts (log.usesAt 0)).flatMap Text.lines ++ ls) c'.pop.sink := by
  obtain ⟨hscopes, hsink, -⟩ := h
  obtain ⟨scopes', sink'⟩ := c'
  cases hscopes with
  | cons hs houter =>
      cases houter
      cases hsink
      exact hs.gains_flush sink

theorem Chain.Follows.of_write {f : CodeStream → CodeStream} {u : Unit} (hc : c.scopes ≠ [])
    (h : (Emit.write f).runOn c = (.ok u, c'))
    (hf : ∀ stream : CodeStream, stream.Gains ls (f stream)) : c.Follows [] ls [] c' [] := by
  obtain ⟨scopes, sink⟩ := c
  obtain ⟨s, outer, rfl⟩ := List.exists_cons_of_ne_nil hc
  cases h
  have hs : s.Follows [] ls [] { s with stream := f s.stream } [] :=
    .quiet (hf s.stream) rfl (Scope.started_congr rfl)
  exact .head hs

/-- A lookup can be run with its log, which accounts for what it does. -/
theorem Logged.exists_run {α : Type} {m : Logged α} {n : Emit α} {a : α} (herases : Erases m n)
    (hrecords : RecordsAt c [] m []) (h : n.runOn c = (.ok a, c')) (log : Log) :
    ∃ new, (m.run log).runOn c = (.ok (a, log ++ new), c') ∧ c.Follows [] [] new c' [] := by
  obtain ⟨log', hrun⟩ := herases.exists_run h log
  obtain ⟨new, rfl, hnew⟩ := hrecords log a log' c' hrun
  exact ⟨new, hrun, hnew⟩

/-- The record of what needs no use. -/
theorem Logged.run_quiet {n : Emit Unit} (h : n.runOn c = (.ok (), c')) (ls : List String)
    (log : Log) :
    ((do
      liftM n
      return ls : Logged (List String)).run log).runOn c = (.ok (ls, log), c') :=
  run_bind_eq_ok.mpr ⟨(), log, c', run_lift_eq_ok.mpr ⟨h, rfl⟩, rfl⟩

/-- What an act does to the scopes is in its record. -/
theorem Act.follows (a : Act) (hc : c.scopes ≠ []) (h : a.run.runOn c = (.ok (), c')) (log : Log) :
    ∃ ls new, (a.record.run log).runOn c = (.ok (ls, log ++ new), c') ∧
      c.Follows [] ls new c' [] := by
  have hquiet {ls : List String} (hfollows : c.Follows [] ls [] c' []) :
      ∃ new, ((do
          liftM a.run
          return ls : Logged (List String)).run log).runOn c = (.ok (ls, log ++ new), c') ∧
        c.Follows [] ls new c' [] := by
    refine ⟨[], ?_, hfollows⟩
    rw [List.append_nil]
    exact Logged.run_quiet h ls log
  obtain ⟨scopes, sink⟩ := c
  obtain ⟨s, outer, rfl⟩ := List.exists_cons_of_ne_nil hc
  cases a with
  | bind name binding =>
      have hbind : Chain.Follows ⟨s :: outer, sink⟩ [] [] [] c' [] := by
        have hc' : ((Emit.changeScope (·.bind name binding)).runOn ⟨s :: outer, sink⟩).2 = c' :=
          congrArg Prod.snd h
        rw [Emit.runOn_changeScope, Scope.bind] at hc'
        -- a name that is bound stays as it is
        by_cases hbound : s.binds name = true
        · rw [if_pos hbound] at hc'
          subst hc'
          exact .refl _ []
        · rw [if_neg hbound] at hc'
          subst hc'
          have hs : s.Follows [] [] [] { s with bindings := s.bindings.insert name [binding] } [] :=
            .quiet (.refl _) rfl (Scope.started_congr rfl)
          exact .head hs
      exact ⟨[], hquiet hbind⟩
  | overload name type template =>
      have hoverload : Chain.Follows ⟨s :: outer, sink⟩ [] [] [] c' [] := by
        cases h
        have hs : s.Follows [] [] [] (s.overload name (.ofText type template)) [] :=
          .quiet (.refl _) rfl (Scope.started_congr rfl)
        exact .head hs
      exact ⟨[], hquiet hoverload⟩
  | initialiser template =>
      have hadd : Chain.Follows ⟨s :: outer, sink⟩ [] [] [] c' [] := by
        cases h
        have hs : s.Follows [] [] [] { s with
            initialisers := s.initialisers ++ [⟨Template.ofString template, .unused⟩] } [] :=
          .quiet (.refl _) rfl (Scope.started_append rfl)
        exact .head hs
      exact ⟨[], hquiet hadd⟩
  | lookUp name wanted =>
      obtain ⟨code, c₁, hresolve, hpure⟩ := Emit.runOn_bind_eq_ok.mp h
      cases hpure
      obtain ⟨new, hlog, hnew⟩ := Logged.exists_run (.resolve name wanted)
        (Logged.recordsAt_resolve name wanted _) hresolve log
      exact ⟨[], new, Logged.run_bind_eq_ok.mpr ⟨code, _, _, hlog, rfl⟩, hnew⟩
  | expand template =>
      obtain ⟨text, c₁, hexpand, hpure⟩ := Emit.runOn_bind_eq_ok.mp h
      cases hpure
      obtain ⟨new, hlog, hnew⟩ := Logged.exists_run (.expandText template)
        (Logged.recordsAt_expandText template _) hexpand log
      exact ⟨[], new, Logged.run_bind_eq_ok.mpr ⟨text, _, _, hlog, rfl⟩, hnew⟩
  | expandLine template =>
      obtain ⟨text, c₁, hexpand, hline⟩ := Emit.runOn_bind_eq_ok.mp h
      obtain ⟨new, hlog, hnew⟩ := Logged.exists_run (.expandText template)
        (Logged.recordsAt_expandText template _) hexpand log
      have hboth := hnew.trans (.of_write (hnew.ne_nil hc) hline fun stream =>
        stream.gains_line text)
      rw [List.append_nil] at hboth
      exact ⟨Text.rawLines text, new, Logged.run_bind_eq_ok.mpr ⟨text, _, c₁, hlog,
        Logged.run_quiet hline _ _⟩, hboth⟩
  | line text => exact ⟨_, hquiet (.of_write hc h fun stream => stream.gains_line text)⟩
  | blank => exact ⟨_, hquiet (.of_write hc h fun stream => stream.gains_blank)⟩
  | append block => exact ⟨_, hquiet (.of_write hc h fun stream => stream.gains_appendBlock block)⟩

/-- What a script does to the scopes is in its account. -/
theorem Script.follows (script : Script) (hc : c.scopes ≠ [])
    (h : script.run.runOn c = (.ok (), c')) (log : Log) :
    ∃ account new, (script.record.run log).runOn c = (.ok (account, log ++ new), c') ∧
      c.Follows [] account.written new c' [] ∧ ∀ uses ∈ account.uses, Trail ∅ [] uses := by
  induction script generalizing c c' log with
  | done =>
      cases h
      refine ⟨.nothing, [], ?_, .refl c [], by simp [Account.uses]⟩
      rw [List.append_nil]
      rfl
  | act a rest ih =>
      obtain ⟨_, c₁, ha, hrest⟩ := Emit.runOn_bind_eq_ok.mp h
      obtain ⟨ls, new, hrecord, hnew⟩ := a.follows hc ha log
      obtain ⟨account, more, haccount, hmore, htrails⟩ := ih (hnew.ne_nil hc) hrest (log ++ new)
      refine ⟨.lines ls account, new ++ more, ?_, hnew.trans hmore, htrails⟩
      rw [← List.append_assoc]
      exact Logged.run_bind_eq_ok.mpr ⟨ls, _, c₁, hrecord,
        Logged.run_bind_eq_ok.mpr ⟨account, _, c', haccount, rfl⟩⟩
  | inside fields child rest ihchild ih =>
      obtain ⟨_, c₁, hwithin, hrest⟩ := Emit.runOn_bind_eq_ok.mp h
      obtain ⟨c₂, hchild, rfl⟩ := Emit.exists_of_within hwithin
      -- the scope inside is recorded with a log of its own
      obtain ⟨inner, new, hrecord, hnew, hinner⟩ := ihchild (by simp) hchild []
      rw [List.nil_append] at hrecord
      have hclosed := Logged.run_within hrecord log
      obtain ⟨scopes, sink⟩ := c
      obtain ⟨s, outer, rfl⟩ := List.exists_cons_of_ne_nil hc
      obtain ⟨account, more, haccount, hmore, htrails⟩ := ih (hnew.pop.ne_nil hc) hrest _
      refine ⟨.scope _ inner account, _ ++ more, ?_, hnew.pop.trans hmore, ?_⟩
      · rw [← List.append_assoc]
        exact Logged.run_bind_eq_ok.mpr ⟨_, _, _, hclosed,
          Logged.run_bind_eq_ok.mpr ⟨account, _, c', haccount, rfl⟩⟩
      · have hown := hnew.isTrail
        rw [Scope.started_empty] at hown
        intro uses huses
        rw [Account.uses, List.cons_append, List.mem_cons, List.mem_append] at huses
        rcases huses with rfl | huses | huses
        · exact hown
        · exact hinner uses huses
        · exact htrails uses huses

/-- If every lookup of a script succeeds, each scope emits the initialisers that its resolved
bindings list, and only these, once each; where none depends on itself, they are emitted in the
order in which they are first needed, but behind those that they depend on. They reach the sink in
front of all that is written to the scope and to the scopes inside. Every line that is written
reaches the sink in order, up to blanks at its ends. -/
theorem flush_is_accounted_for (script : Script) (fields : Option StructFields)
    {sink sink' : CodeStream} (h : script.flush fields sink = .ok sink') :
    ∃ account, script.account fields sink = .ok account ∧
      (∀ uses ∈ account.uses, Once uses ∧ (Acyclic uses → InOrder uses)) ∧
      sink'.lines.map Text.trim = (sink.lines ++ account.written).map Text.trim := by
  have hrun : ∃ c', (Emit.within fields script.run).runOn ⟨[], sink⟩ = (.ok (), c') ∧
      c'.sink = sink' := by
    rw [Script.flush] at h
    generalize (Emit.within fields script.run).runOn ⟨[], sink⟩ = result at h
    obtain ⟨e | u, c'⟩ := result
    · cases h
    · cases h
      exact ⟨c', rfl, rfl⟩
  obtain ⟨c', hwithin, rfl⟩ := hrun
  obtain ⟨c₁, hscript, rfl⟩ := Emit.exists_of_within hwithin
  obtain ⟨child, new, hrecord, hnew, htrails⟩ := script.follows (by simp) hscript []
  rw [List.nil_append] at hrecord
  have hclosed := Logged.run_within hrecord []
  have hown := hnew.isTrail
  rw [Scope.started_empty] at hown
  refine ⟨.scope (new.usesAt 0) child .nothing, ?_, ?_, ?_⟩
  · rw [Script.account, hclosed]
    rfl
  · intro uses huses
    have htrail : Trail ∅ [] uses := by
      rw [Account.uses, Account.uses, List.append_nil, List.mem_cons] at huses
      rcases huses with rfl | huses
      · exact hown
      · exact htrails uses huses
    exact ⟨htrail.once, htrail.inOrder⟩
  · rw [Account.written, Account.written, List.append_nil]
    exact hnew.gains_pop.lines

/-- A script in which the code of one initialiser refers to another, and a scope inside refers to
that code. -/
def hoistingScript : Script :=
  .act (.initialiser "lid = id - 64;") <|
  .act (.initialiser "x = values[$(lid)];") <|
  .act (.bind "lid" { Binding.ofText .uint "lid" with initialisers := [0] }) <|
  .act (.bind "x" { Binding.ofText .uint "x" with initialisers := [1] }) <|
  .act (.line "\x7b") <|
  .inside none (.act (.expandLine "sum += $(x);") .done) <|
  .act (.line "\x7d") .done

theorem flush_is_accounted_for_hoisting :
    ∃ sink' account, hoistingScript.flush none .empty = .ok sink' ∧
      sink'.lines =
        ["lid = id - 64;", "x = values[lid];", "\x7b", "    sum += x;", "\x7d"] ∧
      hoistingScript.account none .empty = .ok account ∧
      account.uses.map order = [[0, 1], []] ∧
      (∀ uses ∈ account.uses, Once uses ∧ InOrder uses) ∧
      sink'.lines.map Text.trim = account.written.map Text.trim := by
  obtain ⟨sink', hflush, hlines⟩ := exists_ok_of_decide
    (x := hoistingScript.flush none .empty) (P := fun sink' => sink'.lines =
      ["lid = id - 64;", "x = values[lid];", "\x7b", "    sum += x;", "\x7d"]) (by decide +kernel)
  obtain ⟨account, haccount, huses, hwritten⟩ := flush_is_accounted_for hoistingScript none hflush
  obtain ⟨_, hsame, horder, hdescends⟩ := exists_ok_of_decide
    (x := hoistingScript.account none .empty) (P := fun account =>
      account.uses.map order = [[0, 1], []] ∧ ∀ uses ∈ account.uses, descends uses = true)
    (by decide +kernel)
  cases haccount.symm.trans hsame
  refine ⟨sink', account, hflush, hlines, haccount, horder, fun uses hmem => ?_, hwritten⟩
  exact ⟨(huses uses hmem).1, (huses uses hmem).2 (acyclic_of_descends (hdescends uses hmem))⟩

/-- The text of a line behind its indentation. -/
def unindented (line : String) : String :=
  String.ofList (line.toList.dropWhile Text.isBlank)

/-- Blanks at the end of a line do not reach the sink. -/
theorem flush_loses_trailing_blanks :
    ∃ sink' account, (Script.act (.line "x  ") .done).flush none .empty = .ok sink' ∧
      (Script.act (.line "x  ") .done).account none .empty = .ok account ∧
      sink'.lines.map unindented ≠ account.written.map unindented := by
  obtain ⟨sink', hflush, hlines⟩ := exists_ok_of_decide
    (x := (Script.act (.line "x  ") .done).flush none .empty)
    (P := fun sink' => sink'.lines.map unindented = ["x"]) (by decide +kernel)
  obtain ⟨account, haccount, hwritten⟩ := exists_ok_of_decide
    (x := (Script.act (.line "x  ") .done).account none .empty)
    (P := fun account => account.written.map unindented = ["x  "]) (by decide +kernel)
  refine ⟨sink', account, hflush, haccount, ?_⟩
  rw [hlines, hwritten]
  decide

end KernelWeaver.Code
