import KernelWeaver.Proofs.Code.Logged
import KernelWeaver.Proofs.Code.Written

/-!
# What a log tells about the scopes

The log of a run that looks names up accounts for every change of the scopes: which initialisers
have been begun, and which code has been emitted. Such a run writes nothing to the streams of the
scopes.
-/

namespace KernelWeaver.Code

namespace Scope

/-- The initialisers whose code has been begun, and perhaps emitted. -/
def started (s : Scope) : Set Nat :=
  {i | ∃ x, s.initialisers[i]? = some x ∧ x.state ≠ .unused}

/-- The initialisers that are in a state. -/
def inState (s : Scope) (state : InitState) : Set Nat :=
  {i | ∃ x, s.initialisers[i]? = some x ∧ x.state = state}

/-- The uses lead from one state of a scope to another, while lines are written to its stream. Of
the listed initialisers `todo` are to be fetched before, and `left` behind. -/
structure Follows (s : Scope) (todo : List Nat) (written : List String) (uses : List Use)
    (t : Scope) (left : List Nat) : Prop where
  stream : s.stream.Gains written t.stream
  emitted : t.emitted = s.emitted ++ texts uses
  started : t.started = s.started ∪ {i | i ∈ fetched uses}
  /-- Uses that may come next complete these to a trail. -/
  trail : ∀ more, Trail t.started left more → Trail s.started todo (uses ++ more)

variable {s t u : Scope} {i j : Nat} {state state' : InitState} {todo left rest : List Nat}
  {ls ms : List String} {us vs : List Use} {name text : String} {b : Binding} {x : Initialiser}

theorem mem_started_iff (hx : s.initialisers[i]? = some x) :
    i ∈ s.started ↔ x.state ≠ .unused := by
  constructor
  · rintro ⟨y, hy, hstate⟩
    rwa [Option.some.inj (hx.symm.trans hy)]
  · exact fun hstate => ⟨x, hx, hstate⟩

theorem started_congr (h : t.initialisers = s.initialisers) : t.started = s.started := by
  unfold started
  rw [h]

theorem mem_started_iff_inState :
    i ∈ s.started ↔ i ∈ s.inState .pending ∨ i ∈ s.inState .emitted := by
  constructor
  · rintro ⟨x, hx, hstate⟩
    cases hx' : x.state with
    | unused => exact absurd hx' hstate
    | pending => exact .inl ⟨x, hx, hx'⟩
    | emitted => exact .inr ⟨x, hx, hx'⟩
  · rintro (⟨x, hx, hstate⟩ | ⟨x, hx, hstate⟩)
    · exact ⟨x, hx, by simp [hstate]⟩
    · exact ⟨x, hx, by simp [hstate]⟩

theorem inState_congr (h : t.initialisers = s.initialisers) (state : InitState) :
    t.inState state = s.inState state := by
  unfold inState
  rw [h]

theorem eq_of_mem_inState (h : i ∈ s.inState state) (h' : i ∈ s.inState state') :
    state = state' := by
  obtain ⟨x, hx, rfl⟩ := h
  obtain ⟨y, hy, rfl⟩ := h'
  rw [Option.some.inj (hx.symm.trans hy)]

/-- An initialiser whose state changes is in the new state alone, and no other is affected. -/
theorem mem_inState_setState (hi : i ∈ s.inState state') {wanted : InitState} :
    j ∈ (s.setState i state).inState wanted ↔
      (j = i ∧ state = wanted) ∨ (j ≠ i ∧ j ∈ s.inState wanted) := by
  obtain ⟨x, hx, -⟩ := hi
  by_cases hj : j = i
  · subst hj
    have hnew : (s.setState j state).initialisers[j]? = some { x with state } := by
      simp [setState, hx]
    simp [inState, hnew]
  · have hother : (s.setState i state).initialisers[j]? = s.initialisers[j]? := by
      simp [setState, Ne.symm hj]
    simp [inState, hother, hj]

/-- A new initialiser is unused. -/
theorem inState_append {template : Template} (hstate : state ≠ .unused)
    (h : t.initialisers = s.initialisers ++ [⟨template, .unused⟩]) :
    t.inState state = s.inState state := by
  ext i
  unfold inState
  rw [h, Set.mem_ofPred_eq, Set.mem_ofPred_eq]
  constructor
  · rintro ⟨x, hx, rfl⟩
    rw [List.getElem?_append] at hx
    split at hx
    next => exact ⟨x, hx, rfl⟩
    next =>
      rw [List.mem_singleton.mp (List.mem_of_getElem? hx)] at hstate
      exact absurd rfl hstate
  · rintro ⟨x, hx, rfl⟩
    refine ⟨x, ?_, rfl⟩
    rw [List.getElem?_append_left (List.getElem?_eq_some_iff.mp hx).1]
    exact hx

/-- A new initialiser has not been begun. -/
theorem started_append {template : Template}
    (h : t.initialisers = s.initialisers ++ [⟨template, .unused⟩]) : t.started = s.started := by
  ext i
  rw [mem_started_iff_inState, mem_started_iff_inState, inState_append (by decide) h,
    inState_append (by decide) h]

theorem started_setState {state : InitState} (hx : s.initialisers[i]? = some x)
    (hstate : state ≠ .unused) : (s.setState i state).started = insert i s.started := by
  have hi : i ∈ s.inState x.state := ⟨x, hx, rfl⟩
  ext j
  rw [mem_started_iff_inState, mem_inState_setState hi, mem_inState_setState hi,
    Set.mem_insert_iff, mem_started_iff_inState]
  cases state with
  | unused => exact absurd rfl hstate
  | pending | emitted => simp; tauto

namespace Follows

theorem refl (s : Scope) (todo : List Nat) : s.Follows todo [] [] s todo where
  stream := .refl _
  emitted := (List.append_nil _).symm
  started := by simp
  trail _ h := h

theorem trans (h : s.Follows todo ls us t left) (h' : t.Follows left ms vs u rest) :
    s.Follows todo (ls ++ ms) (us ++ vs) u rest where
  stream := h.stream.trans h'.stream
  emitted := by rw [h'.emitted, h.emitted, texts_append, List.append_assoc]
  started := by
    rw [h'.started, h.started, Set.union_assoc]
    congr 1
    ext j
    simp
  trail more hmore := by
    rw [List.append_assoc]
    exact h.trail _ (h'.trail more hmore)

/-- What happens to a scope apart from its initialisers and their code needs no use. -/
theorem quiet (hstream : s.stream.Gains ls t.stream) (hemitted : t.emitted = s.emitted)
    (hstarted : t.started = s.started) : s.Follows todo ls [] t todo where
  stream := hstream
  emitted := by simpa using hemitted
  started := by simp [hstarted]
  trail more h := by rwa [← hstarted]

/-- The uses of a scope up to its flush are a trail. -/
theorem isTrail (h : s.Follows [] ls us t []) : Trail s.started [] us := by
  simpa using h.trail [] .nil

theorem resolved (s : Scope) (name : String) (b : Binding) :
    s.Follows [] [] [.resolved name b] s b.initialisers where
  stream := .refl _
  emitted := (List.append_nil _).symm
  started := by simp
  trail _ h := .resolved h

theorem again (hi : i ∈ s.started) : s.Follows (i :: todo) [] [.needed i] s todo where
  stream := .refl _
  emitted := (List.append_nil _).symm
  started := by
    ext j
    simp only [fetched_needed, fetched_nil, Set.mem_union, Set.mem_ofPred_eq, List.mem_singleton]
    constructor
    · exact .inl
    · rintro (hj | rfl)
      · exact hj
      · exact hi
  trail _ h := .again hi h

/-- An initialiser is begun, what its code refers to is looked up, and the code is emitted. -/
theorem first (hx : s.initialisers[i]? = some x) (hunused : x.state = .unused)
    (h : (s.setState i .pending).Follows [] [] us t []) :
    s.Follows (i :: todo) [] (.needed i :: (us ++ [.emitted i text]))
      { t.setState i .emitted with emitted := t.emitted ++ [text] } todo := by
  have hbegun : (s.setState i .pending).started = insert i s.started :=
    started_setState hx (by decide)
  have hmem : i ∈ t.started := by
    rw [h.started, hbegun]
    exact .inl (Set.mem_insert i _)
  -- it has been begun by then, so that its emission does not count as a start
  have hdone : (t.setState i .emitted).started = t.started := by
    obtain ⟨y, hy, -⟩ := id hmem
    rw [started_setState hy (by decide), Set.insert_eq_of_mem hmem]
  have hall : t.started = insert i s.started ∪ {j | j ∈ fetched us} := by rw [h.started, hbegun]
  constructor
  case stream => exact h.stream
  case emitted =>
    have htexts : texts (.needed i :: (us ++ [.emitted i text])) = texts us ++ [text] := by simp
    rw [htexts, ← List.append_assoc]
    exact congrArg (· ++ [text]) h.emitted
  case started =>
    refine hdone.trans (hall.trans ?_)
    ext j
    simp only [fetched_needed, fetched_append, fetched_emitted, fetched_nil, List.append_nil,
      List.mem_cons, Set.mem_union, Set.mem_ofPred_eq, Set.mem_insert_iff]
    tauto
  case trail =>
    intro more hmore
    have hback : Trail (insert i s.started ∪ {j | j ∈ fetched us}) todo more := by
      rw [← hall, ← hdone]
      exact hmore
    have hinside : Trail (insert i s.started) [] us := hbegun ▸ h.isTrail
    have hfresh : i ∉ s.started := fun hi => (mem_started_iff hx).mp hi hunused
    have hall : Trail s.started (i :: todo) (.needed i :: (us ++ .emitted i text :: more)) :=
      .first hfresh hinside hback
    simpa using hall

end Follows

end Scope

/-! ### Chains -/

/-- The log leads from one state of nested scopes to another, while lines are written to the
innermost. Of the initialisers that are listed there `todo` are to be fetched before, and `left`
behind. -/
inductive FollowsAll (log : Log) :
    List Nat → List String → List Scope → List Scope → List Nat → Prop where
  | nil {todo : List Nat} : FollowsAll log todo [] [] [] todo
  | cons {s t : Scope} {outer outer' : List Scope} {todo left : List Nat} {ls : List String} :
      s.Follows todo ls (log.usesAt outer.length) t left → FollowsAll log [] [] outer outer' [] →
      FollowsAll log todo ls (s :: outer) (t :: outer') left

@[simp] theorem Log.usesAt_append (log log' : Log) (level : Nat) :
    (log ++ log').usesAt level = log.usesAt level ++ log'.usesAt level :=
  List.filterMap_append

theorem Log.usesAt_eq_nil {log : Log} {level : Nat} (h : ∀ entry ∈ log, entry.1 < level) :
    log.usesAt level = [] := by
  rw [usesAt, List.filterMap_eq_nil_iff]
  intro entry hentry
  rw [if_neg (Nat.ne_of_lt (h entry hentry))]

/-- Uses of one scope are found at its level alone. -/
theorem Log.usesAt_map (uses : List Use) (level level' : Nat) :
    Log.usesAt (uses.map fun use => (level, use)) level' = if level = level' then uses else [] := by
  unfold usesAt
  induction uses with
  | nil => simp
  | cons use uses ih =>
      rw [List.map_cons, List.filterMap_cons, ih]
      by_cases hlevel : level = level' <;> simp [hlevel]

namespace FollowsAll

variable {log log' : Log} {todo left rest : List Nat} {ls ms : List String}
  {scopes scopes' scopes'' inner outer outer' : List Scope}

theorem refl (todo : List Nat) (scopes : List Scope) :
    FollowsAll [] todo [] scopes scopes todo := by
  induction scopes generalizing todo with
  | nil => exact .nil
  | cons s outer ih => exact .cons (.refl s todo) (ih [])

theorem length_eq (h : FollowsAll log todo ls scopes scopes' left) :
    scopes'.length = scopes.length := by
  induction h with
  | nil => rfl
  | cons _ _ ih => rw [List.length_cons, List.length_cons, ih]

theorem trans (h : FollowsAll log todo ls scopes scopes' left)
    (h' : FollowsAll log' left ms scopes' scopes'' rest) :
    FollowsAll (log ++ log') todo (ls ++ ms) scopes scopes'' rest := by
  induction h generalizing ms scopes'' rest with
  | nil =>
      cases h'
      exact .nil
  | cons hs houter ih =>
      cases h' with
      | cons ht houter' =>
          -- as many scopes are around as before, so both parts of the log are for one level
          rw [houter.length_eq] at ht
          refine .cons ?_ (ih houter')
          rw [Log.usesAt_append]
          exact hs.trans ht

/-- Of the log only the entries for these scopes matter. -/
theorem congr (h : FollowsAll log todo ls scopes scopes' left)
    (hlog : ∀ level < scopes.length, log'.usesAt level = log.usesAt level) :
    FollowsAll log' todo ls scopes scopes' left := by
  induction h with
  | nil => exact .nil
  | @cons s t outer outer' todo left ls hs _ ih =>
      rw [← hlog outer.length (by simp)] at hs
      refine .cons hs (ih fun level hlevel => hlog level ?_)
      exact Nat.lt_succ_of_lt hlevel

/-- Scopes inside those that are used stay as they are. -/
theorem inside (h : FollowsAll log [] [] outer outer' [])
    (hlevels : ∀ entry ∈ log, entry.1 < outer.length) (inner : List Scope) :
    FollowsAll log [] [] (inner ++ outer) (inner ++ outer') [] := by
  induction inner with
  | nil => exact h
  | cons s inner ih =>
      have hnone : log.usesAt (inner ++ outer).length = [] := by
        refine Log.usesAt_eq_nil fun entry hentry => ?_
        have hlt := hlevels entry hentry
        rw [List.length_append]
        omega
      have hs : s.Follows [] [] (log.usesAt (inner ++ outer).length) s [] := by
        rw [hnone]
        exact .refl s []
      exact .cons hs ih

/-- One of the scopes changes in a way that needs no use. -/
theorem update {s t : Scope} (h : ∀ todo, s.Follows todo [] [] t todo) (inner : List Scope) :
    FollowsAll [] todo [] (inner ++ s :: outer) (inner ++ t :: outer) todo := by
  induction inner generalizing todo with
  | nil => exact .cons (h todo) (.refl [] outer)
  | cons first inner ih => exact .cons (.refl first todo) ih

end FollowsAll

/-- The log leads from one chain of scopes to another. -/
structure Chain.Follows (c : Chain) (todo : List Nat) (written : List String) (log : Log)
    (c' : Chain) (left : List Nat) : Prop where
  scopes : FollowsAll log todo written c.scopes c'.scopes left
  sink : c'.sink = c.sink
  levels : ∀ entry ∈ log, entry.1 < c.scopes.length

namespace Chain.Follows

variable {c c' c'' : Chain} {todo left rest : List Nat} {ls ms : List String} {log log' : Log}

theorem refl (c : Chain) (todo : List Nat) : c.Follows todo [] [] c todo :=
  ⟨.refl todo c.scopes, rfl, by simp⟩

theorem trans (h : c.Follows todo ls log c' left) (h' : c'.Follows left ms log' c'' rest) :
    c.Follows todo (ls ++ ms) (log ++ log') c'' rest where
  scopes := h.scopes.trans h'.scopes
  sink := h'.sink.trans h.sink
  levels entry hentry := by
    rcases List.mem_append.mp hentry with hentry | hentry
    · exact h.levels entry hentry
    · rw [← h.scopes.length_eq]
      exact h'.levels entry hentry

theorem ne_nil (h : c.Follows todo ls log c' left) (hc : c.scopes ≠ []) : c'.scopes ≠ [] := by
  rw [← List.length_pos_iff] at hc ⊢
  rwa [h.scopes.length_eq]

/-- What happens to the innermost scope alone. -/
theorem head {s t : Scope} {outer : List Scope} {sink : CodeStream} {uses : List Use}
    (h : s.Follows todo ls uses t left) :
    Chain.Follows ⟨s :: outer, sink⟩ todo ls (uses.map fun use => (outer.length, use))
      ⟨t :: outer, sink⟩ left where
  scopes := by
    have hhere : Log.usesAt (uses.map fun use => (outer.length, use)) outer.length = uses := by
      rw [Log.usesAt_map, if_pos rfl]
    refine .cons (by rwa [hhere]) ((FollowsAll.refl [] outer).congr fun level hlevel => ?_)
    rw [Log.usesAt_map, if_neg (Nat.ne_of_gt hlevel)]
    rfl
  sink := rfl
  levels entry hentry := by
    obtain ⟨use, -, rfl⟩ := List.mem_map.mp hentry
    exact Nat.lt_succ_self _

variable {s t : Scope} {outer outer' : List Scope} {sink sink' : CodeStream}

theorem length_outer (h : Chain.Follows ⟨s :: outer, sink⟩ todo ls log ⟨t :: outer', sink'⟩ left) :
    outer'.length = outer.length :=
  Nat.succ.inj h.scopes.length_eq

/-- What the log has of the innermost scope is a trail. -/
theorem isTrail (h : Chain.Follows ⟨s :: outer, sink⟩ [] ls log c' []) :
    Trail s.started [] (log.usesAt outer.length) := by
  obtain ⟨hscopes, -, -⟩ := h
  obtain ⟨scopes', sink'⟩ := c'
  cases hscopes with
  | cons hs _ => exact hs.isTrail

/-- An initialiser of the innermost scope is begun, what its code refers to is looked up, and the
code is emitted. -/
theorem first {i : Nat} {template : Template} {text : String}
    (hx : s.initialisers[i]? = some ⟨template, .unused⟩)
    (h : Chain.Follows ⟨s.setState i .pending :: outer, sink⟩ [] [] log ⟨t :: outer', sink'⟩ []) :
    Chain.Follows ⟨s :: outer, sink⟩ (i :: rest) []
      ((outer.length, .needed i) :: (log ++ [(outer.length, .emitted i text)]))
      ⟨{ t.setState i .emitted with emitted := t.emitted ++ [text] } :: outer', sink'⟩ rest := by
  have hentry (use : Use) (level : Nat) : Log.usesAt [(outer.length, use)] level =
      if outer.length = level then [use] else [] := Log.usesAt_map [use] outer.length level
  have hlog (level : Nat) :
      Log.usesAt ((outer.length, .needed i) :: (log ++ [(outer.length, .emitted i text)])) level =
        if outer.length = level then .needed i :: (log.usesAt level ++ [.emitted i text])
        else log.usesAt level := by
    rw [← List.singleton_append, Log.usesAt_append, Log.usesAt_append, hentry, hentry]
    split <;> simp
  constructor
  case scopes =>
    cases h.scopes with
    | cons ht houter =>
        refine .cons ?_ (houter.congr fun level hlevel => ?_)
        · rw [hlog, if_pos rfl]
          exact ht.first hx rfl
        · rw [hlog, if_neg (Nat.ne_of_gt hlevel)]
  case sink => exact h.sink
  case levels =>
    intro entry hmem
    rw [← List.singleton_append, List.mem_append, List.mem_append, List.mem_singleton,
      List.mem_singleton] at hmem
    rcases hmem with rfl | hmem | rfl
    · exact Nat.lt_succ_self _
    · exact h.levels entry hmem
    · exact Nat.lt_succ_self _

end Chain.Follows

end KernelWeaver.Code
