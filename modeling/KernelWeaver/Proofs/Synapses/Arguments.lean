import KernelWeaver.Proofs.Code.AssignedSlots
import KernelWeaver.Proofs.Synapses.Listing

/-!
# The arguments of an added synapse

The code that adds a synapse takes the postsynaptic neuron and a value for every named array. Each
argument is evaluated once, in order, before the row is one synapse longer, whichever arrays have
copies for every batch and whichever have no name.
-/

namespace KernelWeaver.Synapses

open Code RowStmt

/-! ### Runs -/

/-- What happens while code runs, as far as its order matters. -/
inductive Event where
  /-- The argument with the number is evaluated. -/
  | argument (k : Nat)
  /-- One more live slot is counted. -/
  | grow
deriving DecidableEq

def Index.events : Index → List Event
  | newPost => [.argument 0]
  | post slot => slot.events
  | add i j | sub i j | mul i j => i.events ++ j.events
  | number _ | constant _ | counter _ | row | rows | stride | length => []

def Datum.events : Datum → List Event
  | argument k => [.argument k]
  | element _ i => i.events
  | zero | hoisted _ => []

/-- The events of a statement, each of its parts being run once. -/
def RowStmt.events : RowStmt → List Event
  | skip | shrink | decrement _ => []
  | grow => [.grow]
  | seq first rest => first.events ++ rest.events
  | declare _ value => value.events
  | hoist _ value => value.events
  | assertLess i j => i.events ++ j.events
  | setPost slot value => slot.events ++ value.events
  | setElement _ i value => i.events ++ value.events
  | block body => body.events
  | when _ operand _ body => operand.events ++ body.events
  | loop _ bound body => bound.events ++ body.events

/-- Whether the statement has no other inside. -/
def RowStmt.isSimple : RowStmt → Bool
  | seq .. | block .. | when .. | loop .. => false
  | _ => true

/-- A statement, or what is left to do of a loop. -/
inductive Phrase where
  | statement (stmt : RowStmt)
  | rounds (c : Counter) (bound : Index) (body : RowStmt)

def Phrase.events : Phrase → List Event
  | statement stmt => stmt.events
  | rounds _ bound body => bound.events ++ body.events

/-- Running a phrase leads from one state to another, with the events in order. -/
inductive Runs (x : Context) : Phrase → State → List Event → State → Prop where
  | simple {stmt : RowStmt} {s t : State} : stmt.isSimple = true → stmt.exec x s = some t →
      Runs x (.statement stmt) s stmt.events t
  | seq {first rest : RowStmt} {s t u : State} {es fs : List Event} :
      Runs x (.statement first) s es t → Runs x (.statement rest) t fs u →
      Runs x (.statement (.seq first rest)) s (es ++ fs) u
  | block {body : RowStmt} {s t : State} {es : List Event} : Runs x (.statement body) s es t →
      Runs x (.statement (.block body)) s es (t.leave s)
  | holds {condition : String} {operand : Index} {test : Nat → Bool} {body : RowStmt} {n : Nat}
      {s t : State} {es : List Event} : operand.eval x s = some n → test n = true →
      Runs x (.statement body) s es t →
      Runs x (.statement (.when condition operand test body)) s (operand.events ++ es) t
  | fails {condition : String} {operand : Index} {test : Nat → Bool} {body : RowStmt} {n : Nat}
      {s : State} : operand.eval x s = some n → test n = false →
      Runs x (.statement (.when condition operand test body)) s operand.events s
  | loop {c : Counter} {bound : Index} {body : RowStmt} {s t : State} {es : List Event} :
      Runs x (.rounds c bound body) (s.setCounter c (some 0)) es t →
      Runs x (.statement (.loop c bound body)) s es (t.setCounter c (s.counters c))
  | done {c : Counter} {bound : Index} {body : RowStmt} {s : State} :
      isBelow x c bound s = some false → Runs x (.rounds c bound body) s bound.events s
  | round {c : Counter} {bound : Index} {body : RowStmt} {s t u v : State} {es fs : List Event} :
      isBelow x c bound s = some true → Runs x (.statement body) s es t →
      advance x c t = some u → Runs x (.rounds c bound body) u fs v →
      Runs x (.rounds c bound body) s (bound.events ++ (es ++ fs)) v

/-- One round of a loop. -/
noncomputable def turn (x : Context) (c : Counter) (body : RowStmt) (s : State) : Option State := do
  advance x c (← body.exec x s)

/-- What executing a phrase leads to. -/
def Phrase.Leads (x : Context) (s t : State) : Phrase → Prop
  | statement stmt => stmt.exec x s = some t
  | rounds c bound body => Iterates (isBelow x c bound) (turn x c body) s t

variable {x : Context} {phrase : Phrase} {stmt body : RowStmt} {s t : State} {c : Counter}
  {bound : Index} {es : List Event}

theorem Runs.leads (h : Runs x phrase s es t) : phrase.Leads x s t := by
  induction h with
  | simple _ hexec => exact hexec
  | seq _ _ ihfirst ihrest => exact (exec_seq ihfirst).trans ihrest
  | block _ ih =>
      rw [Phrase.Leads] at ih ⊢
      rw [exec, ih]
      rfl
  | holds hoperand htest _ ih =>
      rw [Phrase.Leads] at ih ⊢
      rw [exec, hoperand]
      exact (if_pos htest).trans ih
  | fails hoperand htest =>
      rw [Phrase.Leads, exec, hoperand]
      exact if_neg (by simp [htest])
  | loop _ ih =>
      have hiterate := iterate_eq_some_iff.mpr ih
      unfold turn at hiterate
      rw [Phrase.Leads, exec, hiterate]
      rfl
  | done hguard => exact .done hguard
  | round hguard _ hadvance _ ihbody ihrest =>
      refine .step hguard ?_ ihrest
      rw [Phrase.Leads] at ihbody
      rw [turn, ihbody]
      exact hadvance

theorem exists_runs_rounds
    (hbody : ∀ s t, body.exec x s = some t → ∃ es, Runs x (.statement body) s es t)
    (h : Iterates (isBelow x c bound) (turn x c body) s t) :
    ∃ es, Runs x (.rounds c bound body) s es t := by
  induction h with
  | done hguard => exact ⟨_, .done hguard⟩
  | @step s t u hguard hturn _ ih =>
      obtain ⟨mid, hexec, hadvance⟩ := Option.bind_eq_some_iff.mp hturn
      obtain ⟨es, hrun⟩ := hbody s mid hexec
      obtain ⟨fs, hrest⟩ := ih
      exact ⟨_, .round hguard hrun hadvance hrest⟩

/-- Whatever is executed runs with some events. -/
theorem exists_runs (h : stmt.exec x s = some t) : ∃ es, Runs x (.statement stmt) s es t := by
  induction stmt generalizing s t with
  | skip | declare | hoist | assertLess | setPost | setElement | grow | shrink | decrement =>
      exact ⟨_, .simple rfl h⟩
  | seq first rest ihfirst ihrest =>
      rw [exec] at h
      obtain ⟨u, hfirst, hrest⟩ := Option.bind_eq_some_iff.mp h
      obtain ⟨es, hruns⟩ := ihfirst hfirst
      obtain ⟨fs, hruns'⟩ := ihrest hrest
      exact ⟨_, .seq hruns hruns'⟩
  | block body ih =>
      rw [exec] at h
      obtain ⟨u, hbody, hleave⟩ := Option.bind_eq_some_iff.mp h
      cases hleave
      obtain ⟨es, hruns⟩ := ih hbody
      exact ⟨_, .block hruns⟩
  | when condition operand test body ih =>
      rw [exec] at h
      obtain ⟨n, hoperand, hbranch⟩ := Option.bind_eq_some_iff.mp h
      cases htest : test n with
      | true =>
          rw [htest, if_pos rfl] at hbranch
          obtain ⟨es, hruns⟩ := ih hbranch
          exact ⟨_, .holds hoperand htest hruns⟩
      | false =>
          rw [htest, if_neg (by decide)] at hbranch
          cases hbranch
          exact ⟨_, .fails hoperand htest⟩
  | loop c bound body ih =>
      rw [exec] at h
      obtain ⟨u, hiterate, hcounter⟩ := Option.bind_eq_some_iff.mp h
      cases hcounter
      obtain ⟨es, hruns⟩ := exists_runs_rounds (fun _ _ => ih) (iterate_eq_some_iff.mp hiterate)
      exact ⟨_, .loop hruns⟩

/-- A run has no other events than those of its parts. -/
theorem Runs.mem_events (h : Runs x phrase s es t) : ∀ e ∈ es, e ∈ phrase.events := by
  induction h with
  | simple => exact fun _ he => he
  | seq _ _ ihfirst ihrest =>
      exact fun e he => List.mem_append.mpr ((List.mem_append.mp he).imp (ihfirst e) (ihrest e))
  | block _ ih | loop _ ih => exact ih
  | holds _ _ _ ih =>
      exact fun e he => List.mem_append.mpr ((List.mem_append.mp he).imp_right (ih e))
  | fails | done => exact fun _ he => List.mem_append_left _ he
  | round _ _ _ _ ihbody ihrest =>
      intro e he
      rcases List.mem_append.mp he with he | he
      · exact List.mem_append_left _ he
      · rcases List.mem_append.mp he with he | he
        · exact List.mem_append_right _ (ihbody e he)
        · exact ihrest e he

theorem Runs.eq_nil (h : Runs x phrase s es t) (hnone : phrase.events = []) : es = [] :=
  List.eq_nil_iff_forall_not_mem.mpr fun e he => by
    have hmem := h.mem_events e he
    rw [hnone] at hmem
    cases hmem

/-- What may be run more than once, or not at all, has no events. -/
def RowStmt.Straight : RowStmt → Prop
  | seq first rest => first.Straight ∧ rest.Straight
  | block body => body.Straight
  | when _ _ _ body => body.events = []
  | loop _ bound body => bound.events = [] ∧ body.events = []
  | _ => True

def Phrase.Straight : Phrase → Prop
  | statement stmt => stmt.Straight
  | rounds _ bound body => bound.events = [] ∧ body.events = []

/-- The events of such a phrase are the same in every run. -/
theorem Runs.events_eq (h : Runs x phrase s es t) (hstraight : phrase.Straight) :
    es = phrase.events := by
  induction h with
  | simple => rfl
  | seq _ _ ihfirst ihrest =>
      rw [ihfirst hstraight.1, ihrest hstraight.2]
      rfl
  | block _ ih => exact ih hstraight
  | loop _ ih => exact ih hstraight
  | @holds _ operand _ body _ _ _ _ _ _ hbody _ =>
      have hnone : body.events = [] := hstraight
      rw [hbody.eq_nil hnone, Phrase.events, events, hnone]
  | @fails _ operand _ body =>
      have hnone : body.events = [] := hstraight
      rw [Phrase.events, events, hnone, List.append_nil]
  | done => rw [Phrase.events, hstraight.2, List.append_nil]
  | @round c bound body _ _ _ _ _ _ _ hbody _ hrest _ _ =>
      have hnone : (Phrase.rounds c bound body).events = [] := by
        rw [Phrase.events, hstraight.1, hstraight.2]
        rfl
      rw [hbody.eq_nil hstraight.2, hrest.eq_nil hnone, hstraight.1, hnone]
      rfl

/-! ### The code that adds a synapse -/

theorem events_all (stmts : List RowStmt) : (all stmts).events = stmts.flatMap events := by
  induction stmts with
  | nil => rfl
  | cons stmt rest ih => rw [all, events, ih, List.flatMap_cons]

theorem straight_all {stmts : List RowStmt} (h : ∀ stmt ∈ stmts, stmt.Straight) :
    (all stmts).Straight := by
  induction stmts with
  | nil => trivial
  | cons stmt rest ih =>
      rw [List.forall_mem_cons] at h
      exact ⟨h.1, ih h.2⟩

section Addition

variable {batchSize : Nat} {a : SynapseArray} {arrays : List SynapseArray}

theorem events_storeCode (batchSize : Nat) (a : SynapseArray) (place : Constant) (value : Datum) :
    (storeCode a batchSize place fun _ => value).events = value.events := by
  rw [storeCode]
  split <;> rfl

/-- A value that is stored in every copy has no events. -/
theorem straight_storeCode {place : Constant} {value : Datum}
    (h : a.isBatched batchSize = true → value.events = []) :
    (storeCode a batchSize place fun _ => value).Straight := by
  rw [storeCode]
  split
  next hbatched => exact ⟨rfl, h hbatched⟩
  next => trivial

theorem events_additionStore (batchSize next : Nat) (a : SynapseArray) :
    (additionStore batchSize next a).events = if a.isArgument then [.argument next] else [] := by
  rw [additionStore]
  split
  next =>
    split
    next => rw [events, events_storeCode]; rfl
    next => rw [events_storeCode]; rfl
  next => rw [events_storeCode]; rfl

theorem straight_additionStore (batchSize next : Nat) (a : SynapseArray) :
    (additionStore batchSize next a).Straight := by
  rw [additionStore]
  split
  next =>
    split
    next => exact ⟨trivial, straight_storeCode fun _ => rfl⟩
    next hsingle => exact straight_storeCode fun hbatched => absurd hbatched hsingle
  next => exact straight_storeCode fun _ => rfl

/-- The number of arguments that arrays take. -/
def argumentCount (arrays : List SynapseArray) : Nat :=
  (arrays.filter SynapseArray.isArgument).length

theorem argumentCount_cons (a : SynapseArray) (rest : List SynapseArray) :
    argumentCount (a :: rest) =
      if a.isArgument then argumentCount rest + 1 else argumentCount rest := by
  rw [argumentCount, List.filter_cons]
  split <;> rfl

/-- The arrays take arguments in order. -/
theorem events_additionCodes (batchSize next : Nat) (arrays : List SynapseArray) :
    (additionCodes batchSize next arrays).flatMap events =
      (List.range' next (argumentCount arrays)).map Event.argument := by
  induction arrays generalizing next with
  | nil => rfl
  | cons a rest ih =>
      rw [additionCodes, List.flatMap_cons, ih, events_additionStore, nextArgument,
        argumentCount_cons]
      split <;> rfl

theorem events_additionCode (arrays : List SynapseArray) (batchSize : Nat) :
    (additionCode arrays batchSize).events =
      (List.range (argumentCount arrays + 1)).map Event.argument ++ [.grow] := by
  rw [additionCode, events, events_all, List.flatMap_append, List.flatMap_append,
    events_additionCodes, List.range_eq_range', List.range'_succ]
  rfl

theorem straight_additionCode (arrays : List SynapseArray) (batchSize : Nat) :
    (additionCode arrays batchSize).Straight := by
  have hstores : ∀ next, ∀ stmt ∈ additionCodes batchSize next arrays, stmt.Straight := by
    induction arrays with
    | nil => exact fun _ _ h => absurd h List.not_mem_nil
    | cons a rest ih =>
        exact fun next => List.forall_mem_cons.mpr
          ⟨straight_additionStore batchSize next a, ih (nextArgument next a)⟩
  refine straight_all fun stmt hstmt => ?_
  rcases List.mem_append.mp hstmt with hstmt | hgrow
  · rcases List.mem_append.mp hstmt with hfirst | hstore
    · simp only [List.mem_cons, List.not_mem_nil, or_false] at hfirst
      rcases hfirst with rfl | rfl | rfl <;> trivial
    · exact hstores 1 stmt hstore
  · obtain rfl := List.mem_singleton.mp hgrow
    trivial

/-- However the code that adds a synapse runs, the arguments are evaluated once, in order, and then
the row grows. -/
theorem runs_additionCode_iff :
    Runs x (.statement (additionCode arrays batchSize)) s es t ↔
      (additionCode arrays batchSize).exec x s = some t ∧
        es = (List.range (argumentCount arrays + 1)).map Event.argument ++ [.grow] := by
  rw [← events_additionCode arrays batchSize]
  constructor
  · exact fun h => ⟨h.leads, h.events_eq (straight_additionCode arrays batchSize)⟩
  · rintro ⟨hexec, rfl⟩
    obtain ⟨es, hruns⟩ := exists_runs hexec
    rwa [hruns.events_eq (straight_additionCode arrays batchSize)] at hruns

/-! ### The slots of the template -/

/-- The lines of the statement that stand in loops. -/
def RowStmt.loopLines : RowStmt → List String
  | seq first rest => first.loopLines ++ rest.loopLines
  | block body | when _ _ _ body => body.loopLines
  | loop c bound body => (loop c bound body).lines
  | _ => []

theorem slotDigits_marker {cs : List Char} (hfield : '$' ∉ a.field.toList) (hcs : '$' ∉ cs) :
    slotDigits (a.marker.toList ++ cs) = [] := by
  have hmarker : a.marker.toList ++ cs =
      '$' :: '(' :: '_' :: ("array_".toList ++ (a.field.toList ++ ')' :: cs)) := by
    simp [SynapseArray.marker, SynapseArray.pointerName]
  rw [hmarker, slotDigits_cons_of_not_digit rfl]
  refine slotDigits_of_not_mem ?_
  simp [hfield, hcs]

/-- A value without a slot is stored without one. -/
theorem slotDigits_storeLines {value line : String} (hfield : '$' ∉ a.field.toList)
    (hvalue : '$' ∉ value.toList) (hline : line ∈ storeLines a batchSize "newIdx" fun _ => value) :
    slotDigits line.toList = [] := by
  rw [storeLines] at hline
  split at hline
  next =>
    simp only [List.mem_cons, List.not_mem_nil, or_false] at hline
    rcases hline with rfl | rfl | rfl | rfl | rfl
    · have hdigits : '$' ∉ (toString batchSize).toList := fun hmem => by
        cases Text.isDigit_of_mem_toString hmem
      refine slotDigits_of_not_mem ?_
      simp only [String.toList_append, List.mem_append, not_or]
      exact ⟨⟨by decide, hdigits⟩, by decide⟩
    · decide
    · decide
    · simp only [String.toList_append, List.append_assoc]
      refine slotDigits_marker hfield ?_
      simp [hvalue]
    · decide
  next =>
    obtain rfl := List.mem_singleton.mp hline
    simp only [String.toList_append, List.append_assoc]
    refine slotDigits_marker hfield ?_
    simp [hvalue]

theorem loopLines_storeCode (a : SynapseArray) (batchSize : Nat) (value : Datum) :
    (storeCode a batchSize .newSlot fun _ => value).loopLines =
      if a.isBatched batchSize then storeLines a batchSize "newIdx" fun _ => value.text
      else [] := by
  have hlines := lines_storeCode a batchSize .newSlot (fun _ => value) (fun _ => value.text) rfl rfl
  rw [storeCode] at hlines ⊢
  split
  next hbatched =>
    rw [if_pos hbatched] at hlines
    exact hlines
  next => rfl

theorem loopLines_all (stmts : List RowStmt) :
    (all stmts).loopLines = stmts.flatMap loopLines := by
  induction stmts with
  | nil => rfl
  | cons stmt rest ih => rw [all, loopLines, ih, List.flatMap_cons]

/-- What stands in a loop that gives a new synapse its values stores a text without a slot. -/
theorem slotDigits_loopLines_store (hfield : '$' ∉ a.field.toList) (next : Nat) {line : String}
    (hline : line ∈ (additionStore batchSize next a).loopLines) : slotDigits line.toList = [] := by
  have hstore : ∀ value : Datum, '$' ∉ value.text.toList →
      line ∈ (storeCode a batchSize .newSlot fun _ => value).loopLines →
      slotDigits line.toList = [] := by
    intro value hvalue hmem
    rw [loopLines_storeCode] at hmem
    split at hmem
    next => exact slotDigits_storeLines hfield hvalue hmem
    next => cases hmem
  have hname : '$' ∉ (Datum.hoisted a).text.toList := by simp [Datum.text, hfield]
  rw [additionStore] at hline
  split at hline
  next =>
    split at hline
    next => exact hstore _ hname hline
    next hsingle =>
      rw [loopLines_storeCode, if_neg hsingle] at hline
      cases hline
  next => exact hstore .zero (by decide) hline

theorem slotDigits_loopLines_stores (hfields : ∀ a ∈ arrays, '$' ∉ a.field.toList) (next : Nat)
    {line : String} (hline : line ∈ (additionCodes batchSize next arrays).flatMap loopLines) :
    slotDigits line.toList = [] := by
  induction arrays generalizing next with
  | nil => cases hline
  | cons a rest ih =>
      rw [List.forall_mem_cons] at hfields
      rw [additionCodes, List.flatMap_cons] at hline
      rcases List.mem_append.mp hline with hfirst | hrest
      · exact slotDigits_loopLines_store hfields.1 next hfirst
      · exact ih hfields.2 (nextArgument next a) hrest

/-- No slot stands in a loop. -/
theorem slotDigits_loopLines (hfields : ∀ a ∈ arrays, '$' ∉ a.field.toList) {line : String}
    (hline : line ∈ (additionCode arrays batchSize).loopLines) : slotDigits line.toList = [] := by
  rw [additionCode, loopLines, loopLines_all, List.flatMap_append, List.flatMap_append] at hline
  rcases List.mem_append.mp hline with hline | hgrow
  · rcases List.mem_append.mp hline with hfirst | hstores
    · cases hfirst
    · exact slotDigits_loopLines_stores hfields 1 hstores
  · cases hgrow

/-- The line that stores an argument in the only copy of an array. -/
theorem assigns_storeLine (hfield : '$' ∉ a.field.toList) (hsingle : ¬a.isBatched batchSize = true)
    (k : Nat) : ∀ line ∈ storeLines a batchSize "newIdx" fun _ => slot k,
      Assigns [k] line.toList := by
  intro line hline
  rw [storeLines, if_neg hsingle, List.mem_singleton] at hline
  subst hline
  have hfront : slotDigits (a.marker.toList ++ "[newIdx] ".toList) = [] :=
    slotDigits_marker hfield (by decide)
  have htext : (a.marker ++ "[" ++ "newIdx" ++ "] = " ++ slot k ++ ";").toList =
      (a.marker.toList ++ "[newIdx] ".toList) ++ assigned (slot k).toList := by
    simp [assigned]
  rw [htext]
  exact .single k hfront

/-- The line that evaluates an argument for all copies of an array. -/
theorem assigns_hoist (hfield : '$' ∉ a.field.toList)
    (htype : slotDigits a.type.addConst.name.toList = []) (k : Nat) :
    Assigns [k] (a.type.addConst.name ++ " " ++ (a.field ++ "Val") ++ " = " ++ slot k ++
      ";").toList := by
  have hname : slotDigits (' ' :: (a.field ++ "Val ").toList) = [] :=
    slotDigits_of_not_mem (by simp [hfield])
  have hfront : slotDigits (a.type.addConst.name.toList ++ ' ' :: (a.field ++ "Val ").toList) =
      [] := by
    rw [slotDigits_append (by simp [isInsideSlot]), htype, hname]
    rfl
  have htext : (a.type.addConst.name ++ " " ++ (a.field ++ "Val") ++ " = " ++ slot k ++
      ";").toList = (a.type.addConst.name.toList ++ ' ' :: (a.field ++ "Val ").toList) ++
        assigned (slot k).toList := by
    simp [assigned]
  rw [htext]
  exact .single k hfront

/-- The named arrays take the slots in order. -/
theorem assigns_additionStores (hfields : ∀ a ∈ arrays, '$' ∉ a.field.toList)
    (htypes : ∀ a ∈ arrays, a.isArgument = true → a.isBatched batchSize = true →
      slotDigits a.type.addConst.name.toList = [])
    {tail : List String} (htail : ∀ line ∈ tail, slotDigits line.toList = []) (next : Nat) :
    Assigns (List.range' next (argumentCount arrays))
      (listing (additionStores batchSize next arrays ++ tail)) := by
  induction arrays generalizing next with
  | nil =>
      have hnone : Assigns [] (listing (tail ++ [])) := .append_lines htail (.none rfl)
      rwa [List.append_nil] at hnone
  | cons a rest ih =>
      rw [List.forall_mem_cons] at hfields htypes
      have hrest := ih hfields.2 htypes.2
      have hfree {value : String} {ks : List Nat} {lines : List String}
          (hvalue : '$' ∉ value.toList) (hlines : Assigns ks (listing lines)) :
          Assigns ks (listing ((storeLines a batchSize "newIdx" fun _ => value) ++ lines)) :=
        hlines.append_lines fun _ => slotDigits_storeLines hfields.1 hvalue
      rw [additionStores, argumentCount_cons]
      split
      next hnamed =>
        rw [List.range'_succ, ← List.singleton_append]
        split
        next hbatched =>
          rw [List.append_assoc, List.append_assoc]
          refine (assigns_hoist hfields.1 (htypes.1 hnamed hbatched) next).cons_line ?_
          exact hfree (by simp [hfields.1]) (hrest (next + 1))
        next hsingle =>
          have hstore := assigns_storeLine hfields.1 hsingle next
          rw [storeLines, if_neg hsingle] at hstore ⊢
          exact (hstore _ List.mem_cons_self).cons_line (hrest (next + 1))
      next =>
        rw [List.append_assoc]
        exact hfree (by decide) (hrest next)

/-- The template takes its arguments in order, each on the right of an assignment. -/
theorem takesArguments_additionTemplate (hfields : ∀ a ∈ arrays, '$' ∉ a.field.toList)
    (htypes : ∀ a ∈ arrays, a.isArgument = true → a.isBatched batchSize = true →
      slotDigits a.type.addConst.name.toList = []) :
    TakesArguments (additionTemplate arrays batchSize) (argumentCount arrays + 1) := by
  have hopen : ∀ line ∈ ["\x7b",
      "const unsigned int newIdx = $(_row_start_idx) + $(_row_length)[$(id_pre)];",
      Cuda.assertion "$(_row_length)[$(id_pre)] < $(_row_stride)"],
      slotDigits line.toList = [] := by decide
  have hclose : ∀ line ∈ ["$(_row_length)[$(id_pre)]++;", "\x7d"],
      slotDigits line.toList = [] := by decide
  have hfront : slotDigits "$(_ind)[newIdx] ".toList = [] := by decide
  have hpost : Assigns [0] "$(_ind)[newIdx] = $(0);".toList := .single 0 hfront
  have hstores := assigns_additionStores hfields htypes hclose 1
  apply Assigns.takesArguments
  rw [additionTemplate, blockText, List.range_eq_range', List.range'_succ, ← List.singleton_append]
  refine Assigns.trimEnd_text ?_
  rw [List.append_assoc]
  have hlines := Assigns.append_lines hopen (hpost.cons_line hstores)
  exact hlines

end Addition

/-- The code that adds a synapse has one slot for each argument of its type, in order, and none in
a loop: fields have no dollars in their names, and neither has the name of a type a slot where it is
spelled. When the slots are filled and the code runs, every argument is evaluated once, in order,
and only then the row grows. -/
theorem addition_evaluates_arguments_in_order (arrays : List SynapseArray) (batchSize : Nat)
    (hfields : ∀ a ∈ arrays, '$' ∉ a.field.toList)
    (htypes : ∀ a ∈ arrays, a.isArgument = true → a.isBatched batchSize = true →
      slotDigits a.type.addConst.name.toList = []) :
    (∃ types, additionType arrays = .fn .none types ∧ types.length = argumentCount arrays + 1) ∧
      TakesArguments (additionTemplate arrays batchSize) (argumentCount arrays + 1) ∧
      additionTemplate arrays batchSize = blockText (additionCode arrays batchSize).lines ∧
      (∀ line ∈ (additionCode arrays batchSize).loopLines, slotDigits line.toList = []) ∧
      ∀ x s es t, Runs x (.statement (additionCode arrays batchSize)) s es t ↔
        (additionCode arrays batchSize).exec x s = some t ∧
          es = (List.range (argumentCount arrays + 1)).map Event.argument ++ [.grow] := by
  refine ⟨⟨_, rfl, ?_⟩, takesArguments_additionTemplate hfields htypes,
    additionTemplate_eq arrays batchSize, fun line => slotDigits_loopLines hfields,
    fun x s es t => runs_additionCode_iff⟩
  rw [List.length_cons, List.length_map, argumentCount]

/-- Arrays with and without a name and with one copy or many. -/
def mixedArrays : List SynapseArray :=
  [⟨some "g", "g", .num .float, false, false, ["d_gSyn"]⟩,
    ⟨none, "_dependentVar0", .num .float, true, false, ["d_xOther"]⟩,
    ⟨some "d", "d", .uint, true, false, ["d_dSyn"]⟩]

theorem addition_evaluates_arguments_in_order_mixed :
    (∀ a ∈ mixedArrays, '$' ∉ a.field.toList) ∧
      (∀ a ∈ mixedArrays, a.isArgument = true → a.isBatched 2 = true →
        slotDigits a.type.addConst.name.toList = []) ∧
      slotDigits (additionTemplate mixedArrays 2).toList = [['0'], ['1'], ['2']] ∧
      ∀ x s es t, Runs x (.statement (additionCode mixedArrays 2)) s es t →
        es = [.argument 0, .argument 1, .argument 2, .grow] := by
  have hfields : ∀ a ∈ mixedArrays, '$' ∉ a.field.toList := by decide
  have htypes : ∀ a ∈ mixedArrays, a.isArgument = true → a.isBatched 2 = true →
      slotDigits a.type.addConst.name.toList = [] := by decide
  obtain ⟨-, htakes, -, -, hruns⟩ :=
    addition_evaluates_arguments_in_order mixedArrays 2 hfields htypes
  exact ⟨hfields, htypes, htakes.slots, fun x s es t h => ((hruns x s es t).mp h).2⟩

/-- An array with a copy for every batch, of a type whose name looks like a slot. -/
def markedArray : SynapseArray where
  binding := some "g"
  field := "g"
  type := .named "$(1)" 4
  duplicated := true
  readOnly := false
  values := ["d_gSyn"]

/-- The name of a type can bring along a slot, although there is no dollar in the name of the
field. -/
theorem additionTemplate_markedArray :
    (∀ a ∈ [markedArray], '$' ∉ a.field.toList) ∧
      slotDigits (additionTemplate [markedArray] 2).toList = [['0'], ['1'], ['1']] ∧
      ¬TakesArguments (additionTemplate [markedArray] 2) (argumentCount [markedArray] + 1) := by
  have hslots : slotDigits (additionTemplate [markedArray] 2).toList = [['0'], ['1'], ['1']] := by
    rw [additionTemplate, blockText, slotDigits_trimEnd_text]
    decide
  refine ⟨by decide, hslots, fun h => ?_⟩
  have heq := hslots.symm.trans h.slots
  revert heq
  decide

end KernelWeaver.Synapses
