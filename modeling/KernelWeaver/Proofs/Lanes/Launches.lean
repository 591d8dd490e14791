import KernelWeaver.Proofs.Device.Structs
import KernelWeaver.Proofs.Lanes.Dispatch
import KernelWeaver.Proofs.Merge.Partition
import KernelWeaver.Proofs.Table

/-!
# Launches and tables

A kernel that emits merged groups is launched with exactly the lanes that their members own
together. A group with more than one member, and no other, has a table, which lists the first lanes
of its members.
-/

namespace KernelWeaver.Generate

open Code LaneRange

/-! ### Structs and tables -/

/-- A group and the names of its members. -/
abbrev GroupHead := GroupId × List String

/-- The group that code has been generated for. -/
def Dispatched.head (d : Dispatched) : GroupHead := (d.struct.id, d.struct.members)

/-- Groups and the names of their members. -/
def headsOf {α : Type} (nameOf : α → String) (groups : List (MergedGroup α)) : List GroupHead :=
  groups.map fun g => (g.id, g.members.map nameOf)

/-- The groups that a call emits. -/
def DispatchCall.heads (call : DispatchCall) : List GroupHead := headsOf call.nameOf call.groups

/-- Code has been emitted for groups, with a first lane for each member. -/
structure Serves (emitted : List Dispatched) (heads : List GroupHead) : Prop where
  heads_eq : emitted.map Dispatched.head = heads
  length_starts : ∀ d ∈ emitted, d.range.starts.length = d.struct.members.length

theorem Serves.append {first second : List Dispatched} {heads heads' : List GroupHead}
    (h : Serves first heads) (h' : Serves second heads') :
    Serves (first ++ second) (heads ++ heads') := by
  constructor
  · rw [List.map_append, h.heads_eq, h'.heads_eq]
  · intro d hd
    rcases List.mem_append.mp hd with hd | hd
    · exact h.length_starts d hd
    · exact h'.length_starts d hd

theorem length_startsFrom {blockSize next stop : Nat} {sizes starts : List Nat}
    (h : startsFrom blockSize next sizes = .ok (starts, stop)) : starts.length = sizes.length := by
  induction sizes generalizing next starts with
  | nil =>
      cases h
      rfl
  | cons size sizes ih =>
      obtain ⟨padded, _, h⟩ := bind_eq_ok.mp h
      obtain ⟨middle, _, h⟩ := bind_eq_ok.mp h
      obtain ⟨⟨rest, last⟩, hrest, heq⟩ := bind_eq_ok.mp h
      cases heq
      rw [List.length_cons, List.length_cons, ih hrest]

theorem length_starts_ofSizes {blockSize start : Nat} {sizes : List Nat} {range : LaneRange}
    (h : ofSizes start sizes blockSize = .ok range) : range.starts.length = sizes.length := by
  obtain ⟨⟨starts, stop⟩, hstarts, heq⟩ := bind_eq_ok.mp h
  cases heq
  exact length_startsFrom hstarts

section Groups

variable {α : Type} {nameOf : α → String} {lanes : α → Checked Nat}
variable {body : MergedGroup α → Emit StructFields} {blockSize : Nat}

theorem dispatchFrom_serves {id : String} {start stop : Nat} {groups : List (MergedGroup α)}
    {c c' : Chain} {emitted : List Dispatched}
    (hrun : (dispatchFrom id blockSize nameOf lanes body start groups).runOn c =
      (.ok (emitted, stop), c')) :
    Serves emitted (headsOf nameOf groups) := by
  induction groups generalizing start c emitted with
  | nil =>
      cases hrun
      exact ⟨rfl, fun _ hd => absurd hd List.not_mem_nil⟩
  | cons g groups ih =>
      rw [dispatchFrom] at hrun
      obtain ⟨sizes, _, hlanes, hrun⟩ := Emit.runOn_bind_eq_ok.mp hrun
      obtain ⟨hsizes, rfl⟩ := Emit.runOn_ofChecked_eq_ok.mp hlanes
      obtain ⟨range, _, hlaid, hrun⟩ := Emit.runOn_bind_eq_ok.mp hrun
      obtain ⟨hrange, rfl⟩ := Emit.runOn_ofChecked_eq_ok.mp hlaid
      obtain ⟨fields, _, _, hrun⟩ := Emit.runOn_bind_eq_ok.mp hrun
      obtain ⟨⟨rest, last⟩, _, hrest, hrun⟩ := Emit.runOn_bind_eq_ok.mp hrun
      cases hrun
      have hlength : range.starts.length = (g.members.map nameOf).length := by
        rw [length_starts_ofSizes hrange, List.length_map, (mapM_eq_ok_iff.mp hsizes).length_eq]
      have hfirst : Serves [⟨⟨g.id, g.members.map nameOf, fields⟩, range⟩]
          [(g.id, g.members.map nameOf)] :=
        ⟨rfl, List.forall_mem_singleton.mpr hlength⟩
      exact hfirst.append (ih hrest)

end Groups

theorem dispatchCalls_serves {blockSize start stop : Nat} {calls : List DispatchCall}
    {c c' : Chain} {emitted : List Dispatched}
    (hrun : (dispatchCalls blockSize start calls).runOn c = (.ok (emitted, stop), c')) :
    Serves emitted (calls.flatMap DispatchCall.heads) := by
  induction calls generalizing start c emitted with
  | nil =>
      cases hrun
      exact ⟨rfl, fun _ hd => absurd hd List.not_mem_nil⟩
  | cons call calls ih =>
      rw [dispatchCalls] at hrun
      obtain ⟨⟨first, middle⟩, _, hfirst, hrun⟩ := Emit.runOn_bind_eq_ok.mp hrun
      obtain ⟨⟨rest, last⟩, _, hrest, hrun⟩ := Emit.runOn_bind_eq_ok.mp hrun
      cases hrun
      obtain ⟨id, _, _, hfrom⟩ := Emit.runOn_bind_eq_ok.mp hfirst
      exact (dispatchFrom_serves hfrom).append (ih hrest)

/-- The names of the tables that groups need: a single member needs none. -/
def tableNames (heads : List GroupHead) : List String :=
  (heads.filter fun head => 1 < head.2.length).map fun head => head.1.startTable

/-- Exactly the groups with more than one member have a table. -/
theorem Serves.startTables_eq {emitted : List Dispatched} {heads : List GroupHead}
    (h : Serves emitted heads) :
    startTables emitted = (emitted.filter fun d => 1 < d.struct.members.length).map fun d =>
      (d.struct.id.startTable, d.range.starts) := by
  have htable : ∀ d ∈ emitted, d.startTable? =
      if 1 < d.struct.members.length then some (d.struct.id.startTable, d.range.starts)
      else none := fun d hd => by rw [Dispatched.startTable?, h.length_starts d hd]
  rw [startTables, List.filterMap_congr htable, ← List.filterMap_eq_map, List.filterMap_filter]
  simp

theorem Serves.map_fst_startTables {emitted : List Dispatched} {heads : List GroupHead}
    (h : Serves emitted heads) : (startTables emitted).map Prod.fst = tableNames heads := by
  rw [h.startTables_eq, tableNames, ← h.heads_eq, List.map_map, List.filter_map, List.map_map]
  rfl

/-! ### Kernels -/

theorem Launch.ofLanes_eq_ok {name : String} {lanes blockSize : Nat} {launch : Launch} :
    Launch.ofLanes name lanes blockSize = .ok launch ↔
      0 < blockSize ∧ launch = ⟨name, lanes / blockSize, blockSize⟩ := by
  rw [Launch.ofLanes, bind_eq_ok]
  constructor
  · rintro ⟨blocks, hblocks, heq⟩
    obtain ⟨hblock, rfl⟩ := quotient_eq_ok_iff.mp hblocks
    cases heq
    exact ⟨Nat.pos_of_ne_zero hblock, rfl⟩
  · rintro ⟨hblock, rfl⟩
    exact ⟨_, quotient_eq_ok_iff.mpr ⟨Nat.ne_of_gt hblock, rfl⟩, rfl⟩

/-- The lanes of a launch. -/
def Launch.lanes (l : Launch) : Nat := l.blocks * l.blockSize

/-- A launch of a kernel that emits the groups of calls one after the other: its blocks have exactly
the lanes of the groups. -/
structure Launches (t : Target) (kernel : Kernel) (name : String) (calls : List DispatchCall)
    (emitted : List Dispatched) (launch : Launch) : Prop where
  kernel_eq : launch.kernel = name
  blockSize : launch.blockSize = t.blockSize kernel
  serves : Serves emitted (calls.flatMap DispatchCall.heads)
  covers : ∃ sizes, callSizes calls = .ok sizes ∧
    Covers launch.blockSize 0 sizes emitted launch.lanes

theorem launches_of_run {t : Target} {kernel : Kernel} {calls : List DispatchCall} {name : String}
    {c c' : Chain} {emitted : List Dispatched} {lanes : Nat} {launch : Launch}
    (hrun : (dispatchCalls (t.blockSize kernel) 0 calls).runOn c = (.ok (emitted, lanes), c'))
    (hlaunch : Launch.ofLanes name lanes (t.blockSize kernel) = .ok launch) :
    Launches t kernel name calls emitted launch ∧ launch.lanes = lanes := by
  obtain ⟨hblock, rfl⟩ := Launch.ofLanes_eq_ok.mp hlaunch
  obtain ⟨sizes, hsizes, hcovers⟩ := dispatchCalls_covers hblock (Nat.two_pow_pos 32) hrun
  -- the lanes of members are whole blocks, so the quotient is exact
  have hexact : lanes / t.blockSize kernel * t.blockSize kernel = lanes := by
    apply Nat.div_mul_cancel
    rw [hcovers.stop_eq, Nat.zero_add]
    exact dvd_laneCount _ _
  refine ⟨⟨rfl, rfl, dispatchCalls_serves hrun, sizes, hsizes, ?_⟩, hexact⟩
  rwa [Launch.lanes, hexact]

theorem Target.exists_run_of_writeKernel {α : Type} {t : Target} {kernel : Kernel}
    {name parameters : String} {preamble : List String} {body : Emit α} {s s' : CodeStream} {a : α}
    (h : t.writeKernel kernel name parameters preamble body s = .ok (a, s')) :
    ∃ c c', body.runOn c = (.ok a, c') := by
  obtain ⟨⟨a', s₁⟩, hinto, heq⟩ := bind_eq_ok.mp h
  cases heq
  obtain ⟨c', hrun, _⟩ := Emit.runInto_eq_ok.mp hinto
  obtain ⟨_, c₁, _, hrun⟩ := Emit.runOn_bind_eq_ok.mp hrun
  obtain ⟨_, c₂, _, hrun⟩ := Emit.runOn_bind_eq_ok.mp hrun
  exact ⟨c₂, c', hrun⟩

theorem dispatchCalls_singleton (blockSize start : Nat) (call : DispatchCall) :
    dispatchCalls blockSize start [call] =
      dispatch blockSize call.nameOf call.lanes call.body start call.groups := by
  simp only [dispatchCalls, pure_bind, List.append_nil]
  exact bind_pure _

/-- The call that emits custom updates. -/
def updateCall (t : Target) (groups : List (MergedGroup CustomUpdate)) : DispatchCall :=
  ⟨CustomUpdate, CustomUpdate.name, t.updateLanes (t.blockSize .update),
    emitUpdate t (t.blockSize .update), groups⟩

/-- The call that emits connectivity updates. -/
def connectivityCall (t : Target) (groups : List (MergedGroup ConnectivityUpdate)) :
    DispatchCall :=
  ⟨ConnectivityUpdate, ConnectivityUpdate.name, fun u => .ok u.synapses.numPre,
    emitConnectivity t, groups⟩

/-- The call that emits the initialisation of synapses behind `offset` lanes. -/
def synapseCall (t : Target) (offset : Nat) (groups : List (MergedGroup ConnectivityUpdate)) :
    DispatchCall :=
  ⟨ConnectivityUpdate, ConnectivityUpdate.name, fun u => .ok u.synapses.rowStride,
    emitSparseInit t (t.blockSize .sparseInit) offset, groups⟩

variable {t : Target} {m : MergedModel} {s s' : CodeStream} {name : String}

theorem launches_of_writeKernel (call : DispatchCall) {kernel : Kernel} {parameters : String}
    {preamble : List String} {setup : Emit Unit} {emitted : List Dispatched} {lanes : Nat}
    {launch : Launch}
    (hkernel : t.writeKernel kernel name parameters preamble (do
        setup
        dispatch (t.blockSize kernel) call.nameOf call.lanes call.body 0 call.groups) s =
      .ok ((emitted, lanes), s'))
    (hlaunch : Launch.ofLanes name lanes (t.blockSize kernel) = .ok launch) :
    Launches t kernel name [call] emitted launch := by
  obtain ⟨c, c', hrun⟩ := Target.exists_run_of_writeKernel hkernel
  obtain ⟨_, _, _, hdispatch⟩ := Emit.runOn_bind_eq_ok.mp hrun
  rw [← dispatchCalls_singleton] at hdispatch
  exact (launches_of_run hdispatch hlaunch).1

theorem writeUpdateKernel_launches {groups : List (MergedGroup CustomUpdate)}
    {emitted : List Dispatched} {launch : Launch}
    (h : writeUpdateKernel t name groups s = .ok (emitted, launch, s')) :
    Launches t .update (Kernel.update.name ++ name) [updateCall t groups] emitted launch := by
  obtain ⟨⟨⟨emitted', lanes⟩, s₁⟩, hkernel, h⟩ := bind_eq_ok.mp h
  obtain ⟨launch', hlaunch, heq⟩ := bind_eq_ok.mp h
  cases heq
  exact launches_of_writeKernel (updateCall t groups) hkernel (Attempt.ofChecked_eq_ok.mp hlaunch)

theorem writeConnectivityKernel_launches {groups : List (MergedGroup ConnectivityUpdate)}
    {emitted : List Dispatched} {launch : Launch}
    (h : writeConnectivityKernel t name groups s = .ok (emitted, launch, s')) :
    Launches t .connectivity (Kernel.connectivity.name ++ name) [connectivityCall t groups] emitted
      launch := by
  obtain ⟨⟨⟨emitted', lanes⟩, s₁⟩, hkernel, h⟩ := bind_eq_ok.mp h
  obtain ⟨launch', hlaunch, heq⟩ := bind_eq_ok.mp h
  cases heq
  exact launches_of_writeKernel (connectivityCall t groups) hkernel
    (Attempt.ofChecked_eq_ok.mp hlaunch)

/-- A kernel is launched for the groups of calls unless there are none. -/
inductive LaunchedIfAny (t : Target) (kernel : Kernel) (name : String)
    (calls : List DispatchCall) : List Dispatched → List Launch → Prop where
  | none : calls.flatMap DispatchCall.heads = [] → LaunchedIfAny t kernel name calls [] []
  | one {emitted : List Dispatched} {launch : Launch} :
      calls.flatMap DispatchCall.heads ≠ [] → Launches t kernel name calls emitted launch →
      LaunchedIfAny t kernel name calls emitted [launch]

theorem LaunchedIfAny.serves {kernel : Kernel} {calls : List DispatchCall}
    {emitted : List Dispatched} {launches : List Launch}
    (h : LaunchedIfAny t kernel name calls emitted launches) :
    Serves emitted (calls.flatMap DispatchCall.heads) := by
  cases h with
  | none hempty =>
      rw [hempty]
      exact ⟨rfl, fun _ hd => absurd hd List.not_mem_nil⟩
  | one _ h => exact h.serves

theorem heads_singleton_eq_nil {call : DispatchCall} :
    [call].flatMap DispatchCall.heads = [] ↔ call.groups = [] := by
  rw [List.flatMap_singleton, DispatchCall.heads, headsOf, List.map_eq_nil_iff]

theorem writeIfAny_launched {α : Type} {kernel : Kernel}
    {write : List α → CodeStream → Attempt (List Dispatched × Launch × CodeStream)}
    {groups : List α} {emitted : List Dispatched} {launches : List Launch}
    (h : writeIfAny write groups s = .ok (emitted, launches, s')) {call : DispatchCall}
    (hgroups : call.groups = [] ↔ groups = [])
    (hwrite : ∀ launch, write groups s = .ok (emitted, launch, s') →
      Launches t kernel name [call] emitted launch) :
    LaunchedIfAny t kernel name [call] emitted launches := by
  rw [writeIfAny] at h
  split at h
  next hempty =>
    cases h
    exact .none (heads_singleton_eq_nil.mpr (hgroups.mpr (List.isEmpty_iff.mp hempty)))
  next hempty =>
    obtain ⟨⟨emitted', launch, s₁⟩, hrun, heq⟩ := bind_eq_ok.mp h
    cases heq
    refine .one ?_ (hwrite launch hrun)
    rw [ne_eq, heads_singleton_eq_nil, hgroups, ← List.isEmpty_iff]
    exact hempty

/-! ### Update groups -/

/-- What is generated for an update group. -/
structure GroupRun where
  name : String
  updates : List Dispatched
  updateLaunches : List Launch
  connectivity : List Dispatched
  connectivityLaunches : List Launch
  host : CodeStream

/-- The merged groups under a name. -/
def groupsOf {α : Type} (groups : List (String × List (MergedGroup α))) (name : String) :
    List (MergedGroup α) := (Table.find? groups name).getD []

/-- Each kernel is launched exactly if the update group has merged groups for it. -/
structure GroupRun.Launched (t : Target) (m : MergedModel) (run : GroupRun) : Prop where
  updates : LaunchedIfAny t .update (Kernel.update.name ++ run.name)
    [updateCall t (groupsOf m.updates run.name)] run.updates run.updateLaunches
  connectivity : LaunchedIfAny t .connectivity (Kernel.connectivity.name ++ run.name)
    [connectivityCall t (groupsOf m.connectivity run.name)] run.connectivity
    run.connectivityLaunches

/-- The tables of an update group. -/
def GroupRun.tables (run : GroupRun) : List StartTable :=
  startTables run.updates ++ startTables run.connectivity

/-- The functions that launch update groups. -/
def writeLaunchers (t : Target) (runs : List GroupRun) (s : CodeStream) : CodeStream :=
  runs.foldl (fun s run =>
    writeLauncher t run.name (run.updateLaunches ++ run.connectivityLaunches) run.host s) s

/-- What has been generated for update groups one after the other. -/
structure UpdateCode.Consists (t : Target) (m : MergedModel) (runs : List GroupRun)
    (c : UpdateCode) : Prop where
  launched : ∀ run ∈ runs, run.Launched t m
  launchers : c.launchers = writeLaunchers t runs .empty
  updates : c.updates = runs.flatMap fun run => run.updates.map (·.struct)
  connectivity : c.connectivity = runs.flatMap fun run => run.connectivity.map (·.struct)
  tables : c.tables = runs.flatMap GroupRun.tables

theorem UpdateCode.consists_addGroup {runs : List GroupRun} {c c' : UpdateCode}
    (hc : c.Consists t m runs) (h : c.addGroup t m name = .ok c') :
    ∃ run, run.name = name ∧ c'.Consists t m (runs ++ [run]) := by
  obtain ⟨⟨updates, launches, s₁⟩, hupdates, h⟩ := bind_eq_ok.mp h
  obtain ⟨⟨connectivity, launches', s₂⟩, hconnectivity, h⟩ := bind_eq_ok.mp h
  obtain ⟨⟨structs, hostCode⟩, _, heq⟩ := bind_eq_ok.mp h
  cases heq
  refine ⟨⟨name, updates, launches, connectivity, launches', hostCode⟩, rfl, ?_⟩
  constructor
  · rw [List.forall_mem_append, List.forall_mem_singleton]
    refine ⟨hc.launched, ?_, ?_⟩
    · exact writeIfAny_launched hupdates Iff.rfl fun _ => writeUpdateKernel_launches
    · exact writeIfAny_launched hconnectivity Iff.rfl fun _ => writeConnectivityKernel_launches
  · rw [writeLaunchers, List.foldl_append, List.foldl_cons, List.foldl_nil]
    exact congrArg (writeLauncher t name (launches ++ launches') hostCode) hc.launchers
  · rw [List.flatMap_append, List.flatMap_cons, List.flatMap_nil, List.append_nil, ← hc.updates]
  · rw [List.flatMap_append, List.flatMap_cons, List.flatMap_nil, List.append_nil,
      ← hc.connectivity]
  · rw [List.flatMap_append, List.flatMap_cons, List.flatMap_nil, List.append_nil, ← hc.tables,
      GroupRun.tables, ← List.append_assoc]

/-- The code for updates is that of the update groups in order. -/
theorem exists_runs_of_writeUpdates {c : UpdateCode} (h : writeUpdates t m = .ok c) :
    ∃ runs, runs.map GroupRun.name = t.model.groups ∧ c.Consists t m runs := by
  have hrun : ∀ (names : List String) (runs : List GroupRun) (c : UpdateCode),
      c.Consists t m runs → ∀ c', names.foldlM (UpdateCode.addGroup t m) c = .ok c' →
      ∃ more, more.map GroupRun.name = names ∧ c'.Consists t m (runs ++ more) := by
    intro names
    induction names with
    | nil =>
        intro runs c hc c' h
        cases h
        exact ⟨[], rfl, by rwa [List.append_nil]⟩
    | cons name names ih =>
        intro runs c hc c' h
        rw [List.foldlM_cons] at h
        obtain ⟨c₁, hfirst, h⟩ := bind_eq_ok.mp h
        obtain ⟨run, hname, hc₁⟩ := UpdateCode.consists_addGroup hc hfirst
        obtain ⟨more, hmore, hc'⟩ := ih _ c₁ hc₁ c' h
        refine ⟨run :: more, by rw [List.map_cons, hname, hmore], ?_⟩
        rwa [List.append_assoc] at hc'
  have hempty : UpdateCode.Consists t m [] ⟨.empty, .empty, [], [], [], []⟩ :=
    ⟨fun _ h => absurd h List.not_mem_nil, rfl, rfl, rfl, rfl⟩
  exact hrun t.model.groups [] _ hempty c h

/-! ### Initialisation -/

/-- The code has the launches, structs and tables of one more kernel, or of none. -/
structure InitCode.Adds (c : InitCode) (emitted : List Dispatched) (launches : List Launch)
    (c' : InitCode) : Prop where
  launches : c'.launches = c.launches ++ launches
  groups : c'.groups = c.groups ++ emitted.map (·.struct)
  tables : c'.tables = c.tables ++ startTables emitted

theorem InitCode.adds_nothing (c : InitCode) : c.Adds [] [] c :=
  ⟨(List.append_nil _).symm, (List.append_nil _).symm, (List.append_nil _).symm⟩

theorem InitCode.launches_of_add {kernel : Kernel} {preamble : List String}
    {body : Nat → Emit (List Dispatched × Nat)} {calls : List DispatchCall} {c c' : InitCode}
    {lanes : Nat}
    (hbody : body (t.blockSize kernel) = dispatchCalls (t.blockSize kernel) 0 calls)
    (h : InitCode.add t kernel preamble body c = .ok (c', lanes)) :
    ∃ emitted launch, Launches t kernel (kernel.name ++ "Kernel") calls emitted launch ∧
      launch.lanes = lanes ∧ c.Adds emitted [launch] c' := by
  obtain ⟨⟨⟨emitted, lanes'⟩, s⟩, hkernel, h⟩ := bind_eq_ok.mp h
  obtain ⟨launch, hlaunch, heq⟩ := bind_eq_ok.mp h
  cases heq
  obtain ⟨_, _, hrun⟩ := Target.exists_run_of_writeKernel hkernel
  rw [hbody] at hrun
  obtain ⟨hlaunches, hlanes⟩ := launches_of_run hrun (Attempt.ofChecked_eq_ok.mp hlaunch)
  exact ⟨emitted, launch, hlaunches, hlanes, rfl, rfl, rfl⟩

/-- The kernel that initialises populations. -/
def elementsKernel : String := Kernel.init.name ++ "Kernel"

/-- The kernel that initialises synapses. -/
def synapsesKernel : String := Kernel.sparseInit.name ++ "Kernel"

theorem heads_elementCalls_eq_nil :
    (elementCalls t m).flatMap DispatchCall.heads = [] ↔
      m.init = [] ∧ m.preInit = [] ∧ m.postInit = [] := by
  simp only [elementCalls, DispatchCall.heads, headsOf, List.flatMap_cons, List.flatMap_nil,
    List.append_nil, List.append_eq_nil_iff, List.map_eq_nil_iff]

/-- The lanes of synapses come behind those of populations, of which there are none without a
kernel. -/
theorem InitCode.launched_of_addElements {c c' : InitCode} (hc : c.lanes = 0)
    (h : c.addElements t m = .ok c') :
    ∃ emitted launches,
      LaunchedIfAny t .init elementsKernel (elementCalls t m) emitted launches ∧
      c.Adds emitted launches c' ∧ c'.lanes = (launches.map Launch.lanes).sum := by
  rw [addElements] at h
  simp only [Bool.and_eq_true, List.isEmpty_iff, and_assoc] at h
  split at h
  next hempty =>
    cases h
    exact ⟨[], [], .none (heads_elementCalls_eq_nil.mpr hempty), c.adds_nothing, hc⟩
  next hsome =>
    obtain ⟨⟨c₁, lanes⟩, hadd, heq⟩ := bind_eq_ok.mp h
    cases heq
    obtain ⟨emitted, launch, hlaunches, rfl, hadds⟩ :=
      launches_of_add (elementsBody_eq_dispatchCalls t m _) hadd
    refine ⟨emitted, [launch], .one (fun h => hsome (heads_elementCalls_eq_nil.mp h)) hlaunches,
      ⟨hadds.launches, hadds.groups, hadds.tables⟩, ?_⟩
    exact List.sum_singleton.symm

theorem InitCode.launched_of_addSynapses {c c' : InitCode} (h : c.addSynapses t m = .ok c') :
    ∃ emitted launches,
      LaunchedIfAny t .sparseInit synapsesKernel [synapseCall t c.lanes m.sparseInit] emitted
        launches ∧
      c.Adds emitted launches c' := by
  rw [addSynapses] at h
  split at h
  next hempty =>
    cases h
    exact ⟨[], [], .none (heads_singleton_eq_nil.mpr (List.isEmpty_iff.mp hempty)),
      c.adds_nothing⟩
  next hsome =>
    obtain ⟨⟨c₁, lanes⟩, hadd, heq⟩ := bind_eq_ok.mp h
    cases heq
    have hbody := dispatchCalls_singleton (t.blockSize .sparseInit) 0
      (synapseCall t c.lanes m.sparseInit)
    obtain ⟨emitted, launch, hlaunches, _, hadds⟩ := launches_of_add hbody.symm hadd
    refine ⟨emitted, [launch], .one ?_ hlaunches, hadds⟩
    rw [ne_eq, heads_singleton_eq_nil, ← List.isEmpty_iff]
    exact hsome

/-- What is generated for initialisation: the kernels of populations and of synapses, each unless it
has no groups, and a function that launches them. The synapses draw random numbers behind all lanes
of the populations. -/
structure InitCode.Consists (t : Target) (m : MergedModel) (elements synapses : List Dispatched)
    (first second : List Launch) (c : InitCode) : Prop where
  elements_launched : LaunchedIfAny t .init elementsKernel (elementCalls t m) elements first
  synapses_launched : LaunchedIfAny t .sparseInit synapsesKernel
    [synapseCall t (first.map Launch.lanes).sum m.sparseInit] synapses second
  launches : c.launches = (InitCode.start t).launches ++ first ++ second
  groups : c.groups = elements.map (·.struct) ++ synapses.map (·.struct)
  tables : c.tables = startTables elements ++ startTables synapses
  launcher : ∃ c₀ : InitCode, c₀.launches = c.launches ∧ c = c₀.addLauncher t

theorem exists_consists_of_writeInit {c : InitCode} (h : writeInit t m = .ok c) :
    ∃ elements synapses first second, c.Consists t m elements synapses first second := by
  obtain ⟨c₁, hfirst, h⟩ := bind_eq_ok.mp h
  obtain ⟨c₂, hsecond, heq⟩ := bind_eq_ok.mp h
  cases heq
  have hstart : (InitCode.start t).lanes = 0 ∧ (InitCode.start t).groups = [] ∧
      (InitCode.start t).tables = [] := by
    rw [InitCode.start]
    split <;> exact ⟨rfl, rfl, rfl⟩
  obtain ⟨elements, first, helements, hadds, hlanes⟩ :=
    InitCode.launched_of_addElements hstart.1 hfirst
  obtain ⟨synapses, second, hsynapses, hadds'⟩ := InitCode.launched_of_addSynapses hsecond
  refine ⟨elements, synapses, first, second, helements, hlanes ▸ hsynapses, ?_, ?_, ?_,
    c₂, rfl, rfl⟩
  · rw [← hadds.launches]
    exact hadds'.launches
  · refine hadds'.groups.trans ?_
    rw [hadds.groups, hstart.2.1, List.nil_append]
  · refine hadds'.tables.trans ?_
    rw [hadds.tables, hstart.2.2, List.nil_append]

/-! ### Subsequences of random numbers -/

/-- The number of the subsequence of a lane behind `offset` earlier lanes. In the code of kernels a
lane is a word of 32 bits, and so is its sum with a number that a signed word can hold; with a
greater number the sum is one of 64 bits. -/
def laneSubsequence (id offset : Nat) : Nat :=
  if offset < 2 ^ 31 then (id + offset) % 2 ^ 32 else id + offset

/-- The lanes of two kernels, the second of which comes behind the first, use different
subsequences, but for sums that do not fit a word. -/
theorem laneSubsequence_disjoint_iff {first second : Nat} (hfirst : first < 2 ^ 32)
    (hsecond : second < 2 ^ 32) :
    (∀ i < first, ∀ j < second, laneSubsequence i 0 ≠ laneSubsequence j first) ↔
      first = 0 ∨ first + second ≤ 2 ^ 32 ∨ 2 ^ 31 ≤ first := by
  have hown : ∀ i < first, laneSubsequence i 0 = i := by
    intro i hi
    rw [laneSubsequence, if_pos (by decide), Nat.add_zero, Nat.mod_eq_of_lt (by omega)]
  constructor
  · intro h
    by_contra hwraps
    push Not at hwraps
    obtain ⟨hsome, hpast, hsmall⟩ := hwraps
    -- the lane that wraps around to the subsequence of the first lane
    apply h 0 (by omega) (2 ^ 32 - first) (by omega)
    rw [hown 0 (by omega), laneSubsequence, if_pos hsmall, Nat.sub_add_cancel (by omega),
      Nat.mod_self]
  · intro h i hi j hj
    rw [hown i hi, laneSubsequence]
    split
    next hsmall =>
      rw [Nat.mod_eq_of_lt (by omega)]
      omega
    next => omega

/-! ### Tables of a program -/

theorem map_fst_headsOf {α : Type} (nameOf : α → String) (groups : List (MergedGroup α)) :
    (headsOf nameOf groups).map Prod.fst = groups.map (·.id) := by
  rw [headsOf, List.map_map]
  rfl

/-- The merged groups that kernels serve. -/
def deviceHeads (m : MergedModel) : List GroupHead :=
  headsOf CustomUpdate.name (MergedModel.flatten m.updates) ++
    headsOf ConnectivityUpdate.name (MergedModel.flatten m.connectivity) ++
    headsOf CustomUpdate.name m.init ++ headsOf ConnectivityUpdate.name m.preInit ++
    headsOf ConnectivityUpdate.name m.postInit ++ headsOf ConnectivityUpdate.name m.sparseInit

@[simp] theorem tableNames_append (heads heads' : List GroupHead) :
    tableNames (heads ++ heads') = tableNames heads ++ tableNames heads' := by
  rw [tableNames, List.filter_append, List.map_append, tableNames, tableNames]

theorem tableNames_flatMap {β : Type} (items : List β) (f : β → List GroupHead) :
    tableNames (items.flatMap f) = items.flatMap fun item => tableNames (f item) := by
  induction items with
  | nil => rfl
  | cons item items ih => rw [List.flatMap_cons, tableNames_append, ih, List.flatMap_cons]

theorem flatMap_headsOf {α β : Type} (nameOf : α → String) (items : List β)
    (f : β → List (MergedGroup α)) :
    (items.flatMap fun item => headsOf nameOf (f item)) = headsOf nameOf (items.flatMap f) := by
  rw [headsOf, List.map_flatMap]
  rfl

theorem GroupRun.Launched.map_fst_tables {run : GroupRun} (h : run.Launched t m) :
    run.tables.map Prod.fst =
      tableNames (headsOf CustomUpdate.name (groupsOf m.updates run.name)) ++
        tableNames (headsOf ConnectivityUpdate.name (groupsOf m.connectivity run.name)) := by
  rw [GroupRun.tables, List.map_append, h.updates.serves.map_fst_startTables,
    h.connectivity.serves.map_fst_startTables, List.flatMap_cons, List.flatMap_nil,
    List.append_nil, List.flatMap_cons, List.flatMap_nil, List.append_nil]
  rfl

/-- All merged groups of a kind are found by the names of update groups. -/
theorem flatMap_groupsOf {α : Type} {names : List String} (hnames : names.Nodup)
    {groups : List (String × List (MergedGroup α))} (h : (groups.map Prod.fst).Sublist names) :
    names.flatMap (groupsOf groups) = MergedModel.flatten groups :=
  Table.flatMap_find?_getD hnames h

theorem sublist_groups_ofModel (model : Model) :
    ((MergedModel.ofModel model).updates.map Prod.fst).Sublist model.groups ∧
      ((MergedModel.ofModel model).connectivity.map Prod.fst).Sublist model.groups := by
  rw [MergedModel.ofModel]
  dsimp only
  rw [MergedGroup.map_fst_mergeByName, MergedGroup.map_fst_mergeByName]
  exact ⟨List.filter_sublist, List.filter_sublist⟩

theorem UpdateCode.Consists.map_fst_tables_perm {c : UpdateCode} {runs : List GroupRun}
    (hc : c.Consists t (.ofModel t.model) runs) (hnames : runs.map GroupRun.name = t.model.groups) :
    (c.tables.map Prod.fst).Perm (tableNames
      (headsOf CustomUpdate.name (MergedModel.flatten (MergedModel.ofModel t.model).updates) ++
        headsOf ConnectivityUpdate.name
          (MergedModel.flatten (MergedModel.ofModel t.model).connectivity))) := by
  have hnodup : t.model.groups.Nodup := t.model.groups_eq_eraseDups ▸ nodup_eraseDups _
  obtain ⟨hupdates, hconnectivity⟩ := sublist_groups_ofModel t.model
  rw [tableNames_append, ← flatMap_groupsOf hnodup hupdates,
    ← flatMap_groupsOf hnodup hconnectivity, ← flatMap_headsOf, ← flatMap_headsOf,
    tableNames_flatMap, tableNames_flatMap]
  refine List.Perm.trans ?_ (List.flatMap_append_perm ..).symm
  rw [hc.tables, List.map_flatMap, ← hnames, List.flatMap_map]
  apply List.Perm.of_eq
  rw [List.flatMap_def, List.flatMap_def]
  congr 1
  apply List.map_congr_left
  intro run hrun
  exact (hc.launched run hrun).map_fst_tables

theorem InitCode.Consists.map_fst_tables {c : InitCode} {elements synapses : List Dispatched}
    {first second : List Launch} (hc : c.Consists t m elements synapses first second) :
    c.tables.map Prod.fst = tableNames (headsOf CustomUpdate.name m.init ++
      headsOf ConnectivityUpdate.name m.preInit ++ headsOf ConnectivityUpdate.name m.postInit ++
      headsOf ConnectivityUpdate.name m.sparseInit) := by
  rw [hc.tables, List.map_append, hc.elements_launched.serves.map_fst_startTables,
    hc.synapses_launched.serves.map_fst_startTables, ← tableNames_append]
  simp only [elementCalls, List.flatMap_cons, List.flatMap_nil, List.append_nil,
    List.append_assoc]
  rfl

theorem map_startTable_sublist (ids : List GroupId) :
    (ids.map GroupId.startTable).Sublist (ids.flatMap GroupId.names) := by
  induction ids with
  | nil => exact .slnil
  | cons g ids ih =>
      have htable : [g.startTable].Sublist g.names :=
        List.singleton_sublist.mpr (by simp [GroupId.names])
      exact htable.append ih

theorem nodup_tableNames_deviceHeads (model : Model) :
    (tableNames (deviceHeads (.ofModel model))).Nodup := by
  have hids : ((deviceHeads (.ofModel model)).map Prod.fst).Sublist
      (MergedModel.ofModel model).ids := by
    simp only [deviceHeads, MergedModel.ids, List.map_append, map_fst_headsOf, List.append_assoc,
      List.append_sublist_append_left]
    exact List.sublist_append_right _ _
  have htables : (tableNames (deviceHeads (.ofModel model))).Sublist
      (((deviceHeads (.ofModel model)).map Prod.fst).map GroupId.startTable) := by
    rw [tableNames, List.map_map]
    exact List.filter_sublist.map _
  exact ((htables.trans (hids.map _)).trans (map_startTable_sublist _)).nodup
    (MergedModel.nodup_names_ofModel model)

/-- Exactly the groups on the device with more than one member have a table, and no two tables share
a name. -/
theorem tables_perm_and_nodup {updates : UpdateCode} {init : InitCode}
    (hupdates : writeUpdates t (.ofModel t.model) = .ok updates)
    (hinit : writeInit t (.ofModel t.model) = .ok init) :
    ((updates.tables ++ init.tables).map Prod.fst).Perm
        (tableNames (deviceHeads (.ofModel t.model))) ∧
      ((updates.tables ++ init.tables).map Prod.fst).Nodup := by
  obtain ⟨runs, hnames, hruns⟩ := exists_runs_of_writeUpdates hupdates
  obtain ⟨elements, synapses, first, second, hconsists⟩ := exists_consists_of_writeInit hinit
  have hperm : ((updates.tables ++ init.tables).map Prod.fst).Perm
      (tableNames (deviceHeads (.ofModel t.model))) := by
    rw [List.map_append, hconsists.map_fst_tables]
    refine ((hruns.map_fst_tables_perm hnames).append_right _).trans (List.Perm.of_eq ?_)
    simp only [deviceHeads, ← tableNames_append, List.append_assoc]
  exact ⟨hperm, hperm.nodup_iff.mpr (nodup_tableNames_deviceHeads t.model)⟩

/-- A program launches each kernel that it has with the lanes of its groups, and defines the tables
of exactly the groups with more than one member. -/
theorem Program.exists_consists_of_ofTarget {p : Program} (h : Program.ofTarget t = .ok p) :
    ∃ updates runs init elements synapses first second,
      runs.map GroupRun.name = t.model.groups ∧
      UpdateCode.Consists t (.ofModel t.model) runs updates ∧
      p.update = (updates.kernels.appendBlock updates.launchers.text).text ∧
      InitCode.Consists t (.ofModel t.model) elements synapses first second init ∧
      p.init = init.code.text ∧
      (∃ device, p.definitions = t.definitions device updates.host
        (updates.tables ++ init.tables) init.globals) ∧
      ((updates.tables ++ init.tables).map Prod.fst).Perm
        (tableNames (deviceHeads (.ofModel t.model))) ∧
      ((updates.tables ++ init.tables).map Prod.fst).Nodup := by
  obtain ⟨updates, init, placed, _, hupdates, hinit, _, _, _, hdefinitions, hupdate, hcode⟩ :=
    Program.exists_of_ofTarget h
  obtain ⟨runs, hnames, hruns⟩ := exists_runs_of_writeUpdates hupdates
  obtain ⟨elements, synapses, first, second, hconsists⟩ := exists_consists_of_writeInit hinit
  have htables := tables_perm_and_nodup hupdates hinit
  exact ⟨updates, runs, init, elements, synapses, first, second, hnames, hruns, hupdate,
    hconsists, hcode, ⟨_, hdefinitions⟩, htables.1, htables.2⟩

end KernelWeaver.Generate
