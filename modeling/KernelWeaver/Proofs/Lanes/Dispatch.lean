import KernelWeaver.Generate.Program
import KernelWeaver.Proofs.Code.Run
import KernelWeaver.Proofs.Lanes.Layout
import KernelWeaver.Proofs.Outcome

/-!
# Lanes of emitted groups

The groups of a kernel can be emitted by several calls, each of which goes on behind the lanes of
the one before. Together they give the groups the ranges of one layout.
-/

namespace KernelWeaver.Generate

open Code LaneRange

/-- One of several calls that emit the groups of a kernel. -/
structure DispatchCall where
  Member : Type
  nameOf : Member → String
  lanes : Member → Checked Nat
  body : MergedGroup Member → Emit StructFields
  groups : List (MergedGroup Member)

/-- The sizes of the members of groups. -/
def sizesOf {α : Type} (lanes : α → Checked Nat) (groups : List (MergedGroup α)) :
    Checked (List (List Nat)) :=
  groups.mapM fun g => g.members.mapM lanes

/-- The sizes of the members of the groups of all calls. -/
def callSizes : List DispatchCall → Checked (List (List Nat))
  | [] => .ok []
  | call :: calls => do
    let first ← sizesOf call.lanes call.groups
    let rest ← callSizes calls
    return first ++ rest

/-- Emits the groups of several calls, whose lanes begin at `start`, and gives the lane behind
them. -/
def dispatchCalls (blockSize : Nat) : (start : Nat) → List DispatchCall →
    Emit (List Dispatched × Nat)
  | start, [] => pure ([], start)
  | start, call :: calls => do
    let (first, stop) ← dispatch blockSize call.nameOf call.lanes call.body start call.groups
    let (rest, last) ← dispatchCalls blockSize stop calls
    return (first ++ rest, last)

/-- The calls that emit the groups of the kernel that initialises populations. -/
def elementCalls (t : Target) (m : MergedModel) : List DispatchCall :=
  [⟨CustomUpdate, CustomUpdate.name, fun u => .ok u.size,
      fun g => (ElementInit.ofUpdates t g).emit t, m.init⟩,
    ⟨ConnectivityUpdate, ConnectivityUpdate.name, fun u => .ok u.synapses.numPre,
      fun g => (ElementInit.ofPre g).emit t, m.preInit⟩,
    ⟨ConnectivityUpdate, ConnectivityUpdate.name, fun u => .ok u.synapses.numPost,
      fun g => (ElementInit.ofPost g).emit t, m.postInit⟩]

theorem elementsBody_eq_dispatchCalls (t : Target) (m : MergedModel) (blockSize : Nat) :
    InitCode.elementsBody t m blockSize = dispatchCalls blockSize 0 (elementCalls t m) := by
  simp only [InitCode.elementsBody, elementCalls, dispatchCalls, bind_assoc, pure_bind,
    List.append_nil, List.append_assoc]

variable {blockSize : Nat}

/-- What has been emitted for groups with members of the given sizes, from the lane `start` on. -/
structure Covers (blockSize start : Nat) (sizes : List (List Nat)) (emitted : List Dispatched)
    (stop : Nat) : Prop where
  fits : start + laneCount blockSize sizes.flatten < 2 ^ 32
  ranges : emitted.map (·.range) = exactFrom blockSize start sizes
  stop_eq : stop = start + laneCount blockSize sizes.flatten

theorem Covers.append {start middle stop : Nat} {first second : List (List Nat)}
    {emitted emitted' : List Dispatched} (h : Covers blockSize start first emitted middle)
    (h' : Covers blockSize middle second emitted' stop) :
    Covers blockSize start (first ++ second) (emitted ++ emitted') stop := by
  obtain ⟨_, hranges, rfl⟩ := h
  obtain ⟨hfits, hranges', rfl⟩ := h'
  refine ⟨?_, ?_, ?_⟩
  · rwa [List.flatten_append, laneCount_append, ← Nat.add_assoc]
  · rw [List.map_append, hranges, hranges', exactFrom_append]
  · rw [List.flatten_append, laneCount_append, Nat.add_assoc]

section Groups

variable {α : Type} {nameOf : α → String} {lanes : α → Checked Nat}
variable {body : MergedGroup α → Emit StructFields}

theorem sizesOf_cons_eq_ok {g : MergedGroup α} {groups : List (MergedGroup α)}
    {sizes : List (List Nat)} :
    sizesOf lanes (g :: groups) = .ok sizes ↔
      ∃ first rest, g.members.mapM lanes = .ok first ∧ sizesOf lanes groups = .ok rest ∧
        sizes = first :: rest := by
  rw [sizesOf, List.mapM_cons, bind_eq_ok]
  constructor
  · rintro ⟨first, hfirst, h⟩
    obtain ⟨rest, hrest, ⟨⟩⟩ := bind_eq_ok.mp h
    exact ⟨first, rest, hfirst, hrest, rfl⟩
  · rintro ⟨first, rest, hfirst, hrest, rfl⟩
    exact ⟨first, hfirst, bind_eq_ok.mpr ⟨rest, hrest, rfl⟩⟩

theorem dispatchFrom_covers (hblock : 0 < blockSize) {id : String} {start : Nat}
    (hstart : start < 2 ^ 32) {groups : List (MergedGroup α)} {c c' : Chain}
    {emitted : List Dispatched} {stop : Nat}
    (hrun : (dispatchFrom id blockSize nameOf lanes body start groups).runOn c =
      (.ok (emitted, stop), c')) :
    ∃ sizes, sizesOf lanes groups = .ok sizes ∧ Covers blockSize start sizes emitted stop := by
  induction groups generalizing start c emitted with
  | nil =>
      cases hrun
      exact ⟨[], rfl, hstart, rfl, rfl⟩
  | cons g groups ih =>
      rw [dispatchFrom] at hrun
      obtain ⟨sizes, _, hlanes, hrun⟩ := Emit.runOn_bind_eq_ok.mp hrun
      obtain ⟨hsizes, rfl⟩ := Emit.runOn_ofChecked_eq_ok.mp hlanes
      obtain ⟨range, _, hlaid, hrun⟩ := Emit.runOn_bind_eq_ok.mp hrun
      obtain ⟨hrange, rfl⟩ := Emit.runOn_ofChecked_eq_ok.mp hlaid
      obtain ⟨fields, _, _, hrun⟩ := Emit.runOn_bind_eq_ok.mp hrun
      obtain ⟨⟨rest, last⟩, _, hrest, hrun⟩ := Emit.runOn_bind_eq_ok.mp hrun
      cases hrun
      rw [ofSizes_eq hblock sizes hstart] at hrange
      split at hrange
      next hfits =>
        cases hrange
        rw [stop_exact] at hrest
        obtain ⟨sizes', hsizes', hcovers⟩ := ih hfits hrest
        have hfirst : Covers blockSize start [sizes]
            [⟨⟨g.id, g.members.map nameOf, fields⟩, exact blockSize start sizes⟩]
            (start + laneCount blockSize sizes) :=
          ⟨by simpa using hfits, rfl, by simp⟩
        exact ⟨sizes :: sizes', sizesOf_cons_eq_ok.mpr ⟨sizes, sizes', hsizes, hsizes', rfl⟩,
          hfirst.append hcovers⟩
      next => cases hrange

theorem dispatch_covers (hblock : 0 < blockSize) {start : Nat} (hstart : start < 2 ^ 32)
    {groups : List (MergedGroup α)} {c c' : Chain} {emitted : List Dispatched} {stop : Nat}
    (hrun : (dispatch blockSize nameOf lanes body start groups).runOn c =
      (.ok (emitted, stop), c')) :
    ∃ sizes, sizesOf lanes groups = .ok sizes ∧ Covers blockSize start sizes emitted stop := by
  obtain ⟨id, _, _, hrun⟩ := Emit.runOn_bind_eq_ok.mp hrun
  exact dispatchFrom_covers hblock hstart hrun

/-- The code of each group can be emitted wherever `I` holds, which keeps `I`. -/
def EmitsUnder (I : Chain → Prop) (body : MergedGroup α → Emit StructFields)
    (groups : List (MergedGroup α)) : Prop :=
  ∀ g ∈ groups, ∀ (id : String) (range : LaneRange) (c : Chain), I c →
    ∃ fields c', (dispatchGroup id g.id range g.size (body g)).runOn c = (.ok fields, c') ∧ I c'

theorem dispatchFrom_returns (hblock : 0 < blockSize) (nameOf : α → String) (id : String)
    {I : Chain → Prop} {start : Nat} {groups : List (MergedGroup α)} {sizes : List (List Nat)}
    {c : Chain}
    (hemits : EmitsUnder I body groups) (hsizes : sizesOf lanes groups = .ok sizes)
    (hfits : start + laneCount blockSize sizes.flatten < 2 ^ 32) (hI : I c) :
    ∃ emitted stop c', I c' ∧
      (dispatchFrom id blockSize nameOf lanes body start groups).runOn c =
        (.ok (emitted, stop), c') := by
  induction groups generalizing start sizes c with
  | nil => exact ⟨[], start, c, hI, rfl⟩
  | cons g groups ih =>
      obtain ⟨first, rest, hfirst, hrest, rfl⟩ := sizesOf_cons_eq_ok.mp hsizes
      rw [List.flatten_cons, laneCount_append] at hfits
      have hstart : start < 2 ^ 32 := by omega
      have hrange := ofSizes_eq hblock first hstart
      rw [if_pos (by omega)] at hrange
      obtain ⟨fields, c₁, hgroup, hI₁⟩ :=
        hemits g List.mem_cons_self id (exact blockSize start first) c hI
      have hfits' : start + laneCount blockSize first + laneCount blockSize rest.flatten < 2 ^ 32 :=
        by omega
      obtain ⟨emitted, stop, c₂, hI₂, hrun⟩ :=
        ih (fun g' hg' => hemits g' (List.mem_cons_of_mem _ hg')) hrest hfits' hI₁
      refine ⟨⟨⟨g.id, g.members.map nameOf, fields⟩, exact blockSize start first⟩ :: emitted,
        stop, c₂, hI₂, ?_⟩
      rw [dispatchFrom, hfirst]
      change (Emit.ofChecked (ofSizes start first blockSize) >>= _).runOn c = _
      rw [hrange]
      change (dispatchGroup id g.id (exact blockSize start first) g.size (body g) >>= _).runOn c = _
      rw [Emit.runOn_bind_of_ok hgroup]
      exact Emit.runOn_bind_of_ok hrun _

end Groups

theorem callSizes_cons_eq_ok {call : DispatchCall} {calls : List DispatchCall}
    {sizes : List (List Nat)} :
    callSizes (call :: calls) = .ok sizes ↔
      ∃ first rest, sizesOf call.lanes call.groups = .ok first ∧ callSizes calls = .ok rest ∧
        sizes = first ++ rest := by
  rw [callSizes, bind_eq_ok]
  constructor
  · rintro ⟨first, hfirst, h⟩
    obtain ⟨rest, hrest, ⟨⟩⟩ := bind_eq_ok.mp h
    exact ⟨first, rest, hfirst, hrest, rfl⟩
  · rintro ⟨first, rest, hfirst, hrest, rfl⟩
    exact ⟨first, hfirst, bind_eq_ok.mpr ⟨rest, hrest, rfl⟩⟩

/-- Calls that follow each other give their groups the ranges of one layout. -/
theorem dispatchCalls_covers (hblock : 0 < blockSize) {start : Nat} (hstart : start < 2 ^ 32)
    {calls : List DispatchCall} {c c' : Chain} {emitted : List Dispatched} {stop : Nat}
    (hrun : (dispatchCalls blockSize start calls).runOn c = (.ok (emitted, stop), c')) :
    ∃ sizes, callSizes calls = .ok sizes ∧ Covers blockSize start sizes emitted stop := by
  induction calls generalizing start c emitted with
  | nil =>
      cases hrun
      exact ⟨[], rfl, hstart, rfl, rfl⟩
  | cons call calls ih =>
      rw [dispatchCalls] at hrun
      obtain ⟨⟨first, middle⟩, _, hfirst, hrun⟩ := Emit.runOn_bind_eq_ok.mp hrun
      obtain ⟨⟨rest, last⟩, _, hrest, hrun⟩ := Emit.runOn_bind_eq_ok.mp hrun
      cases hrun
      obtain ⟨sizes, hsizes, hcovers⟩ := dispatch_covers hblock hstart hfirst
      obtain ⟨sizes', hsizes', hcovers'⟩ := ih (hcovers.stop_eq ▸ hcovers.fits) hrest
      exact ⟨sizes ++ sizes', callSizes_cons_eq_ok.mpr ⟨sizes, sizes', hsizes, hsizes', rfl⟩,
        hcovers.append hcovers'⟩

/-- The lane of a kernel can be named, and the code of all groups of a call emitted, wherever `I`
holds, which both keep `I`. -/
structure DispatchCall.EmitsUnder (I : Chain → Prop) (call : DispatchCall) : Prop where
  resolves : ∀ c, I c → ∃ id c', (Emit.resolve "id" none).runOn c = (.ok id, c') ∧ I c'
  groups : Generate.EmitsUnder I call.body call.groups

theorem dispatchCalls_returns (hblock : 0 < blockSize) {I : Chain → Prop} {start : Nat}
    {calls : List DispatchCall} {sizes : List (List Nat)} {c : Chain}
    (hemits : ∀ call ∈ calls, call.EmitsUnder I) (hsizes : callSizes calls = .ok sizes)
    (hfits : start + laneCount blockSize sizes.flatten < 2 ^ 32) (hI : I c) :
    ∃ emitted stop c', (dispatchCalls blockSize start calls).runOn c =
      (.ok (emitted, stop), c') := by
  induction calls generalizing start sizes c with
  | nil => exact ⟨[], start, c, rfl⟩
  | cons call calls ih =>
      obtain ⟨first, rest, hfirst, hrest, rfl⟩ := callSizes_cons_eq_ok.mp hsizes
      rw [List.flatten_append, laneCount_append] at hfits
      have hcall := hemits call List.mem_cons_self
      obtain ⟨id, c₁, hid, hI₁⟩ := hcall.resolves c hI
      have hfirstFits : start + laneCount blockSize first.flatten < 2 ^ 32 := by omega
      obtain ⟨emitted, stop, c₂, hI₂, hrun⟩ :=
        dispatchFrom_returns hblock call.nameOf id hcall.groups hfirst hfirstFits hI₁
      obtain ⟨_, hsizes', hcovers⟩ := dispatchFrom_covers hblock (by omega) hrun
      obtain rfl : _ = first := Except.ok.inj (hsizes'.symm.trans hfirst)
      have hstop : stop + laneCount blockSize rest.flatten < 2 ^ 32 := by
        rw [hcovers.stop_eq]
        omega
      obtain ⟨emitted', stop', c₃, hrun'⟩ :=
        ih (fun call' hcall' => hemits call' (List.mem_cons_of_mem _ hcall')) hrest hstop hI₂
      refine ⟨emitted ++ emitted', stop', c₃, ?_⟩
      have hdispatch : (dispatch blockSize call.nameOf call.lanes call.body start
          call.groups).runOn c = (.ok (emitted, stop), c₂) :=
        (Emit.runOn_bind_of_ok hid _).trans hrun
      rw [dispatchCalls, Emit.runOn_bind_of_ok hdispatch]
      exact Emit.runOn_bind_of_ok hrun' _

end KernelWeaver.Generate
