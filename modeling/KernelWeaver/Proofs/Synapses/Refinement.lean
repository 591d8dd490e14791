import KernelWeaver.Proofs.Synapses.Execution
import KernelWeaver.Proofs.Synapses.Reachable

/-!
# The code changes rows as the rows change themselves

Executing the statements that add or remove a synapse leaves the lists in memory as adding or
removing it does. The loop over a row that removes what passes a test visits and removes the same
synapses, in the same order.
-/

namespace KernelWeaver.Synapses

open Code RowStmt

/-- The lists that rows are kept in. -/
def RaggedRows.memory (r : RaggedRows) : Memory :=
  ⟨r.lengths, r.posts, bindArrays r.arrays fun _ => none⟩

/-- What the code for one row works with. -/
def RaggedRows.context (r : RaggedRows) (modulus row post : Nat) (argument : Nat → Float) :
    Context :=
  ⟨modulus, row, r.lengths.length, r.stride, post, argument⟩

def State.setMemory (s : State) (memory : Memory) : State := { s with memory }

/-- The value of a new synapse in an array; the next argument has the number `next`. -/
def additionValue (argument : Nat → Float) (next : Nat) (a : SynapseArray) : Float :=
  if a.isArgument then argument next else 0.0

/-- The values of a new synapse: arrays with a name take the arguments in order. -/
def additionValues (argument : Nat → Float) : (next : Nat) → List SynapseArray → List Float
  | _, [] => []
  | next, a :: rest =>
    additionValue argument next a :: additionValues argument (nextArgument next a) rest

/-- An array of rows that belongs to an array of the code. -/
structure Counterpart (r : RaggedRows) (batchSize : Nat) (a : SynapseArray) (b : RowArray) :
    Prop where
  name : b.name = a.field
  copies : r.copies b = copyCount a batchSize
  length : b.values.length = r.slots * r.copies b

/-- Rows with the arrays of the code. -/
structure Mirrors (r : RaggedRows) (arrays : List SynapseArray) (batchSize : Nat) : Prop where
  wellFormed : r.WellFormed
  batches : r.batches = batchSize
  arrays : r.arrays.map (fun a => (a.name, a.duplicated)) =
    arrays.map fun a => (a.field, a.duplicated)

variable {r r' : RaggedRows} {arrays : List SynapseArray} {batchSize : Nat}

theorem RaggedRows.SameShape.slots_eq (h : r.SameShape r') : r'.slots = r.slots := by
  rw [slots, slots, h.rows, h.stride]

theorem Mirrors.of_sameShape (h : Mirrors r arrays batchSize) (hshape : r.SameShape r')
    (hwell : r'.WellFormed) : Mirrors r' arrays batchSize := by
  refine ⟨hwell, hshape.batches.trans h.batches, ?_⟩
  have hpairs := congrArg (List.map fun p => (p.1, p.2.1)) hshape.arrays
  rw [List.map_map, List.map_map] at hpairs
  exact hpairs.trans h.arrays

theorem Mirrors.names (h : Mirrors r arrays batchSize)
    (hnodup : (arrays.map SynapseArray.field).Nodup) : (r.arrays.map RowArray.name).Nodup := by
  have hnames := congrArg (List.map Prod.fst) h.arrays
  rw [List.map_map, List.map_map] at hnames
  exact hnames ▸ hnodup

theorem copies_eq_copyCount {a : SynapseArray} {b : RowArray} (hbatches : r.batches = batchSize)
    (hpos : 1 ≤ batchSize) (hduplicated : b.duplicated = a.duplicated) :
    r.copies b = copyCount a batchSize := by
  rw [RaggedRows.copies, copyCount, SynapseArray.isBatched, hduplicated, hbatches]
  cases a.duplicated with
  | false => rfl
  | true =>
      by_cases hmany : 1 < batchSize
      · simp [hmany]
      · have hone : batchSize = 1 := by omega
        simp [hone]

theorem Mirrors.counterparts (h : Mirrors r arrays batchSize) (hpos : 1 ≤ batchSize) :
    List.Forall₂ (Counterpart r batchSize) arrays r.arrays := by
  have hpairs : List.Forall₂ (fun (b : RowArray) (a : SynapseArray) =>
      (b.name, b.duplicated) = (a.field, a.duplicated)) r.arrays arrays := by
    have heq := h.arrays
    rw [← List.forall₂_eq_eq_eq, List.forall₂_map_left_iff, List.forall₂_map_right_iff] at heq
    exact heq
  have hboth := (List.forall₂_and_left _ _).mpr ⟨h.wellFormed.length_values, hpairs⟩
  refine List.Forall₂.flip (hboth.imp ?_)
  rintro b a ⟨hlength, hpair⟩
  obtain ⟨hname, hduplicated⟩ := Prod.mk.inj hpair
  exact ⟨hname, copies_eq_copyCount h.batches hpos hduplicated, hlength⟩

theorem copies_le (hpos : 1 ≤ r.batches) (b : RowArray) : r.copies b ≤ r.batches := by
  rw [RaggedRows.copies]
  split
  next => exact le_rfl
  next => exact hpos

section Store

variable {x : Context} {constants : Constant → Option Nat} {a : SynapseArray} {b : RowArray}
  {slot last next : Nat}

theorem Counterpart.stores_additionStore (h : Counterpart r batchSize a b)
    (hnew : constants .newSlot = some slot) (hstride : constants .synStride = some r.slots)
    (hslot : slot < r.slots) (hfits : x.Fits (r.slots * r.copies b)) (next : Nat) :
    Stores x constants (additionStore batchSize next a) b
      (r.store b slot fun _ => additionValue x.argument next a) := by
  have hlength := h.length
  rw [h.copies] at hlength hfits
  -- the value that is stored does not depend on the copy
  have hstore : ∀ {s : State} {datum : Datum} {v : Float}, s.constants = constants →
      s.memory.arrays b.name = some b.values →
      (∀ t : State, t.hoisted = s.hoisted → datum.eval x t = some v) →
      (storeCode a batchSize .newSlot fun _ => datum).exec x s =
        some (s.setArray b.name (r.store b slot fun _ => v).values) := by
    intro s datum v hs hvalues hdatum
    subst hs
    have hstored : (r.store b slot fun _ => v).values =
        storedValues b.values r.slots (copyCount a batchSize) slot fun _ => v := by
      rw [← h.copies]
      rfl
    rw [h.name] at hvalues ⊢
    rw [hstored]
    exact exec_storeCode hnew (by decide) hstride hvalues hlength hslot hfits
      (fun _ => hdatum s rfl) (fun _ k _ => hdatum _ rfl)
  intro s hs hvalues
  rw [additionStore, additionValue]
  split
  next =>
    split
    next =>
      have hhoist : (hoist a (.argument next)).exec x s =
          some (s.setHoisted (Function.update s.hoisted a.field (some (x.argument next)))) :=
        exec_hoist rfl
      refine ⟨_, (exec_seq hhoist).trans (hstore hs hvalues ?_)⟩
      intro t ht
      rw [Datum.eval, ht]
      exact Function.update_self a.field _ _
    next => exact ⟨s.hoisted, hstore hs hvalues fun _ _ => rfl⟩
  next => exact ⟨s.hoisted, hstore hs hvalues fun _ _ => rfl⟩

theorem Counterpart.stores_removalStore (h : Counterpart r batchSize a b)
    (hcurrent : constants .slot = some slot) (hlast : constants .lastSlot = some last)
    (hstride : constants .synStride = some r.slots) (hslot : slot < r.slots)
    (hlt : last < r.slots) (hfits : x.Fits (r.slots * r.copies b)) :
    Stores x constants (removalStore batchSize a) b
      (r.store b slot fun start => b.values[start + last]?.getD 0.0) := by
  have hlength := h.length
  rw [h.copies] at hlength hfits
  intro s hs hvalues
  subst hs
  have hstored : (r.store b slot fun start => b.values[start + last]?.getD 0.0).values =
      storedValues b.values r.slots (copyCount a batchSize) slot fun start =>
        b.values[start + last]?.getD 0.0 := by
    rw [← h.copies]
    rfl
  rw [h.name] at hvalues ⊢
  rw [hstored]
  refine ⟨s.hoisted, exec_storeCode hcurrent (by decide) hstride hvalues hlength hslot hfits ?_ ?_⟩
  · intro hsingle
    rw [copyCount_of_single hsingle, Nat.mul_one] at hlength
    rw [Nat.zero_add]
    exact eval_element (eval_constant hlast) hvalues (by omega)
  · intro hbatched k hk
    rw [copyCount_of_batched hbatched] at hlength hfits
    have hindex := slot_lt_length hlength hk hlt
    -- earlier rounds have left the last synapse of this copy alone
    have hkept : (storedValues b.values r.slots k slot fun start =>
        b.values[start + last]?.getD 0.0)[k * r.slots + last]? =
          b.values[k * r.slots + last]? := getElem?_storedValues hslot hlt
    rw [← hkept]
    refine eval_element (eval_add (eval_constant (State.constants_declare_self _ _))
      (eval_constant ((State.constants_declare_of_ne (by decide) _).trans hlast)) ?_)
      (State.arrays_setArray_self _ _) ?_
    · exact hfits.mono (by rw [← hlength]; exact Nat.le_of_lt hindex)
    · rw [length_storedValues]
      exact hindex

end Store

theorem stores_additionCodes {x : Context} {constants : Constant → Option Nat} {slot : Nat}
    {stored : List RowArray} (h : List.Forall₂ (Counterpart r batchSize) arrays stored)
    (hnew : constants .newSlot = some slot) (hstride : constants .synStride = some r.slots)
    (hslot : slot < r.slots) (hfits : ∀ b, x.Fits (r.slots * r.copies b)) (next : Nat) :
    List.Forall₂ (fun stmt p => Stores x constants stmt p.1 p.2)
      (additionCodes batchSize next arrays)
      (stored.mapIdx fun i b => (b, r.store b slot fun _ =>
        (additionValues x.argument next arrays)[i]?.getD 0.0)) := by
  induction h generalizing next with
  | nil => exact .nil
  | cons hhead _ ih =>
      rw [additionCodes, List.mapIdx_cons]
      refine .cons (hhead.stores_additionStore hnew hstride hslot (hfits _) next) ?_
      exact ih (nextArgument next _)

theorem stores_removalCodes {x : Context} {constants : Constant → Option Nat} {slot last : Nat}
    {stored : List RowArray} (h : List.Forall₂ (Counterpart r batchSize) arrays stored)
    (hcurrent : constants .slot = some slot) (hlast : constants .lastSlot = some last)
    (hstride : constants .synStride = some r.slots) (hslot : slot < r.slots)
    (hlt : last < r.slots) (hfits : ∀ b, x.Fits (r.slots * r.copies b)) :
    List.Forall₂ (fun stmt p => Stores x constants stmt p.1 p.2)
      (arrays.map (removalStore batchSize))
      (stored.mapIdx fun _ b =>
        (b, r.store b slot fun start => b.values[start + last]?.getD 0.0)) := by
  rw [mapIdx_const, List.forall₂_map_left_iff, List.forall₂_map_right_iff]
  refine h.imp ?_
  intro a b hcounterpart
  exact hcounterpart.stores_removalStore hcurrent hlast hstride hslot hlt (hfits b)

theorem RaggedRows.getElem?_lengths {row : Nat} (hrow : row < r.lengths.length) :
    r.lengths[row]? = some (r.synapses row).length := by
  rw [length_synapses, List.getElem?_eq_getElem hrow, Option.getD_some]

/-- Rows that the code can work on: their arrays are its own, the fields of these are different, and
unsigned integers can count all slots in all copies. -/
structure Supported (x : Context) (r : RaggedRows) (arrays : List SynapseArray)
    (batchSize : Nat) : Prop where
  mirrors : Mirrors r arrays batchSize
  pos : 1 ≤ batchSize
  nodup : (arrays.map SynapseArray.field).Nodup
  fits : x.Fits (r.slots * batchSize)

/-- What holds while the code for a row runs: the memory is that of the rows, and the constants of
the row have been declared. -/
structure Located (x : Context) (r : RaggedRows) (s : State) : Prop where
  stride : x.stride = r.stride
  row : x.row < r.lengths.length
  memory : s.memory = r.memory
  rowStart : s.constants .rowStart = some (x.row * r.stride)
  synStride : s.constants .synStride = some r.slots

section Change

variable {x : Context} {s : State}

theorem Supported.slots (h : Supported x r arrays batchSize) : x.Fits r.slots :=
  h.fits.mono (Nat.le_mul_of_pos_right _ h.pos)

theorem Supported.copies (h : Supported x r arrays batchSize) (b : RowArray) :
    x.Fits (r.slots * r.copies b) := by
  have hpos := h.pos
  have hfits := h.fits
  rw [← h.mirrors.batches] at hpos hfits
  exact hfits.mono (Nat.mul_le_mul_left r.slots (copies_le hpos b))

theorem Supported.counterparts (h : Supported x r arrays batchSize) :
    List.Forall₂ (Counterpart r batchSize) arrays r.arrays := h.mirrors.counterparts h.pos

theorem Supported.names (h : Supported x r arrays batchSize) :
    (r.arrays.map RowArray.name).Nodup := h.mirrors.names h.nodup

theorem Supported.of_sameShape (h : Supported x r arrays batchSize) (hshape : r.SameShape r')
    (hwell : r'.WellFormed) : Supported x r' arrays batchSize :=
  ⟨h.mirrors.of_sameShape hshape hwell, h.pos, h.nodup, hshape.slots_eq.symm ▸ h.fits⟩

theorem Located.lengths (h : Located x r s) : s.memory.lengths = r.lengths :=
  congrArg Memory.lengths h.memory

theorem Located.posts (h : Located x r s) : s.memory.posts = r.posts :=
  congrArg Memory.posts h.memory

theorem Located.bound (h : Located x r s) :
    s.memory.arrays = bindArrays r.arrays fun _ => none := congrArg Memory.arrays h.memory

theorem Located.length (h : Located x r s) :
    Index.length.eval x s = some (r.synapses x.row).length := by
  rw [Index.eval, h.memory]
  exact RaggedRows.getElem?_lengths h.row

/-- Executing the code that adds a synapse adds it. -/
theorem exec_additionCode (hsup : Supported x r arrays batchSize) (hs : Located x r s)
    (hfree : (r.synapses x.row).length < r.stride) :
    ∃ r', r.add x.row x.post (additionValues x.argument 1 arrays) =
        .ok (x.row * r.stride + (r.synapses x.row).length, r') ∧
      (additionCode arrays batchSize).exec x s = some (s.setMemory r'.memory) := by
  have hlength := RaggedRows.getElem?_lengths hs.row
  have hcount := hs.length
  have hslot := RaggedRows.slot_lt_slots hs.row hfree
  have hslots := hsup.slots
  refine ⟨_, (RaggedRows.add_eq hlength x.post _).trans (if_neg (Nat.not_le.mpr hfree)), ?_⟩
  generalize (r.synapses x.row).length = n at *
  generalize hnew : x.row * r.stride + n = slot at *
  have hdeclare : (declare .newSlot (.add (.constant .rowStart) .length)).exec x s =
      some (s.declare .newSlot slot) := by
    rw [← hnew] at hslot ⊢
    exact exec_declare (eval_add (eval_constant hs.rowStart) hcount
      (hslots.mono (Nat.le_of_lt hslot)))
  have hassert : (assertLess .length .stride).exec x (s.declare .newSlot slot) =
      some (s.declare .newSlot slot) :=
    exec_assertLess hcount (congrArg some hs.stride) hfree
  have hpost : (setPost (.constant .newSlot) .newPost).exec x (s.declare .newSlot slot) =
      some ((s.declare .newSlot slot).setPosts (r.posts.set slot x.post)) := by
    have hposts : (s.declare .newSlot slot).memory.posts = r.posts := hs.posts
    rw [← hposts]
    refine exec_setPost (eval_constant (State.constants_declare_self .newSlot slot)) rfl ?_
    rw [hposts, hsup.mirrors.wellFormed.length_posts]
    exact hslot
  have hend : ∀ t : State, t.memory.lengths = r.lengths →
      (all [grow]).exec x t = some (t.setLengths (r.lengths.set x.row (n + 1))) := by
    intro t hlengths
    rw [← hlengths] at hlength ⊢
    exact exec_seq (exec_grow hlength (hslots.mono (by omega)))
  obtain ⟨hoisted, hstores⟩ := exec_stores
    (s := (s.declare .newSlot slot).setPosts (r.posts.set slot x.post))
    (stores_additionCodes hsup.counterparts (State.constants_declare_self .newSlot slot)
      ((State.constants_declare_of_ne (by decide) slot).trans hs.synStride) hslot
      hsup.copies 1)
    (fun _ _ => rfl) hsup.names hs.bound
  rw [additionCode, exec, List.append_assoc, List.cons_append, List.cons_append, List.cons_append,
    List.nil_append, exec_all_cons hdeclare, exec_all_cons hassert, exec_all_cons hpost,
    exec_all_append hstores, hend]
  · rfl
  · exact hs.lengths

/-- Executing the code that removes the current synapse removes it and sets the loop back. -/
theorem exec_removalCode (hsup : Supported x r arrays batchSize) (hs : Located x r s) {slot : Nat}
    (hlive : slot < (r.synapses x.row).length)
    (hcurrent : s.constants .slot = some (x.row * r.stride + slot)) {v w : Int}
    (hposition : s.counters .position = some v)
    (hfit : Counter.fit x .position (v - 1) = some w) :
    ∃ r', r.remove x.row slot = .ok r' ∧ (removalCode arrays batchSize).exec x s =
      some ((s.setMemory r'.memory).setCounter .position (some w)) := by
  have hlength := RaggedRows.getElem?_lengths hs.row
  have hcount := hs.length
  have hle := hsup.mirrors.wellFormed.length_synapses_le x.row
  have hslot := RaggedRows.slot_lt_slots hs.row (Nat.lt_of_lt_of_le hlive hle)
  have hslots := hsup.slots
  refine ⟨_, (RaggedRows.remove_eq hlength slot).trans (if_neg (Nat.not_le.mpr hlive)), ?_⟩
  generalize (r.synapses x.row).length = n at *
  have hlast := RaggedRows.slot_lt_slots (i := n - 1) hs.row (by omega)
  have hfits' : x.Fits (x.row * r.stride + n) := hslots.mono (by omega)
  have hsub : x.row * r.stride + n - 1 = x.row * r.stride + (n - 1) := by omega
  have hdeclare : (declare .lastSlot (.sub (.add (.constant .rowStart) .length) (.number 1))).exec
      x s = some (s.declare .lastSlot (x.row * r.stride + n - 1)) :=
    exec_declare (eval_sub (eval_add (eval_constant hs.rowStart) hcount hfits') rfl (by omega)
      (hfits'.mono (Nat.sub_le _ 1)))
  rw [← hsub] at hlast
  generalize x.row * r.stride + n - 1 = last at *
  generalize x.row * r.stride + slot = target at *
  have hcurrent' : (s.declare .lastSlot last).constants .slot = some target :=
    (State.constants_declare_of_ne (by decide) last).trans hcurrent
  have hlast' : (s.declare .lastSlot last).constants .lastSlot = some last :=
    State.constants_declare_self .lastSlot last
  have hpost : (setPost (.constant .slot) (.post (.constant .lastSlot))).exec x
      (s.declare .lastSlot last) =
        some ((s.declare .lastSlot last).setPosts
          (r.posts.set target (r.posts[last]?.getD 0))) := by
    have hposts : (s.declare .lastSlot last).memory.posts = r.posts := hs.posts
    rw [← hposts]
    refine exec_setPost (eval_constant hcurrent')
      (eval_post (eval_constant hlast') ?_) ?_
    · rw [hposts, hsup.mirrors.wellFormed.length_posts]
      exact hlast
    · rw [hposts, hsup.mirrors.wellFormed.length_posts]
      exact hslot
  have hstride : (s.declare .lastSlot last).constants .synStride = some r.slots :=
    (State.constants_declare_of_ne (by decide) last).trans hs.synStride
  obtain ⟨hoisted, hstores⟩ := exec_stores
    (s := (s.declare .lastSlot last).setPosts (r.posts.set target (r.posts[last]?.getD 0)))
    (stores_removalCodes hsup.counterparts hcurrent' hlast' hstride hslot hlast
      hsup.copies)
    (fun _ _ => rfl) hsup.names hs.bound
  have hend : ∀ t : State, t.memory.lengths = r.lengths → t.counters = s.counters →
      (all [shrink, decrement .position]).exec x t =
        some ((t.setLengths (r.lengths.set x.row (n - 1))).setCounter .position (some w)) := by
    intro t hlengths hcounters
    rw [← hlengths] at hlength ⊢
    rw [← hcounters] at hposition
    rw [exec_all_cons (exec_shrink hlength (by omega) (hfits'.mono (Nat.le_add_left n _)))]
    exact exec_seq (exec_decrement hposition hfit)
  rw [removalCode, exec, List.append_assoc, List.cons_append, List.cons_append, List.nil_append,
    exec_all_cons hdeclare, exec_all_cons hpost, exec_all_append hstores, hend]
  · rfl
  · exact hs.lengths
  · rfl

theorem Located.declare (h : Located x r s) {c : Constant} (n : Nat) (hstart : .rowStart ≠ c)
    (hstride : .synStride ≠ c) : Located x r (s.declare c n) :=
  ⟨h.stride, h.row, h.memory, (State.constants_declare_of_ne hstart n).trans h.rowStart,
    (State.constants_declare_of_ne hstride n).trans h.synStride⟩

theorem Located.currentSlot (h : Located x r s) (hfits : x.Fits r.slots) {slot : Nat}
    (hslot : slot < r.stride) (hposition : s.counters .position = some (slot : Int)) :
    currentSlot.eval x s = some (x.row * r.stride + slot) := by
  have hindex := hfits.mono (Nat.le_of_lt (RaggedRows.slot_lt_slots h.row hslot))
  exact eval_add (eval_constant h.rowStart)
    (eval_counter hposition (hindex.mono (Nat.le_add_left slot _))) hindex

theorem fit_position {v : Int} (hlower : -1 ≤ v) (hupper : v < 2 ^ 31) :
    Counter.fit x .position v = some v := by
  rw [Counter.fit, if_pos]
  omega

/-- Executing the code that removes a synapse where a loop has declared the current slot. -/
theorem exec_removeCurrent (hsup : Supported x r arrays batchSize) (hs : Located x r s) {slot : Nat}
    (hlive : slot < (r.synapses x.row).length) (hint : slot < 2 ^ 31)
    (hposition : s.counters .position = some (slot : Int)) :
    ∃ r', r.remove x.row slot = .ok r' ∧
      (removalCode arrays batchSize).exec x (s.declare .slot (x.row * r.stride + slot)) =
        some (((s.declare .slot (x.row * r.stride + slot)).setMemory r'.memory).setCounter
          .position (some (slot - 1))) :=
  exec_removalCode hsup (hs.declare _ (by decide) (by decide)) hlive
    (State.constants_declare_self _ _) hposition (fit_position (by omega) (by omega))

end Change

section Sweep

variable {x : Context} {s : State} {condition : String} {test : Nat → Bool}

theorem exec_scanBody {body : RowStmt} {t : State} {slot : Nat}
    (hcurrent : currentSlot.eval x s = some slot)
    (hbody : body.exec x (s.declare .slot slot) = some t) :
    (scanBody body).exec x s = some (t.leave s) :=
  exec_block ((exec_seq (exec_declare hcurrent)).trans hbody)

/-- One round of the loop that removes what passes a test. -/
noncomputable def sweepRound (x : Context) (arrays : List SynapseArray) (batchSize : Nat)
    (condition : String) (test : Nat → Bool) (s : State) : Option State := do
  advance x .position (← (scanBody (.when condition (.post currentSlot) test
    (removalCode arrays batchSize))).exec x s)

theorem sweepRound_eq (hsup : Supported x r arrays batchSize) (hs : Located x r s) {slot : Nat}
    (hlive : slot < (r.synapses x.row).length) (hint : slot + 1 < 2 ^ 31)
    (hposition : s.counters .position = some (slot : Int)) :
    if test (r.posts[x.row * r.stride + slot]?.getD 0) then
      ∃ r', r.remove x.row slot = .ok r' ∧
        sweepRound x arrays batchSize condition test s = some (s.setMemory r'.memory)
    else sweepRound x arrays batchSize condition test s =
      some (s.setCounter .position (some (slot + 1))) := by
  have hslots := hsup.slots
  have hstride := Nat.lt_of_lt_of_le hlive (hsup.mirrors.wellFormed.length_synapses_le x.row)
  have hlt := RaggedRows.slot_lt_slots hs.row hstride
  generalize htarget : x.row * r.stride + slot = target at *
  have hcurrent : currentSlot.eval x s = some target :=
    htarget ▸ hs.currentSlot hslots hstride hposition
  have hs' := hs.declare (c := .slot) target (by decide) (by decide)
  have hpost : (Index.post currentSlot).eval x (s.declare .slot target) =
      some (r.posts[target]?.getD 0) := by
    have hposts : (s.declare .slot target).memory.posts = r.posts := hs.posts
    rw [← hposts]
    refine eval_post (htarget ▸ hs'.currentSlot hslots hstride hposition) ?_
    rw [hposts, hsup.mirrors.wellFormed.length_posts]
    exact hlt
  have hwhen : (when condition (.post currentSlot) test (removalCode arrays batchSize)).exec x
      (s.declare .slot target) = _ := exec_when hpost
  cases htest : test (r.posts[target]?.getD 0) with
  | true =>
      rw [htest, if_pos rfl] at hwhen
      obtain ⟨r', hremove, hexec⟩ :=
        exec_removeCurrent hsup hs hlive (by omega) hposition
      rw [htarget] at hexec
      refine ⟨r', hremove, ?_⟩
      have hbody := exec_scanBody hcurrent (hwhen.trans hexec)
      have hcounter : ((((s.declare .slot target).setMemory r'.memory).setCounter .position
          (some (slot - 1))).leave s).counters .position = some ((slot : Int) - 1) := by
        rw [State.counters_leave, State.counters_setCounter_self]
      have hfit : Counter.fit x .position ((slot : Int) - 1 + 1) = some (slot : Int) := by
        rw [Int.sub_add_cancel]
        exact fit_position (by omega) (by omega)
      rw [sweepRound, hbody]
      refine (advance_eq hcounter hfit).trans (congrArg some ?_)
      rw [← hposition]
      simp [State.setCounter, State.leave, State.setMemory, State.declare]
  | false =>
      rw [htest, if_neg Bool.false_ne_true] at hwhen
      have hbody := exec_scanBody hcurrent hwhen
      rw [sweepRound, hbody]
      exact advance_eq hposition (fit_position (by omega) (by omega))

theorem Located.setMemory (h : Located x r s) (hshape : r.SameShape r') :
    Located x r' (s.setMemory r'.memory) :=
  ⟨h.stride.trans hshape.stride.symm, hshape.rows ▸ h.row, rfl, hshape.stride ▸ h.rowStart,
    hshape.slots_eq.symm ▸ h.synStride⟩

theorem Located.setCounter (h : Located x r s) (c : Counter) (v : Option Int) :
    Located x r (s.setCounter c v) :=
  ⟨h.stride, h.row, h.memory, h.rowStart, h.synStride⟩

theorem Located.isBelow (h : Located x r s) (hwell : r.WellFormed) (hfits : x.Fits r.slots)
    {slot : Nat} (hle : slot ≤ (r.synapses x.row).length)
    (hposition : s.counters .position = some (slot : Int)) :
    isBelow x .position .length s = some (decide (slot < (r.synapses x.row).length)) := by
  have hstride := hwell.length_synapses_le x.row
  have hslots : r.stride ≤ r.slots :=
    Nat.le_mul_of_pos_left r.stride (Nat.zero_lt_of_lt h.row)
  exact isBelow_eq (eval_counter hposition (hfits.mono (by omega))) h.length

/-- The loop visits and removes what sweeping over the row does. -/
theorem iterate_sweepRound {remaining slot : Nat} (hsup : Supported x r arrays batchSize)
    (hs : Located x r s)
    (hlength : (r.synapses x.row).length = slot + remaining) (hint : slot + remaining < 2 ^ 31)
    (hposition : s.counters .position = some (slot : Int)) :
    ∃ count r' v, RaggedRows.sweep (fun _ post _ => (test post, ())) x.row remaining slot () r =
        .ok (count, r') ∧
      iterate (isBelow x .position .length) (sweepRound x arrays batchSize condition test) s =
        some ((s.setMemory r'.memory).setCounter .position v) := by
  induction remaining generalizing r slot s with
  | zero =>
      have hbelow := hs.isBelow hsup.mirrors.wellFormed hsup.slots
        hlength.ge hposition
      rw [hlength, decide_eq_false (Nat.lt_irrefl _)] at hbelow
      refine ⟨0, r, some slot, rfl, (iterate_done hbelow).trans (congrArg some ?_)⟩
      rw [← hposition, ← hs.memory]
      exact (State.setCounter_counters (s := s) .position).symm
  | succ remaining ih =>
      have hlive : slot < (r.synapses x.row).length := by omega
      have hbelow := hs.isBelow hsup.mirrors.wellFormed hsup.slots
        hlive.le hposition
      rw [decide_eq_true hlive] at hbelow
      have hround : ite _ _ (sweepRound x arrays batchSize condition test s = _) :=
        sweepRound_eq hsup hs hlive (by omega) hposition
      rw [RaggedRows.sweep]
      cases htest : test (r.posts[x.row * r.stride + slot]?.getD 0) with
      | true =>
          rw [htest, if_pos rfl] at hround
          obtain ⟨r₁, hremove, hround⟩ := hround
          obtain ⟨_, hremove', hwell₁, hshape, hsyn⟩ :=
            RaggedRows.remove_spec hsup.mirrors.wellFormed hlive
          cases hremove.symm.trans hremove'
          have hlength₁ : (r₁.synapses x.row).length = slot + remaining := by
            rw [hsyn, Function.update_self, length_swapRemove]
            omega
          obtain ⟨count, r', v, hsweep, hiterate⟩ := ih (hsup.of_sameShape hshape hwell₁)
            (hs.setMemory hshape) hlength₁ (by omega) hposition
          refine ⟨count + 1, r', v, ?_, (iterate_step hbelow hround).trans hiterate⟩
          change (r.remove x.row slot >>= _) = _
          rw [hremove, ok_bind, hsweep, ok_bind]
          rfl
      | false =>
          rw [htest, if_neg Bool.false_ne_true] at hround
          have hlength₁ : (r.synapses x.row).length = slot + 1 + remaining := by omega
          obtain ⟨count, r', v, hsweep, hiterate⟩ := ih hsup (hs.setCounter _ _) hlength₁
            (by omega) (State.counters_setCounter_self _ _)
          refine ⟨count, r', v, hsweep, (iterate_step hbelow hround).trans (hiterate.trans ?_)⟩
          simp [State.setCounter, State.setMemory]

/-- Executing the loop that removes what passes a test removes it from the row. -/
theorem exec_sweepCode (hsup : Supported x r arrays batchSize) (hs : Located x r s)
    (hint : (r.synapses x.row).length < 2 ^ 31) (condition : String) (test : Nat → Bool) :
    ∃ count r', r.removeWhere x.row (fun _ post _ => (test post, ())) () = .ok (count, r') ∧
      (sweepCode arrays batchSize condition test).exec x s = some (s.setMemory r'.memory) := by
  have hcount : (r.synapses x.row).length = 0 + (r.synapses x.row).length := by omega
  obtain ⟨count, r', v, hsweep, hiterate⟩ :
      ∃ count r' v, _ ∧ iterate (isBelow x .position .length)
        (sweepRound x arrays batchSize condition test) _ = _ :=
    iterate_sweepRound hsup (hs.setCounter .position (some 0)) hcount (by omega)
      (State.counters_setCounter_self _ _)
  refine ⟨count, r', ?_, ?_⟩
  · rw [RaggedRows.removeWhere, RaggedRows.length_eq_ok (RaggedRows.getElem?_lengths hs.row),
      ok_bind]
    exact hsweep
  · rw [sweepCode, scanCode, exec]
    change (iterate (isBelow x .position .length)
      (sweepRound x arrays batchSize condition test) _ >>= _) = _
    rw [hiterate]
    simp [State.setCounter, State.setMemory]

end Sweep

/-- The state behind the declarations in front of the code for a row. -/
def State.enter (s : State) (r : RaggedRows) (row : Nat) : State :=
  (s.declare .rowStart (row * r.stride)).declare .synStride r.slots

section Enter

variable {s t : State} {modulus row post : Nat} {argument : Nat → Float} {body : RowStmt}

theorem located_enter (hrow : row < r.lengths.length) (hs : s.memory = r.memory) :
    Located (r.context modulus row post argument) r (s.enter r row) :=
  ⟨rfl, hrow, hs,
    (State.constants_declare_of_ne (by decide) _).trans (State.constants_declare_self _ _),
    State.constants_declare_self _ _⟩

theorem exec_rowCode (hrow : row < r.lengths.length)
    (hfits : (r.context modulus row post argument).Fits r.slots)
    (hbody : body.exec (r.context modulus row post argument) (s.enter r row) = some t) :
    (rowCode body).exec (r.context modulus row post argument) s = some (t.leave s) := by
  have hle : row * r.stride ≤ r.slots := Nat.mul_le_mul_right r.stride hrow.le
  have hstart : (declare .rowStart rowStart).exec (r.context modulus row post argument) s =
      some (s.declare .rowStart (row * r.stride)) :=
    exec_declare (eval_mul rfl rfl (hfits.mono hle))
  have hstride : (declare .synStride synStride).exec (r.context modulus row post argument)
      (s.declare .rowStart (row * r.stride)) = some (s.enter r row) :=
    exec_declare (eval_mul rfl rfl hfits)
  exact exec_block ((exec_seq hstart).trans ((exec_seq hstride).trans hbody))

end Enter

/-- The code that changes rows does what the rows do, for rows with the same arrays and batches and
with fewer live slots than a signed integer can count. Unsigned integers are counted without bound,
or modulo a number above that of all slots in all copies. The code that adds a synapse to a row with
a free slot, where named arrays take the arguments and all others zero, the code that removes the
synapse that a loop visits, and a loop that removes the synapses that pass a test on the
postsynaptic neuron each end, and leave the memory as the rows are after the change. The memory has
every array under its name. -/
theorem row_code_refines_rows {row n modulus post : Nat} {argument : Nat → Float} {s : State}
    (hm : Mirrors r arrays batchSize) (hpos : 1 ≤ batchSize)
    (hnodup : (arrays.map SynapseArray.field).Nodup)
    (hn : r.lengths[row]? = some n) (hint : n < 2 ^ 31)
    (hfits : modulus = 0 ∨ r.slots * batchSize < modulus) (hs : s.memory = r.memory) :
    Listed arrays batchSize ∧
    (∀ r', Mirrors r' arrays batchSize →
      ∀ a ∈ r'.arrays, r'.memory.arrays a.name = some a.values) ∧
    (n < r.stride →
      ∃ r', r.add row post (additionValues argument 1 arrays) = .ok (row * r.stride + n, r') ∧
        (rowCode (additionCode arrays batchSize)).exec (r.context modulus row post argument) s =
          some (s.setMemory r'.memory)) ∧
    (∀ slot < n, s.counters .position = some (slot : Int) →
      ∃ r', r.remove row slot = .ok r' ∧
        (rowCode (.seq (.declare .slot currentSlot) (removalCode arrays batchSize))).exec
            (r.context modulus row post argument) s =
          some ((s.setMemory r'.memory).setCounter .position (some (slot - 1)))) ∧
    ∀ condition test,
      ∃ count r', r.removeWhere row (fun _ post _ => (test post, ())) () = .ok (count, r') ∧
        (rowCode (sweepCode arrays batchSize condition test)).exec
          (r.context modulus row post argument) s = some (s.setMemory r'.memory) := by
  obtain ⟨hrow, hget⟩ := List.getElem?_eq_some_iff.mp hn
  have hlength : n = (r.synapses row).length := by
    rw [RaggedRows.length_synapses, hn, Option.getD_some]
  subst hlength
  have hsup : Supported (r.context modulus row post argument) r arrays batchSize :=
    ⟨hm, hpos, hnodup, hfits⟩
  have hs : Located (r.context modulus row post argument) r (s.enter r row) :=
    located_enter hrow hs
  refine ⟨listed arrays batchSize, ?_, ?_, ?_, ?_⟩
  · intro r' hm' a ha
    exact bindArrays_of_mem (hm'.names hnodup) ha
  · intro hfree
    obtain ⟨r', hadd, hexec⟩ := exec_additionCode hsup hs hfree
    exact ⟨r', hadd, exec_rowCode hrow hsup.slots hexec⟩
  · intro slot hlive hposition
    obtain ⟨r', hremove, hexec⟩ :=
      exec_removeCurrent hsup hs hlive (by omega) hposition
    have hstride := Nat.lt_of_lt_of_le hlive (hm.wellFormed.length_synapses_le row)
    have hdeclare := exec_declare (k := .slot) (hs.currentSlot hsup.slots hstride hposition)
    exact ⟨r', hremove, exec_rowCode hrow hsup.slots ((exec_seq hdeclare).trans hexec)⟩
  · intro condition test
    obtain ⟨count, r', hremove, hexec⟩ :=
      exec_sweepCode hsup hs hint condition test
    exact ⟨count, r', hremove, exec_rowCode hrow hsup.slots hexec⟩

/-- Two rows of two slots with one synapse, a named array, and one without a name that has a copy
for each of two batches. -/
theorem row_code_refines_rows_two_batches :
    ∃ (arrays : List SynapseArray) (r r' : RaggedRows) (s : State),
      Mirrors r arrays 2 ∧ (arrays.map SynapseArray.field).Nodup ∧ s.memory = r.memory ∧
      r.add 0 7 [0.25, 0.0] = .ok (1, r') ∧ r'.posts = [5, 7, 0, 0] ∧
      (rowCode (additionCode arrays 2)).exec (r.context (2 ^ 32) 0 7 fun _ => 0.25) s =
        some (s.setMemory r'.memory) := by
  let arrays : List SynapseArray :=
    [⟨some "g", "g", .num .float, false, false, []⟩,
      ⟨none, "x", .num .float, true, false, []⟩]
  let r : RaggedRows :=
    ⟨2, 2, [1, 0], [5, 0, 0, 0],
      [⟨"g", false, List.replicate 4 0.5⟩, ⟨"x", true, List.replicate 8 0.0⟩]⟩
  let s : State := ⟨r.memory, fun _ => none, fun _ => none, fun _ => none⟩
  have hm : Mirrors r arrays 2 := by
    refine ⟨⟨by decide, rfl, ?_⟩, rfl, rfl⟩
    intro a ha
    simp only [r, List.mem_cons, List.not_mem_nil, or_false] at ha
    rcases ha with rfl | rfl <;> rfl
  have hcode : Listed arrays 2 ∧ _ ∧ (1 < r.stride →
      ∃ r', r.add 0 7 (additionValues (fun _ => 0.25) 1 arrays) = .ok (0 * r.stride + 1, r') ∧
        (rowCode (additionCode arrays 2)).exec (r.context (2 ^ 32) 0 7 fun _ => 0.25) s =
          some (s.setMemory r'.memory)) ∧ _ :=
    row_code_refines_rows hm (by decide) (by decide) (show r.lengths[0]? = some 1 from rfl)
      (by decide) (Or.inr (show r.slots * 2 < 2 ^ 32 by decide)) rfl
  obtain ⟨r', hadd, hexec⟩ := hcode.2.2.1 (by decide)
  refine ⟨arrays, r, r', s, hm, by decide, rfl, hadd, ?_, hexec⟩
  cases hadd
  rfl

end KernelWeaver.Synapses
