import KernelWeaver.Proofs.Synapses.Listing
import KernelWeaver.Proofs.Synapses.Rows

/-!
# Storing into arrays

A statement that stores a value into an array in every copy changes the array as the rows themselves
do. Statements for one array after another change the arrays of all rows.
-/

namespace KernelWeaver.Synapses

open Code RowStmt

variable {x : Context} {s t : State}

/-- An unsigned integer can hold the number. -/
def Context.Fits (x : Context) (n : Nat) : Prop := x.modulus = 0 ∨ n < x.modulus

theorem Context.Fits.mono {m n : Nat} (h : x.Fits n) (hle : m ≤ n) : x.Fits m :=
  h.imp_right (Nat.lt_of_le_of_lt hle)

theorem Context.Fits.wrap {n : Nat} (h : x.Fits n) : x.wrap n = some n := by
  have hmod : (n : Int) % x.modulus = n := by
    rcases h with hzero | hlt
    · rw [hzero, Int.natCast_zero, Int.emod_zero]
    · exact Int.emod_eq_of_lt (Int.natCast_nonneg n) (Int.ofNat_lt.mpr hlt)
  rw [Context.wrap, hmod]
  rfl

section Eval

variable {i j : Index} {m n : Nat}

theorem eval_constant {c : Constant} (hc : s.constants c = some n) :
    (Index.constant c).eval x s = some n := by
  rw [Index.eval, hc]

theorem eval_counter {c : Counter} (hc : s.counters c = some (n : Int)) (hfits : x.Fits n) :
    (Index.counter c).eval x s = some n := by
  rw [Index.eval, hc]
  exact hfits.wrap

theorem eval_add (hi : i.eval x s = some m) (hj : j.eval x s = some n) (hfits : x.Fits (m + n)) :
    (Index.add i j).eval x s = some (m + n) := by
  rw [Index.eval, hi, hj]
  change x.wrap ((m : Int) + n) = _
  rw [← Int.natCast_add]
  exact hfits.wrap

theorem eval_sub (hi : i.eval x s = some m) (hj : j.eval x s = some n) (hle : n ≤ m)
    (hfits : x.Fits (m - n)) : (Index.sub i j).eval x s = some (m - n) := by
  rw [Index.eval, hi, hj]
  change x.wrap ((m : Int) - n) = _
  rw [← Int.ofNat_sub hle]
  exact hfits.wrap

theorem eval_mul (hi : i.eval x s = some m) (hj : j.eval x s = some n) (hfits : x.Fits (m * n)) :
    (Index.mul i j).eval x s = some (m * n) := by
  rw [Index.eval, hi, hj]
  change x.wrap ((m : Int) * n) = _
  rw [← Int.natCast_mul]
  exact hfits.wrap

theorem eval_post (hi : i.eval x s = some m) (hm : m < s.memory.posts.length) :
    (Index.post i).eval x s = some (s.memory.posts[m]?.getD 0) := by
  rw [Index.eval, hi, List.getElem?_eq_getElem hm]
  exact List.getElem?_eq_getElem hm

theorem eval_element {a : SynapseArray} {values : List Float} (hi : i.eval x s = some m)
    (hvalues : s.memory.arrays a.field = some values) (hm : m < values.length) :
    (Datum.element a i).eval x s = some (values[m]?.getD 0.0) := by
  rw [Datum.eval, hvalues, hi, List.getElem?_eq_getElem hm]
  exact List.getElem?_eq_getElem hm

end Eval

section Exec

variable {stmt rest body : RowStmt} {c : Counter} {k : Constant} {a : SynapseArray} {i j : Index}
  {m n : Nat}

theorem exec_all_cons {stmts : List RowStmt} (h : stmt.exec x s = some t) :
    (all (stmt :: stmts)).exec x s = (all stmts).exec x t := exec_seq h

theorem exec_all_append {stmts stmts' : List RowStmt} (h : (all stmts).exec x s = some t) :
    (all (stmts ++ stmts')).exec x s = (all stmts').exec x t := by
  induction stmts generalizing s with
  | nil =>
      cases h
      rfl
  | cons stmt rest ih =>
      rw [all, exec] at h
      cases hstmt : stmt.exec x s with
      | none =>
          rw [hstmt] at h
          cases h
      | some u =>
          rw [hstmt] at h
          exact (exec_seq hstmt).trans (ih h)

theorem exec_declare {value : Index} (h : value.eval x s = some n) :
    (declare k value).exec x s = some (s.declare k n) := by
  rw [exec, h]
  rfl

theorem exec_assertLess (hi : i.eval x s = some m) (hj : j.eval x s = some n) (hlt : m < n) :
    (assertLess i j).exec x s = some s := by
  rw [exec, hi, hj]
  exact if_pos hlt

theorem exec_setPost {slot value : Index} (hslot : slot.eval x s = some m)
    (hvalue : value.eval x s = some n) (hlt : m < s.memory.posts.length) :
    (setPost slot value).exec x s = some (s.setPosts (s.memory.posts.set m n)) := by
  rw [exec, hslot, hvalue]
  exact if_pos hlt

theorem exec_setElement {value : Datum} {v : Float} {values : List Float}
    (hi : i.eval x s = some m) (hvalue : value.eval x s = some v)
    (hvalues : s.memory.arrays a.field = some values) (hlt : m < values.length) :
    (setElement a i value).exec x s = some (s.setArray a.field (values.set m v)) := by
  rw [exec, hi, hvalue, hvalues]
  exact if_pos hlt

theorem exec_hoist {value : Datum} {v : Float} (h : value.eval x s = some v) :
    (hoist a value).exec x s =
      some (s.setHoisted (Function.update s.hoisted a.field (some v))) := by
  rw [exec, h]
  rfl

theorem exec_grow (h : s.memory.lengths[x.row]? = some n) (hfits : x.Fits (n + 1)) :
    grow.exec x s = some (s.setLengths (s.memory.lengths.set x.row (n + 1))) := by
  have hwrap : x.wrap ((n : Int) + 1) = some (n + 1) := hfits.wrap
  simp only [exec, h, hwrap, Option.bind_eq_bind, Option.bind_some, Option.pure_def]

theorem exec_shrink (h : s.memory.lengths[x.row]? = some n) (hpos : 1 ≤ n) (hfits : x.Fits n) :
    shrink.exec x s = some (s.setLengths (s.memory.lengths.set x.row (n - 1))) := by
  have hwrap : x.wrap ((n : Int) - 1) = some (n - 1) := by
    rw [← Int.ofNat_one, ← Int.ofNat_sub hpos]
    exact (hfits.mono (Nat.sub_le n 1)).wrap
  simp only [exec, h, hwrap, Option.bind_eq_bind, Option.bind_some, Option.pure_def]

theorem exec_decrement {v w : Int} (hc : s.counters c = some v) (hfit : c.fit x (v - 1) = some w) :
    (decrement c).exec x s = some (s.setCounter c (some w)) := by
  simp only [exec, hc, hfit, Option.bind_eq_bind, Option.bind_some, Option.pure_def]

theorem exec_when {condition : String} {test : Nat → Bool} (h : i.eval x s = some n) :
    (when condition i test body).exec x s = if test n then body.exec x s else some s := by
  rw [exec, h]
  rfl

theorem exec_block (h : body.exec x s = some t) : (block body).exec x s = some (t.leave s) := by
  rw [exec, h]
  rfl

theorem isBelow_eq {bound : Index} (hc : (Index.counter c).eval x s = some m)
    (hbound : bound.eval x s = some n) : isBelow x c bound s = some (decide (m < n)) := by
  rw [isBelow, hc, hbound]
  rfl

theorem Context.Fits.fit_copy (h : x.Fits n) : Counter.fit x .copy n = some (n : Int) := by
  rw [Counter.fit, h.wrap]
  rfl

theorem advance_eq {v w : Int} (hc : s.counters c = some v) (hfit : c.fit x (v + 1) = some w) :
    advance x c s = some (s.setCounter c (some w)) := by
  simp only [advance, hc, hfit, Option.bind_eq_bind, Option.bind_some, Option.pure_def]

/-- A loop that passes through the states of a sequence. -/
theorem exec_loop {bound : Index} (states : Nat → State)
    (hstart : s.setCounter c (some 0) = states 0)
    (hround : ∀ k < n, isBelow x c bound (states k) = some true ∧
      ∃ t, body.exec x (states k) = some t ∧ advance x c t = some (states (k + 1)))
    (hdone : isBelow x c bound (states n) = some false) :
    (loop c bound body).exec x s = some ((states n).setCounter c (s.counters c)) := by
  have hiterate : iterate (isBelow x c bound) (fun s => do advance x c (← body.exec x s)) (states 0) =
      some (states n) := by
    refine iterate_sequence states ?_ hdone
    intro k hk
    obtain ⟨hguard, t, hbody, hadvance⟩ := hround k hk
    refine ⟨hguard, ?_⟩
    rw [hbody]
    exact hadvance
  rw [exec, hstart, hiterate]
  rfl

end Exec

/-- Values with one slot set in each of the first copies. -/
def storedValues (values : List Float) (slots copies slot : Nat) (value : Nat → Float) :
    List Float :=
  ((List.range copies).map (· * slots)).foldl (fun vs start => vs.set (start + slot) (value start))
    values

section Store

variable {values : List Float} {slots copies slot : Nat} {value : Nat → Float}

theorem storedValues_succ : storedValues values slots (copies + 1) slot value =
    (storedValues values slots copies slot value).set (copies * slots + slot)
      (value (copies * slots)) := by
  rw [storedValues, List.range_succ, List.map_append, List.foldl_append]
  rfl

@[simp] theorem length_storedValues :
    (storedValues values slots copies slot value).length = values.length := by
  induction copies with
  | zero => rfl
  | succ copies ih => rw [storedValues_succ, List.length_set, ih]

/-- The first copies do not matter for the next one. -/
theorem getElem?_storedValues {i : Nat} (hslot : slot < slots) (hi : i < slots) :
    (storedValues values slots copies slot value)[copies * slots + i]? =
      values[copies * slots + i]? := by
  rw [storedValues, getElem?_foldl_set, if_neg]
  rintro ⟨_, hstart, hsum⟩
  obtain ⟨k, hk, rfl⟩ := List.mem_map.mp hstart
  exact Nat.ne_of_lt (List.mem_range.mp hk) (RaggedRows.slot_inj hslot hi hsum).1

theorem slot_lt_length {k : Nat} (hlength : values.length = slots * copies) (hk : k < copies)
    {i : Nat} (hi : i < slots) : k * slots + i < values.length := by
  have hle : (k + 1) * slots ≤ copies * slots := Nat.mul_le_mul_right slots hk
  rw [Nat.add_mul, Nat.one_mul] at hle
  rw [hlength, Nat.mul_comm slots]
  omega

/-- The number of copies of an array in the code. -/
def copyCount (a : SynapseArray) (batchSize : Nat) : Nat :=
  if a.isBatched batchSize then batchSize else 1

theorem copyCount_of_single {a : SynapseArray} {batchSize : Nat}
    (h : a.isBatched batchSize = false) : copyCount a batchSize = 1 := by
  rw [copyCount, h]
  rfl

theorem copyCount_of_batched {a : SynapseArray} {batchSize : Nat}
    (h : a.isBatched batchSize = true) : copyCount a batchSize = batchSize := by
  rw [copyCount, h]
  rfl

/-- The state in which the code stores into a copy of an array. -/
def storing (s : State) (a : SynapseArray) (values : List Float) (slots slot : Nat)
    (value : Nat → Float) (copy : Nat) : State :=
  (s.setArray a.field (storedValues values slots copy slot value)).setCounter .copy (some copy)

variable {a : SynapseArray} {batchSize : Nat} {place : Constant}

/-- One round of the loop over the copies of an array. -/
theorem exec_storeCopy {k : Nat} {datum : Datum} (hplace : s.constants place = some slot)
    (hne : place ≠ .copyStart) (hstride : s.constants .synStride = some slots)
    (hlength : values.length = slots * copies) (hslot : slot < slots)
    (hfits : x.Fits (slots * copies)) (hk : k < copies)
    (hdatum : datum.eval x
      ((storing s a values slots slot value k).declare .copyStart (k * slots)) =
        some (value (k * slots))) :
    (RowStmt.block (.seq (.declare .copyStart (.mul (.counter .copy) (.constant .synStride)))
        (.setElement a (.add (.constant .copyStart) (.constant place)) datum))).exec x (storing s a values slots slot value k) =
      some ((storing s a values slots slot value (k + 1)).setCounter .copy (some k)) := by
  have hlt := slot_lt_length hlength hk hslot
  have hindex : x.Fits (k * slots + slot) :=
    hfits.mono (by rw [← hlength]; exact Nat.le_of_lt hlt)
  have hstart : x.Fits (k * slots) := hindex.mono (Nat.le_add_right _ _)
  have hcounter : x.Fits k :=
    hstart.mono (Nat.le_mul_of_pos_right k (Nat.zero_lt_of_lt hslot))
  have hcopy : (Index.counter .copy).eval x (storing s a values slots slot value k) = some k :=
    eval_counter (State.counters_setCounter_self _ _) hcounter
  have hplace' : ((storing s a values slots slot value k).declare .copyStart
      (k * slots)).constants place = some slot :=
    (State.constants_declare_of_ne hne _).trans hplace
  have hvalues : ((storing s a values slots slot value k).declare .copyStart
      (k * slots)).memory.arrays a.field = some (storedValues values slots k slot value) :=
    State.arrays_setArray_self _ _
  have hdeclare := exec_declare (k := .copyStart) (eval_mul hcopy (eval_constant hstride) hstart)
  have hset := exec_setElement
    (eval_add (eval_constant (State.constants_declare_self .copyStart _)) (eval_constant hplace')
      hindex) hdatum hvalues
    (by rw [length_storedValues]; exact hlt)
  refine (exec_block ((exec_seq hdeclare).trans hset)).trans (congrArg some ?_)
  rw [← storedValues_succ]
  simp only [storing, State.setCounter_setCounter]
  simp only [State.leave, State.declare, State.setArray, State.setArrays, State.setCounter,
    Function.update_idem]

/-- Storing into an array in the code is storing into it in every copy. -/
theorem exec_storeCode {datum : Option Index → Datum}
    (hplace : s.constants place = some slot) (hne : place ≠ .copyStart)
    (hstride : s.constants .synStride = some slots)
    (hvalues : s.memory.arrays a.field = some values)
    (hlength : values.length = slots * copyCount a batchSize) (hslot : slot < slots)
    (hfits : x.Fits (slots * copyCount a batchSize))
    (hsingle : a.isBatched batchSize = false → (datum none).eval x s = some (value 0))
    (hcopy : a.isBatched batchSize = true → ∀ k < batchSize,
      (datum (some (.constant .copyStart))).eval x
        ((storing s a values slots slot value k).declare .copyStart (k * slots)) =
          some (value (k * slots))) :
    (storeCode a batchSize place datum).exec x s =
      some (s.setArray a.field
        (storedValues values slots (copyCount a batchSize) slot value)) := by
  rw [storeCode]
  cases hbatched : a.isBatched batchSize with
  | false =>
      rw [copyCount_of_single hbatched] at hlength ⊢
      have hlt := slot_lt_length hlength Nat.one_pos hslot
      rw [Nat.zero_mul, Nat.zero_add] at hlt
      rw [storedValues_succ, Nat.zero_mul, Nat.zero_add]
      exact exec_setElement (eval_constant hplace) (hsingle hbatched) hvalues hlt
  | true =>
      rw [copyCount_of_batched hbatched] at hlength hfits ⊢
      have hcounter : ∀ k ≤ batchSize, x.Fits k := by
        intro k hk
        exact hfits.mono (hk.trans (Nat.le_mul_of_pos_left batchSize (Nat.zero_lt_of_lt hslot)))
      have hbelow : ∀ k ≤ batchSize, isBelow x .copy (.number batchSize)
          (storing s a values slots slot value k) = some (decide (k < batchSize)) :=
        fun k hk => isBelow_eq
          (eval_counter (State.counters_setCounter_self _ _) (hcounter k hk)) rfl
      refine (exec_loop (n := batchSize) (storing s a values slots slot value) ?_ ?_ ?_).trans ?_
      · rw [storing, storedValues, List.range_zero, List.map_nil, List.foldl_nil,
          State.setArray_eq_self hvalues]
        rfl
      · intro k hk
        refine ⟨?_, _, exec_storeCopy hplace hne hstride hlength hslot hfits hk
          (hcopy hbatched k hk), ?_⟩
        · rw [hbelow k (Nat.le_of_lt hk), decide_eq_true hk]
        · rw [advance_eq (State.counters_setCounter_self _ _) (hcounter (k + 1) hk).fit_copy,
            State.setCounter_setCounter, storing, State.setCounter_setCounter]
      · rw [hbelow batchSize le_rfl, decide_eq_false (Nat.lt_irrefl _)]
      · rw [storing, State.setCounter_setCounter]
        exact congrArg some (State.setCounter_counters (s := s.setArray a.field _) .copy)

end Store

/-- Arrays by their names. -/
def bindArrays (arrays : List RowArray) (others : String → Option (List Float)) :
    String → Option (List Float) :=
  arrays.foldr (fun a bound => Function.update bound a.name (some a.values)) others

theorem bindArrays_update {arrays : List RowArray} {others : String → Option (List Float)}
    {field : String} (h : field ∉ arrays.map RowArray.name) (values : Option (List Float)) :
    bindArrays arrays (Function.update others field values) =
      Function.update (bindArrays arrays others) field values := by
  induction arrays with
  | nil => rfl
  | cons a rest ih =>
      rw [List.map_cons, List.mem_cons, not_or] at h
      change Function.update (bindArrays rest _) a.name _ =
        Function.update (Function.update (bindArrays rest others) a.name _) field _
      rw [ih h.2, Function.update_comm h.1]

theorem bindArrays_of_mem {arrays : List RowArray} {others : String → Option (List Float)}
    (hnodup : (arrays.map RowArray.name).Nodup) {a : RowArray} (ha : a ∈ arrays) :
    bindArrays arrays others a.name = some a.values := by
  induction arrays with
  | nil => cases ha
  | cons b rest ih =>
      rw [List.map_cons, List.nodup_cons] at hnodup
      rcases List.mem_cons.mp ha with rfl | hrest
      · exact Function.update_self a.name _ _
      · have hne : a.name ≠ b.name := by
          intro heq
          exact hnodup.1 (heq ▸ List.mem_map_of_mem hrest)
        exact (Function.update_of_ne hne _ _).trans (ih hnodup.2 hrest)

/-- With the given constants, a statement turns one array into another of the same name. -/
def Stores (x : Context) (constants : Constant → Option Nat) (stmt : RowStmt)
    (a a' : RowArray) : Prop :=
  ∀ s : State, s.constants = constants → s.memory.arrays a.name = some a.values →
    ∃ hoisted, stmt.exec x s = some ((s.setArray a.name a'.values).setHoisted hoisted)

theorem exec_pairs {constants : Constant → Option Nat} {stmts : List RowStmt}
    {pairs : List (RowArray × RowArray)} {others : String → Option (List Float)}
    (h : List.Forall₂ (fun stmt p => Stores x constants stmt p.1 p.2) stmts pairs)
    (hname : ∀ p ∈ pairs, p.2.name = p.1.name)
    (hnodup : (pairs.map fun p => p.1.name).Nodup) (hs : s.constants = constants)
    (harrays : s.memory.arrays = bindArrays (pairs.map Prod.fst) others) :
    ∃ hoisted, (all stmts).exec x s =
      some ((s.setArrays (bindArrays (pairs.map Prod.snd) others)).setHoisted hoisted) := by
  induction h generalizing s others with
  | nil =>
      have hothers : s.memory.arrays = others := harrays
      subst hothers
      exact ⟨s.hoisted, rfl⟩
  | @cons stmt p stmts pairs hstmt hrest ih =>
      rw [List.forall_mem_cons] at hname
      rw [List.map_cons, List.nodup_cons] at hnodup
      have hfst : p.1.name ∉ (pairs.map Prod.fst).map RowArray.name := by
        rw [List.map_map]
        exact hnodup.1
      have hsnd : p.1.name ∉ (pairs.map Prod.snd).map RowArray.name := by
        rw [List.map_map]
        have hnames : pairs.map (RowArray.name ∘ Prod.snd) = pairs.map fun p => p.1.name :=
          List.map_congr_left hname.2
        rw [hnames]
        exact hnodup.1
      have hhead : s.memory.arrays p.1.name = some p.1.values := by
        rw [harrays]
        exact Function.update_self p.1.name _ _
      obtain ⟨hoisted, hexec⟩ := hstmt s hs hhead
      have htail : (s.setArray p.1.name p.2.values).memory.arrays =
          bindArrays (pairs.map Prod.fst)
            (Function.update others p.1.name (some p.2.values)) := by
        rw [bindArrays_update hfst]
        change Function.update s.memory.arrays p.1.name _ = _
        rw [harrays]
        exact Function.update_idem _ _ _
      obtain ⟨hoisted', hrest⟩ := ih
        (s := (s.setArray p.1.name p.2.values).setHoisted hoisted) hname.2 hnodup.2 hs htail
      refine ⟨hoisted', (exec_seq hexec).trans (hrest.trans ?_)⟩
      rw [bindArrays_update hsnd, ← hname.1]
      rfl

/-- Statements for one array after another turn all arrays into others. -/
theorem exec_stores {stmts : List RowStmt} {stored : List RowArray}
    {new : Nat → RowArray → RowArray} {others : String → Option (List Float)}
    (h : List.Forall₂ (fun stmt p => Stores x s.constants stmt p.1 p.2) stmts
      (stored.mapIdx fun i b => (b, new i b)))
    (hname : ∀ i b, (new i b).name = b.name) (hnodup : (stored.map RowArray.name).Nodup)
    (harrays : s.memory.arrays = bindArrays stored others) :
    ∃ hoisted, (all stmts).exec x s =
      some ((s.setArrays (bindArrays (stored.mapIdx new) others)).setHoisted hoisted) := by
  have hfst : (stored.mapIdx fun i b => (b, new i b)).map Prod.fst = stored := by
    rw [map_mapIdx]
    exact (mapIdx_const id stored).trans (List.map_id stored)
  have hsnd : (stored.mapIdx fun i b => (b, new i b)).map Prod.snd = stored.mapIdx new := by
    rw [map_mapIdx]
  have hnames : (stored.mapIdx fun i b => (b, new i b)).map (fun p => p.1.name) =
      stored.map RowArray.name := by
    rw [map_mapIdx]
    exact mapIdx_const RowArray.name stored
  rw [← hsnd]
  refine exec_pairs h ?_ (hnames ▸ hnodup) rfl (hfst.symm ▸ harrays)
  intro p hp
  obtain ⟨i, hi, rfl⟩ := List.mem_mapIdx.mp hp
  exact hname i _

end KernelWeaver.Synapses
