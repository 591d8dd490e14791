import KernelWeaver.Proofs.Outcome
import KernelWeaver.Synapses.RaggedRows
import Mathlib

/-!
# Rows as lists of synapses

All rows, arrays and copies share flat lists of slots. Seen from outside, a row is the list of its
live synapses, each with its postsynaptic neuron and its value in every copy of every array. Adding
and removing synapses changes this list of one row and nothing else.
-/

namespace KernelWeaver.Synapses

/-- A live synapse. -/
structure Synapse where
  post : Nat
  /-- The values in each array, one for each copy of it. -/
  values : List (List Float)

/-- All copies of an array hold the same value for the synapse. -/
def Synapse.CopiesAgree (s : Synapse) : Prop :=
  ∀ copies ∈ s.values, ∀ v ∈ copies, ∀ w ∈ copies, v = w

/-- A list with the last entry moved to the place of the entry at `i`. -/
def swapRemove {α : Type} (xs : List α) (i : Nat) : List α :=
  match xs.getLast? with
  | none => []
  | some last => (xs.set i last).dropLast

theorem swapRemove_map_range {α : Type} (f : Nat → α) (n i : Nat) :
    swapRemove ((List.range (n + 1)).map f) i =
      (List.range n).map fun k => if k = i then f n else f k := by
  have hlast : ((List.range (n + 1)).map f).getLast? = some (f n) := by
    rw [List.range_succ, List.map_append, List.map_singleton, List.getLast?_concat]
  rw [swapRemove, hlast]
  apply List.ext_getElem
  · simp
  · intro k hk hk'
    simp only [List.getElem_dropLast, List.getElem_set, List.getElem_map, List.getElem_range,
      eq_comm]

/-- Storing at several places that all lie `slot` behind a start. -/
theorem getElem?_foldl_set {α : Type} (value : Nat → α) (slot i : Nat) (starts : List Nat)
    (vs : List α) :
    (starts.foldl (fun vs start => vs.set (start + slot) (value start)) vs)[i]? =
      if ∃ start ∈ starts, start + slot = i then vs[i]?.map fun _ => value (i - slot)
      else vs[i]? := by
  induction starts generalizing vs with
  | nil => simp
  | cons start starts ih =>
      rw [List.foldl_cons, ih, List.getElem?_set]
      by_cases hstart : start + slot = i
      · subst hstart
        by_cases hlt : start + slot < vs.length <;> simp [hlt]
      · simp [hstart]

theorem mapIdx_const {α β : Type} (f : α → β) (xs : List α) :
    xs.mapIdx (fun _ => f) = xs.map f := by
  apply List.ext_getElem <;> simp

theorem map_mapIdx {α β γ : Type} (g : β → γ) (f : Nat → α → β) (xs : List α) :
    (xs.mapIdx f).map g = xs.mapIdx fun i x => g (f i x) := by
  apply List.ext_getElem <;> simp

namespace RaggedRows

/-- The synapse that is kept in a slot. -/
def synapseAt (r : RaggedRows) (slot : Nat) : Synapse where
  post := r.posts[slot]?.getD 0
  values := r.arrays.map fun a =>
    (List.range (r.copies a)).map fun b => a.values[b * r.slots + slot]?.getD 0.0

/-- The live synapses of a row. -/
def synapses (r : RaggedRows) (row : Nat) : List Synapse :=
  (List.range (r.lengths[row]?.getD 0)).map fun i => r.synapseAt (row * r.stride + i)

/-- The synapse that is added with the given values: one value for all copies of an array, and zero
for an array without one. -/
def newSynapse (r : RaggedRows) (post : Nat) (values : List Float) : Synapse where
  post := post
  values := r.arrays.mapIdx fun i a => List.replicate (r.copies a) (values[i]?.getD 0.0)

/-- Every list has room for all slots, and no row is longer than its slots. -/
structure WellFormed (r : RaggedRows) : Prop where
  length_le : ∀ n ∈ r.lengths, n ≤ r.stride
  length_posts : r.posts.length = r.slots
  length_values : ∀ a ∈ r.arrays, a.values.length = r.slots * r.copies a

/-- Two states have the same rows and arrays of the same sizes. -/
structure SameShape (r r' : RaggedRows) : Prop where
  stride : r'.stride = r.stride
  batches : r'.batches = r.batches
  rows : r'.lengths.length = r.lengths.length
  posts : r'.posts.length = r.posts.length
  arrays : r'.arrays.map (fun a => (a.name, a.duplicated, a.values.length)) =
    r.arrays.map fun a => (a.name, a.duplicated, a.values.length)

variable {r r' r'' : RaggedRows}

@[refl] theorem SameShape.refl (r : RaggedRows) : SameShape r r := ⟨rfl, rfl, rfl, rfl, rfl⟩

theorem SameShape.trans (h : SameShape r r') (h' : SameShape r' r'') : SameShape r r'' :=
  ⟨h'.stride.trans h.stride, h'.batches.trans h.batches, h'.rows.trans h.rows,
    h'.posts.trans h.posts, h'.arrays.trans h.arrays⟩

@[simp] theorem length_synapses (r : RaggedRows) (row : Nat) :
    (r.synapses row).length = r.lengths[row]?.getD 0 := by
  simp [synapses]

/-- Only the rows that exist have live synapses. -/
theorem row_lt_of_live {row slot : Nat} (h : slot < (r.synapses row).length) :
    row < r.lengths.length := by
  by_contra hge
  rw [length_synapses, List.getElem?_eq_none (Nat.not_lt.mp hge)] at h
  exact absurd h (Nat.not_lt_zero slot)

theorem WellFormed.length_synapses_le (h : r.WellFormed) (row : Nat) :
    (r.synapses row).length ≤ r.stride := by
  rw [length_synapses]
  cases hn : r.lengths[row]? with
  | none => exact Nat.zero_le _
  | some n => exact h.length_le n (List.mem_of_getElem? hn)

/-- The postsynaptic neurons of a row are those of its synapses. -/
theorem row_eq_map_post (h : r.WellFormed) {row : Nat} (hrow : row < r.lengths.length) :
    r.row row = (r.synapses row).map Synapse.post := by
  have hle := h.length_synapses_le row
  have hslots : (row + 1) * r.stride ≤ r.slots := Nat.mul_le_mul_right r.stride hrow
  rw [Nat.add_mul, Nat.one_mul] at hslots
  rw [length_synapses] at hle
  apply List.ext_getElem
  · simp only [RaggedRows.row, synapses, List.length_take, List.length_drop, List.length_map,
      List.length_range, h.length_posts]
    omega
  · intro i hi hi'
    have hi : i < r.lengths[row]?.getD 0 := by simpa [synapses] using hi'
    have hpost : row * r.stride + i < r.posts.length := by
      rw [h.length_posts]
      omega
    simp [RaggedRows.row, synapses, synapseAt, List.getElem?_eq_getElem hpost]

section Slots

variable {row i : Nat}

theorem slot_lt_slots (hrow : row < r.lengths.length) (hi : i < r.stride) :
    row * r.stride + i < r.slots := by
  have hle : (row + 1) * r.stride ≤ r.slots := Nat.mul_le_mul_right r.stride hrow
  rw [Nat.add_mul, Nat.one_mul] at hle
  omega

/-- Slots of different rows are different. -/
theorem slot_inj {row' i' stride : Nat} (hi : i < stride) (hi' : i' < stride)
    (h : row * stride + i = row' * stride + i') : row = row' ∧ i = i' := by
  have hpos : 0 < stride := by omega
  have hdiv := congrArg (· / stride) h
  simp only [Nat.mul_comm _ stride, Nat.mul_add_div hpos, Nat.div_eq_of_lt hi,
    Nat.div_eq_of_lt hi', Nat.add_zero] at hdiv
  subst hdiv
  omega

end Slots

/-- Rows with the contents of one slot replaced; `value` gives the new value in an array from the
place where the copy begins. -/
def write (r : RaggedRows) (slot post : Nat) (value : Nat → RowArray → Nat → Float) : RaggedRows :=
  { r with
    posts := r.posts.set slot post
    arrays := r.arrays.mapIdx fun i a => r.store a slot (value i a) }

/-- Rows with the number of live slots of one row replaced. -/
def resize (r : RaggedRows) (row n : Nat) : RaggedRows :=
  { r with lengths := r.lengths.set row n }

section Write

variable {slot post : Nat} {value : Nat → RowArray → Nat → Float}

@[simp] theorem length_values_store (r : RaggedRows) (a : RowArray) (slot : Nat)
    (value : Nat → Float) : (r.store a slot value).values.length = a.values.length := by
  have hfold : ∀ (starts : List Nat) (vs : List Float),
      (starts.foldl (fun vs start => vs.set (start + slot) (value start)) vs).length =
        vs.length := by
    intro starts
    induction starts with
    | nil => exact fun vs => rfl
    | cons start starts ih => exact fun vs => (ih _).trans List.length_set
  exact hfold _ _

/-- Storing at a slot changes that slot in every copy and no other slot. -/
theorem getElem?_store {a : RowArray} (hsize : a.values.length = r.slots * r.copies a)
    (value : Nat → Float) (hslot : slot < r.slots) {b i : Nat} (hb : b < r.copies a)
    (hi : i < r.slots) :
    (r.store a slot value).values[b * r.slots + i]? =
      if i = slot then some (value (b * r.slots)) else a.values[b * r.slots + i]? := by
  rw [store, getElem?_foldl_set]
  by_cases heq : i = slot
  · subst heq
    have hlt : b * r.slots + i < a.values.length := by
      have hle : (b + 1) * r.slots ≤ r.copies a * r.slots := Nat.mul_le_mul_right r.slots hb
      rw [Nat.add_mul, Nat.one_mul] at hle
      rw [hsize, Nat.mul_comm r.slots]
      omega
    rw [if_pos ⟨b * r.slots, List.mem_map.mpr ⟨b, List.mem_range.mpr hb, rfl⟩, rfl⟩, if_pos rfl,
      List.getElem?_eq_getElem hlt, Option.map_some, Nat.add_sub_cancel]
  · rw [if_neg heq, if_neg]
    rintro ⟨_, hstart, hsum⟩
    obtain ⟨b', _, rfl⟩ := List.mem_map.mp hstart
    exact heq (slot_inj hslot hi hsum).2.symm

/-- The synapse whose values are written. -/
def writtenSynapse (r : RaggedRows) (post : Nat) (value : Nat → RowArray → Nat → Float) :
    Synapse where
  post := post
  values := r.arrays.mapIdx fun k a =>
    (List.range (r.copies a)).map fun b => value k a (b * r.slots)

theorem synapseAt_write (h : r.WellFormed) (hslot : slot < r.slots) {i : Nat} (hi : i < r.slots) :
    (r.write slot post value).synapseAt i =
      if i = slot then r.writtenSynapse post value else r.synapseAt i := by
  have hstored : (r.write slot post value).synapseAt i =
      ⟨(r.posts.set slot post)[i]?.getD 0, r.arrays.mapIdx fun k a =>
        (List.range (r.copies a)).map fun b =>
          if i = slot then value k a (b * r.slots) else a.values[b * r.slots + i]?.getD 0.0⟩ := by
    rw [synapseAt]
    congr 1
    apply List.ext_getElem
    · simp [write]
    · intro k hk hk'
      have hk : k < r.arrays.length := by simpa using hk'
      simp only [write, List.getElem_map, List.getElem_mapIdx]
      apply List.map_congr_left
      intro b hb
      have hget := getElem?_store (h.length_values _ (List.getElem_mem hk))
        (value k r.arrays[k]) hslot (List.mem_range.mp hb) hi
      refine (congrArg (Option.getD · 0.0) hget).trans ?_
      split <;> rfl
  rw [hstored, List.getElem?_set]
  by_cases heq : i = slot
  · subst heq
    simp [h.length_posts, hi, writtenSynapse]
  · simp only [if_neg heq, if_neg (Ne.symm heq), synapseAt]
    congr 1
    apply List.ext_getElem <;> simp

theorem sameShape_write (r : RaggedRows) (slot post : Nat)
    (value : Nat → RowArray → Nat → Float) : SameShape r (r.write slot post value) := by
  refine ⟨rfl, rfl, rfl, List.length_set, ?_⟩
  apply List.ext_getElem
  · simp [write]
  · intro k hk hk'
    simp only [write, List.getElem_map, List.getElem_mapIdx, length_values_store]
    rfl

theorem sameShape_resize (r : RaggedRows) (row n : Nat) : SameShape r (r.resize row n) :=
  ⟨rfl, rfl, List.length_set, rfl, rfl⟩

/-- Rows of the same shape are well formed alike, as far as no row is too long. -/
theorem WellFormed.of_sameShape (h : r.WellFormed) (hshape : SameShape r r')
    (hle : ∀ n ∈ r'.lengths, n ≤ r'.stride) : r'.WellFormed := by
  have hslots : r'.slots = r.slots := by rw [slots, slots, hshape.rows, hshape.stride]
  refine ⟨hle, by rw [hshape.posts, h.length_posts, hslots], ?_⟩
  intro a ha
  have hmem : (a.name, a.duplicated, a.values.length) ∈
      r.arrays.map fun a => (a.name, a.duplicated, a.values.length) := by
    rw [← hshape.arrays]
    exact List.mem_map_of_mem ha
  obtain ⟨a', ha', heq⟩ := List.mem_map.mp hmem
  obtain ⟨_, heq⟩ := Prod.mk.inj heq
  obtain ⟨hdup, hlength⟩ := Prod.mk.inj heq
  rw [← hlength, h.length_values a' ha', hslots, copies, copies, hdup, hshape.batches]

theorem WellFormed.resize_write (h : r.WellFormed) {row n : Nat} (hn : n ≤ r.stride) :
    ((r.write slot post value).resize row n).WellFormed := by
  refine h.of_sameShape ((sameShape_write r slot post value).trans (sameShape_resize _ row n)) ?_
  intro m hm
  rcases List.mem_or_eq_of_mem_set hm with hm | rfl
  · exact h.length_le m hm
  · exact hn

/-- Writing one slot of a row and giving the row a new length changes its list of synapses and no
other row's. -/
theorem synapses_resize_write (h : r.WellFormed) {row i n : Nat} (hrow : row < r.lengths.length)
    (hi : i < r.stride) (hn : n ≤ r.stride) :
    ((r.write (row * r.stride + i) post value).resize row n).synapses =
      Function.update r.synapses row ((List.range n).map fun k =>
        if k = i then r.writtenSynapse post value else r.synapseAt (row * r.stride + k)) := by
  have hat : ∀ slot, ((r.write (row * r.stride + i) post value).resize row n).synapseAt slot =
      (r.write (row * r.stride + i) post value).synapseAt slot := by
    intro slot
    simp only [synapseAt, resize, copies, slots, List.length_set]
  have hslot : row * r.stride + i < r.slots := slot_lt_slots hrow hi
  funext row'
  simp only [synapses, hat]
  change ((List.range ((r.lengths.set row n)[row']?.getD 0)).map fun k =>
    (r.write (row * r.stride + i) post value).synapseAt (row' * r.stride + k)) = _
  rw [List.getElem?_set]
  by_cases heq : row' = row
  · subst heq
    rw [Function.update_self, if_pos rfl, if_pos hrow, Option.getD_some]
    apply List.map_congr_left
    intro k hk
    have hk : k < r.stride := Nat.lt_of_lt_of_le (List.mem_range.mp hk) hn
    rw [synapseAt_write h hslot (slot_lt_slots hrow hk)]
    simp only [Nat.add_left_cancel_iff]
  · rw [Function.update_of_ne heq, if_neg (Ne.symm heq)]
    apply List.map_congr_left
    intro k hk
    have hlive : k < (r.synapses row').length := by
      rw [length_synapses]
      exact List.mem_range.mp hk
    have hrow' : row' < r.lengths.length := row_lt_of_live hlive
    have hk : k < r.stride := Nat.lt_of_lt_of_le hlive (h.length_synapses_le row')
    rw [synapseAt_write h hslot (slot_lt_slots hrow' hk), if_neg]
    exact fun hsum => heq (slot_inj hk hi hsum).1

end Write

variable {row n : Nat}

theorem length_eq_ok (hn : r.lengths[row]? = some n) : r.length row = .ok n :=
  entry_eq_ok_iff.mpr hn

theorem add_eq (hn : r.lengths[row]? = some n) (post : Nat) (values : List Float) :
    r.add row post values =
      if r.stride ≤ n then Attempt.fail (.rowFull row r.stride)
      else .ok (row * r.stride + n,
        (r.write (row * r.stride + n) post fun k _ _ => values[k]?.getD 0.0).resize row
          (n + 1)) := by
  have hlength : (liftM (r.length row) : Attempt Nat) = .ok n := by
    rw [length_eq_ok hn]
    rfl
  rw [add, hlength, ok_bind]
  rfl

theorem remove_eq (hn : r.lengths[row]? = some n) (slot : Nat) :
    r.remove row slot =
      if n ≤ slot then .error .precondition
      else .ok ((r.write (row * r.stride + slot)
        (r.posts[row * r.stride + n - 1]?.getD 0)
        fun _ a start => a.values[start + (row * r.stride + n - 1)]?.getD 0.0).resize row
          (n - 1)) := by
  rw [remove, length_eq_ok hn, ok_bind]
  simp only [write, resize, mapIdx_const]
  rfl

/-- A synapse written with the contents of a slot is the one kept there. -/
theorem writtenSynapse_moved (r : RaggedRows) (slot : Nat) :
    r.writtenSynapse (r.posts[slot]?.getD 0)
      (fun _ a start => a.values[start + slot]?.getD 0.0) = r.synapseAt slot := by
  rw [writtenSynapse, mapIdx_const]
  rfl

/-- Adding a synapse to a row with a free slot appends it to the list of that row. -/
theorem add_spec (h : r.WellFormed) (hrow : row < r.lengths.length) (post : Nat)
    (values : List Float) (hfree : (r.synapses row).length < r.stride) :
    ∃ r', r.add row post values = .ok (row * r.stride + (r.synapses row).length, r') ∧
      r'.WellFormed ∧ SameShape r r' ∧
      r'.synapses =
        Function.update r.synapses row (r.synapses row ++ [r.newSynapse post values]) := by
  obtain ⟨n, hn⟩ : ∃ n, r.lengths[row]? = some n := ⟨_, List.getElem?_eq_getElem hrow⟩
  rw [length_synapses, hn, Option.getD_some] at hfree ⊢
  rw [add_eq hn, if_neg (Nat.not_le.mpr hfree)]
  refine ⟨_, rfl, h.resize_write hfree,
    (sameShape_write r _ _ _).trans (sameShape_resize _ row _), ?_⟩
  rw [synapses_resize_write h hrow hfree hfree, List.range_succ, List.map_append,
    List.map_singleton, if_pos rfl, synapses, hn, Option.getD_some]
  congr 2
  · apply List.map_congr_left
    intro k hk
    exact if_neg (Nat.ne_of_lt (List.mem_range.mp hk))
  · simp [writtenSynapse, newSynapse, List.map_const']

theorem add_full (hrow : row < r.lengths.length) (post : Nat) (values : List Float)
    (hfull : r.stride ≤ (r.synapses row).length) :
    r.add row post values = Attempt.fail (.rowFull row r.stride) := by
  obtain ⟨n, hn⟩ : ∃ n, r.lengths[row]? = some n := ⟨_, List.getElem?_eq_getElem hrow⟩
  rw [length_synapses, hn, Option.getD_some] at hfull
  rw [add_eq hn, if_pos hfull]

/-- Removing a live synapse moves the last one of the list of that row to its place. -/
theorem remove_spec (h : r.WellFormed) {slot : Nat} (hslot : slot < (r.synapses row).length) :
    ∃ r', r.remove row slot = .ok r' ∧ r'.WellFormed ∧ SameShape r r' ∧
      r'.synapses = Function.update r.synapses row (swapRemove (r.synapses row) slot) := by
  have hle := h.length_synapses_le row
  have hrow : row < r.lengths.length := row_lt_of_live hslot
  rw [length_synapses] at hslot hle
  obtain ⟨n, hn⟩ : ∃ n, r.lengths[row]? = some (n + 1) := by
    rw [List.getElem?_eq_getElem hrow, Option.getD_some] at hslot
    exact ⟨r.lengths[row] - 1, by rw [List.getElem?_eq_getElem hrow]; congr 1; omega⟩
  rw [hn, Option.getD_some] at hslot hle
  rw [remove_eq hn, if_neg (Nat.not_le.mpr hslot)]
  refine ⟨_, rfl, h.resize_write (by omega),
    (sameShape_write r _ _ _).trans (sameShape_resize _ row _), ?_⟩
  rw [synapses_resize_write h hrow (by omega) (by omega), synapses, hn, Option.getD_some,
    swapRemove_map_range, Nat.add_sub_cancel, ← Nat.add_assoc, Nat.add_sub_cancel,
    writtenSynapse_moved]

end RaggedRows

end KernelWeaver.Synapses
