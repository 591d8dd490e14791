import KernelWeaver.Proofs.Synapses.Rows

/-!
# Reachable rows

Rows are reached from empty ones by attaching arrays and by adding and removing synapses in any
order. They keep the sizes of all lists, and all copies of an array agree on every live synapse.
-/

namespace KernelWeaver.Synapses

theorem mem_of_mem_swapRemove {α : Type} {xs : List α} {i : Nat} {x : α}
    (h : x ∈ swapRemove xs i) : x ∈ xs := by
  rw [swapRemove] at h
  split at h
  next => cases h
  next last hlast =>
    rcases List.mem_or_eq_of_mem_set (List.mem_of_mem_dropLast h) with hmem | rfl
    · exact hmem
    · exact List.mem_of_getLast? hlast

theorem length_swapRemove {α : Type} (xs : List α) (i : Nat) :
    (swapRemove xs i).length = xs.length - 1 := by
  cases xs using List.reverseRecOn with
  | nil => rfl
  | append_singleton xs x => simp [swapRemove]

/-- Visits the last `remaining` synapses of a row and removes those that are selected. The last
synapse takes the place of a removed one and is visited there. -/
def sweepList {σ : Type} (select : σ → (post slot : Nat) → Bool × σ) :
    (remaining slot : Nat) → σ → List Synapse → Nat × List Synapse
  | 0, _, _, xs => (0, xs)
  | remaining + 1, slot, s, xs =>
    let (selected, s) := select s ((xs[slot]?.map Synapse.post).getD 0) slot
    if selected then
      let (count, xs) := sweepList select remaining slot s (swapRemove xs slot)
      (count + 1, xs)
    else sweepList select remaining (slot + 1) s xs

theorem mem_of_mem_sweepList {σ : Type} {select : σ → Nat → Nat → Bool × σ}
    {remaining slot : Nat} {s : σ} {xs : List Synapse} {x : Synapse}
    (h : x ∈ (sweepList select remaining slot s xs).2) : x ∈ xs := by
  induction remaining generalizing slot s xs with
  | zero => exact h
  | succ remaining ih =>
      rw [sweepList] at h
      split at h
      next selected s' hselect =>
        cases selected with
        | true => exact mem_of_mem_swapRemove (ih h)
        | false => exact ih h

namespace RaggedRows

variable {r r' : RaggedRows} {row : Nat}

theorem post_eq (r : RaggedRows) {slot : Nat} (hslot : slot < (r.synapses row).length) :
    r.posts[row * r.stride + slot]?.getD 0 =
      (((r.synapses row)[slot]?).map Synapse.post).getD 0 := by
  rw [length_synapses] at hslot
  rw [synapses, List.getElem?_map, List.getElem?_range hslot]
  rfl

/-- Sweeping over a row is sweeping over its list of synapses. -/
theorem sweep_spec {σ : Type} (select : σ → Nat → Nat → Bool × σ) (h : r.WellFormed)
    {remaining slot : Nat} (s : σ) (hlength : (r.synapses row).length = slot + remaining) :
    ∃ r', sweep select row remaining slot s r =
        .ok ((sweepList select remaining slot s (r.synapses row)).1, r') ∧
      r'.WellFormed ∧ SameShape r r' ∧
      r'.synapses = Function.update r.synapses row
        (sweepList select remaining slot s (r.synapses row)).2 := by
  induction remaining generalizing r slot s with
  | zero => exact ⟨r, rfl, h, .refl r, (Function.update_eq_self row r.synapses).symm⟩
  | succ remaining ih =>
      have hslot : slot < (r.synapses row).length := by omega
      rw [sweep, sweepList, post_eq r hslot]
      cases select s (((r.synapses row)[slot]?.map Synapse.post).getD 0) slot with
      | mk selected s' =>
          cases selected with
          | false => exact ih h s' (by omega)
          | true =>
              obtain ⟨r₁, hremove, h₁, hshape₁, hsyn₁⟩ := remove_spec h hslot
              have hrow₁ : r₁.synapses row = swapRemove (r.synapses row) slot := by
                rw [hsyn₁, Function.update_self]
              have hlength₁ : (r₁.synapses row).length = slot + remaining := by
                rw [hrow₁, length_swapRemove]
                omega
              obtain ⟨r₂, hsweep, h₂, hshape₂, hsyn₂⟩ := ih h₁ s' hlength₁
              refine ⟨r₂, ?_, h₂, hshape₁.trans hshape₂, ?_⟩
              · change (r.remove row slot >>= _) = _
                rw [hremove, ok_bind]
                rw [hsweep, ok_bind, hrow₁]
                rfl
              · rw [hsyn₂, hrow₁, hsyn₁, Function.update_idem]
                rfl

theorem removeWhere_spec {σ : Type} (select : σ → Nat → Nat → Bool × σ) (s : σ)
    (h : r.WellFormed) (hrow : row < r.lengths.length) :
    ∃ r', r.removeWhere row select s =
        .ok ((sweepList select (r.synapses row).length 0 s (r.synapses row)).1, r') ∧
      r'.WellFormed ∧ SameShape r r' ∧
      r'.synapses = Function.update r.synapses row
        (sweepList select (r.synapses row).length 0 s (r.synapses row)).2 := by
  have hlength : r.length row = .ok (r.synapses row).length := by
    rw [length_synapses, List.getElem?_eq_getElem hrow]
    exact length_eq_ok (List.getElem?_eq_getElem hrow)
  rw [removeWhere, hlength, ok_bind]
  exact sweep_spec select h s (Nat.zero_add _).symm

/-- Rows that are reached from empty ones. An operation that fails leaves the rows as they are. -/
inductive Reachable : RaggedRows → Prop where
  | ofSize {rows stride batches : Nat} {r : RaggedRows} (h : ofSize rows stride batches = .ok r) :
      Reachable r
  | withArray {r r' : RaggedRows} {name : String} {duplicated : Bool} (hr : Reachable r)
      (h : r.withArray name duplicated = .ok r') : Reachable r'
  | add {r r' : RaggedRows} {row post slot : Nat} {values : List Float} (hr : Reachable r)
      (h : r.add row post values = .ok (slot, r')) : Reachable r'
  | remove {r r' : RaggedRows} {row slot : Nat} (hr : Reachable r)
      (h : r.remove row slot = .ok r') : Reachable r'
  | removeWhere {r r' : RaggedRows} {row count : Nat} {σ : Type}
      {select : σ → Nat → Nat → Bool × σ} {s : σ} (hr : Reachable r)
      (h : r.removeWhere row select s = .ok (count, r')) : Reachable r'

/-- What holds of all reachable rows. -/
structure Consistent (r : RaggedRows) : Prop where
  wellFormed : r.WellFormed
  copiesAgree : ∀ row, ∀ s ∈ r.synapses row, s.CopiesAgree

theorem Consistent.ofSize {rows stride batches : Nat}
    (h : RaggedRows.ofSize rows stride batches = .ok r) : r.Consistent := by
  obtain ⟨slots, hslots, h⟩ := bind_eq_ok.mp h
  obtain ⟨_, rfl⟩ := fit_eq_ok_iff.mp hslots
  cases h
  have hzero : ∀ row : Nat, (List.replicate rows 0)[row]?.getD 0 = 0 := by
    intro row
    rw [List.getElem?_replicate]
    split <;> rfl
  refine ⟨⟨?_, ?_, fun a ha => absurd ha List.not_mem_nil⟩, ?_⟩
  · intro n hn
    rw [List.eq_of_mem_replicate hn]
    exact Nat.zero_le stride
  · rw [List.length_replicate, slots, List.length_replicate]
  · intro row s hs
    rw [synapses, hzero row] at hs
    cases hs

theorem Consistent.withArray {name : String} {duplicated : Bool} (h : r.Consistent)
    (harray : r.withArray name duplicated = .ok r') : r'.Consistent := by
  obtain ⟨count, hcount, harray⟩ := bind_eq_ok.mp harray
  obtain ⟨_, rfl⟩ := fit_eq_ok_iff.mp hcount
  cases harray
  refine ⟨⟨h.wellFormed.length_le, h.wellFormed.length_posts, ?_⟩, ?_⟩
  · intro a ha
    rcases List.mem_append.mp ha with ha | ha
    · exact h.wellFormed.length_values a ha
    · rw [List.mem_singleton.mp ha, List.length_replicate]
      rfl
  · intro row s hs
    obtain ⟨i, hi, rfl⟩ := List.mem_map.mp hs
    have hold := h.copiesAgree row _ (List.mem_map_of_mem hi)
    intro copies hcopies v hv w hw
    rw [synapseAt, List.map_append] at hcopies
    rcases List.mem_append.mp hcopies with hcopies | hcopies
    · exact hold copies hcopies v hv w hw
    · rw [List.map_singleton, List.mem_singleton] at hcopies
      subst hcopies
      -- a new array holds nothing but zeros
      have hzero : ∀ (count i : Nat), (List.replicate count (0.0 : Float))[i]?.getD 0.0 = 0.0 := by
        intro count i
        rw [List.getElem?_replicate]
        split <;> rfl
      obtain ⟨b, _, rfl⟩ := List.mem_map.mp hv
      obtain ⟨b', _, rfl⟩ := List.mem_map.mp hw
      rw [hzero, hzero]

/-- New contents of one row keep all copies in agreement if those of each new synapse agree. -/
theorem Consistent.of_update {xs : List Synapse} (h : r.Consistent) (hr' : r'.WellFormed)
    (hsyn : r'.synapses = Function.update r.synapses row xs)
    (hxs : ∀ x ∈ xs, x ∈ r.synapses row ∨ x.CopiesAgree) : r'.Consistent := by
  refine ⟨hr', ?_⟩
  intro other s hs
  rw [hsyn] at hs
  by_cases heq : other = row
  · subst heq
    rw [Function.update_self] at hs
    rcases hxs s hs with hold | hnew
    · exact h.copiesAgree other s hold
    · exact hnew
  · rw [Function.update_of_ne heq] at hs
    exact h.copiesAgree other s hs

theorem copiesAgree_newSynapse (r : RaggedRows) (post : Nat) (values : List Float) :
    (r.newSynapse post values).CopiesAgree := by
  intro copies hcopies v hv w hw
  obtain ⟨i, hi, rfl⟩ := List.mem_mapIdx.mp hcopies
  rw [List.eq_of_mem_replicate hv, List.eq_of_mem_replicate hw]

theorem row_lt_of_length {n : Nat} (h : r.length row = .ok n) : row < r.lengths.length :=
  (List.getElem?_eq_some_iff.mp (entry_eq_ok_iff.mp h)).1

theorem Consistent.add {post slot : Nat} {values : List Float} (h : r.Consistent)
    (hadd : r.add row post values = .ok (slot, r')) : r'.Consistent := by
  obtain ⟨n, hn, _⟩ := bind_eq_ok.mp hadd
  have hrow := row_lt_of_length (Attempt.ofChecked_eq_ok.mp hn)
  by_cases hfree : (r.synapses row).length < r.stride
  · obtain ⟨_, hadd', hwell, _, hsyn⟩ := add_spec h.wellFormed hrow post values hfree
    obtain ⟨⟩ := hadd.symm.trans hadd'
    refine h.of_update hwell hsyn ?_
    intro x hx
    rcases List.mem_append.mp hx with hx | hx
    · exact Or.inl hx
    · rw [List.mem_singleton.mp hx]
      exact Or.inr (copiesAgree_newSynapse r post values)
  · rw [add_full hrow post values (Nat.not_lt.mp hfree)] at hadd
    cases hadd

theorem Consistent.remove {slot : Nat} (h : r.Consistent)
    (hremove : r.remove row slot = .ok r') : r'.Consistent := by
  obtain ⟨n, hn, hrest⟩ := bind_eq_ok.mp hremove
  by_cases hslot : slot < n
  · have hlive : slot < (r.synapses row).length := by
      rwa [length_synapses, entry_eq_ok_iff.mp hn]
    obtain ⟨_, hremove', hwell, _, hsyn⟩ := remove_spec h.wellFormed hlive
    obtain ⟨⟩ := hremove.symm.trans hremove'
    exact h.of_update hwell hsyn fun x hx => Or.inl (mem_of_mem_swapRemove hx)
  · rw [if_pos (Nat.not_lt.mp hslot)] at hrest
    cases hrest

theorem Consistent.removeWhere {σ : Type} {select : σ → Nat → Nat → Bool × σ} {s : σ}
    {count : Nat} (h : r.Consistent)
    (hremove : r.removeWhere row select s = .ok (count, r')) : r'.Consistent := by
  obtain ⟨n, hn, _⟩ := bind_eq_ok.mp hremove
  obtain ⟨_, hremove', hwell, _, hsyn⟩ :=
    removeWhere_spec select s h.wellFormed (row_lt_of_length hn)
  obtain ⟨⟩ := hremove.symm.trans hremove'
  exact h.of_update hwell hsyn fun x hx => Or.inl (mem_of_mem_sweepList hx)

theorem Reachable.consistent (h : Reachable r) : r.Consistent := by
  induction h with
  | ofSize h => exact .ofSize h
  | withArray _ h ih => exact ih.withArray h
  | add _ h ih => exact ih.add h
  | remove _ h ih => exact ih.remove h
  | removeWhere _ h ih => exact ih.removeWhere h

/-- Reachable rows are lists of synapses. No row is longer than its slots, every list has the size
of its slots in every copy, and the copies of an array agree on every live synapse. Adding a synapse
to a row with a free slot appends it and is refused by a full row; removing one moves the last one
of the row to its place; removing all that are selected does so for each in turn. All of them keep
the sizes of all lists and every other row. -/
theorem reachable_rows_refine_lists (hr : Reachable r) :
    (∀ n ∈ r.lengths, n ≤ r.stride) ∧ r.posts.length = r.slots ∧
    (∀ a ∈ r.arrays, a.values.length = r.slots * r.copies a) ∧
    (∀ row, ∀ s ∈ r.synapses row, s.CopiesAgree) ∧
    ∀ row < r.lengths.length,
      r.row row = (r.synapses row).map Synapse.post ∧
      (∀ post values, (r.synapses row).length < r.stride →
        ∃ r', r.add row post values = .ok (row * r.stride + (r.synapses row).length, r') ∧
          SameShape r r' ∧
          r'.synapses =
            Function.update r.synapses row (r.synapses row ++ [r.newSynapse post values])) ∧
      (∀ post values, r.stride ≤ (r.synapses row).length →
        r.add row post values = Attempt.fail (.rowFull row r.stride)) ∧
      (∀ slot < (r.synapses row).length,
        ∃ r', r.remove row slot = .ok r' ∧ SameShape r r' ∧
          r'.synapses =
            Function.update r.synapses row (swapRemove (r.synapses row) slot)) ∧
      ∀ (σ : Type) (select : σ → Nat → Nat → Bool × σ) (s : σ),
        ∃ r', r.removeWhere row select s =
            .ok ((sweepList select (r.synapses row).length 0 s (r.synapses row)).1, r') ∧
          SameShape r r' ∧
          r'.synapses = Function.update r.synapses row
            (sweepList select (r.synapses row).length 0 s (r.synapses row)).2 := by
  obtain ⟨hwell, hagree⟩ := hr.consistent
  refine ⟨hwell.length_le, hwell.length_posts, hwell.length_values, hagree, ?_⟩
  intro row hrow
  refine ⟨row_eq_map_post hwell hrow, ?_, fun post values => add_full hrow post values, ?_, ?_⟩
  · intro post values hfree
    obtain ⟨r', hadd, _, hshape, hsyn⟩ := add_spec hwell hrow post values hfree
    exact ⟨r', hadd, hshape, hsyn⟩
  · intro slot hslot
    obtain ⟨r', hremove, _, hshape, hsyn⟩ := remove_spec hwell hslot
    exact ⟨r', hremove, hshape, hsyn⟩
  · intro σ select s
    obtain ⟨r', hremove, _, hshape, hsyn⟩ := removeWhere_spec select s hwell hrow
    exact ⟨r', hremove, hshape, hsyn⟩

/-- Two rows of two slots, the second of which is full, and an array with a copy for each of two
batches. -/
theorem reachable_rows_refine_lists_full_row :
    ∃ r, Reachable r ∧ r.lengths = [0, 2] ∧
      r.add 1 9 [] = Attempt.fail (.rowFull 1 2) ∧
      ∃ r', r.remove 1 0 = .ok r' ∧ r'.row 1 = [8] ∧
        r'.synapses = Function.update r.synapses 1 (swapRemove (r.synapses 1) 0) := by
  have hempty : ofSize 2 2 2 = .ok ⟨2, 2, [0, 0], [0, 0, 0, 0], []⟩ := rfl
  have harray : Reachable _ := (Reachable.ofSize hempty).withArray
    (show withArray _ "x" true = .ok _ from rfl)
  have hfirst : Reachable _ := harray.add (show add _ 1 7 [0.5] = .ok _ from rfl)
  have hsecond : Reachable _ := hfirst.add (show add _ 1 8 [] = .ok _ from rfl)
  obtain ⟨_, _, _, _, hrows⟩ := reachable_rows_refine_lists hsecond
  obtain ⟨_, _, hfull, hremove, _⟩ := hrows 1 (by decide)
  obtain ⟨r', hr', _, hsyn⟩ := hremove 0 (by decide)
  refine ⟨_, hsecond, rfl, hfull 9 [] (by decide), r', hr', ?_, hsyn⟩
  cases hr'
  rfl

end RaggedRows

end KernelWeaver.Synapses
