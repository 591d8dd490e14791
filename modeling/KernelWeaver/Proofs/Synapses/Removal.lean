import KernelWeaver.Proofs.Synapses.Reachable

/-!
# Removing what is selected

While a row is swept, a removed synapse leaves its slot to the last one, which has not been asked
about yet. So every synapse that the row held is asked about once, those that are not selected end
up in the order in which they were asked about, and other rows keep all of their slots.
-/

namespace KernelWeaver.Synapses

/-- A synapse that was asked about, and the answer. -/
structure Visit where
  synapse : Synapse
  selected : Bool

/-- The synapses that were not selected, in the order of the visits. -/
def keptBy (visits : List Visit) : List Synapse := (visits.filter (!·.selected)).map Visit.synapse

theorem keptBy_stays (x : Synapse) (visits : List Visit) :
    keptBy (⟨x, false⟩ :: visits) = x :: keptBy visits := rfl

theorem keptBy_goes (x : Synapse) (visits : List Visit) :
    keptBy (⟨x, true⟩ :: visits) = keptBy visits := rfl

/-- Questions that are put one after another, each in the state that the last one left. The first
is about the synapse in `slot`. Behind a synapse that stays the next slot is visited, and behind one
that goes the same slot again. -/
inductive Asks {σ : Type} (select : σ → (post slot : Nat) → Bool × σ) :
    (slot : Nat) → σ → List Visit → Prop where
  | done {slot : Nat} {s : σ} : Asks select slot s []
  | stays {slot : Nat} {s s' : σ} {x : Synapse} {visits : List Visit}
      (answer : select s x.post slot = (false, s')) (more : Asks select (slot + 1) s' visits) :
      Asks select slot s (⟨x, false⟩ :: visits)
  | goes {slot : Nat} {s s' : σ} {x : Synapse} {visits : List Visit}
      (answer : select s x.post slot = (true, s')) (more : Asks select slot s' visits) :
      Asks select slot s (⟨x, true⟩ :: visits)

section SwapRemove

variable {α : Type}

theorem swapRemove_concat (xs : List α) (last : α) (i : Nat) :
    swapRemove (xs ++ [last]) i = xs.set i last := by
  rw [swapRemove, List.getLast?_concat]
  dsimp only
  by_cases hi : i < xs.length
  · rw [List.set_append_left _ _ hi, List.dropLast_concat]
  · have hsingle : ∀ k, [last].set k last = [last] := by
      rintro (_ | k) <;> rfl
    rw [List.set_append_right _ _ (Nat.not_lt.mp hi), hsingle, List.dropLast_concat,
      List.set_eq_of_length_le (Nat.not_lt.mp hi)]

/-- What lies before the place is not touched. -/
theorem take_swapRemove {xs : List α} {i : Nat} (hi : i < xs.length) :
    (swapRemove xs i).take i = xs.take i := by
  cases xs using List.reverseRecOn with
  | nil => cases hi
  | append_singleton xs last =>
      rw [List.length_append, List.length_singleton] at hi
      rw [swapRemove_concat, List.take_set_of_le le_rfl,
        List.take_append_of_le_length (Nat.le_of_lt_succ hi)]

/-- From the place on, only the entry at the place is lost. -/
theorem perm_drop_swapRemove {xs : List α} {i : Nat} (hi : i < xs.length) :
    (xs[i] :: (swapRemove xs i).drop i).Perm (xs.drop i) := by
  cases xs using List.reverseRecOn with
  | nil => cases hi
  | append_singleton xs last =>
      rw [swapRemove_concat]
      rw [List.length_append, List.length_singleton] at hi
      rcases Nat.lt_succ_iff_lt_or_eq.mp hi with hlt | rfl
      · have hset : i < (xs.set i last).length := by rwa [List.length_set]
        rw [List.getElem_append_left hlt, List.drop_eq_getElem_cons hset, List.getElem_set_self,
          List.drop_set_of_lt (Nat.lt_succ_self i), List.drop_append_of_le_length hlt.le,
          List.drop_eq_getElem_cons hlt]
        exact ((List.perm_append_singleton last _).symm).cons _
      · simp

end SwapRemove

/-- A sweep over the synapses from a slot on visits each of them once. -/
theorem exists_visits {σ : Type} (select : σ → Nat → Nat → Bool × σ) {remaining slot : Nat} (s : σ)
    {xs : List Synapse} (hlength : xs.length = slot + remaining) :
    ∃ visits, Asks select slot s visits ∧ (visits.map Visit.synapse).Perm (xs.drop slot) ∧
      sweepList select remaining slot s xs =
        (visits.countP Visit.selected, xs.take slot ++ keptBy visits) := by
  induction remaining generalizing slot s xs with
  | zero => exact ⟨[], .done, by simp [hlength], by simp [sweepList, keptBy, hlength]⟩
  | succ remaining ih =>
      have hslot : slot < xs.length := by omega
      cases hanswer : select s xs[slot].post slot with
      | mk selected s' =>
          have hstep : sweepList select (remaining + 1) slot s xs =
              if selected then
                ((sweepList select remaining slot s' (swapRemove xs slot)).1 + 1,
                  (sweepList select remaining slot s' (swapRemove xs slot)).2)
              else sweepList select remaining (slot + 1) s' xs := by
            rw [sweepList, List.getElem?_eq_getElem hslot, Option.map_some, Option.getD_some,
              hanswer]
          cases selected with
          | false =>
              have hleft : xs.length = slot + 1 + remaining := by omega
              obtain ⟨visits, hasks, hperm, hsweep⟩ := ih s' hleft
              refine ⟨⟨xs[slot], false⟩ :: visits, .stays hanswer hasks, ?_, ?_⟩
              · rw [List.drop_eq_getElem_cons hslot]
                exact hperm.cons _
              · rw [hstep, if_neg Bool.false_ne_true, hsweep,
                  List.take_succ_eq_append_getElem hslot, List.append_assoc, keptBy_stays,
                  List.countP_cons_of_neg Bool.false_ne_true, List.singleton_append]
          | true =>
              have hleft : (swapRemove xs slot).length = slot + remaining := by
                rw [length_swapRemove, hlength]
                omega
              obtain ⟨visits, hasks, hperm, hsweep⟩ := ih s' hleft
              refine ⟨⟨xs[slot], true⟩ :: visits, .goes hanswer hasks, ?_, ?_⟩
              · exact (hperm.cons _).trans (perm_drop_swapRemove hslot)
              · rw [hstep, if_pos rfl, hsweep, take_swapRemove hslot, keptBy_goes,
                  List.countP_cons_of_pos rfl]

namespace RaggedRows

variable {r r' : RaggedRows} {row : Nat}

/-- The slots of all rows but one hold what they held, also those that are not live. -/
def KeepsOthers (row : Nat) (r r' : RaggedRows) : Prop :=
  ∀ other < r.lengths.length, other ≠ row → ∀ i < r.stride,
    r'.synapseAt (other * r.stride + i) = r.synapseAt (other * r.stride + i)

theorem KeepsOthers.trans {r'' : RaggedRows} (hshape : SameShape r r')
    (h : KeepsOthers row r r') (h' : KeepsOthers row r' r'') : KeepsOthers row r r'' := by
  intro other hother hne i hi
  have hstep := h' other (hshape.rows ▸ hother) hne i (hshape.stride ▸ hi)
  rw [hshape.stride] at hstep
  exact hstep.trans (h other hother hne i hi)

theorem synapseAt_resize (r : RaggedRows) (row n slot : Nat) :
    (r.resize row n).synapseAt slot = r.synapseAt slot := by
  simp only [synapseAt, resize, copies, slots, List.length_set]

theorem keepsOthers_remove (h : r.WellFormed) {slot : Nat}
    (hslot : slot < (r.synapses row).length) (hremove : r.remove row slot = .ok r') :
    KeepsOthers row r r' := by
  intro other hother hne i hi
  have hrow : row < r.lengths.length := row_lt_of_live hslot
  have hstride : slot < r.stride := Nat.lt_of_lt_of_le hslot (h.length_synapses_le row)
  rw [remove_eq (List.getElem?_eq_getElem hrow)] at hremove
  split at hremove
  next => cases hremove
  next =>
    cases hremove
    rw [synapseAt_resize, synapseAt_write h (slot_lt_slots hrow hstride) (slot_lt_slots hother hi),
      if_neg]
    exact fun heq => hne (slot_inj hi hstride heq).1

theorem keepsOthers_sweep {σ : Type} (select : σ → Nat → Nat → Bool × σ) (h : r.WellFormed)
    {remaining slot count : Nat} (s : σ) (hlength : (r.synapses row).length = slot + remaining)
    (hsweep : sweep select row remaining slot s r = .ok (count, r')) : KeepsOthers row r r' := by
  induction remaining generalizing r slot s count with
  | zero =>
      cases hsweep
      exact fun _ _ _ _ _ => rfl
  | succ remaining ih =>
      have hslot : slot < (r.synapses row).length := by omega
      rw [sweep] at hsweep
      cases hanswer : select s (r.posts[row * r.stride + slot]?.getD 0) slot with
      | mk selected s' =>
          rw [hanswer] at hsweep
          cases selected with
          | false => exact ih h s' (by omega) hsweep
          | true =>
              obtain ⟨r₁, hremove, h₁, hshape₁, hsyn₁⟩ := remove_spec h hslot
              have hlength₁ : (r₁.synapses row).length = slot + remaining := by
                rw [hsyn₁, Function.update_self, length_swapRemove, hlength]
                omega
              obtain ⟨_, hremove', hrest⟩ := bind_eq_ok.mp hsweep
              cases hremove.symm.trans hremove'
              obtain ⟨_, hmore, hresult⟩ := bind_eq_ok.mp hrest
              cases hresult
              exact (keepsOthers_remove h hslot hremove).trans hshape₁ (ih h₁ s' hlength₁ hmore)

/-- A sweep over a row puts its question about every synapse that the row held, and about none
twice, whatever the answers depend on. It gives the number of those that were selected. What the row
then holds are the others, in the order of the questions, each with its postsynaptic neuron and its
values in every copy of every array. The rows keep their shape, and every other row keeps its
synapses and what is in its slots. -/
theorem removeWhere_asks_once (hr : Reachable r) (hrow : row < r.lengths.length) {σ : Type}
    (select : σ → Nat → Nat → Bool × σ) (s : σ) :
    ∃ visits r', r.removeWhere row select s = .ok (visits.countP Visit.selected, r') ∧
      Asks select 0 s visits ∧
      (visits.map Visit.synapse).Perm (r.synapses row) ∧
      r'.synapses row = keptBy visits ∧
      SameShape r r' ∧ (∀ other ≠ row, r'.synapses other = r.synapses other) ∧
      KeepsOthers row r r' := by
  have hwell := hr.consistent.wellFormed
  obtain ⟨visits, hasks, hperm, hsweep⟩ :=
    exists_visits select s (Nat.zero_add (r.synapses row).length).symm
  obtain ⟨r', hremove, -, hshape, hsyn⟩ := removeWhere_spec select s hwell hrow
  rw [hsweep, List.take_zero, List.nil_append] at hremove hsyn
  refine ⟨visits, r', hremove, hasks, hperm, ?_, hshape, ?_, ?_⟩
  · rw [hsyn, Function.update_self]
  · intro other hne
    rw [hsyn, Function.update_of_ne hne]
  · obtain ⟨n, hn, hrun⟩ := bind_eq_ok.mp hremove
    have hlength : (r.synapses row).length = 0 + n := by
      rw [length_synapses, entry_eq_ok_iff.mp hn, Option.getD_some, Nat.zero_add]
    exact keepsOthers_sweep select hwell s hlength hrun

/-- Every second question is answered with yes. Of four synapses the second one goes, the last one
is asked about in its slot and stays, and the third one goes. -/
theorem removeWhere_asks_once_every_second :
    ∃ r, Reachable r ∧ r.row 1 = [4, 5, 6, 7] ∧
      ∃ visits r', r.removeWhere 1 (fun odd _ _ => (odd, !odd)) false = .ok (2, r') ∧
        visits.countP Visit.selected = 2 ∧ (visits.map Visit.synapse).Perm (r.synapses 1) ∧
        r'.synapses 1 = keptBy visits ∧ r'.row 1 = [4, 7] := by
  have hempty : ofSize 2 4 2 = .ok ⟨4, 2, [0, 0], List.replicate 8 0, []⟩ := rfl
  have harray : Reachable _ := (Reachable.ofSize hempty).withArray
    (show withArray _ "x" true = .ok _ from rfl)
  have hfirst : Reachable _ := harray.add (show add _ 1 4 [0.5] = .ok _ from rfl)
  have hsecond : Reachable _ := hfirst.add (show add _ 1 5 [1.5] = .ok _ from rfl)
  have hthird : Reachable _ := hsecond.add (show add _ 1 6 [] = .ok _ from rfl)
  have hfull : Reachable _ := hthird.add (show add _ 1 7 [2.5] = .ok _ from rfl)
  obtain ⟨visits, r', hremove, -, hperm, hkept, -⟩ :=
    removeWhere_asks_once hfull (show 1 < 2 by decide) (fun odd _ _ => (odd, !odd)) false
  generalize hcount : visits.countP Visit.selected = count at hremove
  cases hremove
  exact ⟨_, hfull, rfl, visits, _, rfl, hcount, hperm, hkept, rfl⟩

end RaggedRows

end KernelWeaver.Synapses
