import KernelWeaver.Proofs.Lanes.Layout

/-!
# Finding the place of a lane

A lane lies in one cell of one of many consecutive stretches, first among the groups and then among
the members of its group. The binary search and the walk over the members both find that cell.
-/

namespace KernelWeaver

/-- Of consecutive stretches of the given widths, cell `offset` of stretch `part` is cell `id` of
the whole. -/
def IsCell (widths : List Nat) (part offset id : Nat) : Prop :=
  (∃ width, widths[part]? = some width ∧ offset < width) ∧ (widths.take part).sum + offset = id

theorem not_isCell_nil (part offset id : Nat) : ¬ IsCell [] part offset id := by
  rintro ⟨⟨width, hwidth, _⟩, _⟩
  cases hwidth

theorem isCell_cons_zero (width : Nat) (widths : List Nat) (offset id : Nat) :
    IsCell (width :: widths) 0 offset id ↔ id < width ∧ offset = id := by
  constructor
  · rintro ⟨⟨_, hwidth, hlt⟩, hsum⟩
    cases hwidth
    have heq : offset = id := by simpa using hsum
    exact ⟨heq ▸ hlt, heq⟩
  · rintro ⟨hlt, rfl⟩
    exact ⟨⟨width, rfl, hlt⟩, by simp⟩

theorem isCell_cons_succ (width : Nat) (widths : List Nat) (part offset id : Nat) :
    IsCell (width :: widths) (part + 1) offset id ↔
      width ≤ id ∧ IsCell widths part offset (id - width) := by
  simp only [IsCell, List.getElem?_cons_succ, List.take_succ_cons, List.sum_cons]
  constructor
  · rintro ⟨hwidth, hsum⟩
    exact ⟨by omega, hwidth, by omega⟩
  · rintro ⟨hle, hwidth, hsum⟩
    exact ⟨hwidth, by omega⟩

namespace IsCell

variable {widths : List Nat} {part offset id : Nat}

theorem lt_sum (h : IsCell widths part offset id) : id < widths.sum := by
  induction widths generalizing part id with
  | nil => exact absurd h (not_isCell_nil part offset id)
  | cons width widths ih =>
      rw [List.sum_cons]
      cases part with
      | zero =>
          rw [isCell_cons_zero] at h
          omega
      | succ part =>
          rw [isCell_cons_succ] at h
          have := ih h.2
          omega

theorem part_lt (h : IsCell widths part offset id) : part < widths.length := by
  obtain ⟨⟨width, hwidth, _⟩, _⟩ := h
  exact (List.getElem?_eq_some_iff.mp hwidth).1

/-- No cell of the whole belongs to two stretches. -/
theorem unique {part' offset' : Nat} (h : IsCell widths part offset id)
    (h' : IsCell widths part' offset' id) : part = part' ∧ offset = offset' := by
  induction widths generalizing part part' id with
  | nil => exact absurd h (not_isCell_nil part offset id)
  | cons width widths ih =>
      cases part with
      | zero =>
          cases part' with
          | zero =>
              rw [isCell_cons_zero] at h h'
              exact ⟨rfl, h.2.trans h'.2.symm⟩
          | succ part' =>
              rw [isCell_cons_zero] at h
              rw [isCell_cons_succ] at h'
              omega
      | succ part =>
          cases part' with
          | zero =>
              rw [isCell_cons_succ] at h
              rw [isCell_cons_zero] at h'
              omega
          | succ part' =>
              rw [isCell_cons_succ] at h h'
              obtain ⟨hpart, hoffset⟩ := ih h.2 h'.2
              exact ⟨congrArg (· + 1) hpart, hoffset⟩

/-- A stretch begins at or before each of its cells. -/
theorem sum_take_le (h : IsCell widths part offset id) {i : Nat} (hi : i ≤ part) :
    (widths.take i).sum ≤ id := by
  obtain ⟨_, hsum⟩ := h
  have hsplit := List.take_append_drop i (widths.take part)
  rw [List.take_take, Nat.min_eq_left hi] at hsplit
  rw [← hsplit, List.sum_append] at hsum
  omega

/-- All later stretches begin behind a cell. -/
theorem lt_sum_take (h : IsCell widths part offset id) {i : Nat} (hi : part < i) :
    id < (widths.take i).sum := by
  obtain ⟨⟨width, hwidth, hlt⟩, hsum⟩ := h
  obtain ⟨hpart, hget⟩ := List.getElem?_eq_some_iff.mp hwidth
  have hcell : IsCell (widths.take i) part offset id := by
    refine ⟨⟨width, ?_, hlt⟩, ?_⟩
    · rw [List.getElem?_take_of_lt hi, hwidth]
    · rw [List.take_take, Nat.min_eq_left (Nat.le_of_lt hi), hsum]
  exact hcell.lt_sum

end IsCell

theorem exists_isCell {widths : List Nat} {id : Nat} (h : id < widths.sum) :
    ∃ part offset, IsCell widths part offset id := by
  induction widths generalizing id with
  | nil => exact absurd h (Nat.not_lt_zero _)
  | cons width widths ih =>
      rw [List.sum_cons] at h
      by_cases hid : id < width
      · exact ⟨0, id, (isCell_cons_zero ..).mpr ⟨hid, rfl⟩⟩
      · have hrest : id - width < widths.sum := by omega
        obtain ⟨part, offset, hcell⟩ := ih hrest
        exact ⟨part + 1, offset, (isCell_cons_succ ..).mpr ⟨by omega, hcell⟩⟩

namespace LaneRange

/-- The search finds the boundary between the entries that are not above `id` and those that are,
once the boundary lies between its ends. -/
theorem search_eq {starts : List Nat} {id lo hi boundary : Nat}
    (hbelow : ∀ i < boundary, starts[i]?.getD 0 ≤ id)
    (habove : ∀ i, boundary ≤ i → i < hi → id < starts[i]?.getD 0)
    (hlo : lo ≤ boundary) (hhi : boundary ≤ hi) : search starts id lo hi = boundary := by
  fun_induction search starts id lo hi with
  | case1 lo hi hlt mid hmid ih =>
      have hle : boundary ≤ mid := by
        by_contra hgt
        exact absurd (hbelow mid (by omega)) (Nat.not_le_of_lt hmid)
      exact ih (fun i hi' hlt' => habove i hi' (by omega)) hlo hle
  | case2 lo hi hlt mid hmid ih =>
      have hlt' : mid < boundary := by
        by_contra hge
        exact hmid (habove mid (by omega) (by omega))
      exact ih habove hlt' hhi
  | case3 lo hi hle => omega

theorem contains_exact (blockSize start : Nat) (sizes : List Nat) (id : Nat) :
    (exact blockSize start sizes).contains id = true ↔
      start ≤ id ∧ id < start + laneCount blockSize sizes := by
  rw [contains, Bool.and_eq_true, decide_eq_true_eq, decide_eq_true_eq]
  rfl

variable {blockSize start id : Nat} {sizes : List Nat}

theorem sum_take_paddedSizes (blockSize : Nat) (sizes : List Nat) (member : Nat) :
    ((paddedSizes blockSize sizes).take member).sum = laneCount blockSize (sizes.take member) := by
  rw [paddedSizes, ← List.map_take]
  rfl

/-- The first lane of a member, as the search reads it. -/
theorem getD_memberStarts {member : Nat} (hmember : member < sizes.length) :
    (memberStarts blockSize start sizes)[member]?.getD 0 =
      start + ((paddedSizes blockSize sizes).take member).sum := by
  rw [getElem?_memberStarts blockSize start sizes hmember, sum_take_paddedSizes]
  rfl

/-- Among the first lanes of members, exactly those up to the member of a lane are not above it. -/
theorem search_memberStarts {member offset : Nat} (hstart : start ≤ id)
    (hcell : IsCell (paddedSizes blockSize sizes) member offset (id - start)) :
    search (memberStarts blockSize start sizes) id 0 sizes.length = member + 1 := by
  have hmember : member < sizes.length := by simpa [paddedSizes] using hcell.part_lt
  apply search_eq
  · intro i hi
    rw [getD_memberStarts (by omega)]
    have := hcell.sum_take_le (Nat.le_of_lt_succ hi)
    omega
  · intro i hi hlt
    rw [getD_memberStarts hlt]
    have := hcell.lt_sum_take hi
    omega
  · exact Nat.zero_le _
  · exact hmember

theorem resolve_exact_of_isCell {member offset : Nat} (hstart : start ≤ id)
    (hcell : IsCell (paddedSizes blockSize sizes) member offset (id - start)) :
    (exact blockSize start sizes).resolve id = some (member, offset) := by
  have hlt : id - start < laneCount blockSize sizes := hcell.lt_sum
  have hmember : member < sizes.length := by simpa [paddedSizes] using hcell.part_lt
  have hin := (contains_exact blockSize start sizes id).mpr ⟨hstart, by omega⟩
  have hsum := hcell.2
  unfold resolve
  rw [hin]
  split
  next h => simp at h
  next =>
    split
    next hone =>
      have hzero : member = 0 := by
        have hlen : sizes.length = 1 := (length_memberStarts blockSize start sizes).symm.trans hone
        omega
      subst hzero
      rw [List.take_zero, List.sum_nil, Nat.zero_add] at hsum
      rw [hsum]
      rfl
    next =>
      simp only [exact, length_memberStarts, search_memberStarts hstart hcell,
        Nat.add_sub_cancel, getD_memberStarts hmember]
      congr 2
      omega

theorem resolve_exact_eq_none (hid : start + laneCount blockSize sizes ≤ id) :
    (exact blockSize start sizes).resolve id = none := by
  have hout : (exact blockSize start sizes).contains id = false := by
    rw [← Bool.not_eq_true, contains_exact]
    omega
  simp [resolve, hout]

/-- A lane of a group resolves to its cell among the lanes of the members. -/
theorem resolve_exact_eq_some_iff {member offset : Nat} (hstart : start ≤ id) :
    (exact blockSize start sizes).resolve id = some (member, offset) ↔
      IsCell (paddedSizes blockSize sizes) member offset (id - start) := by
  refine ⟨fun hresolve => ?_, resolve_exact_of_isCell hstart⟩
  by_cases hid : id - start < laneCount blockSize sizes
  · obtain ⟨part, cell, hcell⟩ := exists_isCell hid
    have heq := (resolve_exact_of_isCell hstart hcell).symm.trans hresolve
    cases heq
    exact hcell
  · rw [resolve_exact_eq_none (by omega)] at hresolve
    cases hresolve

end LaneRange

open LaneRange

variable {blockSize : Nat}

/-- Walking over the members of a group ends at the cell of the lane, or behind the group. -/
theorem walkMembers_spec (hblock : 0 < blockSize) (id group member : Nat) {start : Nat}
    {sizes : List Nat} (hstart : start ≤ id)
    (hfit : start + laneCount blockSize sizes < 2 ^ 32) :
    (∃ part offset, IsCell (paddedSizes blockSize sizes) part offset (id - start) ∧
      walkMembers blockSize id group member start sizes =
        .ok (.inl ⟨group, member + part, offset⟩)) ∨
    (start + laneCount blockSize sizes ≤ id ∧
      walkMembers blockSize id group member start sizes =
        .ok (.inr (start + laneCount blockSize sizes))) := by
  induction sizes generalizing start member with
  | nil => exact Or.inr ⟨hstart, rfl⟩
  | cons size sizes ih =>
      rw [laneCount_cons] at hfit
      have hstep : walkMembers blockSize id group member start (size :: sizes) =
          if id < start + roundUp blockSize size then .ok (.inl ⟨group, member, id - start⟩)
          else walkMembers blockSize id group (member + 1) (start + roundUp blockSize size)
            sizes := by
        rw [walkMembers, padSize_eq_fit hblock, fit_word, if_pos (by omega)]
        change (fit 32 (start + roundUp blockSize size) >>= _) = _
        rw [fit_word, if_pos (by omega)]
        rfl
      rw [hstep, laneCount_cons, paddedSizes, List.map_cons, ← paddedSizes, ← Nat.add_assoc]
      by_cases hid : id < start + roundUp blockSize size
      · left
        rw [if_pos hid]
        exact ⟨0, id - start, (isCell_cons_zero ..).mpr ⟨by omega, rfl⟩, rfl⟩
      · rw [if_neg hid]
        rcases ih (member + 1) (Nat.not_lt.mp hid) (by omega) with ⟨part, offset, hcell, hwalk⟩ | h
        · left
          refine ⟨part + 1, offset, (isCell_cons_succ ..).mpr ⟨by omega, ?_⟩, ?_⟩
          · rwa [Nat.sub_sub]
          · rw [hwalk, Nat.add_assoc, Nat.add_comm 1 part]
        · exact Or.inr h

/-- The walk over all members finds what the search finds. -/
theorem walkGroups_eq (hblock : 0 < blockSize) (id group : Nat) {start : Nat}
    {groups : List (List Nat)} (hstart : start ≤ id)
    (hfit : start + laneCount blockSize groups.flatten < 2 ^ 32) :
    walkGroups blockSize id group start groups =
      .ok (resolveLaneFrom id group (exactFrom blockSize start groups)) := by
  induction groups generalizing start group with
  | nil => rfl
  | cons sizes groups ih =>
      rw [List.flatten_cons, laneCount_append] at hfit
      have hsizes : start + laneCount blockSize sizes < 2 ^ 32 := by omega
      rw [walkGroups, exactFrom, resolveLaneFrom]
      rcases walkMembers_spec hblock id group 0 hstart hsizes with
        ⟨part, offset, hcell, hwalk⟩ | ⟨hid, hwalk⟩
      · rw [hwalk, resolve_exact_of_isCell hstart hcell, Nat.zero_add]
        rfl
      · rw [hwalk, resolve_exact_eq_none hid]
        exact ih (group + 1) hid (by omega)

theorem resolveLaneLinear_eq (hblock : 0 < blockSize) {groups : List (List Nat)}
    (hfit : laneCount blockSize groups.flatten < 2 ^ 32) (id : Nat) :
    resolveLaneLinear groups blockSize id =
      .ok (resolveLane (exactFrom blockSize 0 groups) id) :=
  walkGroups_eq hblock id 0 (Nat.zero_le id) (by rwa [Nat.zero_add])

theorem sum_map_laneCount (blockSize : Nat) (groups : List (List Nat)) :
    (groups.map (laneCount blockSize)).sum = laneCount blockSize groups.flatten := by
  induction groups with
  | nil => rfl
  | cons sizes groups ih =>
      rw [List.map_cons, List.sum_cons, List.flatten_cons, laneCount_append, ih]

/-- Of groups with members of the given sizes, a place is the one of lane `id`. -/
def LanePlace.Owns (place : LanePlace) (blockSize : Nat) (groups : List (List Nat)) (id : Nat) :
    Prop :=
  ∃ sizes inner, groups[place.group]? = some sizes ∧
    IsCell (groups.map (laneCount blockSize)) place.group inner id ∧
    IsCell (paddedSizes blockSize sizes) place.member place.offset inner

namespace LanePlace

variable {sizes : List Nat} {groups : List (List Nat)} {part member offset id : Nat}

theorem owns_cons_zero : (LanePlace.mk 0 member offset).Owns blockSize (sizes :: groups) id ↔
    IsCell (paddedSizes blockSize sizes) member offset id := by
  constructor
  · rintro ⟨_, inner, hget, hgroup, hcell⟩
    cases hget
    rw [List.map_cons, isCell_cons_zero] at hgroup
    rwa [hgroup.2] at hcell
  · intro hcell
    refine ⟨sizes, id, rfl, ?_, hcell⟩
    rw [List.map_cons, isCell_cons_zero]
    exact ⟨hcell.lt_sum, rfl⟩

theorem owns_cons_succ :
    (LanePlace.mk (part + 1) member offset).Owns blockSize (sizes :: groups) id ↔
      laneCount blockSize sizes ≤ id ∧
        (LanePlace.mk part member offset).Owns blockSize groups
          (id - laneCount blockSize sizes) := by
  simp only [Owns, List.getElem?_cons_succ, List.map_cons, isCell_cons_succ]
  constructor
  · rintro ⟨sizes', inner, hget, ⟨hle, hgroup⟩, hcell⟩
    exact ⟨hle, sizes', inner, hget, hgroup, hcell⟩
  · rintro ⟨hle, sizes', inner, hget, hgroup, hcell⟩
    exact ⟨sizes', inner, hget, ⟨hle, hgroup⟩, hcell⟩

theorem Owns.lt_laneCount {place : LanePlace} (h : place.Owns blockSize groups id) :
    id < laneCount blockSize groups.flatten := by
  obtain ⟨_, _, _, hgroup, _⟩ := h
  rw [← sum_map_laneCount]
  exact hgroup.lt_sum

theorem Owns.unique {place place' : LanePlace} (h : place.Owns blockSize groups id)
    (h' : place'.Owns blockSize groups id) : place = place' := by
  obtain ⟨group, member, offset⟩ := place
  obtain ⟨group', member', offset'⟩ := place'
  obtain ⟨sizes, inner, hget, hgroup, hcell⟩ := h
  obtain ⟨sizes', inner', hget', hgroup', hcell'⟩ := h'
  obtain ⟨rfl, rfl⟩ := hgroup.unique hgroup'
  obtain rfl : sizes = sizes' := Option.some.inj (hget.symm.trans hget')
  obtain ⟨rfl, rfl⟩ := hcell.unique hcell'
  rfl

theorem exists_owns (h : id < laneCount blockSize groups.flatten) :
    ∃ place : LanePlace, place.Owns blockSize groups id := by
  rw [← sum_map_laneCount] at h
  obtain ⟨group, inner, hgroup⟩ := exists_isCell h
  obtain ⟨width, hwidth, hinner⟩ := hgroup.1
  rw [List.getElem?_map, Option.map_eq_some_iff] at hwidth
  obtain ⟨sizes, hget, rfl⟩ := hwidth
  obtain ⟨member, offset, hcell⟩ := exists_isCell hinner
  exact ⟨⟨group, member, offset⟩, sizes, inner, hget, hgroup, hcell⟩

end LanePlace

/-- The ranges in order and the search in them lead a lane of a group to its place. -/
theorem resolveLaneFrom_eq_of_owns {groups : List (List Nat)} {part member offset id : Nat}
    (group : Nat) {start : Nat} (hstart : start ≤ id)
    (howns : (LanePlace.mk part member offset).Owns blockSize groups (id - start)) :
    resolveLaneFrom id group (exactFrom blockSize start groups) =
      some ⟨group + part, member, offset⟩ := by
  induction groups generalizing part group start with
  | nil =>
      obtain ⟨_, _, hget, _⟩ := howns
      cases hget
  | cons sizes groups ih =>
      rw [exactFrom, resolveLaneFrom]
      cases part with
      | zero =>
          rw [resolve_exact_of_isCell hstart (LanePlace.owns_cons_zero.mp howns)]
          rfl
      | succ part =>
          obtain ⟨hle, howns⟩ := LanePlace.owns_cons_succ.mp howns
          rw [Nat.sub_sub] at howns
          rw [resolve_exact_eq_none (by omega)]
          exact (ih (group + 1) (by omega) howns).trans (by rw [Nat.add_right_comm]; rfl)

/-- Behind the last lane no range contains a lane. -/
theorem resolveLaneFrom_eq_none {groups : List (List Nat)} {id : Nat} (group : Nat) {start : Nat}
    (hid : start + laneCount blockSize groups.flatten ≤ id) :
    resolveLaneFrom id group (exactFrom blockSize start groups) = none := by
  induction groups generalizing group start with
  | nil => rfl
  | cons sizes groups ih =>
      rw [List.flatten_cons, laneCount_append] at hid
      rw [exactFrom, resolveLaneFrom, resolve_exact_eq_none (by omega)]
      exact ih (group + 1) (by omega)

/-- A lane resolves to the place that owns it. -/
theorem resolveLane_eq_some_iff {groups : List (List Nat)} {id : Nat} {place : LanePlace} :
    resolveLane (exactFrom blockSize 0 groups) id = some place ↔
      place.Owns blockSize groups id := by
  have hfound : ∀ {place : LanePlace}, place.Owns blockSize groups id →
      resolveLane (exactFrom blockSize 0 groups) id = some place := by
    intro place howns
    have h := resolveLaneFrom_eq_of_owns 0 (Nat.zero_le id) (show place.Owns _ _ (id - 0) from howns)
    rwa [Nat.zero_add] at h
  refine ⟨fun hresolve => ?_, hfound⟩
  by_cases hid : id < laneCount blockSize groups.flatten
  · obtain ⟨place', howns⟩ := LanePlace.exists_owns hid
    obtain rfl : place' = place := Option.some.inj ((hfound howns).symm.trans hresolve)
    exact howns
  · rw [resolveLane, resolveLaneFrom_eq_none 0 (by omega)] at hresolve
    cases hresolve

theorem resolveLane_eq_none_iff {groups : List (List Nat)} {id : Nat} :
    resolveLane (exactFrom blockSize 0 groups) id = none ↔
      laneCount blockSize groups.flatten ≤ id := by
  constructor
  · intro hnone
    by_contra hid
    obtain ⟨place, howns⟩ := LanePlace.exists_owns (Nat.not_le.mp hid)
    rw [resolveLane_eq_some_iff.mpr howns] at hnone
    cases hnone
  · intro hid
    exact resolveLaneFrom_eq_none 0 (by omega)

/-- Groups are laid out exactly when all their lanes can be counted in a word, and otherwise the
layout overflows. Of groups that are laid out, the binary search leads every lane to the place that
the walk over the members leads it to, and to none exactly behind the last lane. -/
theorem layout_fits_and_search_eq_walk (hblock : 1 ≤ blockSize) (groups : List (List Nat)) :
    ((∃ ranges, layout groups blockSize = .ok ranges) ↔
      laneCount blockSize groups.flatten ≤ 2 ^ 32 - 1) ∧
    (layout groups blockSize = .error .overflow ↔
      2 ^ 32 - 1 < laneCount blockSize groups.flatten) ∧
    ∀ ranges, layout groups blockSize = .ok ranges → ∀ id,
      resolveLaneLinear groups blockSize id = .ok (resolveLane ranges id) ∧
      (resolveLane ranges id = none ↔ laneCount blockSize groups.flatten ≤ id) := by
  rw [layout_eq hblock]
  by_cases hfit : laneCount blockSize groups.flatten < 2 ^ 32
  · rw [if_pos hfit]
    refine ⟨iff_of_true ⟨_, rfl⟩ (by omega), iff_of_false (by simp) (by omega), ?_⟩
    rintro _ ⟨⟩ id
    exact ⟨resolveLaneLinear_eq hblock hfit id, resolveLane_eq_none_iff⟩
  · rw [if_neg hfit]
    refine ⟨iff_of_false (by simp) (by omega), iff_of_true rfl (by omega), ?_⟩
    intro _ h
    cases h

/-- Two groups with an empty one between them, and members without lanes. -/
theorem layout_fits_and_search_eq_walk_empty_members :
    1 ≤ 32 ∧ ∃ ranges, layout [[0, 40, 0, 130], [], [7]] 32 = .ok ranges ∧
      resolveLaneLinear [[0, 40, 0, 130], [], [7]] 32 100 = .ok (resolveLane ranges 100) ∧
      resolveLane ranges 100 = some ⟨0, 3, 36⟩ ∧ resolveLane ranges 256 = none := by
  have h := layout_fits_and_search_eq_walk (show 1 ≤ 32 by decide) [[0, 40, 0, 130], [], [7]]
  obtain ⟨ranges, hranges⟩ := h.1.mpr (by decide)
  have hwalk := (h.2.2 ranges hranges 100).1
  refine ⟨by decide, ranges, hranges, hwalk, ?_, ((h.2.2 ranges hranges 256).2).mpr (by decide)⟩
  have hplace : resolveLaneLinear [[0, 40, 0, 130], [], [7]] 32 100 = .ok (some ⟨0, 3, 36⟩) := by
    decide
  exact (Except.ok.inj (hplace.symm.trans hwalk)).symm

end KernelWeaver
