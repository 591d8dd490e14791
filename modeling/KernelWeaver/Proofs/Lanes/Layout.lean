import KernelWeaver.Dispatch.Lanes
import Mathlib

/-!
# Exact layout of lanes

Without a bound on numbers, members own consecutive stretches of lanes, each of the member's size
rounded up to whole blocks. The layout of groups is this exact one as long as all its lanes can be
counted in a word, and overflows otherwise.
-/

namespace KernelWeaver

/-- The least multiple of the block size that is not below `size`, whether it is a word or not. -/
def roundUp (blockSize size : Nat) : Nat := (size + blockSize - 1) / blockSize * blockSize

/-- The numbers of lanes that members of the given sizes own. -/
def paddedSizes (blockSize : Nat) (sizes : List Nat) : List Nat := sizes.map (roundUp blockSize)

/-- The number of lanes that members of the given sizes own together. -/
def laneCount (blockSize : Nat) (sizes : List Nat) : Nat := (paddedSizes blockSize sizes).sum

theorem isLeast_roundUp {blockSize : Nat} (hblock : 0 < blockSize) (size : Nat) :
    IsLeast {lanes | size ≤ lanes ∧ blockSize ∣ lanes} (roundUp blockSize size) := by
  have hdiv := Nat.div_add_mod (size + blockSize - 1) blockSize
  have hmod := Nat.mod_lt (size + blockSize - 1) hblock
  refine ⟨⟨?_, Nat.dvd_mul_left _ _⟩, ?_⟩
  · rw [roundUp, Nat.mul_comm]
    omega
  · rintro lanes ⟨hsize, blocks, rfl⟩
    rw [roundUp, Nat.mul_comm]
    apply Nat.mul_le_mul_left
    -- fewer than one block is added before the division
    rw [Nat.div_le_iff_le_mul_add_pred hblock]
    omega

theorem dvd_roundUp (blockSize size : Nat) : blockSize ∣ roundUp blockSize size :=
  Nat.dvd_mul_left _ _

@[simp] theorem laneCount_nil (blockSize : Nat) : laneCount blockSize [] = 0 := rfl

@[simp] theorem laneCount_cons (blockSize size : Nat) (sizes : List Nat) :
    laneCount blockSize (size :: sizes) = roundUp blockSize size + laneCount blockSize sizes := by
  simp [laneCount, paddedSizes]

@[simp] theorem laneCount_append (blockSize : Nat) (first second : List Nat) :
    laneCount blockSize (first ++ second) =
      laneCount blockSize first + laneCount blockSize second := by
  simp [laneCount, paddedSizes]

theorem dvd_laneCount (blockSize : Nat) (sizes : List Nat) :
    blockSize ∣ laneCount blockSize sizes := by
  induction sizes with
  | nil => exact Nat.dvd_zero _
  | cons size sizes ih =>
      rw [laneCount_cons]
      exact Nat.dvd_add (dvd_roundUp blockSize size) ih

theorem fit_word (n : Nat) : fit 32 n = if n < 2 ^ 32 then .ok n else .error .overflow := rfl

theorem padSize_eq_fit {blockSize : Nat} (hblock : 0 < blockSize) (size : Nat) :
    padSize size blockSize = fit 32 (roundUp blockSize size) := by
  have hquot : quotient (size + blockSize - 1) blockSize =
      .ok ((size + blockSize - 1) / blockSize) :=
    quotient_eq_ok_iff.mpr ⟨Nat.ne_of_gt hblock, rfl⟩
  rw [padSize, hquot]
  rfl

namespace LaneRange

/-- The first lanes of members that follow each other from a lane on. -/
def memberStarts (blockSize : Nat) : (next : Nat) → (sizes : List Nat) → List Nat
  | _, [] => []
  | next, size :: sizes => next :: memberStarts blockSize (next + roundUp blockSize size) sizes

/-- The range of members that follow each other from a lane on. -/
def exact (blockSize start : Nat) (sizes : List Nat) : LaneRange :=
  ⟨start, memberStarts blockSize start sizes, laneCount blockSize sizes⟩

/-- The ranges of groups that follow each other from a lane on. -/
def exactFrom (blockSize : Nat) : (start : Nat) → (groups : List (List Nat)) → List LaneRange
  | _, [] => []
  | start, sizes :: groups =>
    exact blockSize start sizes :: exactFrom blockSize (start + laneCount blockSize sizes) groups

@[simp] theorem stop_exact (blockSize start : Nat) (sizes : List Nat) :
    (exact blockSize start sizes).stop = start + laneCount blockSize sizes := rfl

@[simp] theorem length_memberStarts (blockSize next : Nat) (sizes : List Nat) :
    (memberStarts blockSize next sizes).length = sizes.length := by
  induction sizes generalizing next with
  | nil => rfl
  | cons size sizes ih => simp [memberStarts, ih]

/-- A member begins behind the lanes of the members before it. -/
theorem getElem?_memberStarts (blockSize next : Nat) (sizes : List Nat) {member : Nat}
    (hmember : member < sizes.length) :
    (memberStarts blockSize next sizes)[member]? =
      some (next + laneCount blockSize (sizes.take member)) := by
  induction sizes generalizing next member with
  | nil => exact absurd hmember (Nat.not_lt_zero _)
  | cons size sizes ih =>
      cases member with
      | zero => rfl
      | succ member =>
          rw [memberStarts, List.getElem?_cons_succ, ih _ (Nat.lt_of_succ_lt_succ hmember),
            List.take_succ_cons, laneCount_cons, Nat.add_assoc]

/-- A group begins behind the lanes of the groups before it. -/
theorem getElem?_exactFrom (blockSize start : Nat) (groups : List (List Nat)) (group : Nat) :
    (exactFrom blockSize start groups)[group]? =
      groups[group]?.map
        (exact blockSize (start + laneCount blockSize (groups.take group).flatten)) := by
  induction groups generalizing start group with
  | nil => rfl
  | cons sizes groups ih =>
      cases group with
      | zero => rfl
      | succ group =>
          rw [exactFrom, List.getElem?_cons_succ, ih, List.getElem?_cons_succ,
            List.take_succ_cons, List.flatten_cons, laneCount_append, Nat.add_assoc]

theorem dvd_of_mem_memberStarts {blockSize next : Nat} (hnext : blockSize ∣ next)
    {sizes : List Nat} {start : Nat} (hmem : start ∈ memberStarts blockSize next sizes) :
    blockSize ∣ start := by
  induction sizes generalizing next with
  | nil => cases hmem
  | cons size sizes ih =>
      rcases List.mem_cons.mp hmem with rfl | hmem
      · exact hnext
      · exact ih (Nat.dvd_add hnext (dvd_roundUp blockSize size)) hmem

/-- Every member begins with a block. -/
theorem dvd_of_mem_exactFrom {blockSize next : Nat} (hnext : blockSize ∣ next)
    {groups : List (List Nat)} {range : LaneRange} (hrange : range ∈ exactFrom blockSize next groups)
    {start : Nat} (hmem : start ∈ range.starts) : blockSize ∣ start := by
  induction groups generalizing next with
  | nil => cases hrange
  | cons sizes groups ih =>
      rcases List.mem_cons.mp hrange with rfl | hrange
      · exact dvd_of_mem_memberStarts hnext hmem
      · exact ih (Nat.dvd_add hnext (dvd_laneCount blockSize sizes)) hrange

theorem exactFrom_append (blockSize start : Nat) (first second : List (List Nat)) :
    exactFrom blockSize start (first ++ second) =
      exactFrom blockSize start first ++
        exactFrom blockSize (start + laneCount blockSize first.flatten) second := by
  induction first generalizing start with
  | nil => rfl
  | cons sizes first ih =>
      rw [List.cons_append, exactFrom, exactFrom, ih, List.flatten_cons, laneCount_append,
        Nat.add_assoc, List.cons_append]

variable {blockSize : Nat}

theorem startsFrom_eq (hblock : 0 < blockSize) (sizes : List Nat) {next : Nat}
    (hnext : next < 2 ^ 32) :
    startsFrom blockSize next sizes =
      if next + laneCount blockSize sizes < 2 ^ 32 then
        .ok (memberStarts blockSize next sizes, next + laneCount blockSize sizes)
      else .error .overflow := by
  induction sizes generalizing next with
  | nil => rw [startsFrom, memberStarts, laneCount_nil, Nat.add_zero, if_pos hnext]
  | cons size sizes ih =>
      rw [startsFrom, padSize_eq_fit hblock, fit_word, laneCount_cons, ← Nat.add_assoc]
      by_cases hpad : roundUp blockSize size < 2 ^ 32
      · rw [if_pos hpad]
        change (fit 32 (next + roundUp blockSize size) >>= _) = _
        rw [fit_word]
        by_cases hstop : next + roundUp blockSize size < 2 ^ 32
        · rw [if_pos hstop]
          change (startsFrom blockSize (next + roundUp blockSize size) sizes >>= _) = _
          rw [ih hstop]
          split <;> rfl
        · rw [if_neg hstop, if_neg (by omega)]
          rfl
      · rw [if_neg hpad, if_neg (by omega)]
        rfl

theorem ofSizes_eq (hblock : 0 < blockSize) (sizes : List Nat) {start : Nat}
    (hstart : start < 2 ^ 32) :
    ofSizes start sizes blockSize =
      if start + laneCount blockSize sizes < 2 ^ 32 then .ok (exact blockSize start sizes)
      else .error .overflow := by
  rw [ofSizes, startsFrom_eq hblock sizes hstart]
  split
  next =>
    change Except.ok (LaneRange.mk _ _ _) = _
    rw [Nat.add_sub_cancel_left]
    rfl
  next => rfl

theorem layoutFrom_eq (hblock : 0 < blockSize) (groups : List (List Nat)) {start : Nat}
    (hstart : start < 2 ^ 32) :
    layoutFrom blockSize start groups =
      if start + laneCount blockSize groups.flatten < 2 ^ 32 then
        .ok (exactFrom blockSize start groups)
      else .error .overflow := by
  induction groups generalizing start with
  | nil =>
      rw [layoutFrom, exactFrom, List.flatten_nil, laneCount_nil, Nat.add_zero, if_pos hstart]
  | cons sizes groups ih =>
      rw [layoutFrom, ofSizes_eq hblock sizes hstart, List.flatten_cons, laneCount_append,
        ← Nat.add_assoc]
      by_cases hstop : start + laneCount blockSize sizes < 2 ^ 32
      · rw [if_pos hstop]
        change (layoutFrom blockSize (start + laneCount blockSize sizes) groups >>= _) = _
        rw [ih hstop]
        split <;> rfl
      · rw [if_neg hstop, if_neg (by omega)]
        rfl

/-- Groups are laid out exactly when their lanes can be counted in a word. -/
theorem layout_eq (hblock : 0 < blockSize) (groups : List (List Nat)) :
    layout groups blockSize =
      if laneCount blockSize groups.flatten < 2 ^ 32 then .ok (exactFrom blockSize 0 groups)
      else .error .overflow := by
  rw [layout, layoutFrom_eq hblock groups (Nat.two_pow_pos 32), Nat.zero_add]

end LaneRange

end KernelWeaver
