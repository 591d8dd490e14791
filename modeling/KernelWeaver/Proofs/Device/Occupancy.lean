import KernelWeaver.Proofs.Device.BlockSizes
import Mathlib.Order.Bounds.Basic

/-!
# Occupancy

A multiprocessor holds as many blocks at once as its limits allow together: those of its blocks, its
threads, its registers and its shared memory. The search for a block size tries the whole warps that
a block can have, in ascending order, and keeps the best choice so far: the one of the most warps
and, of several, the one that the tie-break prefers.
-/

namespace KernelWeaver

/-- Which of two equally good block sizes is preferred. -/
def TieBreak.Prefers : TieBreak → Nat → Nat → Prop
  | .smallest, size, other => size ≤ other
  | .largest, size, other => other ≤ size

namespace Device

variable {d : Device} {resources : Resources} {tieBreak : TieBreak} {size blocks : Nat}

/-! ### What a multiprocessor holds -/

/-- A multiprocessor has room for so many blocks of a size at once. -/
structure Holds (d : Device) (resources : Resources) (size blocks : Nat) : Prop where
  blocks_le : blocks ≤ d.maxBlocksPerMultiprocessor
  threads_le : blocks * size ≤ d.maxThreadsPerMultiprocessor
  registers_le : blocks * (resources.registers * size) ≤ d.registersPerMultiprocessor
  sharedMem_le : blocks * (resources.sharedMem * size) ≤ d.sharedMemPerMultiprocessor

/-- A block of a size can run on the device. -/
structure Admits (d : Device) (resources : Resources) (size : Nat) : Prop where
  threads_le : size ≤ d.maxThreadsPerBlock
  sharedMem_le : resources.sharedMem * size ≤ d.sharedMemPerBlock

instance (d : Device) (resources : Resources) (size : Nat) : Decidable (d.Admits resources size) :=
  decidable_of_iff (size ≤ d.maxThreadsPerBlock ∧ resources.sharedMem * size ≤ d.sharedMemPerBlock)
    ⟨fun h => ⟨h.1, h.2⟩, fun h => ⟨h.threads_le, h.sharedMem_le⟩⟩

/-- The largest number of blocks of a size that a multiprocessor holds. -/
def heldBlocks (d : Device) (resources : Resources) (size : Nat) : Nat :=
  limit
    (limit (limit d.maxBlocksPerMultiprocessor d.maxThreadsPerMultiprocessor size)
      d.registersPerMultiprocessor (resources.registers * size))
    d.sharedMemPerMultiprocessor (resources.sharedMem * size)

theorem le_limit_iff {available taken n : Nat} :
    n ≤ limit blocks available taken ↔ n ≤ blocks ∧ n * taken ≤ available := by
  rw [limit]
  split
  next hzero => simp [hzero]
  next htaken => rw [Nat.le_min, Nat.le_div_iff_mul_le (Nat.pos_of_ne_zero htaken)]

theorem le_heldBlocks_iff :
    blocks ≤ d.heldBlocks resources size ↔ d.Holds resources size blocks := by
  simp only [heldBlocks, le_limit_iff]
  exact ⟨fun ⟨⟨⟨hblocks, hthreads⟩, hregisters⟩, hshared⟩ =>
      ⟨hblocks, hthreads, hregisters, hshared⟩,
    fun h => ⟨⟨⟨h.blocks_le, h.threads_le⟩, h.registers_le⟩, h.sharedMem_le⟩⟩

theorem isGreatest_heldBlocks :
    IsGreatest {blocks | d.Holds resources size blocks} (d.heldBlocks resources size) :=
  ⟨le_heldBlocks_iff.mp le_rfl, fun _ h => le_heldBlocks_iff.mpr h⟩

/-- The number of warps that a multiprocessor holds in blocks of a size, none if there can be no
such block. -/
def warpsOf (d : Device) (resources : Resources) (size : Nat) : Nat :=
  if d.Admits resources size then d.heldBlocks resources size * size / d.warpSize else 0

theorem warpsOf_zero : d.warpsOf resources 0 = 0 := by
  rw [warpsOf, Nat.mul_zero, Nat.zero_div, ite_self]

/-- The numbers of the device are words, and so is what the threads of its largest block need. -/
structure Bounded (d : Device) (resources : Resources) : Prop where
  warp : 0 < d.warpSize
  threads : d.maxThreadsPerMultiprocessor < Nat.pow 2 32
  registers : resources.registers * d.maxThreadsPerBlock < Nat.pow 2 32
  sharedMem : resources.sharedMem * d.maxThreadsPerBlock < Nat.pow 2 32

theorem occupancy_eq (h : d.Bounded resources) (size : Nat) :
    d.occupancy resources size = .ok (d.warpsOf resources size) := by
  rw [occupancy, warpsOf]
  by_cases hnone : size = 0 ∨ d.maxThreadsPerBlock < size
  · rw [if_pos hnone]
    rcases hnone with rfl | hlarge
    · rw [Nat.mul_zero (d.heldBlocks _ _), Nat.zero_div, ite_self]
      rfl
    · rw [if_neg fun hadmits => Nat.not_le.mpr hlarge hadmits.threads_le]
      rfl
  · rw [if_neg hnone]
    obtain ⟨hpos, hblock⟩ := not_or.mp hnone
    have hblock : size ≤ d.maxThreadsPerBlock := Nat.not_lt.mp hblock
    have hword {each : Nat} (heach : each * d.maxThreadsPerBlock < Nat.pow 2 32) :
        fit 32 (each * size) = .ok (each * size) :=
      fit_eq_ok_iff.mpr ⟨(Nat.mul_le_mul_left each hblock).trans_lt heach, rfl⟩
    rw [hword h.registers, ok_bind, hword h.sharedMem, ok_bind]
    split
    next hshared =>
      rw [if_neg fun hadmits => Nat.not_le.mpr hshared hadmits.sharedMem_le]
      rfl
    next hshared =>
      have hfirst : min d.maxBlocksPerMultiprocessor (d.maxThreadsPerMultiprocessor / size) =
          limit d.maxBlocksPerMultiprocessor d.maxThreadsPerMultiprocessor size :=
        (if_neg hpos).symm
      have hthreads : d.heldBlocks resources size * size < Nat.pow 2 32 :=
        (le_heldBlocks_iff.mp le_rfl).threads_le.trans_lt h.threads
      rw [if_pos ⟨hblock, Nat.not_lt.mp hshared⟩, hfirst]
      exact bind_eq_ok.mpr ⟨_, fit_eq_ok_iff.mpr ⟨hthreads, rfl⟩,
        quotient_eq_ok_iff.mpr ⟨h.warp.ne', rfl⟩⟩

/-! ### The search -/

/-- A block size of the most warps, and of these the one that the tie-break prefers. -/
structure IsBest (warps : Nat → Nat) (tieBreak : TieBreak) (sizes : Set Nat) (size : Nat) :
    Prop where
  mem : size ∈ sizes
  most : ∀ other ∈ sizes, warps other ≤ warps size
  prefers : ∀ other ∈ sizes, warps other = warps size → tieBreak.Prefers size other

/-- The best choice among the sizes that have been tried. -/
def Leads (warps : Nat → Nat) (tieBreak : TieBreak) (tried : Set Nat) : Option Choice → Prop
  | none => ∀ size ∈ tried, warps size = 0
  | some choice => 0 < choice.warps ∧ choice.warps = warps choice.blockSize ∧
      IsBest warps tieBreak tried choice.blockSize

variable {warps : Nat → Nat} {tried : Set Nat} {best : Option Choice}

theorem IsBest.first (hpos : 0 < warps size) (hnone : ∀ other ∈ tried, warps other = 0) :
    IsBest warps tieBreak (insert size tried) size where
  mem := Set.mem_insert size tried
  most := by
    rintro other (rfl | hother)
    · exact le_rfl
    · rw [hnone other hother]
      exact Nat.zero_le _
  prefers := by
    rintro other (rfl | hother) heq
    · cases tieBreak <;> exact le_rfl
    · rw [hnone other hother] at heq
      exact absurd heq.symm hpos.ne'

/-- A later size takes over if it has more warps, or as many and larger sizes are preferred. -/
theorem IsBest.next {old : Nat} (h : IsBest warps tieBreak tried old)
    (hlater : ∀ other ∈ tried, other < size)
    (hbetter : warps old < warps size ∨ warps size = warps old ∧ tieBreak = .largest) :
    IsBest warps tieBreak (insert size tried) size where
  mem := Set.mem_insert size tried
  most := by
    rintro other (rfl | hother)
    · exact le_rfl
    · have hle := h.most other hother
      omega
  prefers := by
    rintro other (rfl | hother) heq
    · cases tieBreak <;> exact le_rfl
    · have hle := h.most other hother
      rcases hbetter with hmore | ⟨-, rfl⟩
      · omega
      · exact (hlater other hother).le

theorem IsBest.stays {old : Nat} (h : IsBest warps tieBreak tried old)
    (hlater : ∀ other ∈ tried, other < size)
    (hbetter : ¬(warps old < warps size ∨ warps size = warps old ∧ tieBreak = .largest)) :
    IsBest warps tieBreak (insert size tried) old where
  mem := Set.mem_insert_of_mem size h.mem
  most := by
    rintro other (rfl | hother)
    · omega
    · exact h.most other hother
  prefers := by
    rintro other (rfl | hother) heq
    · cases tieBreak with
      | smallest => exact (hlater old h.mem).le
      | largest => exact absurd (.inr ⟨heq, rfl⟩) hbetter
    · exact h.prefers other hother heq

theorem leads_better (h : Leads warps tieBreak tried best)
    (hlater : ∀ other ∈ tried, other < size) :
    Leads warps tieBreak (insert size tried) (better tieBreak best ⟨size, warps size⟩) := by
  unfold better
  split
  next hzero =>
    cases best with
    | none => exact Set.forall_mem_insert.mpr ⟨hzero, h⟩
    | some old =>
        obtain ⟨hpos, heq, hold⟩ := h
        refine ⟨hpos, heq, hold.stays hlater ?_⟩
        dsimp only at hzero
        omega
  next hpos =>
    cases best with
    | none => exact ⟨Nat.pos_of_ne_zero hpos, rfl, .first (Nat.pos_of_ne_zero hpos) h⟩
    | some old =>
        obtain ⟨hold, heq, hbest⟩ := h
        dsimp only
        rw [heq]
        split
        next hbetter => exact ⟨Nat.pos_of_ne_zero hpos, rfl, hbest.next hlater hbetter⟩
        next hbetter => exact ⟨hold, heq, hbest.stays hlater hbetter⟩

theorem union_sizes_succ (tried : Set Nat) (size warp count : Nat) :
    tried ∪ {s | ∃ i < count + 1, s = size + i * warp} =
      insert size tried ∪ {s | ∃ i < count, s = size + warp + i * warp} := by
  have hshift (i : Nat) : size + (i + 1) * warp = size + warp + i * warp := by
    rw [Nat.succ_mul, Nat.add_comm (i * warp), Nat.add_assoc]
  ext s
  simp only [Set.mem_union, Set.mem_insert_iff, Set.mem_ofPred_eq, Nat.exists_lt_succ_left, hshift,
    Nat.zero_mul, Nat.add_zero]
  tauto

/-- The search tries every size that is one warp larger than the one before. -/
theorem leads_bestFrom (hwarp : 0 < d.warpSize)
    (hwarps : ∀ size, d.occupancy resources size = .ok (warps size)) {count : Nat}
    (h : Leads warps tieBreak tried best) (hlater : ∀ other ∈ tried, other < size) :
    ∃ last, d.bestFrom resources tieBreak count size best = .ok last ∧
      Leads warps tieBreak (tried ∪ {s | ∃ i < count, s = size + i * d.warpSize}) last := by
  induction count generalizing size best tried with
  | zero => exact ⟨best, rfl, by simpa using h⟩
  | succ count ih =>
      have hnext : ∀ other ∈ insert size tried, other < size + d.warpSize := by
        refine Set.forall_mem_insert.mpr ⟨Nat.lt_add_of_pos_right hwarp, fun other hother => ?_⟩
        exact (hlater other hother).trans (Nat.lt_add_of_pos_right hwarp)
      obtain ⟨last, hsearch, hlast⟩ := ih (leads_better h hlater) hnext
      refine ⟨last, bind_eq_ok.mpr ⟨_, hwarps size, hsearch⟩, ?_⟩
      rwa [union_sizes_succ]

/-- The whole warps up to the largest block. -/
def wholeWarps (d : Device) : Set Nat := {size | d.warpSize ∣ size ∧ size ≤ d.maxThreadsPerBlock}

theorem wholeWarps_eq (hwarp : 0 < d.warpSize) : d.wholeWarps =
    {0} ∪ {s | ∃ i < d.maxThreadsPerBlock / d.warpSize, s = d.warpSize + i * d.warpSize} := by
  ext s
  simp only [wholeWarps, Set.mem_ofPred_eq, Set.mem_union, Set.mem_singleton_iff]
  constructor
  · rintro ⟨⟨i, rfl⟩, hle⟩
    cases i with
    | zero => exact .inl (Nat.mul_zero _)
    | succ i =>
        refine .inr ⟨i, ?_, by rw [Nat.mul_succ, Nat.mul_comm, Nat.add_comm]⟩
        exact (Nat.le_div_iff_mul_le hwarp).mpr (by rwa [Nat.mul_comm])
  · rintro (rfl | ⟨i, hi, rfl⟩)
    · exact ⟨Nat.dvd_zero _, Nat.zero_le _⟩
    · refine ⟨⟨i + 1, by rw [Nat.mul_succ, Nat.mul_comm, Nat.add_comm]⟩, ?_⟩
      have hle := (Nat.le_div_iff_mul_le hwarp).mp hi
      rwa [Nat.succ_mul, Nat.add_comm] at hle

/-- On a device whose numbers are words, as are the registers and the shared memory of its largest
block: the occupancy of blocks that the device admits is the number of warps in the most blocks that
a multiprocessor holds at once, and there is none of other blocks. The block size that is chosen is,
among the whole warps up to the largest block, the preferred one of those of the highest occupancy,
and one warp if no block size has any. -/
theorem best_block_size_has_most_warps (hwarp : 0 < d.warpSize)
    (hthreads : d.maxThreadsPerMultiprocessor < Nat.pow 2 32)
    (hregisters : resources.registers * d.maxThreadsPerBlock < Nat.pow 2 32)
    (hsharedMem : resources.sharedMem * d.maxThreadsPerBlock < Nat.pow 2 32)
    (tieBreak : TieBreak) :
    ∃ warps : Nat → Nat,
      (∀ size, d.occupancy resources size = .ok (warps size)) ∧
      (∀ size, d.Admits resources size → ∃ blocks,
        IsGreatest {blocks | d.Holds resources size blocks} blocks ∧
          warps size = blocks * size / d.warpSize) ∧
      (∀ size, ¬d.Admits resources size → warps size = 0) ∧
      ∃ size, d.bestBlockSize resources tieBreak = .ok size ∧
        ((∃ s ∈ d.wholeWarps, 0 < warps s) → IsBest warps tieBreak d.wholeWarps size) ∧
        ((∀ s ∈ d.wholeWarps, warps s = 0) → size = d.warpSize) := by
  have hbounded : d.Bounded resources := ⟨hwarp, hthreads, hregisters, hsharedMem⟩
  have hwarps := occupancy_eq hbounded
  refine ⟨d.warpsOf resources, hwarps, fun size hadmits => ⟨_, isGreatest_heldBlocks, ?_⟩,
    fun size hadmits => if_neg hadmits, ?_⟩
  · rw [warpsOf, if_pos hadmits]
  · have hstart : Leads (d.warpsOf resources) tieBreak {0} none := by
      rintro _ rfl
      exact warpsOf_zero
    obtain ⟨last, hsearch, hlast⟩ :=
      @leads_bestFrom d resources tieBreak d.warpSize _ {0} none hwarp hwarps
        (d.maxThreadsPerBlock / d.warpSize) hstart (by rintro _ rfl; exact hwarp)
    rw [← wholeWarps_eq hwarp] at hlast
    refine ⟨(last.map Choice.blockSize).getD d.warpSize, ?_, ?_⟩
    · rw [bestBlockSize, if_neg hwarp.ne', hsearch]
      rfl
    · cases last with
      | none =>
          refine ⟨fun hsome => ?_, fun _ => rfl⟩
          obtain ⟨s, hs, hpos⟩ := hsome
          exact absurd (hlast s hs) hpos.ne'
      | some choice =>
          obtain ⟨hpos, heq, hbest⟩ := hlast
          refine ⟨fun _ => hbest, fun hnone => ?_⟩
          rw [heq, hnone _ hbest.mem] at hpos
          cases hpos

/-- Where each thread takes four bytes of the shared memory of a block, which has room for 256 of
them, and large blocks are preferred. -/
theorem best_block_size_has_most_warps_shared_memory :
    let d := { reference with sharedMemPerBlock := 1024 }
    0 < d.warpSize ∧ d.maxThreadsPerMultiprocessor < Nat.pow 2 32 ∧
      0 * d.maxThreadsPerBlock < Nat.pow 2 32 ∧ 4 * d.maxThreadsPerBlock < Nat.pow 2 32 ∧
      ∃ warps : Nat → Nat, (∀ size, d.occupancy ⟨0, 4⟩ size = .ok (warps size)) ∧
        warps 256 = 64 ∧ d.bestBlockSize ⟨0, 4⟩ .largest = .ok 256 ∧
        IsBest warps .largest d.wholeWarps 256 := by
  intro d
  have hsize : d.bestBlockSize ⟨0, 4⟩ .largest = .ok 256 := by decide +kernel
  have hoccupancy : d.occupancy ⟨0, 4⟩ 256 = .ok 64 := by decide +kernel
  obtain ⟨warps, hwarps, -, -, size, hbest, hmost, -⟩ :=
    @best_block_size_has_most_warps d ⟨0, 4⟩ (by decide) (by decide) (by decide) (by decide)
      .largest
  have hwarps256 : warps 256 = 64 := Except.ok.inj ((hwarps 256).symm.trans hoccupancy)
  cases Except.ok.inj (hsize.symm.trans hbest)
  refine ⟨by decide, by decide, by decide, by decide, warps, hwarps, hwarps256, hsize, hmost ?_⟩
  exact ⟨256, ⟨by decide, by decide⟩, by omega⟩

end Device

end KernelWeaver
