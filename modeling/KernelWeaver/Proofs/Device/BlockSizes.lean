import KernelWeaver.Device.Backend
import KernelWeaver.Proofs.Outcome

/-!
# Block sizes of accepted configurations

An accepted configuration describes a device by words, with a warp that fits into a block. Where
block sizes are given by hand they are taken as they are. Where they are searched for, the registers
of the largest block that is tried must be a word: otherwise the search ends with an overflow, and
with nothing else. All block sizes that are found are positive.
-/

namespace KernelWeaver

/-! ### Overflow as the only fault -/

/-- The computation has a result if the condition holds, and overflows otherwise. -/
def Checked.Needs {α : Type} (x : Checked α) (P : Prop) : Prop :=
  (P ∧ ∃ a, x = .ok a) ∨ (¬P ∧ x = .error .overflow)

namespace Checked.Needs

variable {α β : Type} {x : Checked α} {P Q : Prop}

theorem of_ok {a : α} (h : x = .ok a) (hp : P) : Needs x P := .inl ⟨hp, a, h⟩

theorem fit (width n : Nat) : Needs (KernelWeaver.fit width n) (n < Nat.pow 2 width) := by
  rw [Needs, KernelWeaver.fit]
  by_cases h : n < Nat.pow 2 width
  · exact .inl ⟨h, n, if_pos h⟩
  · exact .inr ⟨h, if_neg h⟩

theorem bind {f : α → Checked β} (hx : Needs x P) (hf : ∀ a, x = .ok a → Needs (f a) Q) :
    Needs (x >>= f) (P ∧ Q) := by
  rcases hx with ⟨hp, a, rfl⟩ | ⟨hp, rfl⟩
  · rcases hf a rfl with ⟨hq, hb⟩ | ⟨hq, hb⟩
    · exact .inl ⟨⟨hp, hq⟩, hb⟩
    · exact .inr ⟨fun h => hq h.2, hb⟩
  · exact .inr ⟨fun h => hp h.1, rfl⟩

theorem map {f : α → β} (h : Needs x P) : Needs (x >>= fun a => .ok (f a)) P := by
  rcases h with ⟨hp, a, rfl⟩ | ⟨hp, rfl⟩
  · exact .inl ⟨hp, f a, rfl⟩
  · exact .inr ⟨hp, rfl⟩

theorem congr (h : Needs x P) (hiff : P ↔ Q) : Needs x Q :=
  (propext hiff : P = Q) ▸ h

theorem exists_ok_iff (h : Needs x P) : (∃ a, x = .ok a) ↔ P := by
  rcases h with ⟨hp, hx⟩ | ⟨hp, rfl⟩
  · exact iff_of_true hx hp
  · exact iff_of_false (fun ⟨_, h⟩ => nomatch h) hp

theorem eq_overflow {f : Fault} (h : Needs x P) (hx : x = .error f) : f = .overflow := by
  rcases h with ⟨-, a, rfl⟩ | ⟨-, rfl⟩
  · cases hx
  · cases hx
    rfl

end Checked.Needs

namespace Device

variable {d : Device} {resources : Resources} {tieBreak : TieBreak} {size : Nat}

/-! ### The search -/

theorem limit_limit_le (blocks available taken available' taken' : Nat) :
    limit (limit blocks available taken) available' taken' ≤ blocks := by
  have hle (blocks available taken : Nat) : limit blocks available taken ≤ blocks := by
    rw [limit]
    split
    · exact Nat.le_refl _
    · exact Nat.min_le_left _ _
  exact Nat.le_trans (hle _ _ _) (hle _ _ _)

/-- The threads of all blocks are no more than the multiprocessor holds, so that of the products
only those for one block can overflow. -/
theorem needs_occupancy (hwarp : d.warpSize ≠ 0)
    (hthreads : d.maxThreadsPerMultiprocessor < Nat.pow 2 32)
    (hresources : resources.sharedMem ≤ resources.registers) (hsize : size ≠ 0)
    (hblock : size ≤ d.maxThreadsPerBlock) :
    Checked.Needs (d.occupancy resources size) (resources.registers * size < Nat.pow 2 32) := by
  rw [occupancy, if_neg (by omega)]
  have hshared (h : resources.registers * size < Nat.pow 2 32) :
      resources.sharedMem * size < Nat.pow 2 32 :=
    Nat.lt_of_le_of_lt (Nat.mul_le_mul_right size hresources) h
  refine (Checked.Needs.bind (.fit 32 _) (Q := resources.sharedMem * size < Nat.pow 2 32)
    fun registers _ => ?_).congr (and_iff_left_of_imp hshared)
  refine ((Checked.Needs.fit 32 _).bind (Q := True) fun shared _ => ?_).congr
    (iff_of_eq (and_true _))
  split
  · exact .of_ok rfl trivial
  · have hheld := Nat.mul_le_of_le_div _ _ _ (Nat.le_trans
      (limit_limit_le _ d.registersPerMultiprocessor registers d.sharedMemPerMultiprocessor shared)
      (Nat.min_le_right d.maxBlocksPerMultiprocessor (d.maxThreadsPerMultiprocessor / size)))
    have hfit := fit_eq_ok_iff.mpr ⟨Nat.lt_of_le_of_lt hheld hthreads, rfl⟩
    have hquotient (threads : Nat) : quotient threads d.warpSize = .ok (threads / d.warpSize) :=
      quotient_eq_ok_iff.mpr ⟨hwarp, rfl⟩
    exact .of_ok (bind_eq_ok.mpr ⟨_, hfit, hquotient _⟩) trivial

theorem needs_bestFrom (hwarp : d.warpSize ≠ 0)
    (hthreads : d.maxThreadsPerMultiprocessor < Nat.pow 2 32)
    (hresources : resources.sharedMem ≤ resources.registers) (tieBreak : TieBreak) {count : Nat}
    (hsize : size ≠ 0) (hblock : size + count * d.warpSize ≤ d.maxThreadsPerBlock + d.warpSize)
    (best : Option Choice) :
    Checked.Needs (d.bestFrom resources tieBreak count size best)
      (∀ i < count, resources.registers * (size + i * d.warpSize) < Nat.pow 2 32) := by
  induction count generalizing size best with
  | zero => exact .of_ok rfl fun i hi => absurd hi (Nat.not_lt_zero i)
  | succ count ih =>
      rw [Nat.succ_mul] at hblock
      have hfirst := needs_occupancy hwarp hthreads hresources hsize (by omega)
      have hrest (warps : Nat) := @ih (size + d.warpSize) (by omega) (by omega)
        (better tieBreak best ⟨size, warps⟩)
      refine (hfirst.bind fun warps _ => hrest warps).congr ?_
      rw [Nat.forall_lt_succ_left, Nat.zero_mul, Nat.add_zero]
      refine and_congr_right fun _ => forall_congr' fun i => ?_
      rw [Nat.succ_mul, Nat.add_assoc, Nat.add_comm d.warpSize]

/-- The largest block that is tried, made of whole warps. -/
def largestBlock (d : Device) : Nat := d.warpSize * (d.maxThreadsPerBlock / d.warpSize)

theorem needs_bestBlockSize (hwarp : d.warpSize ≠ 0) (hblock : d.warpSize ≤ d.maxThreadsPerBlock)
    (hthreads : d.maxThreadsPerMultiprocessor < Nat.pow 2 32)
    (hresources : resources.sharedMem ≤ resources.registers) (tieBreak : TieBreak) :
    Checked.Needs (d.bestBlockSize resources tieBreak)
      (resources.registers * d.largestBlock < Nat.pow 2 32) := by
  have hlast := Nat.mul_div_le d.maxThreadsPerBlock d.warpSize
  have htried : 0 < d.maxThreadsPerBlock / d.warpSize := Nat.div_pos hblock (by omega)
  rw [bestBlockSize, if_neg hwarp, largestBlock]
  generalize d.maxThreadsPerBlock / d.warpSize = count at hlast htried ⊢
  have hsearch := needs_bestFrom hwarp hthreads hresources tieBreak hwarp
    (show d.warpSize + count * d.warpSize ≤ _ by rw [Nat.mul_comm count]; omega) none
  refine hsearch.map.congr ?_
  have hwhole (i : Nat) : d.warpSize + i * d.warpSize = d.warpSize * (i + 1) := by
    rw [Nat.mul_succ, Nat.mul_comm, Nat.add_comm]
  -- the registers of all blocks are words if those of the last are
  constructor
  · intro hall
    have h := hall (count - 1) (by omega)
    rwa [hwhole, Nat.sub_add_cancel htried] at h
  · intro h i hi
    rw [hwhole]
    exact Nat.lt_of_le_of_lt (Nat.mul_le_mul_left _ (Nat.mul_le_mul_left _ hi)) h

theorem blockSize_better_ne_zero {best : Option Choice} {next : Choice}
    (hbest : ∀ choice ∈ best, choice.blockSize ≠ 0) (hnext : next.blockSize ≠ 0) :
    ∀ choice ∈ better tieBreak best next, choice.blockSize ≠ 0 := by
  intro choice hchoice
  unfold better at hchoice
  split at hchoice
  · exact hbest choice hchoice
  · cases best with
    | none =>
        cases hchoice
        exact hnext
    | some old =>
        dsimp only at hchoice
        split at hchoice
        · cases hchoice
          exact hnext
        · exact hbest choice hchoice

theorem blockSize_bestFrom_ne_zero {count : Nat} {best last : Option Choice} (hsize : size ≠ 0)
    (hbest : ∀ choice ∈ best, choice.blockSize ≠ 0)
    (h : d.bestFrom resources tieBreak count size best = .ok last) :
    ∀ choice ∈ last, choice.blockSize ≠ 0 := by
  induction count generalizing size best with
  | zero =>
      cases h
      exact hbest
  | succ count ih =>
      obtain ⟨warps, -, hrest⟩ := bind_eq_ok.mp h
      exact ih (by omega) (blockSize_better_ne_zero hbest hsize) hrest

theorem bestBlockSize_ne_zero (hwarp : d.warpSize ≠ 0)
    (h : d.bestBlockSize resources tieBreak = .ok size) : size ≠ 0 := by
  rw [bestBlockSize, if_neg hwarp] at h
  obtain ⟨best, hsearch, hpure⟩ := bind_eq_ok.mp h
  cases hpure
  cases best with
  | none => exact hwarp
  | some choice =>
      exact blockSize_bestFrom_ne_zero hwarp (by simp) hsearch choice rfl

theorem bestBlockSizes_eq_ok {sizes : BlockSizes}
    (h : d.bestBlockSizes tieBreak = .ok sizes) (kernel : Kernel) :
    d.bestBlockSize (.estimate kernel) tieBreak = .ok (sizes.get kernel) := by
  obtain ⟨update, hupdate, h⟩ := bind_eq_ok.mp h
  obtain ⟨connectivity, hconnectivity, h⟩ := bind_eq_ok.mp h
  obtain ⟨init, hinit, h⟩ := bind_eq_ok.mp h
  obtain ⟨sparseInit, hsparseInit, h⟩ := bind_eq_ok.mp h
  cases h
  cases kernel with
  | update => exact hupdate
  | connectivity => exact hconnectivity
  | init => exact hinit
  | sparseInit => exact hsparseInit

theorem needs_bestBlockSizes (hwarp : d.warpSize ≠ 0) (hblock : d.warpSize ≤ d.maxThreadsPerBlock)
    (hthreads : d.maxThreadsPerMultiprocessor < Nat.pow 2 32) (tieBreak : TieBreak) :
    Checked.Needs (d.bestBlockSizes tieBreak)
      (∀ kernel, (Resources.estimate kernel).registers * d.largestBlock < Nat.pow 2 32) := by
  have hbest (kernel : Kernel) := needs_bestBlockSize hwarp hblock hthreads
    (show (Resources.estimate kernel).sharedMem ≤ _ by cases kernel <;> decide) tieBreak
  refine ((hbest .update).bind fun _ _ => (hbest .connectivity).bind fun _ _ =>
    (hbest .init).bind fun _ _ => (hbest .sparseInit).map).congr ?_
  constructor
  · rintro ⟨hupdate, hconnectivity, hinit, hsparseInit⟩ kernel
    cases kernel with
    | update => exact hupdate
    | connectivity => exact hconnectivity
    | init => exact hinit
    | sparseInit => exact hsparseInit
  · exact fun h => ⟨h .update, h .connectivity, h .init, h .sparseInit⟩

theorem needs_blockSizes (hwarp : d.warpSize ≠ 0) (hblock : d.warpSize ≤ d.maxThreadsPerBlock)
    (hthreads : d.maxThreadsPerMultiprocessor < Nat.pow 2 32) (preferences : Preferences) :
    Checked.Needs (d.blockSizes preferences) (preferences.choice = .manual ∨
      ∀ kernel, (Resources.estimate kernel).registers * d.largestBlock < Nat.pow 2 32) := by
  rw [blockSizes]
  cases preferences.choice with
  | manual => exact .of_ok rfl (.inl rfl)
  | occupancy =>
      exact (needs_bestBlockSizes hwarp hblock hthreads _).congr (or_iff_right nofun).symm

theorem blockSizes_ne_zero {preferences : Preferences} {sizes : BlockSizes}
    (hwarp : d.warpSize ≠ 0) (hmanual : ∀ kernel, preferences.manual.get kernel ≠ 0)
    (h : d.blockSizes preferences = .ok sizes) (kernel : Kernel) : sizes.get kernel ≠ 0 := by
  rw [blockSizes] at h
  split at h
  · cases h
    exact hmanual kernel
  · exact bestBlockSize_ne_zero hwarp (bestBlockSizes_eq_ok h kernel)

end Device

/-! ### Accepted configurations -/

namespace Config

variable {config config' : Config} {area key value origin text : String}

/-- The numbers of a configuration are words, and block sizes that are given are positive. -/
structure InRange (config : Config) : Prop where
  threads : config.device.maxThreadsPerMultiprocessor < Nat.pow 2 32
  manual : ∀ kernel, config.preferences.manual.get kernel ≠ 0

theorem inRange_standard : standard.InRange where
  threads := by decide
  manual kernel := by cases kernel <;> decide

theorem number_eq_ok {width n : Nat} (h : number width key value = .ok n) : n < Nat.pow 2 width := by
  unfold number at h
  split at h
  · split at h
    · cases h
      assumption
    · cases h
  · cases h

theorem manual_assignPreference {p p' : Preferences} (h : assignPreference p key value = .ok p') :
    p'.manual = p.manual := by
  unfold assignPreference at h
  split at h
  · split at h
    all_goals
      cases h
      try rfl
  · split at h
    all_goals
      cases h
      try rfl
  · obtain ⟨n, -, hpure⟩ := bind_eq_ok.mp h
    cases hpure
    rfl
  · cases h

theorem assignBlockSize_ne_zero {sizes sizes' : BlockSizes} (hsizes : ∀ kernel, sizes.get kernel ≠ 0)
    (h : assignBlockSize sizes key value = .ok sizes') : ∀ kernel, sizes'.get kernel ≠ 0 := by
  intro kernel
  unfold assignBlockSize at h
  split at h
  · cases h
  · obtain ⟨size, -, h⟩ := bind_eq_ok.mp h
    split at h
    next => cases h
    next hsize =>
      cases h
      rw [BlockSizes.get_set]
      split
      · exact fun hzero => hsize (.inl hzero)
      · exact hsizes kernel

theorem assignDevice_threads {d d' : Device} (hd : d.maxThreadsPerMultiprocessor < Nat.pow 2 32)
    (h : assignDevice d key value = .ok d') : d'.maxThreadsPerMultiprocessor < Nat.pow 2 32 := by
  unfold assignDevice at h
  dsimp only at h
  split at h
  case h_1 =>
    cases h
    exact hd
  case h_4 =>
    obtain ⟨n, hn, hpure⟩ := bind_eq_ok.mp h
    cases hpure
    exact number_eq_ok hn
  case h_12 => cases h
  all_goals
    obtain ⟨n, -, hpure⟩ := bind_eq_ok.mp h
    cases hpure
    exact hd

theorem InRange.assign (h : config.InRange) (hassign : config.assign area key value = .ok config') :
    config'.InRange := by
  unfold Config.assign at hassign
  split at hassign
  · obtain ⟨preferences, hpreferences, hpure⟩ := bind_eq_ok.mp hassign
    cases hpure
    refine ⟨h.threads, ?_⟩
    rw [manual_assignPreference hpreferences]
    exact h.manual
  · obtain ⟨manual, hmanual, hpure⟩ := bind_eq_ok.mp hassign
    cases hpure
    exact ⟨h.threads, assignBlockSize_ne_zero h.manual hmanual⟩
  · obtain ⟨device, hdevice, hpure⟩ := bind_eq_ok.mp hassign
    cases hpure
    exact ⟨assignDevice_threads h.threads hdevice, h.manual⟩
  · cases hassign

theorem InRange.readLines {lines : List String} (h : config.InRange)
    (hread : config.readLines area lines = .ok config') : config'.InRange := by
  induction lines generalizing config area with
  | nil =>
      cases hread
      exact h
  | cons line rest ih =>
      obtain ⟨said, -, hread⟩ := bind_eq_ok.mp hread
      cases said with
      | nothing => exact ih h hread
      | area name => exact ih h hread
      | assignment key value =>
          obtain ⟨assigned, hassign, hread⟩ := bind_eq_ok.mp hread
          exact ih (h.assign hassign) hread

theorem checkDevice_eq_ok_iff : checkDevice config = .ok config' ↔
    config.device.warpSize ≠ 0 ∧ config.device.warpSize ≤ config.device.maxThreadsPerBlock ∧
      config = config' := by
  unfold checkDevice
  split
  next hwarp => simp [hwarp]
  next hwarp =>
    split
    next hblock => simp [Nat.not_le.mpr hblock]
    next hblock => simp [hwarp, Nat.not_lt.mp hblock]

theorem ofText_eq_ok (h : ofText origin text = .ok config) :
    config.InRange ∧ config.device.warpSize ≠ 0 ∧
      config.device.warpSize ≤ config.device.maxThreadsPerBlock := by
  rw [ofText, mapError_eq_ok] at h
  obtain ⟨read, hlines, hcheck⟩ := bind_eq_ok.mp h
  obtain ⟨hwarp, hblock, rfl⟩ := checkDevice_eq_ok_iff.mp hcheck
  exact ⟨inRange_standard.readLines hlines, hwarp, hblock⟩

end Config

/-- An accepted configuration has a back end if its block sizes are given, or if the registers of
the largest block that is tried are a word for each kernel. All block sizes of the back end are
positive. Where there is none, the search has ended with an overflow. -/
theorem accepted_config_backend {origin text : String} {config : Config}
    (h : Config.ofText origin text = .ok config) :
    ((∃ backend, Backend.ofConfig config = .ok backend) ↔
      config.preferences.choice = .manual ∨ ∀ kernel,
        (Resources.estimate kernel).registers * config.device.largestBlock < Nat.pow 2 32) ∧
    (∀ backend, Backend.ofConfig config = .ok backend →
      ∀ kernel, backend.blockSizes.get kernel ≠ 0) ∧
    ∀ fault, Backend.ofConfig config = .error fault → fault = .overflow := by
  obtain ⟨hrange, hwarp, hblock⟩ := Config.ofText_eq_ok h
  have hsizes := Device.needs_blockSizes hwarp hblock hrange.threads config.preferences
  have hbackend : Checked.Needs (Backend.ofConfig config) _ := hsizes.map
  refine ⟨hbackend.exists_ok_iff, fun backend hok => ?_, fun fault => hbackend.eq_overflow⟩
  obtain ⟨sizes, hfound, hpure⟩ := bind_eq_ok.mp hok
  cases hpure
  exact Device.blockSizes_ne_zero hwarp hrange.manual hfound

/-- A device that hardly bounds its blocks is accepted and has no back end. -/
example : ∃ config,
    Config.ofText "device.cfg" "[device]\nmax_threads_per_block = 4294967295" = .ok config ∧
      ¬∃ backend, Backend.ofConfig config = .ok backend := by
  obtain ⟨config, hconfig, hchoice, hlarge⟩ := exists_ok_of_decide
    (x := Config.ofText "device.cfg" "[device]\nmax_threads_per_block = 4294967295")
    (P := fun config => config.preferences.choice = .occupancy ∧
      Nat.pow 2 32 ≤ (Resources.estimate .update).registers * config.device.largestBlock)
    (by decide +kernel)
  refine ⟨config, hconfig, fun hok => ?_⟩
  rcases (accepted_config_backend hconfig).1.mp hok with hmanual | hsmall
  · rw [hchoice] at hmanual
    cases hmanual
  · exact absurd (hsmall .update) (Nat.not_lt.mpr hlarge)

end KernelWeaver
