import KernelWeaver.Device.Config
import KernelWeaver.Proofs.Outcome
import Mathlib.Data.List.Nodup

/-!
# Settings

The keys that a configuration knows, the values that each of them takes, and the texts that spell
these values. Assigning a key replaces its value and no other. A configuration is its values.
-/

namespace KernelWeaver

/-- The word for a way of choosing block sizes. -/
def BlockSizeChoice.word : BlockSizeChoice → String
  | occupancy => "occupancy"
  | manual => "manual"

theorem BlockSizeChoice.word_injective : Function.Injective word := by
  intro v w h
  cases v <;> cases w <;> first | rfl | exact absurd h (by decide)

/-- The word for a choice among equally good block sizes. -/
def TieBreak.word : TieBreak → String
  | smallest => "smallest"
  | largest => "largest"

theorem TieBreak.word_injective : Function.Injective word := by
  intro v w h
  cases v <;> cases w <;> first | rfl | exact absurd h (by decide)

namespace Config

/-- A number that describes a device. -/
inductive Property where
  | warpSize
  | maxThreadsPerBlock
  | maxThreadsPerMultiprocessor
  | maxBlocksPerMultiprocessor
  | registersPerMultiprocessor
  | sharedMemPerMultiprocessor
  | sharedMemPerBlock
  | totalConstMem
  | totalGlobalMem
  | multiprocessorCount
deriving DecidableEq, Repr

namespace Property

/-- All numbers that describe a device. -/
def all : List Property :=
  [warpSize, maxThreadsPerBlock, maxThreadsPerMultiprocessor, maxBlocksPerMultiprocessor,
    registersPerMultiprocessor, sharedMemPerMultiprocessor, sharedMemPerBlock, totalConstMem,
    totalGlobalMem, multiprocessorCount]

def name : Property → String
  | warpSize => "warp_size"
  | maxThreadsPerBlock => "max_threads_per_block"
  | maxThreadsPerMultiprocessor => "max_threads_per_multiprocessor"
  | maxBlocksPerMultiprocessor => "max_blocks_per_multiprocessor"
  | registersPerMultiprocessor => "registers_per_multiprocessor"
  | sharedMemPerMultiprocessor => "shared_mem_per_multiprocessor"
  | sharedMemPerBlock => "shared_mem_per_block"
  | totalConstMem => "total_const_mem"
  | totalGlobalMem => "total_global_mem"
  | multiprocessorCount => "multiprocessor_count"

/-- The bits of the word that holds the number. -/
def width : Property → Nat
  | totalConstMem | totalGlobalMem => 64
  | _ => 32

def get (d : Device) : Property → Nat
  | warpSize => d.warpSize
  | maxThreadsPerBlock => d.maxThreadsPerBlock
  | maxThreadsPerMultiprocessor => d.maxThreadsPerMultiprocessor
  | maxBlocksPerMultiprocessor => d.maxBlocksPerMultiprocessor
  | registersPerMultiprocessor => d.registersPerMultiprocessor
  | sharedMemPerMultiprocessor => d.sharedMemPerMultiprocessor
  | sharedMemPerBlock => d.sharedMemPerBlock
  | totalConstMem => d.totalConstMem
  | totalGlobalMem => d.totalGlobalMem
  | multiprocessorCount => d.multiprocessorCount

def set (d : Device) (p : Property) (n : Nat) : Device :=
  match p with
  | warpSize => { d with warpSize := n }
  | maxThreadsPerBlock => { d with maxThreadsPerBlock := n }
  | maxThreadsPerMultiprocessor => { d with maxThreadsPerMultiprocessor := n }
  | maxBlocksPerMultiprocessor => { d with maxBlocksPerMultiprocessor := n }
  | registersPerMultiprocessor => { d with registersPerMultiprocessor := n }
  | sharedMemPerMultiprocessor => { d with sharedMemPerMultiprocessor := n }
  | sharedMemPerBlock => { d with sharedMemPerBlock := n }
  | totalConstMem => { d with totalConstMem := n }
  | totalGlobalMem => { d with totalGlobalMem := n }
  | multiprocessorCount => { d with multiprocessorCount := n }

theorem get_set (d : Device) (p q : Property) (n : Nat) :
    q.get (p.set d n) = if q = p then n else q.get d := by
  cases p <;> cases q <;> rfl

@[simp] theorem name_set (d : Device) (p : Property) (n : Nat) : (p.set d n).name = d.name := by
  cases p <;> rfl

@[simp] theorem get_name (d : Device) (name : String) (p : Property) :
    p.get { d with name } = p.get d := by
  cases p <;> rfl

end Property

/-- What a configuration can assign. -/
inductive Key where
  | choice
  | tieBreak
  | constantOverhead
  | blockSize (kernel : Kernel)
  | deviceName
  | property (p : Property)
deriving DecidableEq, Repr

namespace Key

/-- The area under whose heading the key is known. -/
def area : Key → String
  | choice | tieBreak | constantOverhead => "backend"
  | blockSize _ => "block_sizes"
  | deviceName | property _ => "device"

def name : Key → String
  | choice => "block_size_select"
  | tieBreak => "tie_break"
  | constantOverhead => "constant_cache_overhead"
  | blockSize kernel => kernel.name
  | deviceName => "name"
  | property p => p.name

/-- All keys. -/
def all : List Key :=
  [choice, tieBreak, constantOverhead] ++ Kernel.all.map blockSize ++
    deviceName :: Property.all.map property

theorem mem_all (key : Key) : key ∈ all := by
  cases key with
  | blockSize kernel => cases kernel <;> decide
  | property p => cases p <;> decide
  | _ => decide

/-- A key is known by its area and its name. -/
theorem eq_of_area_of_name {key other : Key} (harea : key.area = other.area)
    (hname : key.name = other.name) : key = other := by
  have hnodup : (all.map fun key => (key.area, key.name)).Nodup := by decide +kernel
  exact List.inj_on_of_nodup_map hnodup (mem_all key) (mem_all other)
    (Prod.ext harea hname)

/-- What the key holds. -/
@[reducible] def Value : Key → Type
  | choice => BlockSizeChoice
  | tieBreak => TieBreak
  | deviceName => String
  | constantOverhead | blockSize _ | property _ => Nat

end Key

/-- The value of a key. -/
def get (config : Config) : (key : Key) → key.Value
  | .choice => config.preferences.choice
  | .tieBreak => config.preferences.tieBreak
  | .constantOverhead => config.preferences.constantOverhead
  | .blockSize kernel => config.preferences.manual.get kernel
  | .deviceName => config.device.name
  | .property p => p.get config.device

/-- The configuration with the value of one key replaced. -/
def set (config : Config) : (key : Key) → key.Value → Config
  | .choice, choice => { config with preferences := { config.preferences with choice } }
  | .tieBreak, tieBreak => { config with preferences := { config.preferences with tieBreak } }
  | .constantOverhead, n =>
    { config with preferences := { config.preferences with constantOverhead := n } }
  | .blockSize kernel, n =>
    { config with
      preferences := { config.preferences with manual := config.preferences.manual.set kernel n } }
  | .deviceName, name => { config with device := { config.device with name } }
  | .property p, n => { config with device := p.set config.device n }

variable {config config' : Config} {key other : Key}

@[simp] theorem get_set_self (config : Config) (key : Key) (v : key.Value) :
    (config.set key v).get key = v := by
  cases key with
  | blockSize kernel => exact (BlockSizes.get_set _ kernel kernel v).trans (if_pos rfl)
  | property p => exact (Property.get_set _ p p v).trans (if_pos rfl)
  | _ => rfl

theorem get_set_of_ne (config : Config) (v : key.Value) (h : other ≠ key) :
    (config.set key v).get other = config.get other := by
  cases key with
  | blockSize kernel =>
      cases other with
      | blockSize j =>
          exact (BlockSizes.get_set _ kernel j v).trans (if_neg fun heq => h (congrArg _ heq))
      | _ => rfl
  | property p =>
      cases other with
      | property q =>
          exact (Property.get_set _ p q v).trans (if_neg fun heq => h (congrArg _ heq))
      | deviceName => exact Property.name_set _ p v
      | _ => rfl
  | deviceName =>
      cases other with
      | deviceName => exact absurd rfl h
      | property q => exact Property.get_name _ v q
      | _ => rfl
  | _ =>
      cases other with
      | _ => first | rfl | exact absurd rfl h

/-- A configuration is its values. -/
theorem ext_get (h : ∀ key, config.get key = config'.get key) : config = config' := by
  obtain ⟨⟨choice, ⟨update, connectivity, init, sparseInit⟩, tieBreak, overhead⟩,
    ⟨name, _, _, _, _, _, _, _, _, _, _⟩⟩ := config
  obtain ⟨⟨choice', ⟨update', connectivity', init', sparseInit'⟩, tieBreak', overhead'⟩,
    ⟨name', _, _, _, _, _, _, _, _, _, _⟩⟩ := config'
  obtain rfl : choice = choice' := h .choice
  obtain rfl : tieBreak = tieBreak' := h .tieBreak
  obtain rfl : overhead = overhead' := h .constantOverhead
  obtain rfl : update = update' := h (.blockSize .update)
  obtain rfl : connectivity = connectivity' := h (.blockSize .connectivity)
  obtain rfl : init = init' := h (.blockSize .init)
  obtain rfl : sparseInit = sparseInit' := h (.blockSize .sparseInit)
  obtain rfl : name = name' := h .deviceName
  have hdevice (p : Property) := h (.property p)
  congr 1
  exact Device.mk.injEq .. ▸ ⟨rfl, hdevice .warpSize, hdevice .maxThreadsPerBlock,
    hdevice .maxThreadsPerMultiprocessor, hdevice .maxBlocksPerMultiprocessor,
    hdevice .registersPerMultiprocessor, hdevice .sharedMemPerMultiprocessor,
    hdevice .sharedMemPerBlock, hdevice .totalConstMem, hdevice .totalGlobalMem,
    hdevice .multiprocessorCount⟩

theorem set_comm (config : Config) (v : key.Value) (w : other.Value) (h : key ≠ other) :
    (config.set key v).set other w = (config.set other w).set key v := by
  refine ext_get fun k => ?_
  by_cases hother : k = other
  · subst hother
    rw [get_set_self, get_set_of_ne _ _ h.symm, get_set_self]
  · rw [get_set_of_ne _ _ hother]
    by_cases hkey : k = key
    · subst hkey
      rw [get_set_self, get_set_self]
    · rw [get_set_of_ne _ _ hkey, get_set_of_ne _ _ hkey, get_set_of_ne _ _ hother]

/-! ### Values in a text -/

/-- The text spells a number below `2 ^ width`. Without its underscores it is a string of digits,
with or without a plus sign in front. -/
def Spells (width : Nat) (text : String) (n : Nat) : Prop :=
  ∃ sign digits : List Char, text.toList.filter (· ≠ '_') = sign ++ digits ∧
    (sign = [] ∨ sign = ['+']) ∧ digits ≠ [] ∧ (∀ c ∈ digits, c.isDigit) ∧
    n = Nat.ofDigitChars 10 digits 0 ∧ n < Nat.pow 2 width

/-- The text spells a value for the key. -/
def Key.Takes : (key : Key) → String → key.Value → Prop
  | choice, text, v => Text.unquote text = v.word
  | tieBreak, text, v => Text.unquote text = v.word
  | constantOverhead, text, n => Spells 64 text n
  | blockSize _, text, n => Spells 32 text n ∧ n ≠ 0 ∧ 32 ∣ n
  | deviceName, text, v => Text.unquote text = v
  | property p, text, n => Spells p.width text n

theorem digits?_append {sign digits : List Char} (hsign : sign = [] ∨ sign = ['+'])
    (hne : digits ≠ []) (hall : ∀ c ∈ digits, c.isDigit) :
    digits? (sign ++ digits) = some (Nat.ofDigitChars 10 digits 0) := by
  have hread : (if (sign ++ digits).head? = some '+' then (sign ++ digits).tail
      else sign ++ digits) = digits := by
    rcases hsign with rfl | rfl
    · refine if_neg fun hplus => ?_
      obtain ⟨rest, rfl⟩ := List.head?_eq_some_iff.mp hplus
      exact absurd (hall '+' List.mem_cons_self) (by decide)
    · rfl
  rw [digits?, hread, if_neg]
  simpa [hne] using hall

theorem digits?_eq_some_iff {cs : List Char} {n : Nat} : digits? cs = some n ↔
    ∃ sign digits : List Char, cs = sign ++ digits ∧ (sign = [] ∨ sign = ['+']) ∧ digits ≠ [] ∧
      (∀ c ∈ digits, c.isDigit) ∧ n = Nat.ofDigitChars 10 digits 0 := by
  constructor
  · intro h
    rw [digits?] at h
    obtain ⟨sign, hsign, hcs⟩ : ∃ sign, (sign = [] ∨ sign = ['+']) ∧
        cs = sign ++ if cs.head? = some '+' then cs.tail else cs := by
      split
      next hplus =>
        obtain ⟨rest, rfl⟩ := List.head?_eq_some_iff.mp hplus
        exact ⟨['+'], .inr rfl, rfl⟩
      next => exact ⟨[], .inl rfl, rfl⟩
    generalize (if cs.head? = some '+' then cs.tail else cs) = digits at h hcs
    split at h
    next => cases h
    next hdigits =>
      simp only [Bool.or_eq_true, List.isEmpty_iff, Bool.not_eq_true', not_or,
        Bool.not_eq_false, List.all_eq_true] at hdigits
      exact ⟨sign, digits, hcs, hsign, hdigits.1, hdigits.2, (Option.some.inj h).symm⟩
  · rintro ⟨sign, digits, rfl, hsign, hne, hall, rfl⟩
    exact digits?_append hsign hne hall

theorem number_eq_ok_iff {width n : Nat} {name text : String} :
    number width name text = .ok n ↔ Spells width text n := by
  have hspells : Spells width text n ↔
      digits? (text.toList.filter (· ≠ '_')) = some n ∧ n < Nat.pow 2 width := by
    simp only [Spells, digits?_eq_some_iff, ← exists_and_right, and_assoc]
  rw [hspells, number]
  cases digits? (text.toList.filter (· ≠ '_')) with
  | none => simp
  | some m =>
      dsimp only
      split
      next hlt =>
        rw [Except.ok.injEq, Option.some.injEq]
        exact ⟨fun h => ⟨h, h ▸ hlt⟩, And.left⟩
      next hge =>
        refine iff_of_false nofun fun ⟨h, hlt⟩ => hge ?_
        rwa [Option.some.inj h]

/-- A text spells at most one value for a key. -/
theorem Key.Takes.unique {text : String} {v w : key.Value} (hv : key.Takes text v)
    (hw : key.Takes text w) : v = w := by
  have hnumber {width m n : Nat} (hm : Spells width text m) (hn : Spells width text n) : m = n :=
    Except.ok.inj ((@number_eq_ok_iff width m "" text |>.mpr hm).symm.trans
      (number_eq_ok_iff.mpr hn))
  cases key with
  | choice => exact BlockSizeChoice.word_injective (hv.symm.trans hw)
  | tieBreak => exact TieBreak.word_injective (hv.symm.trans hw)
  | constantOverhead => exact hnumber hv hw
  | blockSize kernel => exact hnumber hv.1 hw.1
  | deviceName => exact hv.symm.trans hw
  | property p => exact hnumber hv hw

/-! ### Assignments -/

theorem assignPreference_eq_ok_iff {p p' : Preferences} {name text : String} :
    assignPreference p name text = .ok p' ↔
      (name = "block_size_select" ∧
        ∃ choice, Text.unquote text = choice.word ∧ p' = { p with choice }) ∨
      (name = "tie_break" ∧
        ∃ tieBreak, Text.unquote text = tieBreak.word ∧ p' = { p with tieBreak }) ∨
      (name = "constant_cache_overhead" ∧
        ∃ n, Spells 64 text n ∧ p' = { p with constantOverhead := n }) := by
  constructor
  · intro h
    unfold assignPreference at h
    split at h
    · split at h
      next hword =>
        cases h
        exact .inl ⟨rfl, .occupancy, hword, rfl⟩
      next hword =>
        cases h
        exact .inl ⟨rfl, .manual, hword, rfl⟩
      next => cases h
    · split at h
      next hword =>
        cases h
        exact .inr (.inl ⟨rfl, .smallest, hword, rfl⟩)
      next hword =>
        cases h
        exact .inr (.inl ⟨rfl, .largest, hword, rfl⟩)
      next => cases h
    · obtain ⟨n, hn, hpure⟩ := bind_eq_ok.mp h
      cases hpure
      exact .inr (.inr ⟨rfl, n, number_eq_ok_iff.mp hn, rfl⟩)
    · cases h
  · rintro (⟨rfl, choice, hword, rfl⟩ | ⟨rfl, tieBreak, hword, rfl⟩ | ⟨rfl, n, hn, rfl⟩)
    · rw [assignPreference, hword]
      cases choice <;> rfl
    · rw [assignPreference, hword]
      cases tieBreak <;> rfl
    · exact bind_eq_ok.mpr ⟨n, number_eq_ok_iff.mpr hn, rfl⟩

theorem assignBlockSize_eq_ok_iff {sizes sizes' : BlockSizes} {name text : String} :
    assignBlockSize sizes name text = .ok sizes' ↔
      ∃ kernel n, kernel.name = name ∧ (Spells 32 text n ∧ n ≠ 0 ∧ 32 ∣ n) ∧
        sizes' = sizes.set kernel n := by
  constructor
  · intro h
    unfold assignBlockSize at h
    split at h
    next => cases h
    next kernel hkernel =>
      obtain ⟨n, hn, h⟩ := bind_eq_ok.mp h
      split at h
      next => cases h
      next hsize =>
        cases h
        rw [not_or, Decidable.not_not] at hsize
        have hname : kernel.name = name := by simpa using List.find?_some hkernel
        have hdvd := Nat.dvd_of_mod_eq_zero hsize.2
        exact ⟨kernel, n, hname, ⟨number_eq_ok_iff.mp hn, hsize.1, hdvd⟩, rfl⟩
  · rintro ⟨kernel, n, rfl, ⟨hn, hzero, hdvd⟩, rfl⟩
    rw [assignBlockSize, Kernel.ofName?_name]
    refine bind_eq_ok.mpr ⟨n, number_eq_ok_iff.mpr hn, if_neg ?_⟩
    rw [not_or, Decidable.not_not]
    exact ⟨hzero, Nat.mod_eq_zero_of_dvd hdvd⟩

theorem assignDevice_property (d : Device) (p : Property) (text : String) :
    assignDevice d p.name text =
      (number p.width ("device." ++ p.name) text).map (p.set d) := by
  cases p <;> rfl

theorem assignDevice_eq_ok_iff {d d' : Device} {name text : String} :
    assignDevice d name text = .ok d' ↔
      (name = "name" ∧ d' = { d with name := Text.unquote text }) ∨
      ∃ p n, Property.name p = name ∧ Spells p.width text n ∧ d' = p.set d n := by
  constructor
  · intro h
    by_cases hname : ∃ p ∈ Property.all, p.name = name
    · obtain ⟨p, -, rfl⟩ := hname
      rw [assignDevice_property, map_eq_ok] at h
      obtain ⟨n, hn, rfl⟩ := h
      exact .inr ⟨p, n, rfl, number_eq_ok_iff.mp hn, rfl⟩
    · unfold assignDevice at h
      dsimp only at h
      split at h
      case h_1 =>
        cases h
        exact .inl ⟨rfl, rfl⟩
      case h_12 => cases h
      all_goals exact absurd (by decide +kernel) hname
  · rintro (⟨rfl, rfl⟩ | ⟨p, n, rfl, hn, rfl⟩)
    · rfl
    · rw [assignDevice_property, number_eq_ok_iff.mpr hn]
      rfl

/-- An assignment is accepted if the area knows the key and the text spells a value for it. The
key then has that value. -/
theorem assign_eq_ok_iff {area name text : String} :
    config.assign area name text = .ok config' ↔
      ∃ (key : Key) (v : key.Value), key.area = area ∧ key.name = name ∧ key.Takes text v ∧
        config' = config.set key v := by
  constructor
  · intro h
    unfold assign at h
    split at h
    · obtain ⟨preferences, hp, hpure⟩ := bind_eq_ok.mp h
      cases hpure
      rcases assignPreference_eq_ok_iff.mp hp with
        ⟨rfl, choice, hv, rfl⟩ | ⟨rfl, tieBreak, hv, rfl⟩ | ⟨rfl, n, hn, rfl⟩
      · exact ⟨.choice, choice, rfl, rfl, hv, rfl⟩
      · exact ⟨.tieBreak, tieBreak, rfl, rfl, hv, rfl⟩
      · exact ⟨.constantOverhead, n, rfl, rfl, hn, rfl⟩
    · obtain ⟨manual, hmanual, hpure⟩ := bind_eq_ok.mp h
      cases hpure
      obtain ⟨kernel, n, rfl, hn, rfl⟩ := assignBlockSize_eq_ok_iff.mp hmanual
      exact ⟨.blockSize kernel, n, rfl, rfl, hn, rfl⟩
    · obtain ⟨device, hdevice, hpure⟩ := bind_eq_ok.mp h
      cases hpure
      rcases assignDevice_eq_ok_iff.mp hdevice with ⟨rfl, rfl⟩ | ⟨p, n, rfl, hn, rfl⟩
      · exact ⟨.deviceName, Text.unquote text, rfl, rfl, rfl, rfl⟩
      · exact ⟨.property p, n, rfl, rfl, hn, rfl⟩
    · cases h
  · rintro ⟨key, v, rfl, rfl, hv, rfl⟩
    -- each area gives its part of the configuration back with the value in it
    cases key with
    | choice =>
        refine bind_eq_ok.mpr ⟨{ config.preferences with choice := v }, ?_, rfl⟩
        exact assignPreference_eq_ok_iff.mpr (.inl ⟨rfl, v, hv, rfl⟩)
    | tieBreak =>
        refine bind_eq_ok.mpr ⟨{ config.preferences with tieBreak := v }, ?_, rfl⟩
        exact assignPreference_eq_ok_iff.mpr (.inr (.inl ⟨rfl, v, hv, rfl⟩))
    | constantOverhead =>
        refine bind_eq_ok.mpr ⟨{ config.preferences with constantOverhead := v }, ?_, rfl⟩
        exact assignPreference_eq_ok_iff.mpr (.inr (.inr ⟨rfl, v, hv, rfl⟩))
    | blockSize kernel =>
        refine bind_eq_ok.mpr ⟨config.preferences.manual.set kernel v, ?_, rfl⟩
        exact assignBlockSize_eq_ok_iff.mpr ⟨kernel, v, rfl, hv, rfl⟩
    | deviceName =>
        cases hv
        refine bind_eq_ok.mpr ⟨{ config.device with name := Text.unquote text }, ?_, rfl⟩
        exact assignDevice_eq_ok_iff.mpr (.inl ⟨rfl, rfl⟩)
    | property p =>
        refine bind_eq_ok.mpr ⟨p.set config.device v, ?_, rfl⟩
        exact assignDevice_eq_ok_iff.mpr (.inr ⟨p, v, rfl, hv, rfl⟩)

end Config

end KernelWeaver
