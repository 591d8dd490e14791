import KernelWeaver.Proofs.Lanes.Layout

/-!
# Batches among lanes

A batched update has lanes for every batch, and a lane finds its batch and its element by formulas
of 32-bit words. No formula wraps around for these lanes. The lanes whose elements exist are one to
one with the elements of all batches, and with the indices of the array that holds the elements
batch by batch. The initial values are stored at the same indices.
-/

namespace KernelWeaver

/-- The 32-bit words that names stand for. -/
abbrev Words := String → Option (BitVec 32)

/-- The words with one more name. -/
def Words.declare (ws : Words) (name : String) (value : BitVec 32) : Words :=
  fun other => if other = name then some value else ws other

/-- A formula for an unsigned word, as the code of a kernel has it. -/
inductive Formula where
  | number (n : Nat)
  | name (text : String)
  | add (a b : Formula)
  | sub (a b : Formula)
  | mul (a b : Formula)
  | div (a b : Formula)
  | mod (a b : Formula)
  /-- A formula between parentheses. -/
  | group (a : Formula)

namespace Formula

def text : Formula → String
  | number n => toString n
  | name text => text
  | add a b => a.text ++ " + " ++ b.text
  | sub a b => a.text ++ " - " ++ b.text
  | mul a b => a.text ++ " * " ++ b.text
  | div a b => a.text ++ " / " ++ b.text
  | mod a b => a.text ++ " % " ++ b.text
  | group a => "(" ++ a.text ++ ")"

/-- The word that the formula comes to. Sums, differences and products wrap around; there is no
value for unknown names and divisions by zero. -/
def value? (ws : Words) : Formula → Option (BitVec 32)
  | number n => some (BitVec.ofNat 32 n)
  | name text => ws text
  | add a b => do return (← a.value? ws) + (← b.value? ws)
  | sub a b => do return (← a.value? ws) - (← b.value? ws)
  | mul a b => do return (← a.value? ws) * (← b.value? ws)
  | div a b => do
    let divisor ← b.value? ws
    if divisor = 0 then none else return (← a.value? ws) / divisor
  | mod a b => do
    let divisor ← b.value? ws
    if divisor = 0 then none else return (← a.value? ws) % divisor
  | group a => a.value? ws

/-- The formula comes to a number. -/
def Is (ws : Words) (f : Formula) (n : Nat) : Prop := (f.value? ws).map BitVec.toNat = some n

end Formula

/-- A test of two words as the condition of a branch. -/
structure WordTest where
  left : Formula
  right : Formula

namespace WordTest

def text (t : WordTest) : String := "if(" ++ t.left.text ++ " < " ++ t.right.text ++ ")"

def holds? (ws : Words) (t : WordTest) : Option Bool := do
  return (← t.left.value? ws) < (← t.right.value? ws)

end WordTest

/-- A declaration of a word that does not change. -/
structure WordDeclaration where
  name : String
  value : Formula

namespace WordDeclaration

def text (d : WordDeclaration) : String :=
  "const unsigned int " ++ d.name ++ " = " ++ d.value.text ++ ";"

def run? (ws : Words) (d : WordDeclaration) : Option Words := do
  return ws.declare d.name (← d.value.value? ws)

/-- Carries out declarations one after another. -/
def runAll? (ws : Words) (ds : List WordDeclaration) : Option Words := ds.foldlM run? ws

end WordDeclaration

/-! ### Formulas that do not wrap around -/

namespace Formula

variable {ws : Words} {a b : Formula} {v w : BitVec 32} {n : Nat}

theorem is_iff : a.Is ws n ↔ ∃ w, a.value? ws = some w ∧ w.toNat = n := Option.map_eq_some_iff

/-- What sums, differences and products have in common. -/
theorem bind_words (op : BitVec 32 → BitVec 32 → BitVec 32) (ha : a.value? ws = some v)
    (hb : b.value? ws = some w) :
    ((a.value? ws).bind fun v => (b.value? ws).bind fun w => some (op v w)) = some (op v w) := by
  rw [ha, hb]
  rfl

/-- What quotients and remainders have in common. -/
theorem bind_divisor (op : BitVec 32 → BitVec 32 → BitVec 32) (ha : a.value? ws = some v)
    (hb : b.value? ws = some w) (hne : w ≠ 0) :
    ((b.value? ws).bind fun w =>
      if w = 0 then none else (a.value? ws).bind fun v => some (op v w)) = some (op v w) := by
  rw [ha, hb, Option.bind_some, if_neg hne]
  rfl

end Formula

namespace Formula.Is

variable {ws : Words} {a b : Formula} {m n : Nat}

theorem exists_value? (h : Is ws a n) : ∃ w, a.value? ws = some w ∧ w.toNat = n := is_iff.mp h

theorem lt (h : Is ws a n) : n < 2 ^ 32 := by
  obtain ⟨w, -, rfl⟩ := h.exists_value?
  exact w.isLt

theorem number (h : n < 2 ^ 32) : Is ws (.number n) n :=
  is_iff.mpr ⟨_, rfl, Nat.mod_eq_of_lt h⟩

theorem add (ha : Is ws a m) (hb : Is ws b n) (h : m + n < 2 ^ 32) : Is ws (.add a b) (m + n) := by
  obtain ⟨v, hv, rfl⟩ := ha.exists_value?
  obtain ⟨w, hw, rfl⟩ := hb.exists_value?
  exact is_iff.mpr ⟨v + w, bind_words (· + ·) hv hw, BitVec.toNat_add_of_lt h⟩

theorem sub (ha : Is ws a m) (hb : Is ws b n) (h : n ≤ m) : Is ws (.sub a b) (m - n) := by
  obtain ⟨v, hv, rfl⟩ := ha.exists_value?
  obtain ⟨w, hw, rfl⟩ := hb.exists_value?
  exact is_iff.mpr ⟨v - w, bind_words (· - ·) hv hw, BitVec.toNat_sub_of_le (BitVec.le_def.mpr h)⟩

theorem mul (ha : Is ws a m) (hb : Is ws b n) (h : m * n < 2 ^ 32) : Is ws (.mul a b) (m * n) := by
  obtain ⟨v, hv, rfl⟩ := ha.exists_value?
  obtain ⟨w, hw, rfl⟩ := hb.exists_value?
  exact is_iff.mpr ⟨v * w, bind_words (· * ·) hv hw, BitVec.toNat_mul_of_lt h⟩

theorem div (ha : Is ws a m) (hb : Is ws b n) (h : n ≠ 0) : Is ws (.div a b) (m / n) := by
  obtain ⟨v, hv, rfl⟩ := ha.exists_value?
  obtain ⟨w, hw, rfl⟩ := hb.exists_value?
  have hne : w ≠ 0#32 := fun hzero => h (by rw [hzero]; rfl)
  exact is_iff.mpr ⟨v / w, bind_divisor (· / ·) hv hw hne, BitVec.toNat_udiv⟩

theorem mod (ha : Is ws a m) (hb : Is ws b n) (h : n ≠ 0) : Is ws (.mod a b) (m % n) := by
  obtain ⟨v, hv, rfl⟩ := ha.exists_value?
  obtain ⟨w, hw, rfl⟩ := hb.exists_value?
  have hne : w ≠ 0#32 := fun hzero => h (by rw [hzero]; rfl)
  exact is_iff.mpr ⟨v % w, bind_divisor (· % ·) hv hw hne, BitVec.toNat_umod⟩

theorem group (ha : Is ws a n) : Is ws (.group a) n := ha

theorem value?_eq (h : Is ws a n) : a.value? ws = some (BitVec.ofNat 32 n) := by
  obtain ⟨w, hw, rfl⟩ := h.exists_value?
  rw [hw, BitVec.ofNat_toNat, BitVec.setWidth_eq]

theorem declared (text : String) (h : n < 2 ^ 32) :
    Is (ws.declare text (BitVec.ofNat 32 n)) (.name text) n :=
  is_iff.mpr ⟨_, if_pos rfl, Nat.mod_eq_of_lt h⟩

theorem of_declared {text other : String} {w : BitVec 32} (h : Is ws (.name text) n)
    (hne : text ≠ other) : Is (ws.declare other w) (.name text) n := by
  obtain ⟨v, hv, hn⟩ := h.exists_value?
  exact is_iff.mpr ⟨v, (if_neg hne).trans hv, hn⟩

end Formula.Is

/-- A declared name comes to the number that its formula comes to, and no other name changes. -/
theorem Formula.Is.declare {ws : Words} {a : Formula} {n : Nat} (h : a.Is ws n) (text : String) :
    ∃ ws', WordDeclaration.run? ws ⟨text, a⟩ = some ws' ∧ (Formula.name text).Is ws' n ∧
      ∀ other m, other ≠ text → (Formula.name other).Is ws m → (Formula.name other).Is ws' m := by
  refine ⟨ws.declare text (.ofNat 32 n), ?_, .declared text h.lt, ?_⟩
  · rw [WordDeclaration.run?, h.value?_eq]
    rfl
  · exact fun other m hne hother => hother.of_declared hne

theorem WordTest.holds?_eq {ws : Words} {t : WordTest} {m n : Nat} (hl : t.left.Is ws m)
    (hr : t.right.Is ws n) : t.holds? ws = some (decide (m < n)) := by
  obtain ⟨v, hv, rfl⟩ := hl.exists_value?
  obtain ⟨w, hw, rfl⟩ := hr.exists_value?
  rw [holds?, hv, hw]
  rfl

/-! ### The lanes of a batched update -/

/-- An element of a batch, and where it lies in an array. -/
structure BatchElement where
  batch : Nat
  element : Nat
  index : Nat
deriving DecidableEq, Repr

namespace Batches

/-- The number of elements, in the struct of a member. -/
def size : Formula := .name "group->size"

/-- The elements of a batch with those that fill up its last block. -/
def paddedSize (blockSize : Nat) : Formula :=
  .mul (.number blockSize)
    (.group (.div (.group (.sub (.add size (.number blockSize)) (.number 1))) (.number blockSize)))

/-- What a lane declares. -/
def declarations (blockSize : Nat) : List WordDeclaration :=
  [⟨"paddedSize", paddedSize blockSize⟩, ⟨"bid", .mod (.name "lid") (.name "paddedSize")⟩,
    ⟨"batch", .div (.name "lid") (.name "paddedSize")⟩,
    ⟨"batchOffset", .mul size (.name "batch")⟩]

/-- The test whether the element of a lane exists. -/
def guard : WordTest := ⟨.name "bid", size⟩

/-- Where the element of a lane lies in an array that holds the elements batch by batch. -/
def index : Formula := .add (.name "batchOffset") (.name "bid")

/-- Where the first value of an element is stored for the batch `b`. -/
def storeIndex : Formula := .add (.group (.mul (.name "b") size)) (.name "lid")

/-- The test whether the element of a lane exists where each lane has an element of its own. -/
def storeGuard : WordTest := ⟨.name "lid", size⟩

/-- The words that a lane finds. -/
def laneWords (size lane : Nat) : Words :=
  Words.declare (Words.declare (fun _ => none) "group->size" (.ofNat 32 size)) "lid"
    (.ofNat 32 lane)

/-- What a lane works on, if its element exists. There is no result if the code of the lane has no
meaning. -/
def work? (blockSize size lane : Nat) : Option (Option BatchElement) := do
  let ws ← WordDeclaration.runAll? (laneWords size lane) (declarations blockSize)
  if ← guard.holds? ws then
    return some ⟨(← ws "batch").toNat, (← ws "bid").toNat, (← index.value? ws).toNat⟩
  else return none

/-- What a lane that stores first values stores in the round `b` of its loop over the batches. -/
def store? (size lane b : Nat) : Option (Option BatchElement) := do
  let ws := (laneWords size lane).declare "b" (.ofNat 32 b)
  if ← storeGuard.holds? ws then return some ⟨b, lane, (← storeIndex.value? ws).toNat⟩
  else return none

/-- The lanes whose elements exist, with what they work on. -/
def workingLanes (blockSize size lanes : Nat) : Set (Nat × BatchElement) :=
  {p | p.1 < lanes ∧ work? blockSize size p.1 = some (some p.2)}

/-- The lanes that store first values, with the rounds of their loops and what is stored. -/
def storingRounds (size count lanes : Nat) : Set ((Nat × Nat) × BatchElement) :=
  {p | p.1.1 < lanes ∧ p.1.2 < count ∧ store? size p.1.1 p.1.2 = some (some p.2)}

/-- The number of lanes of a batch is a word, as is that of all batches. -/
structure Fits (blockSize size count : Nat) : Prop where
  block_pos : 0 < blockSize
  block_lt : blockSize < 2 ^ 32
  one_lt : 1 < count
  lanes_lt : roundUp blockSize size * count < 2 ^ 32

variable {blockSize size count lane : Nat} {ws : Words}

/-- Two batches leave half of all words to each of them. -/
theorem Fits.add_lt (h : Fits blockSize size count) : size + blockSize < 2 ^ 32 := by
  obtain ⟨hle, blocks, hblocks⟩ := (isLeast_roundUp h.block_pos size).1
  have hhalf : roundUp blockSize size * 2 ≤ roundUp blockSize size * count :=
    Nat.mul_le_mul_left _ h.one_lt
  have hlanes := h.lanes_lt
  have hblock := h.block_lt
  rcases Nat.eq_zero_or_pos blocks with rfl | hpos
  · rw [hblocks] at hle
    omega
  · have hwhole : blockSize ≤ roundUp blockSize size :=
      hblocks ▸ Nat.le_mul_of_pos_right blockSize hpos
    omega

theorem Fits.roundUp_lt (h : Fits blockSize size count) : roundUp blockSize size < 2 ^ 32 := by
  have hle : roundUp blockSize size * 1 ≤ roundUp blockSize size * count :=
    Nat.mul_le_mul_left _ (Nat.le_of_lt h.one_lt)
  have hlanes := h.lanes_lt
  omega

/-- The padded size in the code of a kernel is the one that lanes are laid out by. -/
theorem Fits.paddedSize_is (h : Fits blockSize size count)
    (hsize : Batches.size.Is ws size) :
    (paddedSize blockSize).Is ws (roundUp blockSize size) := by
  have hsum := h.add_lt
  have hpos := h.block_pos
  have hpadded := h.roundUp_lt
  rw [roundUp, Nat.mul_comm] at hpadded ⊢
  have hblock := @Formula.Is.number ws blockSize h.block_lt
  refine .mul hblock (.group (.div (.group (.sub (.add hsize hblock hsum) ?_ ?_)) hblock ?_))
    hpadded
  · exact .number (by decide)
  · omega
  · omega

theorem size_is_laneWords (hsize : size < 2 ^ 32) (lane : Nat) :
    Batches.size.Is (laneWords size lane) size :=
  (Formula.Is.declared "group->size" hsize).of_declared (by decide)

theorem lid_is_laneWords (size : Nat) (hlane : lane < 2 ^ 32) :
    (Formula.name "lid").Is (laneWords size lane) lane :=
  .declared "lid" hlane

/-- The words behind the declarations of a lane. -/
theorem Fits.exists_declared (h : Fits blockSize size count)
    (hlane : lane < roundUp blockSize size * count) :
    ∃ ws, WordDeclaration.runAll? (laneWords size lane) (declarations blockSize) = some ws ∧
      Batches.size.Is ws size ∧
      (Formula.name "bid").Is ws (lane % roundUp blockSize size) ∧
      (Formula.name "batch").Is ws (lane / roundUp blockSize size) ∧
      (Formula.name "batchOffset").Is ws (size * (lane / roundUp blockSize size)) := by
  have hsize : size < 2 ^ 32 := Nat.lt_of_le_of_lt (Nat.le_add_right _ _) h.add_lt
  have hword : lane < 2 ^ 32 := Nat.lt_trans hlane h.lanes_lt
  have hpadded := h.paddedSize_is (size_is_laneWords hsize lane)
  have hle : size ≤ roundUp blockSize size := (isLeast_roundUp h.block_pos size).1.1
  generalize roundUp blockSize size = padded at *
  have hpos : padded ≠ 0 := fun hzero => by simp [hzero] at hlane
  have hoffset : size * (lane / padded) < 2 ^ 32 := Nat.lt_of_le_of_lt
    (Nat.le_trans (Nat.mul_le_mul_right _ hle) (Nat.mul_div_le lane padded)) hword
  obtain ⟨ws₁, hrun₁, hpadded₁, hkeep₁⟩ := hpadded.declare "paddedSize"
  have hsize₁ := hkeep₁ "group->size" size (by decide) (size_is_laneWords hsize lane)
  have hlid₁ := hkeep₁ "lid" lane (by decide) (lid_is_laneWords size hword)
  obtain ⟨ws₂, hrun₂, hbid₂, hkeep₂⟩ := (hlid₁.mod hpadded₁ hpos).declare "bid"
  have hsize₂ := hkeep₂ "group->size" size (by decide) hsize₁
  have hlid₂ := hkeep₂ "lid" lane (by decide) hlid₁
  have hpadded₂ := hkeep₂ "paddedSize" padded (by decide) hpadded₁
  obtain ⟨ws₃, hrun₃, hbatch₃, hkeep₃⟩ := (hlid₂.div hpadded₂ hpos).declare "batch"
  have hsize₃ := hkeep₃ "group->size" size (by decide) hsize₂
  have hbid₃ := hkeep₃ "bid" _ (by decide) hbid₂
  obtain ⟨ws₄, hrun₄, hoffset₄, hkeep₄⟩ := (hsize₃.mul hbatch₃ hoffset).declare "batchOffset"
  refine ⟨ws₄, ?_, hkeep₄ "group->size" size (by decide) hsize₃, hkeep₄ "bid" _ (by decide) hbid₃,
    hkeep₄ "batch" _ (by decide) hbatch₃, hoffset₄⟩
  simp only [WordDeclaration.runAll?, declarations, List.foldlM_cons, List.foldlM_nil,
    Batches.size, hrun₁, hrun₂, hrun₃, hrun₄, Option.bind_eq_bind, Option.bind_some]
  rfl

/-- A lane works on the element whose place in the batch is the lane's place among those of the
batch. -/
theorem Fits.work?_eq (h : Fits blockSize size count)
    (hlane : lane < roundUp blockSize size * count) :
    work? blockSize size lane =
      some (if lane % roundUp blockSize size < size then
        some ⟨lane / roundUp blockSize size, lane % roundUp blockSize size,
          size * (lane / roundUp blockSize size) + lane % roundUp blockSize size⟩
      else none) := by
  obtain ⟨ws, hrun, hsize, hbid, hbatch, hoffset⟩ := h.exists_declared hlane
  have hle : size ≤ roundUp blockSize size := (isLeast_roundUp h.block_pos size).1.1
  have hlt : size * (lane / roundUp blockSize size) + lane % roundUp blockSize size < 2 ^ 32 := by
    have hsplit := Nat.div_add_mod lane (roundUp blockSize size)
    have hbatches := Nat.mul_le_mul_right (lane / roundUp blockSize size) hle
    have hlanes := h.lanes_lt
    omega
  have hindex := hoffset.add hbid hlt
  generalize roundUp blockSize size = padded at *
  rw [work?, hrun, Option.bind_eq_bind, Option.bind_some, WordTest.holds?_eq hbid hsize]
  simp only [Option.bind_eq_bind, Option.bind_some, decide_eq_true_eq]
  split
  next =>
    obtain ⟨v, hv, hbid⟩ := hbid.exists_value?
    obtain ⟨w, hw, hbatch⟩ := hbatch.exists_value?
    obtain ⟨x, hx, hindex⟩ := hindex.exists_value?
    rw [Formula.value?] at hv hw
    rw [hw, hv, index, hx]
    simp [hbid, hbatch, hindex]
  next => rfl

theorem Fits.mem_workingLanes_iff (h : Fits blockSize size count) {p : Nat × BatchElement} :
    p ∈ workingLanes blockSize size (roundUp blockSize size * count) ↔
      ∃ b < count, ∃ e < size,
        p = (roundUp blockSize size * b + e, ⟨b, e, size * b + e⟩) := by
  have hle : size ≤ roundUp blockSize size := (isLeast_roundUp h.block_pos size).1.1
  obtain ⟨lane, w⟩ := p
  constructor
  · rintro ⟨hlane, hwork⟩
    dsimp only at hlane hwork
    rw [h.work?_eq hlane] at hwork
    split at hwork
    next helement =>
      cases hwork
      refine ⟨_, Nat.div_lt_of_lt_mul hlane, _, helement, ?_⟩
      rw [Nat.div_add_mod]
    next => cases hwork
  · rintro ⟨b, hb, e, he, heq⟩
    obtain ⟨rfl, rfl⟩ := Prod.mk.inj heq
    have hlt := Nat.lt_of_lt_of_le he hle
    have hlane : roundUp blockSize size * b + e < roundUp blockSize size * count := by
      have hrow := Nat.mul_le_mul_left (roundUp blockSize size) hb
      rw [Nat.mul_succ] at hrow
      omega
    refine ⟨hlane, ?_⟩
    rw [h.work?_eq hlane, Nat.mul_add_mod, Nat.mod_eq_of_lt hlt, if_pos he,
      Nat.mul_add_div (by omega), Nat.div_eq_of_lt hlt, Nat.add_zero]

/-- The places of elements in batches are numbered batch by batch. -/
theorem mul_add_inj {b b' e e' : Nat} (he : e < size) (he' : e' < size)
    (h : size * b + e = size * b' + e') : b = b' ∧ e = e' := by
  constructor
  · have hdiv := congrArg (· / size) h
    simpa only [Nat.mul_add_div (Nat.zero_lt_of_lt he), Nat.div_eq_of_lt he, Nat.div_eq_of_lt he',
      Nat.add_zero] using hdiv
  · have hmod := congrArg (· % size) h
    simpa only [Nat.mul_add_mod, Nat.mod_eq_of_lt he, Nat.mod_eq_of_lt he'] using hmod

/-- The working lanes are one to one with the elements of all batches, -/
theorem Fits.bijOn_place (h : Fits blockSize size count) :
    Set.BijOn (fun p => (p.2.batch, p.2.element))
      (workingLanes blockSize size (roundUp blockSize size * count))
      {q | q.1 < count ∧ q.2 < size} := by
  refine ⟨fun p hp => ?_, fun p hp p' hp' heq => ?_, fun q hq => ?_⟩
  · obtain ⟨b, hb, e, he, rfl⟩ := h.mem_workingLanes_iff.mp hp
    exact ⟨hb, he⟩
  · obtain ⟨b, -, e, -, rfl⟩ := h.mem_workingLanes_iff.mp hp
    obtain ⟨b', -, e', -, rfl⟩ := h.mem_workingLanes_iff.mp hp'
    obtain ⟨rfl, rfl⟩ := Prod.mk.inj heq
    rfl
  · exact ⟨_, h.mem_workingLanes_iff.mpr ⟨q.1, hq.1, q.2, hq.2, rfl⟩, rfl⟩

/-- and with the indices of the array. -/
theorem Fits.bijOn_index (h : Fits blockSize size count) :
    Set.BijOn (fun p => p.2.index) (workingLanes blockSize size (roundUp blockSize size * count))
      (Set.Iio (size * count)) := by
  refine ⟨fun p hp => ?_, fun p hp p' hp' heq => ?_, fun i hi => ?_⟩
  · obtain ⟨b, hb, e, he, rfl⟩ := h.mem_workingLanes_iff.mp hp
    have hrow := Nat.mul_le_mul_left size hb
    rw [Nat.mul_succ] at hrow
    rw [Set.mem_Iio]
    dsimp only
    omega
  · obtain ⟨b, -, e, he, rfl⟩ := h.mem_workingLanes_iff.mp hp
    obtain ⟨b', -, e', he', rfl⟩ := h.mem_workingLanes_iff.mp hp'
    obtain ⟨rfl, rfl⟩ := mul_add_inj he he' heq
    rfl
  · rw [Set.mem_Iio] at hi
    have hpos : 0 < size := Nat.pos_of_ne_zero fun hzero => by simp [hzero] at hi
    refine ⟨_, h.mem_workingLanes_iff.mpr
      ⟨i / size, Nat.div_lt_of_lt_mul hi, i % size, Nat.mod_lt i hpos, rfl⟩, ?_⟩
    exact Nat.div_add_mod i size

theorem Fits.store?_eq (h : Fits blockSize size count) {b : Nat} (hb : b < count)
    (hlane : lane < 2 ^ 32) :
    store? size lane b = some (if lane < size then some ⟨b, lane, size * b + lane⟩ else none) := by
  have hsize : size < 2 ^ 32 := Nat.lt_of_le_of_lt (Nat.le_add_right _ _) h.add_lt
  have hsizeIs : Batches.size.Is ((laneWords size lane).declare "b" (.ofNat 32 b)) size :=
    (size_is_laneWords hsize lane).of_declared (by decide)
  have hlidIs := (lid_is_laneWords size hlane).of_declared (w := .ofNat 32 b)
    (show "lid" ≠ "b" by decide)
  rw [store?, WordTest.holds?_eq hlidIs hsizeIs]
  simp only [Option.bind_eq_bind, Option.bind_some, decide_eq_true_eq]
  split
  next hlt =>
    -- the index is one of the array, so it is a word and so is the batch
    have hle : size ≤ roundUp blockSize size := (isLeast_roundUp h.block_pos size).1.1
    have hrows : size * (b + 1) ≤ roundUp blockSize size * count := Nat.mul_le_mul hle hb
    have hbatch : b + 1 ≤ size * (b + 1) := Nat.le_mul_of_pos_left _ (Nat.zero_lt_of_lt hlt)
    have hlanes := h.lanes_lt
    rw [Nat.mul_succ] at hrows hbatch
    have hbIs := @Formula.Is.declared (laneWords size lane) b "b" (by omega)
    have hproduct := hbIs.mul hsizeIs (by rw [Nat.mul_comm]; omega)
    have hindex := hproduct.group.add hlidIs (by rw [Nat.mul_comm]; omega)
    obtain ⟨v, hv, hvalue⟩ := hindex.exists_value?
    rw [storeIndex, hv]
    simp [hvalue, Nat.mul_comm b]
  next => rfl

/-- The first values are stored for the same batches and elements at the same indices. -/
theorem Fits.work_eq_store (h : Fits blockSize size count) {lanes : Nat} (hsize : size ≤ lanes)
    (hlanes : lanes ≤ 2 ^ 32) :
    Prod.snd '' workingLanes blockSize size (roundUp blockSize size * count) =
      Prod.snd '' storingRounds size count lanes := by
  ext w
  constructor
  · rintro ⟨p, hp, rfl⟩
    obtain ⟨b, hb, e, he, rfl⟩ := h.mem_workingLanes_iff.mp hp
    have hlane := Nat.lt_of_lt_of_le he hsize
    refine ⟨((e, b), _), ⟨hlane, hb, ?_⟩, rfl⟩
    rw [h.store?_eq hb (Nat.lt_of_lt_of_le hlane hlanes), if_pos he]
  · rintro ⟨⟨⟨lane, b⟩, w⟩, ⟨hlane, hb, hstore⟩, rfl⟩
    dsimp only at hlane hb hstore ⊢
    rw [h.store?_eq hb (Nat.lt_of_lt_of_le hlane hlanes)] at hstore
    split at hstore
    next he =>
      cases hstore
      exact ⟨_, h.mem_workingLanes_iff.mpr ⟨b, hb, lane, he, rfl⟩, rfl⟩
    next => cases hstore

end Batches

end KernelWeaver
