import KernelWeaver.Proofs.Code.Registration
import KernelWeaver.Proofs.Lanes.Layout
import KernelWeaver.Typing.Rules

/-!
# The layout of a struct

In memory each field of a struct starts at the least multiple of its alignment behind the field
before it, and the whole struct is padded to the strictest alignment of its fields. A number or a
pointer is aligned to its own size, which is a power of two. So with the largest fields first there
is no padding between fields, and no other order of the fields makes the struct smaller.
-/

namespace KernelWeaver.Code.StructFields

open Typing

/-- The sizes of fields together. -/
def totalSize (fields : List StructField) : Nat := (fields.map (·.type.size)).sum

/-- Where the fields start that are laid out in order from an offset on. -/
def starts : (offset : Nat) → List StructField → List Nat
  | _, [] => []
  | offset, f :: rest =>
    let start := roundUp f.type.size offset
    start :: starts (start + f.type.size) rest

/-- Where the last of the fields ends. -/
def stop : (offset : Nat) → List StructField → Nat
  | offset, [] => offset
  | offset, f :: rest => stop (roundUp f.type.size offset + f.type.size) rest

/-- The alignment of a struct of the fields: the strictest among them, and one byte if there are
none. -/
def alignment (fields : List StructField) : Nat := (fields.map (·.type.size)).foldr max 1

/-- The size of a struct of the fields in order. -/
def sizeInOrder (fields : List StructField) : Nat := roundUp (alignment fields) (stop 0 fields)

/-- The field is a number or a pointer. -/
def IsScalar (f : StructField) : Prop := isScalar f.type = true

instance (f : StructField) : Decidable (IsScalar f) := inferInstanceAs (Decidable (_ = true))

variable {fields order : List StructField} {f : StructField} {offset : Nat}

/-- Numbers and pointers take one, two, four or eight bytes. -/
theorem exists_size_eq_pow (h : IsScalar f) : ∃ k ≤ 3, f.type.size = 2 ^ k := by
  rw [IsScalar, isScalar] at h
  cases htype : f.type with
  | value n c =>
      cases n with
      | bool | int8 | uint8 => exact ⟨0, by decide, rfl⟩
      | int16 | uint16 => exact ⟨1, by decide, rfl⟩
      | int32 | uint32 | float => exact ⟨2, by decide, rfl⟩
      | double => exact ⟨3, by decide, rfl⟩
  | pointer t c => exact ⟨3, by decide, rfl⟩
  | void c | function r as v c | device n k c =>
      rw [htype] at h
      cases h

theorem size_pos (h : IsScalar f) : 0 < f.type.size := by
  obtain ⟨k, -, hk⟩ := exists_size_eq_pow h
  rw [hk]
  exact Nat.two_pow_pos k

theorem size_le_eight (h : IsScalar f) : f.type.size ≤ 8 := by
  obtain ⟨k, hk, hsize⟩ := exists_size_eq_pow h
  rw [hsize]
  exact Nat.pow_le_pow_right (by decide) hk

/-- Of two sizes the smaller one divides the larger one. -/
theorem size_dvd_size {g : StructField} (hf : IsScalar f) (hg : IsScalar g)
    (h : f.type.size ≤ g.type.size) : f.type.size ∣ g.type.size := by
  obtain ⟨k, -, hk⟩ := exists_size_eq_pow hf
  obtain ⟨m, -, hm⟩ := exists_size_eq_pow hg
  rw [hk, hm] at h ⊢
  exact Nat.pow_dvd_pow 2 ((Nat.pow_le_pow_iff_right (by decide)).mp h)

theorem roundUp_of_dvd {unit n : Nat} (hunit : 0 < unit) (h : unit ∣ n) : roundUp unit n = n :=
  Nat.le_antisymm ((isLeast_roundUp hunit n).2 ⟨le_rfl, h⟩) (isLeast_roundUp hunit n).1.1

@[simp] theorem totalSize_cons (f : StructField) (rest : List StructField) :
    totalSize (f :: rest) = f.type.size + totalSize rest := by
  rw [totalSize, List.map_cons, List.sum_cons, totalSize]

@[simp] theorem alignment_cons (f : StructField) (rest : List StructField) :
    alignment (f :: rest) = max f.type.size (alignment rest) := rfl

theorem alignment_pos (fields : List StructField) : 0 < alignment fields := by
  induction fields with
  | nil => exact Nat.one_pos
  | cons f rest ih => exact Nat.lt_of_lt_of_le ih (Nat.le_max_right _ _)

theorem totalSize_perm (h : order.Perm fields) : totalSize order = totalSize fields :=
  (h.map _).sum_eq

theorem alignment_perm (h : order.Perm fields) : alignment order = alignment fields :=
  (h.map _).foldr_eq 1

/-! ### No padding -/

/-- Each of the fields is at least as large as all behind it. -/
def Descending (fields : List StructField) : Prop :=
  fields.Pairwise fun f g => g.type.size ≤ f.type.size

/-- With the largest fields first every field starts where the one before it ends. -/
theorem starts_of_descending (hscalar : ∀ f ∈ fields, IsScalar f) (hdescending : Descending fields)
    (hoffset : ∀ f ∈ fields, f.type.size ∣ offset) :
    stop offset fields = offset + totalSize fields ∧
      ∀ front f back, fields = front ++ f :: back →
        (starts offset fields)[front.length]? = some (offset + totalSize front) ∧
          f.type.size ∣ offset + totalSize front := by
  induction fields generalizing offset with
  | nil =>
      refine ⟨rfl, fun front f back h => ?_⟩
      simp at h
  | cons g rest ih =>
      rw [Descending, List.pairwise_cons] at hdescending
      have hg := hscalar g List.mem_cons_self
      have hstart : roundUp g.type.size offset = offset :=
        roundUp_of_dvd (size_pos hg) (hoffset g List.mem_cons_self)
      -- what divides the offset of a larger field divides that of the next one
      have hnext : ∀ f ∈ rest, f.type.size ∣ offset + g.type.size := fun f hf =>
        Nat.dvd_add (hoffset f (List.mem_cons_of_mem g hf))
          (size_dvd_size (hscalar f (List.mem_cons_of_mem g hf)) hg (hdescending.1 f hf))
      obtain ⟨hstop, hstarts⟩ :=
        ih (fun f hf => hscalar f (List.mem_cons_of_mem g hf)) hdescending.2 hnext
      constructor
      · rw [stop, hstart, hstop, totalSize_cons, Nat.add_assoc]
      · intro front f back h
        rw [starts, hstart]
        cases front with
        | nil =>
            obtain ⟨rfl, -⟩ := List.cons.inj h
            exact ⟨rfl, hoffset g List.mem_cons_self⟩
        | cons k front =>
            obtain ⟨rfl, hrest⟩ := List.cons.inj h
            rw [List.length_cons, List.getElem?_cons_succ, totalSize_cons, ← Nat.add_assoc]
            exact hstarts front f back hrest

/-- In any order the fields take at least their sizes together. -/
theorem totalSize_le_stop (hscalar : ∀ f ∈ fields, IsScalar f) (offset : Nat) :
    offset + totalSize fields ≤ stop offset fields := by
  induction fields generalizing offset with
  | nil => exact Nat.le_refl _
  | cons g rest ih =>
      have hg := (isLeast_roundUp (size_pos (hscalar g List.mem_cons_self)) offset).1.1
      have hrest := ih (fun f hf => hscalar f (List.mem_cons_of_mem g hf))
        (roundUp g.type.size offset + g.type.size)
      rw [stop, totalSize_cons]
      omega

theorem roundUp_mono {unit m n : Nat} (hunit : 0 < unit) (h : m ≤ n) :
    roundUp unit m ≤ roundUp unit n :=
  (isLeast_roundUp hunit m).2
    ⟨h.trans (isLeast_roundUp hunit n).1.1, dvd_roundUp unit n⟩

/-- The fields in order of size take up their sizes together, padded at the end only. -/
theorem sizeInOrder_of_descending (hscalar : ∀ f ∈ fields, IsScalar f)
    (hdescending : Descending fields) :
    sizeInOrder fields = roundUp (alignment fields) (totalSize fields) := by
  rw [sizeInOrder, (starts_of_descending hscalar hdescending fun _ _ => Nat.dvd_zero _).1,
    Nat.zero_add]

/-- No order of the fields takes less than their sizes together, padded at the end. -/
theorem le_sizeInOrder (hscalar : ∀ f ∈ fields, IsScalar f) (h : order.Perm fields) :
    roundUp (alignment fields) (totalSize fields) ≤ sizeInOrder order := by
  have hstop := totalSize_le_stop (fun f hf => hscalar f (h.mem_iff.mp hf)) 0
  rw [Nat.zero_add, totalSize_perm h] at hstop
  rw [sizeInOrder, alignment_perm h]
  exact roundUp_mono (alignment_pos fields) hstop

/-! ### The order of a struct -/

theorem le_trans_size (f g k : StructField) (hfg : decide (g.type.size ≤ f.type.size) = true)
    (hgk : decide (k.type.size ≤ g.type.size) = true) :
    decide (k.type.size ≤ f.type.size) = true := by
  rw [decide_eq_true_eq] at *
  exact hgk.trans hfg

theorem le_total_size (f g : StructField) :
    (decide (g.type.size ≤ f.type.size) || decide (f.type.size ≤ g.type.size)) = true := by
  simp [Nat.le_total]

theorem sorted_perm (fields : StructFields) : fields.sorted.Perm fields :=
  List.mergeSort_perm fields _

theorem descending_sorted (fields : StructFields) : Descending fields.sorted :=
  (List.pairwise_mergeSort le_trans_size le_total_size fields).imp fun h => of_decide_eq_true h

/-- Fields of one size stay in the order in which they were registered. -/
theorem filter_sorted (fields : StructFields) (n : Nat) :
    fields.sorted.filter (·.type.size = n) = fields.filter (·.type.size = n) := by
  have hsame : (fields.filter (·.type.size = n)).Pairwise fun f g =>
      decide (g.type.size ≤ f.type.size) = true := by
    refine List.pairwise_of_forall_mem_list fun f hf g hg => ?_
    rw [List.mem_filter, decide_eq_true_eq] at hf hg
    rw [decide_eq_true_eq, hf.2, hg.2]
  have hsublist := List.sublist_mergeSort le_trans_size le_total_size hsame List.filter_sublist
  -- as many fields have the size in both orders
  have hfiltered := hsublist.filter (·.type.size = n)
  rw [List.filter_filter] at hfiltered
  simp only [Bool.and_self] at hfiltered
  exact (hfiltered.eq_of_length ((sorted_perm fields).filter _).length_eq.symm).symm

/-! ### The size of a struct -/

theorem fit_of_lt {n : Nat} (h : n < 2 ^ 64) : fit 64 n = .ok n := if_pos h

theorem fit_of_le {n : Nat} (h : 2 ^ 64 ≤ n) : fit 64 n = .error .overflow :=
  if_neg (Nat.not_lt.mpr h)

theorem space_eq_size (h : IsScalar f) : f.space = f.type.size := Nat.max_eq_left (size_pos h)

theorem alignUp_eq_fit (n unit : Nat) : alignUp n unit = fit 64 (roundUp unit n) := rfl

/-- Words are enough for the layout as long as its end is a word. -/
theorem layOut_eq_fit {align : Nat} (hscalar : ∀ f ∈ fields, IsScalar f) (hoffset : offset < 2 ^ 64)
    (halign : 1 ≤ align) :
    layOut fields offset align =
      (fit 64 (stop offset fields)).map fun last => (last, max align (alignment fields)) := by
  induction fields generalizing offset align with
  | nil =>
      rw [layOut, stop, fit_of_lt hoffset]
      change _ = Except.ok (offset, max align 1)
      rw [Nat.max_eq_left halign]
  | cons f rest ih =>
      have hf := hscalar f List.mem_cons_self
      have hrest : ∀ g ∈ rest, IsScalar g := fun g hg => hscalar g (List.mem_cons_of_mem f hg)
      rw [layOut, space_eq_size hf, alignUp_eq_fit, stop]
      -- a word that is left on the way is left at the end as well
      have hstop := totalSize_le_stop hrest (roundUp f.type.size offset + f.type.size)
      by_cases hstart : roundUp f.type.size offset < 2 ^ 64
      · rw [fit_of_lt hstart, ok_bind]
        by_cases hend : roundUp f.type.size offset + f.type.size < 2 ^ 64
        · rw [fit_of_lt hend, ok_bind, ih hrest hend (halign.trans (Nat.le_max_left _ _)),
            alignment_cons, Nat.max_assoc]
        · rw [fit_of_le (by omega), fit_of_le (by omega)]
          rfl
      · rw [fit_of_le (by omega), fit_of_le (by omega)]
        rfl

/-- A struct takes up the sizes of its fields together, padded at the end, if that is a word. -/
theorem structSize_eq_fit (hscalar : ∀ f ∈ fields, IsScalar f) :
    structSize fields = fit 64 (roundUp (alignment fields) (totalSize fields)) := by
  have hsorted : ∀ f ∈ sorted fields, IsScalar f := fun f hf =>
    hscalar f ((sorted_perm fields).mem_iff.mp hf)
  have hstop := (starts_of_descending hsorted (descending_sorted fields)
    fun _ _ => Nat.dvd_zero _).1
  rw [Nat.zero_add, totalSize_perm (sorted_perm fields)] at hstop
  rw [structSize, layOut_eq_fit hsorted (by decide) (le_refl 1), hstop,
    alignment_perm (sorted_perm fields), Nat.max_eq_right (alignment_pos fields)]
  have hround := (isLeast_roundUp (alignment_pos fields) (totalSize fields)).1.1
  by_cases htotal : totalSize fields < 2 ^ 64
  · rw [fit_of_lt htotal]
    rfl
  · rw [fit_of_le (Nat.not_lt.mp htotal), fit_of_le ((Nat.not_lt.mp htotal).trans hround)]
    rfl

theorem totalSize_le (hscalar : ∀ f ∈ fields, IsScalar f) :
    totalSize fields ≤ 8 * fields.length := by
  induction fields with
  | nil => exact Nat.le_refl 0
  | cons f rest ih =>
      have hf := size_le_eight (hscalar f List.mem_cons_self)
      have hrest := ih fun g hg => hscalar g (List.mem_cons_of_mem f hg)
      rw [totalSize_cons, List.length_cons]
      omega

theorem alignment_le_eight (hscalar : ∀ f ∈ fields, IsScalar f) : alignment fields ≤ 8 := by
  induction fields with
  | nil => decide
  | cons f rest ih =>
      rw [alignment_cons]
      exact Nat.max_le.mpr ⟨size_le_eight (hscalar f List.mem_cons_self),
        ih fun g hg => hscalar g (List.mem_cons_of_mem f hg)⟩

/-- Fewer than 2⁶⁰ fields take up a number of bytes that is a word. -/
theorem roundUp_totalSize_lt (hscalar : ∀ f ∈ fields, IsScalar f)
    (hlength : fields.length < 2 ^ 60) :
    roundUp (alignment fields) (totalSize fields) < 2 ^ 64 := by
  have htotal := totalSize_le hscalar
  have halignment := alignment_le_eight hscalar
  have hround : roundUp (alignment fields) (totalSize fields) ≤
      totalSize fields + alignment fields - 1 := Nat.div_mul_le_self _ _
  omega

/-- The layout of a struct of numbers and pointers, whose fields are the first ones registered under
each name. The fields stand in order of size, those of one size as they were registered, and each
starts where the ones before it end, at a multiple of its own size. The size of the struct is that
of its fields together, rounded up to the size of the largest, if it is a word, as it is for any
number of fields that memory has room for. No other order of the fields takes less. -/
theorem struct_layout_is_tight {registered : List StructField} {fields : StructFields}
    (hregistered : registerAll [] registered = .ok fields)
    (hscalar : ∀ f ∈ registered, IsScalar f) :
    fields = firsts registered ∧
    (fields.sorted.Perm fields ∧ Descending fields.sorted ∧
      ∀ n, fields.sorted.filter (·.type.size = n) = fields.filter (·.type.size = n)) ∧
    (∀ front f back, fields.sorted = front ++ f :: back →
      (starts 0 fields.sorted)[front.length]? = some (totalSize front) ∧
        f.type.size ∣ totalSize front) ∧
    (fields.structSize = fit 64 (roundUp (alignment fields) (totalSize fields)) ∧
      (fields.length < 2 ^ 60 →
        fields.structSize = .ok (roundUp (alignment fields) (totalSize fields))) ∧
      (fields = [] → fields.structSize = .ok 0)) ∧
    sizeInOrder fields.sorted = roundUp (alignment fields) (totalSize fields) ∧
    ∀ order : List StructField, order.Perm fields →
      sizeInOrder fields.sorted ≤ sizeInOrder order := by
  have hfirsts := eq_firsts_of_registerAll hregistered
  have hfields : ∀ f ∈ fields, IsScalar f := fun f hf =>
    hscalar f (mem_of_mem_firsts (hfirsts ▸ hf))
  have hsorted : ∀ f ∈ fields.sorted, IsScalar f := fun f hf =>
    hfields f ((sorted_perm fields).mem_iff.mp hf)
  have hstarts := (starts_of_descending hsorted (descending_sorted fields)
    fun _ _ => Nat.dvd_zero _).2
  have hsize := sizeInOrder_of_descending hsorted (descending_sorted fields)
  rw [alignment_perm (sorted_perm fields), totalSize_perm (sorted_perm fields)] at hsize
  refine ⟨hfirsts, ⟨sorted_perm fields, descending_sorted fields, filter_sorted fields⟩, ?_,
    ⟨structSize_eq_fit hfields, ?_, ?_⟩, hsize, ?_⟩
  · intro front f back h
    have hf := hstarts front f back h
    rw [Nat.zero_add] at hf
    exact hf
  · intro hlength
    rw [structSize_eq_fit hfields, fit_of_lt (roundUp_totalSize_lt hfields hlength)]
  · rintro rfl
    rw [structSize_eq_fit hfields]
    rfl
  · intro order horder
    rw [hsize]
    exact le_sizeInOrder hfields horder

/-- A byte, a pointer, a number and the pointer once more: four bytes and one behind the pointer are
padded to eight. -/
theorem struct_layout_is_tight_mixed :
    ∃ fields : StructFields,
      registerAll [] [⟨"a", CType.num .uint8, fun _ => .ok "1"⟩,
        ⟨"b", .pointer (CType.num .float) false, fun _ => .ok "d_b"⟩,
        ⟨"c", CType.uint, fun _ => .ok "4"⟩,
        ⟨"b", .pointer (CType.num .float) true, fun _ => .ok "d_b"⟩] = .ok fields ∧
      fields.structSize = .ok 16 ∧
      sizeInOrder fields.sorted = 16 ∧ sizeInOrder fields = 24 ∧
      sizeInOrder fields.sorted ≤ sizeInOrder fields := by
  have hregistered : registerAll [] [⟨"a", CType.num .uint8, fun _ => .ok "1"⟩,
      ⟨"b", .pointer (CType.num .float) false, fun _ => .ok "d_b"⟩,
      ⟨"c", CType.uint, fun _ => .ok "4"⟩,
      ⟨"b", .pointer (CType.num .float) true, fun _ => .ok "d_b"⟩] =
      .ok [⟨"a", CType.num .uint8, fun _ => .ok "1"⟩,
        ⟨"b", .pointer (CType.num .float) false, fun _ => .ok "d_b"⟩,
        ⟨"c", CType.uint, fun _ => .ok "4"⟩] := rfl
  obtain ⟨-, -, -, ⟨-, hsize, -⟩, htight, hleast⟩ :=
    struct_layout_is_tight hregistered (by decide)
  exact ⟨_, hregistered, hsize (by decide), htight, by decide, hleast _ (List.Perm.refl _)⟩

end KernelWeaver.Code.StructFields
