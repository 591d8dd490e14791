import KernelWeaver.Proofs.Lanes.Dispatch
import KernelWeaver.Proofs.Lanes.Resolve

/-!
# Lanes and places

The lanes of groups that are laid out and the places in their members correspond to each other one
to one. All lanes of a block lie in the same member.
-/

namespace KernelWeaver

open LaneRange

/-- The first lane of a member. -/
def memberStart? (ranges : List LaneRange) (group member : Nat) : Option Nat :=
  ranges[group]?.bind fun range => range.starts[member]?

namespace LanePlace

/-- The lane at a place: the first lane of the member and the place in it. -/
def lane (ranges : List LaneRange) (place : LanePlace) : Nat :=
  (memberStart? ranges place.group place.member).getD 0 + place.offset

/-- Of groups with members of the given sizes, a place lies in a member, whose size is rounded up to
whole blocks. -/
def Within (place : LanePlace) (blockSize : Nat) (groups : List (List Nat)) : Prop :=
  ∃ sizes size, groups[place.group]? = some sizes ∧ sizes[place.member]? = some size ∧
    place.offset < roundUp blockSize size

variable {blockSize : Nat} {groups : List (List Nat)} {place : LanePlace} {id : Nat}

theorem memberStart?_exactFrom {group member : Nat} {sizes : List Nat}
    (hget : groups[group]? = some sizes) (hmember : member < sizes.length) :
    memberStart? (exactFrom blockSize 0 groups) group member =
      some (laneCount blockSize (groups.take group).flatten +
        laneCount blockSize (sizes.take member)) := by
  rw [memberStart?, getElem?_exactFrom, hget, Nat.zero_add]
  exact getElem?_memberStarts _ _ _ hmember

theorem sum_take_map_laneCount (blockSize : Nat) (groups : List (List Nat)) (group : Nat) :
    ((groups.map (laneCount blockSize)).take group).sum =
      laneCount blockSize (groups.take group).flatten := by
  rw [← List.map_take, sum_map_laneCount]

/-- A place has lane `id` when it lies in a member and counts `id` from the first lane on. -/
theorem owns_iff : place.Owns blockSize groups id ↔
    place.Within blockSize groups ∧ place.lane (exactFrom blockSize 0 groups) = id := by
  constructor
  · rintro ⟨sizes, inner, hget, ⟨_, hgroup⟩, hcell⟩
    have hmember : place.member < sizes.length := by simpa [paddedSizes] using hcell.part_lt
    obtain ⟨⟨width, hwidth, hoffset⟩, hinner⟩ := hcell
    rw [paddedSizes, List.getElem?_map, Option.map_eq_some_iff] at hwidth
    obtain ⟨size, hsize, rfl⟩ := hwidth
    refine ⟨⟨sizes, size, hget, hsize, hoffset⟩, ?_⟩
    rw [sum_take_map_laneCount] at hgroup
    rw [sum_take_paddedSizes] at hinner
    rw [lane, memberStart?_exactFrom hget hmember, Option.getD_some, ← hgroup, ← hinner,
      Nat.add_assoc]
  · rintro ⟨⟨sizes, size, hget, hsize, hoffset⟩, hlane⟩
    have hmember : place.member < sizes.length := (List.getElem?_eq_some_iff.mp hsize).1
    rw [lane, memberStart?_exactFrom hget hmember, Option.getD_some, Nat.add_assoc] at hlane
    have hcell : IsCell (paddedSizes blockSize sizes) place.member place.offset
        (laneCount blockSize (sizes.take place.member) + place.offset) := by
      refine ⟨⟨roundUp blockSize size, ?_, hoffset⟩, ?_⟩
      · rw [paddedSizes, List.getElem?_map, hsize]
        rfl
      · rw [sum_take_paddedSizes]
    refine ⟨sizes, _, hget, ⟨⟨laneCount blockSize sizes, ?_, hcell.lt_sum⟩, ?_⟩, hcell⟩
    · rw [List.getElem?_map, hget]
      rfl
    · rw [sum_take_map_laneCount]
      exact hlane

theorem bijOn_lane (blockSize : Nat) (groups : List (List Nat)) :
    Set.BijOn (lane (exactFrom blockSize 0 groups)) {place | place.Within blockSize groups}
      (Set.Iio (laneCount blockSize groups.flatten)) := by
  refine ⟨?_, ?_, ?_⟩
  · intro place hplace
    exact (owns_iff.mpr ⟨hplace, rfl⟩).lt_laneCount
  · intro place hplace place' hplace' heq
    exact (owns_iff.mpr ⟨hplace, heq⟩).unique (owns_iff.mpr ⟨hplace', rfl⟩)
  · intro id hid
    obtain ⟨place, howns⟩ := exists_owns hid
    exact ⟨place, owns_iff.mp howns⟩

theorem Within.exists_start (h : place.Within blockSize groups) :
    ∃ start, memberStart? (exactFrom blockSize 0 groups) place.group place.member = some start ∧
      blockSize ∣ start := by
  obtain ⟨sizes, size, hget, hsize, _⟩ := h
  have hmember : place.member < sizes.length := (List.getElem?_eq_some_iff.mp hsize).1
  exact ⟨_, memberStart?_exactFrom hget hmember,
    Nat.dvd_add (dvd_laneCount _ _) (dvd_laneCount _ _)⟩

/-- A lane of the same block lies in the same member. -/
theorem Owns.of_block (hblock : 0 < blockSize) {id' : Nat} (h : place.Owns blockSize groups id)
    (hid : id / blockSize = id' / blockSize) :
    ∃ offset, (LanePlace.mk place.group place.member offset).Owns blockSize groups id' := by
  obtain ⟨hwithin, hlane⟩ := owns_iff.mp h
  obtain ⟨start, hstart, blocks, rfl⟩ := hwithin.exists_start
  obtain ⟨sizes, size, hget, hsize, hoffset⟩ := hwithin
  rw [lane, hstart, Option.getD_some] at hlane
  -- the member begins with a block and ends with one, so the block lies between
  obtain ⟨width, hwidth⟩ := dvd_roundUp blockSize size
  rw [hwidth] at hoffset
  have hlow : blocks ≤ id' / blockSize := by
    rw [← hid, Nat.le_div_iff_mul_le hblock, Nat.mul_comm]
    omega
  have hhigh : id' / blockSize < blocks + width := by
    rw [← hid, Nat.div_lt_iff_lt_mul hblock, Nat.mul_comm, Nat.mul_add]
    omega
  rw [Nat.le_div_iff_mul_le hblock, Nat.mul_comm] at hlow
  rw [Nat.div_lt_iff_lt_mul hblock, Nat.mul_comm, Nat.mul_add] at hhigh
  refine ⟨id' - blockSize * blocks, owns_iff.mpr ⟨⟨sizes, size, hget, hsize, ?_⟩, ?_⟩⟩
  · change id' - blockSize * blocks < roundUp blockSize size
    omega
  · rw [lane, hstart, Option.getD_some]
    change blockSize * blocks + (id' - blockSize * blocks) = id'
    omega

end LanePlace

/-- The group and the member that a lane resolves to are those of all lanes of its block. -/
theorem resolveLane_of_block {blockSize : Nat} (hblock : 0 < blockSize) (groups : List (List Nat))
    {id id' : Nat} (hid : id / blockSize = id' / blockSize) :
    (resolveLane (exactFrom blockSize 0 groups) id).map (fun p => (p.group, p.member)) =
      (resolveLane (exactFrom blockSize 0 groups) id').map (fun p => (p.group, p.member)) := by
  cases hplace : resolveLane (exactFrom blockSize 0 groups) id with
  | some place =>
      obtain ⟨offset, howns⟩ := (resolveLane_eq_some_iff.mp hplace).of_block hblock hid
      rw [resolveLane_eq_some_iff.mpr howns]
      rfl
  | none =>
      cases hplace' : resolveLane (exactFrom blockSize 0 groups) id' with
      | none => rfl
      | some place =>
          obtain ⟨offset, howns⟩ := (resolveLane_eq_some_iff.mp hplace').of_block hblock hid.symm
          rw [resolveLane_eq_some_iff.mpr howns] at hplace
          cases hplace

open Generate in
/-- Of groups whose lanes can be counted in a word, the places in members and the lanes correspond
to each other, and a lane resolves to its place. Members begin with a block, so the lanes of a block
lie in the same member. Calls that emit the groups of a kernel one after the other give them the
ranges of one layout, and they all return if the code of their groups can be emitted and the lanes
can be counted in a word. The kernel that initialises populations is emitted by such calls. -/
theorem layout_bijective_and_dispatchCalls_eq_layout {blockSize : Nat} (hblock : 1 ≤ blockSize) :
    (∀ groups : List (List Nat), laneCount blockSize groups.flatten ≤ 2 ^ 32 - 1 →
      ∃ ranges, layout groups blockSize = .ok ranges ∧
        Set.BijOn (LanePlace.lane ranges) {place | place.Within blockSize groups}
          (Set.Iio (laneCount blockSize groups.flatten)) ∧
        (∀ place : LanePlace, place.Within blockSize groups →
          resolveLane ranges (place.lane ranges) = some place) ∧
        (∀ id < laneCount blockSize groups.flatten, ∃ place : LanePlace,
          place.Within blockSize groups ∧ resolveLane ranges id = some place ∧
            place.lane ranges = id) ∧
        (∀ range ∈ ranges, ∀ start ∈ range.starts, blockSize ∣ start) ∧
        ∀ id id', id / blockSize = id' / blockSize →
          (resolveLane ranges id).map (fun p => (p.group, p.member)) =
            (resolveLane ranges id').map (fun p => (p.group, p.member))) ∧
    (∀ (calls : List DispatchCall) (c : Code.Chain),
      (∀ emitted stop c', (dispatchCalls blockSize 0 calls).runOn c = (.ok (emitted, stop), c') →
        ∃ groups, callSizes calls = .ok groups ∧
          layout groups blockSize = .ok (emitted.map (·.range)) ∧
          stop = laneCount blockSize groups.flatten) ∧
      ∀ (I : Code.Chain → Prop) groups, (∀ call ∈ calls, call.EmitsUnder I) → I c →
        callSizes calls = .ok groups → laneCount blockSize groups.flatten ≤ 2 ^ 32 - 1 →
        ∃ emitted stop c', (dispatchCalls blockSize 0 calls).runOn c =
          (.ok (emitted, stop), c')) ∧
    ∀ (t : Target) (m : MergedModel),
      InitCode.elementsBody t m blockSize = dispatchCalls blockSize 0 (elementCalls t m) := by
  refine ⟨?_, ?_, fun t m => elementsBody_eq_dispatchCalls t m blockSize⟩
  · intro groups hfit
    have hlayout := layout_eq hblock groups
    rw [if_pos (by omega)] at hlayout
    refine ⟨_, hlayout, LanePlace.bijOn_lane blockSize groups, ?_, ?_, ?_, ?_⟩
    · intro place hplace
      exact resolveLane_eq_some_iff.mpr (LanePlace.owns_iff.mpr ⟨hplace, rfl⟩)
    · intro id hid
      obtain ⟨place, howns⟩ := LanePlace.exists_owns hid
      obtain ⟨hwithin, hlane⟩ := LanePlace.owns_iff.mp howns
      exact ⟨place, hwithin, resolveLane_eq_some_iff.mpr howns, hlane⟩
    · intro range hrange start hstart
      exact dvd_of_mem_exactFrom (Nat.dvd_zero blockSize) hrange hstart
    · intro id id' hid
      exact resolveLane_of_block hblock groups hid
  · intro calls c
    refine ⟨?_, ?_⟩
    · intro emitted stop c' hrun
      obtain ⟨groups, hgroups, hcovers⟩ := dispatchCalls_covers hblock (Nat.two_pow_pos 32) hrun
      have hfits := hcovers.fits
      rw [Nat.zero_add] at hfits
      refine ⟨groups, hgroups, ?_, by rw [hcovers.stop_eq, Nat.zero_add]⟩
      rw [layout_eq hblock, if_pos hfits, hcovers.ranges]
    · intro I groups hemits hI hgroups hfit
      exact dispatchCalls_returns hblock hemits hgroups (by omega) hI

open Generate in
/-- Two calls, the first of which emits two groups, in a kernel that numbers its lanes `id`. -/
theorem layout_bijective_and_dispatchCalls_eq_layout_two_calls :
    1 ≤ 32 ∧
    (∃ ranges, layout [[5, 40, 0], [], [7]] 32 = .ok ranges ∧
      resolveLane ranges (LanePlace.lane ranges ⟨0, 1, 63⟩) = some ⟨0, 1, 63⟩) ∧
    ∃ emitted stop c',
      (dispatchCalls 32 0
        [⟨Nat, toString, .ok, fun _ => pure [],
          [⟨⟨"Init", 0, false⟩, 5, [40, 0], ⟨[]⟩⟩, ⟨⟨"Init", 1, false⟩, 7, [], ⟨[]⟩⟩]⟩,
          ⟨String, id, fun name => .ok name.length, fun _ => pure [],
            [⟨⟨"Pre", 0, false⟩, "neurons", [], ⟨[]⟩⟩]⟩]).runOn
          ((Code.Emit.bind "id" laneType "id").runOn (.before .empty)).2 =
        (.ok (emitted, stop), c') ∧
      ∃ groups, layout groups 32 = .ok (emitted.map (·.range)) ∧
        stop = laneCount 32 groups.flatten := by
  have h := layout_bijective_and_dispatchCalls_eq_layout (show 1 ≤ 32 by decide)
  refine ⟨by decide, ?_, ?_⟩
  · obtain ⟨ranges, hlayout, _, hresolve, _⟩ := h.1 [[5, 40, 0], [], [7]] (by decide)
    exact ⟨ranges, hlayout, hresolve ⟨0, 1, 63⟩ ⟨[5, 40, 0], 40, rfl, rfl, by decide⟩⟩
  · generalize hcalls : [(_ : DispatchCall), _] = calls
    generalize hchain : ((Code.Emit.bind "id" laneType "id").runOn (.before .empty)).2 = c
    have hok : ((dispatchCalls 32 0 calls).runOn c).1.isOk = true := by
      subst hcalls hchain
      decide +kernel
    cases hrun : (dispatchCalls 32 0 calls).runOn c with
    | mk result c' =>
        cases result with
        | error failure =>
            rw [hrun] at hok
            cases hok
        | ok result =>
            obtain ⟨emitted, stop⟩ := result
            obtain ⟨groups, _, hlayout, hstop⟩ := (h.2.1 calls c).1 emitted stop c' hrun
            exact ⟨emitted, stop, c', rfl, groups, hlayout, hstop⟩

end KernelWeaver
