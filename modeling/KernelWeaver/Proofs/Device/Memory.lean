import KernelWeaver.Device.Memory
import Mathlib

/-!
# First fit

An array goes into the first space with more room than the array takes, and only this space gets
smaller. However many arrays are placed, what they take of a space and what is left of it add up to
what there was at first.
-/

namespace KernelWeaver.MemorySpace

variable {name struct : String} {bytes : Nat} {space : MemorySpace}
  {spaces after : List MemorySpace}

theorem take?_eq_some_iff :
    take? bytes spaces = some (name, after) ↔
      ∃ front space rest, spaces = front ++ space :: rest ∧ (∀ s ∈ front, s.remaining ≤ bytes) ∧
        bytes < space.remaining ∧ name = space.name ∧
        after = front ++ { space with remaining := space.remaining - bytes } :: rest := by
  induction spaces generalizing after with
  | nil => simp [take?]
  | cons first spaces ih =>
      rw [take?]
      by_cases hfits : bytes < first.remaining
      · rw [if_pos hfits]
        constructor
        · intro h
          cases h
          exact ⟨[], first, spaces, rfl, fun _ h => absurd h List.not_mem_nil, hfits, rfl, rfl⟩
        · rintro ⟨front, space, rest, hspaces, hfront, hroom, rfl, rfl⟩
          cases front with
          | nil =>
              cases hspaces
              rfl
          | cons other front =>
              cases hspaces
              exact absurd hfits (Nat.not_lt.mpr (hfront first List.mem_cons_self))
      · rw [if_neg hfits, Option.map_eq_some_iff]
        constructor
        · rintro ⟨⟨name', later⟩, htake, heq⟩
          cases heq
          obtain ⟨front, space, rest, rfl, hfront, hroom, rfl, rfl⟩ := ih.mp htake
          refine ⟨first :: front, space, rest, rfl, ?_, hroom, rfl, rfl⟩
          exact List.forall_mem_cons.mpr ⟨Nat.not_lt.mp hfits, hfront⟩
        · rintro ⟨front, space, rest, hspaces, hfront, hroom, rfl, rfl⟩
          cases front with
          | nil =>
              cases hspaces
              exact absurd hroom hfits
          | cons other front =>
              cases hspaces
              have htake := ih.mpr ⟨front, space, rest, rfl, (List.forall_mem_cons.mp hfront).2,
                hroom, rfl, rfl⟩
              exact ⟨_, htake, rfl⟩

theorem take?_eq_none_iff : take? bytes spaces = none ↔ ∀ s ∈ spaces, s.remaining ≤ bytes := by
  induction spaces with
  | nil => simp [take?]
  | cons first spaces ih =>
      rw [take?, List.forall_mem_cons]
      by_cases hfits : bytes < first.remaining
      · simp [hfits, Nat.not_le.mpr hfits]
      · rw [if_neg hfits, Option.map_eq_none_iff, ih]
        exact (and_iff_right (Nat.not_lt.mp hfits)).symm

theorem place_eq_ok : place spaces struct bytes = .ok (name, after) ↔
    take? bytes spaces = some (name, after) := by
  rw [place]
  cases take? bytes spaces with
  | none => simp
  | some placed => simp

/-- The bytes left in the spaces of a name. -/
def room (name : String) (spaces : List MemorySpace) : Nat :=
  ((spaces.filter fun s => s.name = name).map (·.remaining)).sum

theorem room_append (name : String) (front rest : List MemorySpace) :
    room name (front ++ rest) = room name front + room name rest := by
  rw [room, List.filter_append, List.map_append, List.sum_append, room, room]

theorem room_cons (name : String) (s : MemorySpace) (rest : List MemorySpace) :
    room name (s :: rest) = (if s.name = name then s.remaining else 0) + room name rest := by
  by_cases hname : s.name = name <;> simp [room, hname]

/-- The space that an array is placed in has as much less room as the array takes. -/
theorem room_of_take? (h : take? bytes spaces = some (name, after)) (other : String) :
    (if name = other then bytes else 0) + room other after = room other spaces := by
  obtain ⟨front, space, rest, rfl, -, hroom, rfl, rfl⟩ := take?_eq_some_iff.mp h
  rw [room_append, room_append, room_cons, room_cons]
  by_cases hname : space.name = other
  · rw [if_pos hname, if_pos hname, if_pos hname]
    dsimp only
    omega
  · rw [if_neg hname, if_neg hname, if_neg hname, Nat.zero_add]

/-- An array of structs and the space that it is in. -/
structure Placement where
  struct : String
  bytes : Nat
  space : String

/-- Arrays are placed one after the other. -/
inductive Places : List MemorySpace → List Placement → List MemorySpace → Prop where
  | nil {spaces : List MemorySpace} : Places spaces [] spaces
  | cons {spaces between after : List MemorySpace} {p : Placement} {rest : List Placement} :
      place spaces p.struct p.bytes = .ok (p.space, between) → Places between rest after →
      Places spaces (p :: rest) after

/-- The bytes of the arrays that are placed in the spaces of a name. -/
def taken (name : String) (placed : List Placement) : Nat :=
  ((placed.filter fun p => p.space = name).map (·.bytes)).sum

/-- What arrays take of a space and what is left of it are what there was. -/
theorem Places.taken_add_room {placed : List Placement} (h : Places spaces placed after)
    (name : String) : taken name placed + room name after = room name spaces := by
  induction h with
  | nil => exact Nat.zero_add _
  | @cons spaces between after p rest hplace _ ih =>
      have hstep := room_of_take? (place_eq_ok.mp hplace) name
      have htaken : taken name (p :: rest) =
          (if p.space = name then p.bytes else 0) + taken name rest := by
        by_cases hname : p.space = name <;> simp [taken, hname]
      rw [htaken, Nat.add_assoc, ih, hstep]

end KernelWeaver.MemorySpace
