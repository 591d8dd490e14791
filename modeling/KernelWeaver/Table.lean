/-!
# Tables

Named entries in the order in which their names were first inserted.
-/

namespace KernelWeaver

/-- Named entries in insertion order. -/
abbrev Table (α : Type) := List (String × α)

namespace Table

variable {α : Type}

/-- The entry under `name`. -/
def find? : Table α → String → Option α
  | [], _ => none
  | (key, entry) :: rest, name => if name = key then some entry else find? rest name

/-- Whether there is an entry under `name`. -/
def has (t : Table α) (name : String) : Bool :=
  (t.find? name).isSome

/-- The entry under `name` replaced in its place, or a new entry at the end. -/
def insert (t : Table α) (name : String) (entry : α) : Table α :=
  match t with
  | [] => [(name, entry)]
  | (key, old) :: rest =>
    if name = key then (key, entry) :: rest else (key, old) :: insert rest name entry

/-- The table of a list of entries, a later entry replacing an earlier one of its name. -/
def ofList (entries : List (String × α)) : Table α :=
  entries.foldl (fun t (name, entry) => t.insert name entry) []

/-- The entries without their names. -/
def entries (t : Table α) : List α :=
  t.map Prod.snd

theorem find?_insert (t : Table α) (name key : String) (entry : α) :
    (t.insert name entry).find? key = if key = name then some entry else t.find? key := by
  induction t with
  | nil => by_cases h : key = name <;> simp [insert, find?, h]
  | cons head rest ih =>
    obtain ⟨other, old⟩ := head
    by_cases ho : name = other
    · subst ho
      by_cases hk : key = name <;> simp [insert, find?, hk]
    · by_cases hk : key = other
      · subst hk
        simp [insert, find?, ho, Ne.symm ho]
      · simp [insert, find?, ho, hk, ih]

end Table

end KernelWeaver
