import KernelWeaver.Proofs.Device.Memory

/-!
# Requests for room

Structs ask for room one after the other, and some are refused. Each request that is granted takes
its bytes from the first space with more room than that; one that is refused finds no such space and
changes nothing. So the bytes that a space was charged with and what is left of it always add up to
what it had at first, and a space that was charged is never used up.
-/

namespace KernelWeaver.MemorySpace

/-- An array of structs that is to be placed. -/
structure Request where
  struct : String
  bytes : Nat

/-- The answer to a request, and the spaces behind it. -/
def answer (spaces : List MemorySpace) (r : Request) : Except Error String × List MemorySpace :=
  match place spaces r.struct r.bytes with
  | .ok (name, after) => (.ok name, after)
  | .error e => (.error e, spaces)

/-- The spaces behind several requests, of which some may have been refused. -/
def afterAll (spaces : List MemorySpace) (requests : List Request) : List MemorySpace :=
  requests.foldl (fun spaces r => (answer spaces r).2) spaces

/-- The place of the first space with more room than some bytes. -/
def firstFit? (bytes : Nat) (spaces : List MemorySpace) : Option Nat :=
  spaces.findIdx? fun s => bytes < s.remaining

/-- The bytes of each request that is granted, with the place of the space that they are taken
from. -/
def charges : List MemorySpace → List Request → List (Nat × Nat)
  | _, [] => []
  | spaces, r :: rest =>
    let later := charges (answer spaces r).2 rest
    match firstFit? r.bytes spaces with
    | some i => (i, r.bytes) :: later
    | none => later

/-- The bytes that the space at a place is charged with. -/
def charged (i : Nat) (entries : List (Nat × Nat)) : Nat :=
  ((entries.filter fun entry => entry.1 = i).map Prod.snd).sum

/-- A space with some bytes less. -/
def debit (space : MemorySpace) (bytes : Nat) : MemorySpace :=
  { space with remaining := space.remaining - bytes }

/-- The space at the place is the first with more room than some bytes. -/
structure IsFirstFit (bytes : Nat) (spaces : List MemorySpace) (i : Nat) (space : MemorySpace) :
    Prop where
  found : spaces[i]? = some space
  fits : bytes < space.remaining
  first : ∀ j < i, ∀ other, spaces[j]? = some other → other.remaining ≤ bytes

variable {bytes i : Nat} {spaces : List MemorySpace} {space : MemorySpace} {r : Request}
  {rest : List Request} {entries : List (Nat × Nat)}

theorem isFirstFit_of_firstFit? (h : firstFit? bytes spaces = some i) :
    ∃ space, IsFirstFit bytes spaces i space := by
  obtain ⟨hlt, hfits, hfirst⟩ := List.findIdx?_eq_some_iff_getElem.mp h
  refine ⟨spaces[i], List.getElem?_eq_getElem hlt, by simpa using hfits, ?_⟩
  intro j hj other hother
  obtain ⟨hlt', rfl⟩ := List.getElem?_eq_some_iff.mp hother
  simpa using hfirst j hj

theorem firstFit?_eq_none_iff :
    firstFit? bytes spaces = none ↔ ∀ s ∈ spaces, s.remaining ≤ bytes := by
  rw [firstFit?, List.findIdx?_eq_none_iff]
  simp

/-- Bytes are taken from the first space that they fit in. -/
theorem IsFirstFit.take?_eq (h : IsFirstFit bytes spaces i space) :
    take? bytes spaces = some (space.name, spaces.set i (space.debit bytes)) := by
  obtain ⟨hlt, rfl⟩ := List.getElem?_eq_some_iff.mp h.found
  refine take?_eq_some_iff.mpr
    ⟨spaces.take i, spaces[i], spaces.drop (i + 1), ?_, ?_, h.fits, rfl, ?_⟩
  · rw [List.getElem_cons_drop, List.take_append_drop]
  · intro s hs
    obtain ⟨j, hj, rfl⟩ := List.mem_take_iff_getElem.mp hs
    exact h.first j (by omega) _ (List.getElem?_eq_getElem _)
  · exact List.set_eq_take_append_cons_drop.trans (if_pos hlt)

/-! ### One request -/

/-- A request is granted by the first space that it fits in, and charged to it. -/
theorem answer_of_firstFit (h : firstFit? r.bytes spaces = some i) :
    ∃ space, IsFirstFit r.bytes spaces i space ∧
      answer spaces r = (.ok space.name, spaces.set i (space.debit r.bytes)) := by
  obtain ⟨space, hspace⟩ := isFirstFit_of_firstFit? h
  refine ⟨space, hspace, ?_⟩
  rw [answer, place_eq_ok.mpr hspace.take?_eq]

/-- A request that fits nowhere is refused. -/
theorem answer_of_no_fit (h : firstFit? r.bytes spaces = none) :
    answer spaces r = (.error (.noRoom r.struct r.bytes), spaces) := by
  rw [answer, place, take?_eq_none_iff.mpr (firstFit?_eq_none_iff.mp h)]

theorem charges_of_firstFit (h : firstFit? r.bytes spaces = some i) :
    charges spaces (r :: rest) = (i, r.bytes) :: charges (answer spaces r).2 rest := by
  rw [charges, h]

theorem charges_of_no_fit (h : firstFit? r.bytes spaces = none) :
    charges spaces (r :: rest) = charges (answer spaces r).2 rest := by
  rw [charges, h]

theorem afterAll_cons : afterAll spaces (r :: rest) = afterAll (answer spaces r).2 rest := rfl

theorem charged_cons (i : Nat) (entry : Nat × Nat) :
    charged i (entry :: entries) = (if entry.1 = i then entry.2 else 0) + charged i entries := by
  by_cases h : entry.1 = i <;> simp [charged, h]

/-- The charges for one more request are added behind the others. -/
theorem charges_append (spaces : List MemorySpace) (front back : List Request) :
    charges spaces (front ++ back) =
      charges spaces front ++ charges (afterAll spaces front) back := by
  induction front generalizing spaces with
  | nil => rfl
  | cons r front ih =>
      rw [List.cons_append, afterAll_cons]
      cases hfit : firstFit? r.bytes spaces with
      | none => rw [charges_of_no_fit hfit, charges_of_no_fit hfit, ih]
      | some i =>
          rw [charges_of_firstFit hfit, charges_of_firstFit hfit, ih]
          rfl

/-! ### Accounts -/

/-- The account of the space at a place: what it was charged with and what is left are what there
was. A space that is charged had room, and one that had room never loses all of it. -/
structure Balanced (i : Nat) (space : MemorySpace) (entries : List (Nat × Nat))
    (now : List MemorySpace) (left : Nat) : Prop where
  found : now[i]? = some ⟨space.name, left⟩
  conserved : charged i entries + left = space.remaining
  hadRoom : ∀ bytes, (i, bytes) ∈ entries → 0 < space.remaining
  notUsedUp : 0 < space.remaining → 0 < left

/-- A space that nothing is taken from. -/
theorem Balanced.unchanged {now : List MemorySpace} (hfound : now[i]? = some space)
    (hentries : ∀ bytes, (i, bytes) ∉ entries) : Balanced i space entries now space.remaining where
  found := hfound
  conserved := by
    have hnone : entries.filter (fun entry => entry.1 = i) = [] := by
      rw [List.filter_eq_nil_iff]
      rintro ⟨j, bytes⟩ hmem hj
      rw [decide_eq_true_eq] at hj
      subst hj
      exact hentries bytes hmem
    rw [charged, hnone]
    exact Nat.zero_add _
  hadRoom bytes hmem := absurd hmem (hentries bytes)
  notUsedUp h := h

/-- A request leaves each space its name, and takes its bytes from the one it is charged to. -/
theorem balanced_answer (r : Request) (hspace : spaces[i]? = some space) :
    ∃ left, Balanced i space (charges spaces [r]) (answer spaces r).2 left := by
  cases hfit : firstFit? r.bytes spaces with
  | none =>
      rw [charges_of_no_fit hfit, answer_of_no_fit hfit]
      exact ⟨space.remaining, .unchanged hspace fun _ => List.not_mem_nil⟩
  | some j =>
      obtain ⟨chosen, hchosen, hanswer⟩ := answer_of_firstFit hfit
      rw [charges_of_firstFit hfit, hanswer]
      change ∃ left, Balanced i space [(j, r.bytes)] (spaces.set j (chosen.debit r.bytes)) left
      by_cases hji : j = i
      · subst hji
        cases hspace.symm.trans hchosen.found
        have hlt := hchosen.fits
        refine ⟨space.remaining - r.bytes, ?_, ?_, fun _ _ => Nat.zero_lt_of_lt hlt,
          fun _ => Nat.sub_pos_of_lt hlt⟩
        · rw [List.getElem?_set_self (List.getElem?_eq_some_iff.mp hspace).1]
          rfl
        · rw [charged_cons, if_pos rfl]
          change r.bytes + 0 + _ = _
          omega
      · refine ⟨space.remaining, .unchanged ?_ fun bytes hmem => ?_⟩
        · rw [List.getElem?_set_ne hji]
          exact hspace
        · cases List.mem_singleton.mp hmem
          exact hji rfl

/-- The account is kept by every request, granted or not. -/
theorem exists_balanced (requests : List Request) (hspace : spaces[i]? = some space) :
    ∃ left, Balanced i space (charges spaces requests) (afterAll spaces requests) left := by
  induction requests generalizing spaces space with
  | nil => exact ⟨space.remaining, .unchanged hspace fun _ => List.not_mem_nil⟩
  | cons r rest ih =>
      obtain ⟨between, hfirst⟩ := balanced_answer r hspace
      obtain ⟨left, hrest⟩ := ih hfirst.found
      have hall : charges spaces (r :: rest) =
          charges spaces [r] ++ charges (answer spaces r).2 rest :=
        charges_append spaces [r] rest
      have hsum : charged i (charges spaces (r :: rest)) =
          charged i (charges spaces [r]) + charged i (charges (answer spaces r).2 rest) := by
        rw [hall, charged, List.filter_append, List.map_append, List.sum_append, charged, charged]
      have hfirst' := hfirst.conserved
      have hrest' := hrest.conserved
      dsimp only at hrest'
      refine ⟨left, hrest.found, by omega, fun bytes hmem => ?_,
        fun h => hrest.notUsedUp (hfirst.notUsedUp h)⟩
      -- the space is charged for this request, or for a later one
      rw [hall, List.mem_append] at hmem
      rcases hmem with hmem | hmem
      · exact hfirst.hadRoom bytes hmem
      · have hbetween := hrest.hadRoom bytes hmem
        dsimp only at hbetween
        omega

theorem length_afterAll (spaces : List MemorySpace) (requests : List Request) :
    (afterAll spaces requests).length = spaces.length := by
  induction requests generalizing spaces with
  | nil => rfl
  | cons r rest ih =>
      rw [afterAll_cons, ih]
      cases hfit : firstFit? r.bytes spaces with
      | none => rw [answer_of_no_fit hfit]
      | some i =>
          obtain ⟨space, -, hanswer⟩ := answer_of_firstFit hfit
          rw [hanswer, List.length_set]

/-- Whatever has been asked for before, a request is granted by the first space with more room than
its bytes, which is charged with them and changes in nothing else; if there is none, it is refused
and nothing changes. At all times the bytes that a space was charged with and those left in it are
what it had at first, and at least one byte is left in every space that was ever charged. -/
theorem requests_are_served_first_fit (spaces : List MemorySpace) (requests : List Request) :
    (∀ r : Request,
      (∃ i space, IsFirstFit r.bytes (afterAll spaces requests) i space ∧
        answer (afterAll spaces requests) r =
          (.ok space.name, (afterAll spaces requests).set i (space.debit r.bytes)) ∧
        charges spaces (requests ++ [r]) = charges spaces requests ++ [(i, r.bytes)]) ∨
      ((∀ s ∈ afterAll spaces requests, s.remaining ≤ r.bytes) ∧
        answer (afterAll spaces requests) r =
          (.error (.noRoom r.struct r.bytes), afterAll spaces requests) ∧
        charges spaces (requests ++ [r]) = charges spaces requests)) ∧
    (afterAll spaces requests).length = spaces.length ∧
    ∀ i space, spaces[i]? = some space → ∃ left,
      (afterAll spaces requests)[i]? = some ⟨space.name, left⟩ ∧
      charged i (charges spaces requests) + left = space.remaining ∧
      ∀ bytes, (i, bytes) ∈ charges spaces requests → 1 ≤ left := by
  refine ⟨fun r => ?_, length_afterAll spaces requests, fun i space hspace => ?_⟩
  · have hcharges := charges_append spaces requests [r]
    cases hfit : firstFit? r.bytes (afterAll spaces requests) with
    | none =>
        rw [charges_of_no_fit hfit, charges, List.append_nil] at hcharges
        exact .inr ⟨firstFit?_eq_none_iff.mp hfit, answer_of_no_fit hfit, hcharges⟩
    | some i =>
        rw [charges_of_firstFit hfit, charges] at hcharges
        obtain ⟨space, hspace, hanswer⟩ := answer_of_firstFit hfit
        exact .inl ⟨i, space, hspace, hanswer, hcharges⟩
  · obtain ⟨left, hleft⟩ := exists_balanced requests hspace
    exact ⟨left, hleft.found, hleft.conserved,
      fun bytes hmem => hleft.notUsedUp (hleft.hadRoom bytes hmem)⟩

/-- Two spaces, with a request that is refused and one for no bytes among the others. -/
theorem requests_are_served_first_fit_refused :
    ∃ left, (afterAll [⟨"constant", 100⟩, ⟨"device", 1000⟩]
        [⟨"A", 60⟩, ⟨"B", 40⟩, ⟨"C", 5000⟩, ⟨"D", 0⟩, ⟨"E", 39⟩])[0]? = some ⟨"constant", left⟩ ∧
      charged 0 [(0, 60), (1, 40), (0, 0), (0, 39)] + left = 100 ∧ 1 ≤ left := by
  obtain ⟨-, -, haccounts⟩ := requests_are_served_first_fit
    [⟨"constant", 100⟩, ⟨"device", 1000⟩]
    [⟨"A", 60⟩, ⟨"B", 40⟩, ⟨"C", 5000⟩, ⟨"D", 0⟩, ⟨"E", 39⟩]
  obtain ⟨left, hfound, hconserved, hleft⟩ := haccounts 0 ⟨"constant", 100⟩ rfl
  exact ⟨left, hfound, hconserved, hleft 60 (by decide)⟩

end KernelWeaver.MemorySpace
