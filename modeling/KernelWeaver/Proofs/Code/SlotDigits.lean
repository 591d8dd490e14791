import KernelWeaver.Proofs.Code.Slots
import KernelWeaver.Proofs.Code.Written

/-!
# Where a text has slots

The slots of a text are found from the left. No slot comes about or is lost where texts meet at a
character that cannot stand inside of one, so code that is written to a stream has the slots of its
lines.
-/

namespace KernelWeaver.Code

/-- Characters of a slot behind its first one. -/
def isInsideSlot (c : Char) : Bool := c = '(' || c = ')' || c.isDigit

/-- The digits of the slot at the front of a text, if there is one. -/
def slotDigits? : List Char → Option (List Char)
  | '$' :: '(' :: cs =>
    let digits := cs.takeWhile Char.isDigit
    if digits ≠ [] ∧ (cs.dropWhile Char.isDigit).head? = some ')' then some digits else none
  | _ => none

/-- The digits of the slots of a text, from left to right. -/
def slotDigits : List Char → List (List Char)
  | [] => []
  | c :: cs => (slotDigits? (c :: cs)).toList ++ slotDigits cs

/-- A slot with some digits. -/
def numbered (digits : List Char) : List Char := '$' :: '(' :: (digits ++ [')'])

def IsDigits (digits : List Char) : Prop := digits ≠ [] ∧ ∀ d ∈ digits, d.isDigit = true

variable {cs xs ys digits : List Char} {c : Char}

theorem isDigits_toString (k : Nat) : IsDigits (toString k).toList := by
  refine ⟨?_, fun _ => Text.isDigit_of_mem_toString⟩
  rw [Nat.toString_eq_repr, Nat.toList_repr]
  exact Nat.toDigits_ne_nil

theorem slotDigits?_numbered (h : IsDigits digits) (rest : List Char) :
    slotDigits? (numbered digits ++ rest) = some digits := by
  have htake : (digits ++ ')' :: rest).takeWhile Char.isDigit = digits := by
    rw [List.takeWhile_append_of_pos h.2, List.takeWhile_cons_of_neg (by decide), List.append_nil]
  have hdrop : (digits ++ ')' :: rest).dropWhile Char.isDigit = ')' :: rest := by
    rw [List.dropWhile_append_of_pos h.2, List.dropWhile_cons_of_neg (by decide)]
  have htext : numbered digits ++ rest = '$' :: '(' :: (digits ++ ')' :: rest) := by
    simp [numbered]
  rw [htext, slotDigits?]
  simp only [htake, hdrop]
  exact if_pos ⟨h.1, rfl⟩

theorem slotDigits?_eq_some_iff :
    slotDigits? cs = some digits ↔ IsDigits digits ∧ numbered digits <+: cs := by
  constructor
  · intro h
    unfold slotDigits? at h
    split at h
    next cs =>
      dsimp only at h
      split at h
      next hdigits =>
        cases h
        have hsplit := List.takeWhile_append_dropWhile (p := Char.isDigit) (l := cs)
        refine ⟨⟨hdigits.1, fun _ => List.mem_takeWhile_imp⟩, (cs.dropWhile Char.isDigit).tail, ?_⟩
        have hclose := List.cons_head?_tail hdigits.2
        conv => rhs; rw [← hsplit, ← hclose]
        simp [numbered]
      next => cases h
    next => cases h
  · rintro ⟨hdigits, rest, rfl⟩
    exact slotDigits?_numbered hdigits rest

theorem isInsideSlot_of_mem (h : IsDigits digits) (hc : c ∈ '(' :: (digits ++ [')'])) :
    isInsideSlot c = true := by
  rw [List.mem_cons, List.mem_append, List.mem_singleton] at hc
  rcases hc with rfl | hc | rfl
  · rfl
  · rw [isInsideSlot, h.2 c hc, Bool.or_true]
  · rfl

theorem slotDigits_eq_nil_iff :
    slotDigits cs = [] ↔ ∀ digits, IsDigits digits → ¬numbered digits <:+: cs := by
  induction cs with
  | nil => simp [slotDigits, numbered]
  | cons c cs ih =>
      rw [slotDigits, List.append_eq_nil_iff, Option.toList_eq_nil_iff, ih,
        Option.eq_none_iff_forall_ne_some]
      simp only [ne_eq, slotDigits?_eq_some_iff, List.infix_cons_iff, not_or, not_and]
      exact ⟨fun h digits hdigits => ⟨h.1 digits hdigits, h.2 digits hdigits⟩,
        fun h => ⟨fun digits hdigits => (h digits hdigits).1,
          fun digits hdigits => (h digits hdigits).2⟩⟩

/-- A part of a text without slots has none. -/
theorem slotDigits_within (h : xs <:+: ys) (hnone : slotDigits ys = []) : slotDigits xs = [] :=
  slotDigits_eq_nil_iff.mpr fun digits hdigits hin =>
    slotDigits_eq_nil_iff.mp hnone digits hdigits (hin.trans h)

theorem slotDigits_of_not_mem (h : '$' ∉ cs) : slotDigits cs = [] :=
  slotDigits_eq_nil_iff.mpr fun _ _ hin => h (hin.subset List.mem_cons_self)

/-- Other markers are no slots. -/
theorem slotDigits_cons_of_not_digit (hc : c.isDigit = false) (cs : List Char) :
    slotDigits ('$' :: '(' :: c :: cs) = slotDigits ('(' :: c :: cs) := by
  have hnone : slotDigits? ('$' :: '(' :: c :: cs) = none := by
    rw [slotDigits?]
    simp only [List.takeWhile_cons, hc]
    exact if_neg fun h => h.1 rfl
  rw [slotDigits, hnone]
  rfl

/-- What stands in front of all dollars begins no slot. -/
theorem slotDigits_append_of_not_mem (h : '$' ∉ xs) (ys : List Char) :
    slotDigits (xs ++ ys) = slotDigits ys := by
  induction xs with
  | nil => rfl
  | cons c xs ih =>
      rw [List.mem_cons, not_or] at h
      have hnone : slotDigits? (c :: (xs ++ ys)) = none := by
        rw [Option.eq_none_iff_forall_ne_some]
        intro digits hsome
        obtain ⟨-, hprefix⟩ := slotDigits?_eq_some_iff.mp hsome
        exact h.1 (List.cons_prefix_cons.mp hprefix).1
      rw [List.cons_append, slotDigits, hnone, ih h.2]
      rfl

/-- No slot goes on with a character that is not inside of one. -/
theorem slotDigits_append (h : ∀ c ∈ ys.head?, isInsideSlot c = false) (xs : List Char) :
    slotDigits (xs ++ ys) = slotDigits xs ++ slotDigits ys := by
  induction xs with
  | nil => rfl
  | cons c xs ih =>
      have hfront : slotDigits? (c :: (xs ++ ys)) = slotDigits? (c :: xs) := by
        refine Option.ext fun digits => ?_
        rw [slotDigits?_eq_some_iff, slotDigits?_eq_some_iff]
        refine and_congr_right fun hdigits => ⟨fun hprefix => ?_, fun hprefix =>
          hprefix.trans (List.prefix_append (c :: xs) ys)⟩
        rcases List.prefix_or_prefix_of_prefix hprefix (List.prefix_append (c :: xs) ys) with
          hshort | ⟨v, hv⟩
        · exact hshort
        · cases v with
          | nil =>
              rw [← hv, List.append_nil]
          | cons d v =>
              -- the slot would go on with the first character behind
              rw [← hv, ← List.cons_append, List.prefix_append_right_inj] at hprefix
              obtain ⟨more, hys⟩ := hprefix
              have hd := h d (by rw [← hys]; rfl)
              have hmem : d ∈ '(' :: (digits ++ [')']) := by
                have htail := (List.cons.inj hv).2
                rw [← htail]
                simp
              rw [isInsideSlot_of_mem hdigits hmem] at hd
              cases hd
      rw [List.cons_append, slotDigits, hfront, ih, slotDigits, List.append_assoc]

theorem toList_slot_eq_numbered (k : Nat) : (slot k).toList = numbered (toString k).toList :=
  toList_slot k

theorem slotDigits_slot_append (k : Nat) (ys : List Char) :
    slotDigits ((slot k).toList ++ ys) = (toString k).toList :: slotDigits ys := by
  have hinside : '$' ∉ '(' :: ((toString k).toList ++ [')']) := by
    intro hmem
    cases isInsideSlot_of_mem (isDigits_toString k) hmem
  have hfront := slotDigits?_numbered (isDigits_toString k) ys
  rw [numbered, List.cons_append] at hfront
  rw [toList_slot, List.cons_append, slotDigits, hfront, slotDigits_append_of_not_mem hinside]
  rfl

/-- A text without slots has none of a call. -/
theorem not_infix_slot (h : slotDigits cs = []) (k : Nat) : ¬(slot k).toList <:+: cs :=
  toList_slot_eq_numbered k ▸ slotDigits_eq_nil_iff.mp h _ (isDigits_toString k)

/-! ### The slots of written code -/

theorem isInsideSlot_of_isBlank (h : Text.isBlank c = true) : isInsideSlot c = false := by
  rw [isInsideSlot, Bool.or_eq_false_iff, Bool.or_eq_false_iff, decide_eq_false_iff_not,
    decide_eq_false_iff_not]
  refine ⟨⟨?_, ?_⟩, ?_⟩
  · rintro rfl
    cases h
  · rintro rfl
    cases h
  · rw [Bool.eq_false_iff]
    intro hdigit
    have hrange : 48 ≤ c.toNat ∧ c.toNat ≤ 57 := by
      simpa [Char.isDigit, UInt32.le_iff_toNat_le] using hdigit
    simp only [Text.isBlank, Bool.or_eq_true, Bool.and_eq_true, decide_eq_true_eq] at h
    omega

/-- Lines one after another, each with a line feed behind it. -/
def listing (ls : List String) : List Char := ls.flatMap fun l => l.toList ++ ['\n']

theorem listing_cons (l : String) (ls : List String) :
    listing (l :: ls) = l.toList ++ '\n' :: listing ls := by
  rw [listing, List.flatMap_cons, List.append_assoc]
  rfl

theorem listing_append (ls ms : List String) : listing (ls ++ ms) = listing ls ++ listing ms :=
  List.flatMap_append

theorem toList_text (s : CodeStream) : s.text.toList = listing s.lines := by
  rw [CodeStream.text]
  induction s.lines with
  | nil => rfl
  | cons l ls ih =>
      rw [List.map_cons, String.join_cons, String.toList_append, ih, listing_cons]
      simp

theorem listing_rawLines (text : String) :
    listing (Text.rawLines text) = text.toList ++ ['\n'] := by
  have hpieces (cs : List Char) :
      ((Text.pieces '\n' cs).flatMap fun piece => piece ++ ['\n']) = cs ++ ['\n'] := by
    fun_induction Text.pieces '\n' cs with
    | case1 => rfl
    | case2 cs ih =>
        rw [List.flatMap_cons, ih]
        rfl
    | case3 c cs _ hnil ih =>
        rw [hnil] at ih
        simp at ih
    | case4 c cs _ first rest hrest ih =>
        rw [hrest, List.flatMap_cons] at ih
        rw [List.flatMap_cons, List.cons_append, List.cons_append, ih]
        rfl
  rw [listing, Text.rawLines, List.flatMap_map]
  simpa only [String.toList_ofList] using hpieces text.toList

theorem listing_flatMap_rawLines (texts : List String) :
    listing (texts.flatMap Text.rawLines) = listing texts := by
  induction texts with
  | nil => rfl
  | cons text texts ih =>
      rw [List.flatMap_cons, listing_append, listing_rawLines, ih, listing_cons, List.append_assoc]
      rfl

theorem not_mem_of_isBlank (h : ∀ c ∈ cs, Text.isBlank c = true) (hc : Text.isBlank c = false) :
    c ∉ cs := fun hmem => by
  rw [h c hmem] at hc
  cases hc

theorem head_isBlank (h : ∀ c ∈ cs, Text.isBlank c = true) :
    ∀ c ∈ cs.head?, isInsideSlot c = false :=
  fun c hc => isInsideSlot_of_isBlank (h c (List.mem_of_mem_head? hc))

theorem slotDigits_append_blanks (h : ∀ c ∈ ys, Text.isBlank c = true) (xs : List Char) :
    slotDigits (xs ++ ys) = slotDigits xs := by
  rw [slotDigits_append (head_isBlank h), slotDigits_of_not_mem (not_mem_of_isBlank h rfl),
    List.append_nil]

theorem slotDigits_trim (line : String) :
    slotDigits (Text.trim line).toList = slotDigits line.toList := by
  obtain ⟨front, back, hline, hfront, hback⟩ := Text.exists_eq_trimBy Text.isBlank line.toList
  rw [Text.trim, String.toList_ofList]
  conv => rhs; rw [hline]
  rw [slotDigits_append_of_not_mem (not_mem_of_isBlank hfront rfl), slotDigits_append_blanks hback]

theorem slotDigits_listing (ls : List String) :
    slotDigits (listing ls) = ls.flatMap fun l => slotDigits l.toList := by
  induction ls with
  | nil => rfl
  | cons l ls ih =>
      have hnext : slotDigits (['\n'] ++ listing ls) = slotDigits (listing ls) :=
        slotDigits_append_of_not_mem (by decide) _
      rw [List.singleton_append] at hnext
      rw [listing_cons, slotDigits_append (by simp [isInsideSlot]), hnext, ih, List.flatMap_cons]

/-- Code that is written to a stream has the slots of its lines. -/
theorem slotDigits_trimEnd_text (texts : List String) :
    slotDigits (Text.trimEnd (CodeStream.empty.writeAll texts).text).toList =
      texts.flatMap fun text => slotDigits text.toList := by
  have hlines := (CodeStream.gains_writeAll .empty texts).lines
  have htrim (ls : List String) : (ls.flatMap fun l => slotDigits l.toList) =
      (ls.map Text.trim).flatMap fun l => slotDigits l.toList := by
    rw [List.flatMap_map]
    simp only [slotDigits_trim]
  obtain ⟨back, hback, hblank⟩ := Text.exists_eq_dropTrailing Text.isBlank
    (CodeStream.empty.writeAll texts).text.toList
  rw [Text.trimEnd, String.toList_ofList, ← slotDigits_append_blanks hblank, ← hback, toList_text,
    slotDigits_listing, htrim, hlines, ← htrim, ← slotDigits_listing texts,
    ← listing_flatMap_rawLines, slotDigits_listing]
  rfl

end KernelWeaver.Code
