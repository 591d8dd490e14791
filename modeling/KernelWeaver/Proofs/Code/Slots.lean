import KernelWeaver.Code.Template
import Mathlib.Data.List.Infix

/-!
# Slots filled at once

The arguments of a call are put in the place of their slots one after another, the last one first,
so a slot that an argument brings along is filled in its turn. Where no argument brings along the
slot of an earlier one, and none comes about where texts meet, the outcome is that of filling all
slots of the template at once.
-/

namespace KernelWeaver.Code

variable {part other before cs text : List Char} {c : Char} {p q : List Char × List Char}
  {fillings : List (List Char × List Char)}

/-- `text` with every occurrence of one of several parts, found from the left, replaced by what is
given for it, all at once; its first `skip` characters are left out. -/
def replaceAll (fillings : List (List Char × List Char)) (skip : Nat) : List Char → List Char
  | [] => []
  | c :: cs =>
    match skip with
    | skip + 1 => replaceAll fillings skip cs
    | 0 =>
      match fillings.find? (·.1.isPrefixOf (c :: cs)) with
      | some (part, other) => other ++ replaceAll fillings (part.length - 1) cs
      | none => c :: replaceAll fillings 0 cs

/-- The slots, each with its argument. -/
def slotFillings (args : List String) : List (List Char × List Char) :=
  args.zipIdx.map fun (arg, i) => ((slot i).toList, arg.toList)

/-- `text` with the slots replaced by the arguments at once: what an argument brings along stays as
it is. -/
def fillAtOnce (text : String) (args : List String) : String :=
  String.ofList (replaceAll (slotFillings args) 0 text.toList)

/-- The text ends inside a part that what follows may complete. -/
def EndsWithin (part text : List Char) : Prop :=
  ∃ u v, u ≠ [] ∧ v ≠ [] ∧ part = u ++ v ∧ u <:+ text

theorem EndsWithin.append_left (h : EndsWithin part text) (before : List Char) :
    EndsWithin part (before ++ text) := by
  obtain ⟨u, v, hu, hv, hpart, hsuffix⟩ := h
  exact ⟨u, v, hu, hv, hpart, hsuffix.trans (List.suffix_append before text)⟩

/-- At least the first character of the part stands in the text. -/
theorem EndsWithin.exists_cons (h : EndsWithin part text) (hpart : part = c :: cs) :
    ∃ u v, v ≠ [] ∧ cs = u ++ v ∧ c :: u <:+ text := by
  obtain ⟨u, v, hu, hv, rfl, hsuffix⟩ := h
  obtain ⟨d, u, rfl⟩ := List.exists_cons_of_ne_nil hu
  obtain ⟨rfl, hcs⟩ := List.cons_eq_cons.mp hpart
  exact ⟨u, v, hv, hcs.symm, hsuffix⟩

/-! ### One part -/

theorem replaceFrom_skip (part other before after : List Char) :
    replaceFrom part other before.length (before ++ after) = replaceFrom part other 0 after := by
  induction before with
  | nil => rfl
  | cons c before ih => rw [List.cons_append, List.length_cons, replaceFrom, ih]

theorem replaceFrom_part {c : Char} (part other after : List Char) :
    replaceFrom (c :: part) other 0 (c :: part ++ after) =
      other ++ replaceFrom (c :: part) other 0 after := by
  have hprefix : (c :: part).isPrefixOf (c :: (part ++ after)) = true :=
    List.isPrefixOf_iff_prefix.mpr (List.prefix_append (c :: part) after)
  rw [List.cons_append, replaceFrom, hprefix, if_pos rfl, List.length_cons, Nat.add_sub_cancel,
    replaceFrom_skip]

/-- Where the part does not begin, the text goes on. -/
theorem replaceFrom_cons (other : List Char) (h : ¬part <+: c :: cs) :
    replaceFrom part other 0 (c :: cs) = c :: replaceFrom part other 0 cs := by
  rw [replaceFrom, if_neg (mt List.isPrefixOf_iff_prefix.mp h)]

/-- A text in which the part neither occurs nor begins is kept. -/
theorem replaceFrom_append (other : List Char) (hnot : ¬part <:+: before)
    (hend : ¬EndsWithin part before) (after : List Char) :
    replaceFrom part other 0 (before ++ after) = before ++ replaceFrom part other 0 after := by
  induction before with
  | nil => rfl
  | cons c before ih =>
      have hprefix : ¬part <+: c :: (before ++ after) := by
        intro hpart
        rcases List.prefix_or_prefix_of_prefix hpart (List.prefix_append (c :: before) after) with
          hinside | ⟨v, hv⟩
        · exact hnot hinside.isInfix
        · have hne : v ≠ [] := by
            rintro rfl
            rw [List.append_nil] at hv
            exact hnot (hv ▸ List.infix_rfl)
          exact hend ⟨c :: before, v, List.cons_ne_nil c before, hne, hv.symm, List.suffix_rfl⟩
      have hrest := ih (fun hin => hnot (hin.trans (List.suffix_cons c before).isInfix))
        (fun hwithin => hend (hwithin.append_left [c]))
      rw [List.cons_append, replaceFrom_cons other hprefix, hrest]
      rfl

/-- What stands in front of all occurrences is kept. -/
theorem replaceFrom_append_of_not_mem (part other : List Char) (h : c ∉ before)
    (after : List Char) :
    replaceFrom (c :: part) other 0 (before ++ after) =
      before ++ replaceFrom (c :: part) other 0 after := by
  apply replaceFrom_append
  · exact fun hin => h (hin.subset List.mem_cons_self)
  · intro hwithin
    obtain ⟨u, v, -, -, hsuffix⟩ := hwithin.exists_cons rfl
    exact h (hsuffix.subset List.mem_cons_self)

/-! ### Several parts -/

theorem replaceAll_skip (fillings : List (List Char × List Char)) (before after : List Char) :
    replaceAll fillings before.length (before ++ after) = replaceAll fillings 0 after := by
  induction before with
  | nil => rfl
  | cons c before ih => rw [List.cons_append, List.length_cons, replaceAll, ih]

theorem replaceAll_part (hne : p.1 ≠ []) {after : List Char}
    (h : fillings.find? (·.1.isPrefixOf (p.1 ++ after)) = some p) :
    replaceAll fillings 0 (p.1 ++ after) = p.2 ++ replaceAll fillings 0 after := by
  obtain ⟨c, part, hpart⟩ := List.exists_cons_of_ne_nil hne
  rw [hpart, List.cons_append] at h ⊢
  rw [replaceAll, h]
  simp only [hpart, List.length_cons, Nat.add_sub_cancel, replaceAll_skip]

theorem prefix_of_find?_eq_some (h : fillings.find? (·.1.isPrefixOf text) = some q) :
    q.1 <+: text := by
  have hfound := List.find?_some h
  exact List.isPrefixOf_iff_prefix.mp hfound

theorem replaceAll_cons (h : ∀ q ∈ fillings, ¬q.1 <+: c :: cs) :
    replaceAll fillings 0 (c :: cs) = c :: replaceAll fillings 0 cs := by
  have hnone : fillings.find? (·.1.isPrefixOf (c :: cs)) = none := by
    rw [List.find?_eq_none]
    exact fun q hq => mt List.isPrefixOf_iff_prefix.mp (h q hq)
  rw [replaceAll, hnone]

/-- What is found at the front of the outcome was there before, or a part stands where it ends. -/
theorem prefix_of_prefix_replaceAll {w : List Char} (h : w <+: replaceAll fillings 0 text) :
    w <+: text ∨ ∃ u v, w = u ++ v ∧ v ≠ [] ∧ ∃ q ∈ fillings, u ++ q.1 <+: text := by
  induction w generalizing text with
  | nil => exact .inl List.nil_prefix
  | cons d w ih =>
      cases text with
      | nil => exact .inl h
      | cons c cs =>
          by_cases hfront : ∃ q ∈ fillings, q.1 <+: c :: cs
          · exact .inr ⟨[], d :: w, rfl, List.cons_ne_nil d w, hfront⟩
          · rw [replaceAll_cons (fun q hq hprefix => hfront ⟨q, hq, hprefix⟩),
              List.cons_prefix_cons] at h
            obtain ⟨rfl, hrest⟩ := h
            rcases ih hrest with hthere | ⟨u, v, rfl, hv, q, hq, hmeet⟩
            · exact .inl (List.cons_prefix_cons.mpr ⟨rfl, hthere⟩)
            · exact .inr ⟨d :: u, v, rfl, hv, q, hq, List.cons_prefix_cons.mpr ⟨rfl, hmeet⟩⟩

/-- What ends before the character does, ends before where it stands. -/
theorem prefix_of_prefix_append_cons {w rest : List Char} (hc : c ∉ w)
    (h : w <+: before ++ c :: rest) : w <+: before := by
  have hup : before ++ [c] <+: before ++ c :: rest :=
    (List.prefix_append_right_inj before).mpr (List.cons_prefix_cons.mpr ⟨rfl, List.nil_prefix⟩)
  have hmem : c ∈ before ++ [c] := List.mem_append_right before List.mem_cons_self
  rcases List.prefix_or_prefix_of_prefix h hup with hshort | hlong
  · rcases List.prefix_concat_iff.mp hshort with rfl | hbefore
    · exact absurd hmem hc
    · exact hbefore
  · exact absurd (hlong.subset hmem) hc

/-! ### Slots -/

/-- The slot of some argument. -/
def IsSlot (part : List Char) : Prop := ∃ i, part = (slot i).toList

theorem toList_slot (i : Nat) : (slot i).toList = '$' :: '(' :: ((toString i).toList ++ [')']) := by
  simp [slot]

theorem slot_injective : Function.Injective slot := by
  intro i j h
  have hlist := congrArg String.toList h
  rw [toList_slot, toList_slot] at hlist
  apply Text.eq_of_toList_toString_eq
  simpa using hlist

theorem not_mem_toString {i : Nat} (hc : c.isDigit = false) : c ∉ (toString i).toList := by
  intro hmem
  rw [Text.isDigit_of_mem_toString hmem] at hc
  exact Bool.noConfusion hc

namespace IsSlot

theorem exists_body (h : IsSlot part) : ∃ body, part = '$' :: body ∧ '$' ∉ body := by
  obtain ⟨i, rfl⟩ := h
  have hdigits : '$' ∉ (toString i).toList := not_mem_toString (by decide)
  refine ⟨_, toList_slot i, ?_⟩
  simpa [-Nat.toString_eq_repr] using hdigits

theorem ne_nil (h : IsSlot part) : part ≠ [] := by
  obtain ⟨body, rfl, -⟩ := h.exists_body
  exact List.cons_ne_nil '$' body

/-- No slot goes on as another one. -/
theorem eq_of_begins (hp : IsSlot part) (hq : IsSlot other) (h : part <+: other) :
    part = other := by
  obtain ⟨i, rfl⟩ := hp
  obtain ⟨j, rfl⟩ := hq
  have hclose : ')' ∉ (toString j).toList := not_mem_toString (by decide)
  rw [toList_slot, toList_slot, List.cons_prefix_cons, List.cons_prefix_cons,
    List.prefix_concat_iff] at h
  rcases h.2.2 with hwhole | hinside
  · rw [toList_slot, toList_slot, hwhole]
  · exact absurd (hinside.subset (List.mem_append_right _ List.mem_cons_self)) hclose

/-- A text has one slot at its front at most. -/
theorem eq_of_prefixes (hp : IsSlot part) (hq : IsSlot other) (hpart : part <+: text)
    (hother : other <+: text) : part = other :=
  (List.prefix_or_prefix_of_prefix hpart hother).elim (eq_of_begins hp hq)
    fun h => (eq_of_begins hq hp h).symm

end IsSlot

/-- A text without a dollar has no slot. -/
theorem replaceAll_append (hslots : ∀ q ∈ fillings, IsSlot q.1) (h : '$' ∉ before)
    (after : List Char) :
    replaceAll fillings 0 (before ++ after) = before ++ replaceAll fillings 0 after := by
  induction before with
  | nil => rfl
  | cons c before ih =>
      obtain ⟨hne, hnot⟩ := not_or.mp (mt List.mem_cons.mpr h)
      have hfront : ∀ q ∈ fillings, ¬q.1 <+: c :: (before ++ after) := by
        intro q hq hprefix
        obtain ⟨body, hbody, -⟩ := (hslots q hq).exists_body
        rw [hbody, List.cons_prefix_cons] at hprefix
        exact hne hprefix.1
      rw [List.cons_append, replaceAll_cons hfront, ih hnot]
      rfl

/-- A slot with its argument does not get in the way of a slot that is filled later: the argument
does not bring it along, and in the text none begins in front of it. -/
structure Apart (part : List Char) (q : List Char × List Char) (text : List Char) : Prop where
  isSlot : IsSlot q.1
  ne : q.1 ≠ part
  not_infix : ¬part <:+: q.2
  not_endsWithin : ¬EndsWithin part q.2
  not_before : ∀ before, before ++ q.1 <:+: text → ¬EndsWithin part before

theorem Apart.of_suffix (h : Apart part q text) (hcs : cs <:+ text) : Apart part q cs :=
  { h with not_before := fun before hin => h.not_before before (hin.trans hcs.isInfix) }

section Step

variable (hpart : IsSlot part) (hapart : ∀ q ∈ fillings, Apart part q text)

include hapart

/-- What is put into another slot is kept. -/
theorem replaceFrom_replaceAll_filled {rest : List Char} (hq : q ∈ fillings)
    (hfind : fillings.find? (·.1.isPrefixOf (q.1 ++ rest)) = some q) :
    replaceFrom part other 0 (replaceAll fillings 0 (q.1 ++ rest)) =
      q.2 ++ replaceFrom part other 0 (replaceAll fillings 0 rest) := by
  have hq := hapart q hq
  rw [replaceAll_part hq.isSlot.ne_nil hfind,
    replaceFrom_append other hq.not_infix hq.not_endsWithin]

include hpart

/-- The slot itself is there still when the others are filled. -/
theorem replaceFrom_replaceAll_part {rest : List Char} (htext : text = part ++ rest) :
    replaceFrom part other 0 (replaceAll fillings 0 text) =
      other ++ replaceFrom part other 0 (replaceAll fillings 0 rest) := by
  subst htext
  have hothers : ∀ q ∈ fillings, ¬q.1 <+: part ++ rest := by
    intro q hq hprefix
    exact (hapart q hq).ne ((hapart q hq).isSlot.eq_of_prefixes hpart hprefix
      (List.prefix_append part rest))
  obtain ⟨body, rfl, hbody⟩ := hpart.exists_body
  rw [List.cons_append] at hothers ⊢
  rw [replaceAll_cons hothers, replaceAll_append (fun q hq => (hapart q hq).isSlot) hbody]
  exact replaceFrom_part body other _

/-- The slot does not come about where another one is filled. -/
theorem replaceFrom_replaceAll_cons (htext : text = c :: cs) (hfront : ¬part <+: c :: cs)
    (hnone : ∀ q ∈ fillings, ¬q.1 <+: c :: cs) :
    replaceFrom part other 0 (replaceAll fillings 0 text) =
      c :: replaceFrom part other 0 (replaceAll fillings 0 cs) := by
  subst htext
  have hmeet : ¬part <+: c :: replaceAll fillings 0 cs := by
    intro hprefix
    obtain ⟨d, w, rfl⟩ := List.exists_cons_of_ne_nil hpart.ne_nil
    obtain ⟨rfl, hw⟩ := List.cons_prefix_cons.mp hprefix
    rcases prefix_of_prefix_replaceAll hw with hthere | ⟨u, v, rfl, hv, q, hq, hbefore⟩
    · exact hfront (List.cons_prefix_cons.mpr ⟨rfl, hthere⟩)
    · have hin : d :: u ++ q.1 <:+: d :: cs := (List.cons_prefix_cons.mpr ⟨rfl, hbefore⟩).isInfix
      apply (hapart q hq).not_before (d :: u) hin
      exact ⟨d :: u, v, List.cons_ne_nil d u, hv, rfl, List.suffix_rfl⟩
  rw [replaceAll_cons hnone, replaceFrom_cons other hmeet]

end Step

/-- One more slot is filled as if it had been filled with the others. -/
theorem replaceFrom_replaceAll (hpart : IsSlot part) (other : List Char)
    (hapart : ∀ q ∈ fillings, Apart part q text) :
    replaceFrom part other 0 (replaceAll fillings 0 text) =
      replaceAll ((part, other) :: fillings) 0 text := by
  induction hlength : text.length using Nat.strong_induction_on generalizing text with
  | h n ih =>
    have hbehind : ∀ front rest, text = front ++ rest → front ≠ [] →
        replaceFrom part other 0 (replaceAll fillings 0 rest) =
          replaceAll ((part, other) :: fillings) 0 rest := by
      rintro front rest rfl hne
      have hpos := List.length_pos_of_ne_nil hne
      rw [List.length_append] at hlength
      exact ih rest.length (by omega)
        (fun q hq => (hapart q hq).of_suffix (List.suffix_append front rest)) rfl
    by_cases hfront : part <+: text
    · -- the slot that is filled now
      obtain ⟨rest, rfl⟩ := hfront
      have hfirst : ((part, other) :: fillings).find? (·.1.isPrefixOf (part ++ rest)) =
          some (part, other) :=
        List.find?_cons_of_pos (List.isPrefixOf_iff_prefix.mpr (List.prefix_append part rest))
      rw [replaceFrom_replaceAll_part hpart hapart rfl, hbehind part rest rfl hpart.ne_nil]
      exact (replaceAll_part (p := (part, other)) hpart.ne_nil hfirst).symm
    · have hrest : ((part, other) :: fillings).find? (·.1.isPrefixOf text) =
          fillings.find? (·.1.isPrefixOf text) :=
        List.find?_cons_of_neg (mt List.isPrefixOf_iff_prefix.mp hfront)
      cases hfind : fillings.find? (·.1.isPrefixOf text) with
      | some q =>
          -- a slot that has been filled before
          have hq := List.mem_of_find?_eq_some hfind
          obtain ⟨rest, rfl⟩ := prefix_of_find?_eq_some hfind
          have hne := (hapart q hq).isSlot.ne_nil
          rw [replaceFrom_replaceAll_filled hapart hq hfind, hbehind q.1 rest rfl hne]
          exact (replaceAll_part hne (hrest.trans hfind)).symm
      | none =>
          cases text with
          | nil => rfl
          | cons c cs =>
              have hnone : ∀ q ∈ fillings, ¬q.1 <+: c :: cs := fun q hq hprefix =>
                List.find?_eq_none.mp hfind q hq (List.isPrefixOf_iff_prefix.mpr hprefix)
              rw [replaceFrom_replaceAll_cons hpart hapart rfl hfront hnone,
                hbehind [c] cs rfl (List.cons_ne_nil c []), replaceAll_cons]
              exact List.forall_mem_cons.mpr ⟨hfront, hnone⟩

/-! ### Filling one after another -/

theorem replaceAll_nil (text : List Char) : replaceAll [] 0 text = text := by
  induction text with
  | nil => rfl
  | cons c cs ih => rw [replaceAll_cons (fun q hq => absurd hq List.not_mem_nil), ih]

/-- Parts that are replaced one after another, the last one first, are replaced at once. -/
theorem foldr_replaceFrom (hslots : ∀ q ∈ fillings, IsSlot q.1)
    (hapart : fillings.Pairwise fun p q => Apart p.1 q text) :
    fillings.foldr (fun p cs => replaceFrom p.1 p.2 0 cs) text = replaceAll fillings 0 text := by
  induction fillings with
  | nil => exact (replaceAll_nil text).symm
  | cons p fillings ih =>
      obtain ⟨hp, hrest⟩ := List.pairwise_cons.mp hapart
      rw [List.foldr_cons, ih (fun q hq => hslots q (List.mem_cons_of_mem p hq)) hrest]
      exact replaceFrom_replaceAll (hslots p List.mem_cons_self) p.2 hp

/-- No argument brings along the slot of an earlier one, whole or begun at its end, and in the text
none is begun in front of the slot of a later one. -/
structure SlotsApart (text : String) (args : List String) : Prop where
  not_infix : ∀ i (hi : i < args.length), ∀ k < i, ¬(slot k).toList <:+: args[i].toList
  not_endsWithin : ∀ i (hi : i < args.length), ∀ k < i, ¬EndsWithin (slot k).toList args[i].toList
  not_before : ∀ i < args.length, ∀ k < i, ∀ before,
    before ++ (slot i).toList <:+: text.toList → ¬EndsWithin (slot k).toList before

/-- Texts whose dollars all begin slots, and arguments without a dollar, do not get in the way of
one another. -/
theorem SlotsApart.of_dollars {text : String} {args : List String}
    (htext : ∀ before after, text.toList = before ++ '$' :: after →
      ∃ j, (slot j).toList <+: '$' :: after)
    (hargs : ∀ arg ∈ args, '$' ∉ arg.toList) : SlotsApart text args where
  not_infix i hi k _ hin := by
    have hdollar : '$' ∈ (slot k).toList := toList_slot k ▸ List.mem_cons_self
    exact hargs _ (List.getElem_mem hi) (hin.subset hdollar)
  not_endsWithin i hi k _ hwithin := by
    obtain ⟨u, v, -, -, hsuffix⟩ := hwithin.exists_cons (toList_slot k)
    exact hargs _ (List.getElem_mem hi) (hsuffix.subset List.mem_cons_self)
  not_before i _ k _ before hin hwithin := by
    obtain ⟨u, v, hv, hslot, front, rfl⟩ := hwithin.exists_cons (toList_slot k)
    obtain ⟨x, y, hsplit⟩ := hin
    -- what the dollar in front of the slot begins has to end before the slot
    have hdollar : text.toList = (x ++ front) ++ '$' :: (u ++ ((slot i).toList ++ y)) := by
      rw [← hsplit]
      simp only [List.append_assoc, List.cons_append]
    obtain ⟨j, hj⟩ := htext _ _ hdollar
    obtain ⟨body, hbody, hnot⟩ := IsSlot.exists_body ⟨j, rfl⟩
    rw [hbody, List.cons_prefix_cons, toList_slot i, List.cons_append] at hj
    have hu : body <+: u := prefix_of_prefix_append_cons hnot hj.2
    have hinside : (slot j).toList <+: (slot k).toList := by
      rw [hbody, toList_slot k, hslot, List.cons_prefix_cons]
      exact ⟨rfl, hu.trans (List.prefix_append u v)⟩
    have heq := IsSlot.eq_of_begins ⟨j, rfl⟩ ⟨k, rfl⟩ hinside
    rw [hbody, toList_slot k, hslot] at heq
    injection heq with _ hwhole
    have hlength := hu.length_le
    rw [hwhole, List.length_append] at hlength
    exact hv (List.length_eq_zero_iff.mp (by omega))

theorem fillSlots_eq_foldr (text : String) (args : List String) :
    fillSlots text args = String.ofList
      ((slotFillings args).foldr (fun p cs => replaceFrom p.1 p.2 0 cs) text.toList) := by
  rw [fillSlots, slotFillings, List.foldr_map]

/-- The arguments of a call are put in the place of their slots as if all were filled at once,
unless an earlier slot comes about by filling a later one. -/
theorem fillSlots_eq_fillAtOnce {text : String} {args : List String} (h : SlotsApart text args) :
    fillSlots text args = fillAtOnce text args := by
  have hslots : ∀ q ∈ slotFillings args, IsSlot q.1 := by
    intro q hq
    obtain ⟨⟨arg, i⟩, -, rfl⟩ := List.mem_map.mp hq
    exact ⟨i, rfl⟩
  have hapart : (slotFillings args).Pairwise fun p q => Apart p.1 q text.toList := by
    rw [List.pairwise_iff_getElem]
    intro k i hk hi hki
    have hi' : i < args.length := by simpa [slotFillings] using hi
    simp only [slotFillings, List.getElem_map, List.getElem_zipIdx, Nat.zero_add]
    exact {
      isSlot := ⟨i, rfl⟩
      ne := fun heq => Nat.ne_of_gt hki (slot_injective (String.toList_injective heq))
      not_infix := h.not_infix i hi' k hki
      not_endsWithin := h.not_endsWithin i hi' k hki
      not_before := h.not_before i hi' k hki }
  rw [fillSlots_eq_foldr, foldr_replaceFrom hslots hapart, fillAtOnce]

/-- An argument that has the slot of an earlier one in it is changed. -/
example : fillSlots "g($(0), $(1))" ["1", "\"$(0)\""] = "g(1, \"1\")" ∧
    fillAtOnce "g($(0), $(1))" ["1", "\"$(0)\""] = "g(1, \"$(0)\")" := by decide

end KernelWeaver.Code
