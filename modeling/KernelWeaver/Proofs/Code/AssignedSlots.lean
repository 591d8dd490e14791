import KernelWeaver.Proofs.Code.SlotDigits

/-!
# Slots on the right of assignments

Where each slot of a text stands between an equals sign and a semicolon, filling them with arguments
neither brings about nor destroys another, whatever the arguments begin and end with.
-/

namespace KernelWeaver.Code

variable {cs xs ys front rest : List Char} {c : Char} {k : Nat} {js ks : List Nat}

/-- A value between the equals sign of an assignment and its semicolon. -/
def assigned (value : List Char) : List Char := '=' :: ' ' :: (value ++ [';'])

/-- The slots of the text are those with the given numbers, in order, and each is what is
assigned. -/
inductive Assigns : List Nat → List Char → Prop where
  | none {cs : List Char} : slotDigits cs = [] → Assigns [] cs
  | next {k : Nat} {ks : List Nat} {front rest : List Char} : slotDigits front = [] →
      Assigns ks rest → Assigns (k :: ks) (front ++ (assigned (slot k).toList ++ rest))

theorem assigned_append (value rest : List Char) :
    assigned value ++ rest = '=' :: ' ' :: (value ++ ';' :: rest) := by
  simp [assigned]

namespace Assigns

theorem slotDigits_eq (h : Assigns ks cs) :
    slotDigits cs = ks.map fun k => (toString k).toList := by
  induction h with
  | none hnone => exact hnone
  | @next k ks front rest hfront _ ih =>
      rw [slotDigits_append (by simp [assigned, isInsideSlot]), hfront, assigned_append,
        List.nil_append]
      change slotDigits (['=', ' '] ++ ((slot k).toList ++ ([';'] ++ rest))) = _
      rw [slotDigits_append_of_not_mem (by decide), slotDigits_slot_append,
        slotDigits_append_of_not_mem (by decide), ih, List.map_cons]

theorem nil_of_not_mem (h : '$' ∉ cs) : Assigns [] cs := .none (slotDigits_of_not_mem h)

/-- One assignment. -/
theorem single (k : Nat) (h : slotDigits front = []) :
    Assigns [k] (front ++ assigned (slot k).toList) := by
  have hnext : Assigns [k] (front ++ (assigned (slot k).toList ++ [])) := .next h (.none rfl)
  rwa [List.append_nil] at hnext

/-- Text without dollars in front. -/
theorem append_left (h : Assigns ks ys) (hxs : '$' ∉ xs) : Assigns ks (xs ++ ys) := by
  cases h with
  | none hnone =>
      exact .none ((slotDigits_append_of_not_mem hxs ys).trans hnone)
  | next hfront hrest =>
      rw [← List.append_assoc]
      exact .next ((slotDigits_append_of_not_mem hxs _).trans hfront) hrest

/-- Where no slot can go on, texts are put behind one another. -/
theorem append (hxs : Assigns js xs) (hys : Assigns ks ys)
    (h : ∀ c ∈ ys.head?, isInsideSlot c = false) : Assigns (js ++ ks) (xs ++ ys) := by
  induction hxs with
  | none hnone =>
      cases hys with
      | none hys => exact .none (by rw [slotDigits_append h, hnone, hys]; rfl)
      | @next k ks front rest hfront hrest =>
          rw [← List.append_assoc]
          refine .next ?_ hrest
          cases front with
          | nil => rwa [List.append_nil]
          | cons c front =>
              have hfree : ∀ d ∈ (c :: front).head?, isInsideSlot d = false := h
              rw [slotDigits_append hfree, hnone, hfront]
              rfl
  | next hfront _ ih =>
      rw [List.append_assoc, List.append_assoc]
      exact .next hfront ih

/-- A character that is neither inside of an assigned slot nor beside it divides a text. -/
theorem split (h : Assigns ks (xs ++ c :: ys))
    (hc : ∀ k, c ∉ assigned (slot k).toList) :
    ∃ ks₁ ks₂, ks = ks₁ ++ ks₂ ∧ Assigns ks₁ xs ∧ Assigns ks₂ ys := by
  generalize htext : xs ++ c :: ys = text at h
  induction h generalizing xs with
  | none hnone =>
      have hin₁ : xs <:+: xs ++ c :: ys := (List.prefix_append _ _).isInfix
      have hin₂ : ys <:+: xs ++ c :: ys :=
        ((List.suffix_cons c ys).trans (List.suffix_append _ _)).isInfix
      exact ⟨[], [], rfl, .none (slotDigits_within (htext ▸ hin₁) hnone),
        .none (slotDigits_within (htext ▸ hin₂) hnone)⟩
  | @next k ks front rest hfront hrest ih =>
      rcases List.append_eq_append_iff.mp htext with ⟨more, rfl, htail⟩ | ⟨more, rfl, htail⟩
      · -- the character stands in front of the assignment
        cases more with
        | nil =>
            cases (List.cons.inj htail).1
            exact absurd List.mem_cons_self (hc k)
        | cons d more =>
            obtain ⟨rfl, rfl⟩ := List.cons.inj htail
            have hin₁ : xs <:+: xs ++ c :: more := (List.prefix_append _ _).isInfix
            have hin₂ : more <:+: xs ++ c :: more :=
              ((List.suffix_cons c more).trans (List.suffix_append _ _)).isInfix
            exact ⟨[], k :: ks, rfl, .none (slotDigits_within hin₁ hfront),
              .next (slotDigits_within hin₂ hfront) hrest⟩
      · rcases List.append_eq_append_iff.mp htail with ⟨mid, rfl, hrest'⟩ | ⟨mid, hmid, hrest'⟩
        · obtain ⟨ks₁, ks₂, rfl, h₁, h₂⟩ := ih hrest'.symm
          exact ⟨k :: ks₁, ks₂, rfl, .next hfront h₁, h₂⟩
        · cases mid with
          | nil =>
              rw [List.append_nil] at hmid
              obtain ⟨ks₁, ks₂, rfl, h₁, h₂⟩ := ih (show [] ++ c :: ys = _ from hrest')
              refine ⟨k :: ks₁, ks₂, rfl, ?_, h₂⟩
              rw [← hmid, ← List.append_nil (assigned _)]
              exact .next hfront h₁
          | cons d mid =>
              obtain ⟨rfl, -⟩ := List.cons.inj hrest'
              refine absurd ?_ (hc k)
              rw [hmid]
              simp

theorem of_cons (h : Assigns ks (c :: cs)) (hc : c ≠ '=') : Assigns ks cs := by
  generalize htext : c :: cs = text at h
  cases h with
  | none hnone => exact .none (slotDigits_within (htext ▸ (List.suffix_cons c cs).isInfix) hnone)
  | @next k ks front rest hfront hrest =>
      cases front with
      | nil => exact absurd (List.cons.inj htext).1 hc
      | cons d front =>
          obtain ⟨rfl, rfl⟩ := List.cons.inj htext
          exact .next (slotDigits_within (List.suffix_cons c front).isInfix hfront) hrest

theorem of_append_left (h : Assigns ks (xs ++ ys)) (hxs : '=' ∉ xs) : Assigns ks ys := by
  induction xs with
  | nil => exact h
  | cons c xs ih =>
      rw [List.mem_cons, not_or] at hxs
      exact ih (h.of_cons (Ne.symm hxs.1)) hxs.2

theorem of_concat (h : Assigns ks (cs ++ [c])) (hc : c ≠ ';') : Assigns ks cs := by
  generalize htext : cs ++ [c] = text at h
  induction h generalizing cs with
  | none hnone =>
      exact .none (slotDigits_within (htext ▸ (List.prefix_append cs [c]).isInfix) hnone)
  | @next k ks front rest hfront hrest ih =>
      rcases List.eq_nil_or_concat rest with rfl | ⟨rest, d, rfl⟩
      · have hend : cs ++ [c] = (front ++ '=' :: ' ' :: (slot k).toList) ++ [';'] := by
          rw [htext]
          simp [assigned]
        exact absurd (List.singleton_inj.mp (List.append_inj_right' hend rfl)) hc
      · rw [List.concat_eq_append, ← List.append_assoc, ← List.append_assoc] at htext
        obtain ⟨rfl, hd⟩ := List.append_inj' htext rfl
        rw [List.append_assoc]
        exact .next hfront (ih (by rw [List.concat_eq_append, List.singleton_inj.mp hd]))

theorem of_append_right (h : Assigns ks (xs ++ ys)) (hys : ';' ∉ ys) : Assigns ks xs := by
  induction ys using List.reverseRecOn with
  | nil => rwa [List.append_nil] at h
  | append_singleton ys c ih =>
      rw [List.mem_append, not_or, List.mem_singleton] at hys
      rw [← List.append_assoc] at h
      exact ih (h.of_concat (Ne.symm hys.2)) hys.1

/-- Blanks at the ends of a line do not matter. -/
theorem of_trim_eq {l m : String} (h : Assigns ks l.toList) (heq : Text.trim l = Text.trim m) :
    Assigns ks m.toList := by
  obtain ⟨front, back, hl, hfront, hback⟩ := Text.exists_eq_trimBy Text.isBlank l.toList
  obtain ⟨front', back', hm, hfront', hback'⟩ := Text.exists_eq_trimBy Text.isBlank m.toList
  have htrim : Text.trimBy Text.isBlank l.toList = Text.trimBy Text.isBlank m.toList :=
    String.ofList_injective heq
  rw [hl] at h
  have hinner := (h.of_append_left (not_mem_of_isBlank hfront rfl)).of_append_right
    (not_mem_of_isBlank hback rfl)
  rw [hm, ← htrim]
  refine append_left ?_ (not_mem_of_isBlank hfront' rfl)
  rw [← List.append_nil ks]
  exact hinner.append (nil_of_not_mem (not_mem_of_isBlank hback' rfl)) (head_isBlank hback')

theorem lineFeed_not_mem (k : Nat) : '\n' ∉ assigned (slot k).toList := by
  have hinside : '\n' ∉ '(' :: ((toString k).toList ++ [')']) := fun hmem => by
    cases isInsideSlot_of_mem (isDigits_toString k) hmem
  rw [assigned, toList_slot, List.cons_append, List.mem_cons, List.mem_cons, List.mem_cons,
    List.mem_append]
  rintro (h | h | h | h | h)
  · cases h
  · cases h
  · cases h
  · exact hinside h
  · cases List.mem_singleton.mp h

/-- One more line in front. -/
theorem cons_line {l : String} {ls : List String} (h : Assigns js l.toList)
    (hls : Assigns ks (listing ls)) : Assigns (js ++ ks) (listing (l :: ls)) := by
  have hnext : Assigns ks (['\n'] ++ listing ls) := hls.append_left (by decide)
  rw [listing_cons]
  refine h.append hnext fun c hc => ?_
  cases hc
  rfl

/-- Lines without slots in front. -/
theorem append_lines {ls ms : List String} (hls : ∀ l ∈ ls, slotDigits l.toList = [])
    (hms : Assigns ks (listing ms)) : Assigns ks (listing (ls ++ ms)) := by
  induction ls with
  | nil => exact hms
  | cons l ls ih =>
      rw [List.forall_mem_cons] at hls
      exact cons_line (.none hls.1) (ih hls.2)

theorem listing_of_trim_eq {ls ms : List String} (h : Assigns ks (listing ls))
    (heq : ls.map Text.trim = ms.map Text.trim) : Assigns ks (listing ms) := by
  induction ls generalizing ms ks with
  | nil =>
      obtain rfl : ms = [] := List.map_eq_nil_iff.mp heq.symm
      exact h
  | cons l ls ih =>
      cases ms with
      | nil => cases heq
      | cons m ms =>
          obtain ⟨hline, hrest⟩ := List.cons.inj heq
          rw [listing_cons] at h
          obtain ⟨ks₁, ks₂, rfl, h₁, h₂⟩ := h.split lineFeed_not_mem
          exact (h₁.of_trim_eq hline).cons_line (ih h₂ hrest)

/-- Code that is written to a stream keeps its slots. -/
theorem trimEnd_text {texts : List String} (h : Assigns ks (listing texts)) :
    Assigns ks (Text.trimEnd (CodeStream.empty.writeAll texts).text).toList := by
  have hlines := (CodeStream.gains_writeAll .empty texts).lines
  rw [← listing_flatMap_rawLines] at h
  have htext := h.listing_of_trim_eq hlines.symm
  rw [← toList_text] at htext
  obtain ⟨back, hback, hblank⟩ := Text.exists_eq_dropTrailing Text.isBlank
    (CodeStream.empty.writeAll texts).text.toList
  rw [hback] at htext
  rw [Text.trimEnd, String.toList_ofList]
  exact htext.of_append_right (not_mem_of_isBlank hblank rfl)

end Assigns

/-! ### Filled slots -/

/-- Assignments of values, each behind the text in front of it, and the text behind all of them. -/
def assignments (last : List Char) : List (List Char × List Char) → List Char
  | [] => last
  | (front, value) :: more => front ++ (assigned value ++ assignments last more)

theorem Assigns.exists_fronts (h : Assigns ks cs) :
    ∃ fronts last, fronts.length = ks.length ∧ (∀ part ∈ last :: fronts, slotDigits part = []) ∧
      cs = assignments last (fronts.zip (ks.map fun k => (slot k).toList)) := by
  induction h with
  | @none cs hnone => exact ⟨[], cs, rfl, by simpa using hnone, rfl⟩
  | @next k ks front rest hfront _ ih =>
      obtain ⟨fronts, last, hlength, hparts, rfl⟩ := ih
      rw [List.forall_mem_cons] at hparts
      refine ⟨front :: fronts, last, by simp [hlength], ?_, rfl⟩
      exact List.forall_mem_cons.mpr ⟨hparts.1, List.forall_mem_cons.mpr ⟨hfront, hparts.2⟩⟩

section Fill

variable {part other : List Char}

theorem replaceFrom_eq_self (other : List Char) (h : ¬part <:+: cs) :
    replaceFrom part other 0 cs = cs := by
  induction cs with
  | nil => rfl
  | cons c cs ih =>
      rw [List.infix_cons_iff, not_or] at h
      rw [replaceFrom_cons other h.1, ih h.2]

/-- A character that is not in the part divides the replacements. -/
theorem replaceFrom_append_cons {d : Char} (hd : d ∉ c :: part) (xs ys : List Char) :
    replaceFrom (c :: part) other 0 (xs ++ d :: ys) =
      replaceFrom (c :: part) other 0 xs ++ d :: replaceFrom (c :: part) other 0 ys := by
  have hfirst : ∀ {zs : List Char}, ¬c :: part <+: d :: zs := by
    rintro zs ⟨_, hzs⟩
    exact hd ((List.cons.inj hzs).1 ▸ List.mem_cons_self)
  induction hlength : xs.length using Nat.strong_induction_on generalizing xs with
  | h n ih =>
    cases xs with
    | nil => exact replaceFrom_cons other hfirst
    | cons x xs =>
        by_cases hpart : c :: part <+: x :: xs
        · obtain ⟨rest, hrest⟩ := hpart
          rw [← hrest, List.append_assoc, replaceFrom_part, replaceFrom_part, List.append_assoc,
            ih rest.length ?_ rest rfl]
          rw [← hlength, ← hrest, List.length_append, List.length_cons]
          omega
        · have hnot : ¬c :: part <+: x :: (xs ++ d :: ys) :=
            fun hprefix => hpart (prefix_of_prefix_append_cons hd hprefix)
          rw [List.cons_append, replaceFrom_cons other hnot, replaceFrom_cons other hpart,
            ih xs.length ?_ xs rfl, List.cons_append]
          rw [← hlength]
          exact Nat.lt_succ_self _

theorem not_mem_slot {d : Char} (hd : isInsideSlot d = false) (hne : d ≠ '$') (k : Nat) :
    d ∉ (slot k).toList := by
  rw [toList_slot, List.mem_cons, not_or]
  refine ⟨hne, fun hmem => ?_⟩
  rw [isInsideSlot_of_mem (isDigits_toString k) hmem] at hd
  cases hd

/-- Replacing a slot changes what is assigned only. -/
theorem replaceFrom_assignments (k : Nat) (other : List Char) {last : List Char}
    {parts : List (List Char × List Char)} (hlast : slotDigits last = [])
    (hparts : ∀ p ∈ parts, slotDigits p.1 = []) :
    replaceFrom (slot k).toList other 0 (assignments last parts) =
      assignments last (parts.map fun p => (p.1, replaceFrom (slot k).toList other 0 p.2)) := by
  have hequals : '=' ∉ (slot k).toList := not_mem_slot rfl (by decide) k
  have hblank : ' ' ∉ (slot k).toList := not_mem_slot rfl (by decide) k
  have hend : ';' ∉ (slot k).toList := not_mem_slot rfl (by decide) k
  induction parts with
  | nil => exact replaceFrom_eq_self other (not_infix_slot hlast k)
  | cons p parts ih =>
      obtain ⟨front, value⟩ := p
      rw [List.forall_mem_cons] at hparts
      have hfront := replaceFrom_eq_self other (not_infix_slot hparts.1 k)
      have hrest := ih hparts.2
      have hassigned := assigned_append value (assignments last parts)
      rw [toList_slot] at hequals hblank hend hfront hrest ⊢
      rw [assignments, hassigned, replaceFrom_append_cons hequals, hfront,
        ← List.nil_append (' ' :: _), replaceFrom_append_cons hblank, replaceFrom_append_cons hend,
        hrest, List.map_cons, assignments, assigned_append]
      rfl

theorem replaceFrom_slot_of_ne {i k : Nat} (h : i ≠ k) (other : List Char) :
    replaceFrom (slot i).toList other 0 (slot k).toList = (slot k).toList := by
  refine replaceFrom_eq_self other fun hin => ?_
  rw [toList_slot k, List.infix_cons_iff, ← toList_slot k] at hin
  rcases hin with hprefix | hinside
  · have heq := IsSlot.eq_of_begins ⟨i, rfl⟩ ⟨k, rfl⟩ hprefix
    exact h (slot_injective (String.toList_injective heq))
  · rw [toList_slot i] at hinside
    cases isInsideSlot_of_mem (isDigits_toString k) (hinside.subset List.mem_cons_self)

/-- `cs` with the slots from the number `first` on replaced by the arguments, the last argument
first. -/
def fillFrom (first : Nat) (args : List String) (cs : List Char) : List Char :=
  (args.zipIdx first).foldr (fun (arg, i) cs => replaceFrom (slot i).toList arg.toList 0 cs) cs

theorem toList_fillSlots (text : String) (args : List String) :
    (fillSlots text args).toList = fillFrom 0 args text.toList := by
  rw [fillSlots, String.toList_ofList, fillFrom]

theorem fillFrom_cons (first : Nat) (arg : String) (args : List String) (cs : List Char) :
    fillFrom first (arg :: args) cs =
      replaceFrom (slot first).toList arg.toList 0 (fillFrom (first + 1) args cs) := by
  rw [fillFrom, List.zipIdx_cons, List.foldr_cons, fillFrom]

variable {first : Nat} {args : List String}

theorem fillFrom_slot_of_lt (h : k < first) (args : List String) :
    fillFrom first args (slot k).toList = (slot k).toList := by
  induction args generalizing first with
  | nil => rfl
  | cons arg args ih =>
      rw [fillFrom_cons, ih (Nat.lt_succ_of_lt h)]
      exact replaceFrom_slot_of_ne (Nat.ne_of_gt h) arg.toList

/-- An argument without slots comes into the place of its slot. -/
theorem fillFrom_slot (hargs : ∀ arg ∈ args, slotDigits arg.toList = []) (hk : k < args.length) :
    fillFrom first args (slot (first + k)).toList = args[k].toList := by
  induction args generalizing first k with
  | nil => cases hk
  | cons arg args ih =>
      rw [List.forall_mem_cons] at hargs
      rw [fillFrom_cons]
      cases k with
      | zero =>
          have hown : replaceFrom (slot first).toList arg.toList 0 ((slot first).toList ++ []) =
              arg.toList ++ [] := by
            rw [toList_slot]
            exact replaceFrom_part _ arg.toList []
          rw [List.append_nil, List.append_nil] at hown
          have hkept := fillFrom_slot_of_lt (Nat.lt_add_one first) args
          rw [show first + 0 = first from rfl, hkept]
          exact hown
      | succ k =>
          have hlt : k < args.length := Nat.lt_of_succ_lt_succ hk
          have hnext : first + (k + 1) = first + 1 + k := by omega
          rw [hnext, ih hargs.2 hlt]
          exact replaceFrom_eq_self arg.toList
            (not_infix_slot (hargs.2 _ (List.getElem_mem hlt)) first)

theorem fillFrom_assignments {last : List Char} {parts : List (List Char × List Char)}
    (hlast : slotDigits last = []) (hparts : ∀ p ∈ parts, slotDigits p.1 = []) :
    fillFrom first args (assignments last parts) =
      assignments last (parts.map fun p => (p.1, fillFrom first args p.2)) := by
  induction args generalizing first with
  | nil => simp [fillFrom]
  | cons arg args ih =>
      have hfronts : ∀ p ∈ parts.map fun p => (p.1, fillFrom (first + 1) args p.2),
          slotDigits p.1 = [] := List.forall_mem_map.mpr hparts
      rw [fillFrom_cons, ih, replaceFrom_assignments first arg.toList hlast hfronts, List.map_map]
      simp only [fillFrom_cons]
      rfl

end Fill

/-- The slots of the text have the numbers below `count`, in order. Arguments without slots come
into their places, and nothing else of the text is changed. -/
structure TakesArguments (text : String) (count : Nat) : Prop where
  slots : slotDigits text.toList = (List.range count).map fun k => (toString k).toList
  fills : ∃ fronts last, fronts.length = count ∧ (∀ part ∈ last :: fronts, slotDigits part = []) ∧
    text.toList = assignments last (fronts.zip ((List.range count).map fun k => (slot k).toList)) ∧
    ∀ args : List String, args.length = count → (∀ arg ∈ args, slotDigits arg.toList = []) →
      (fillSlots text args).toList = assignments last (fronts.zip (args.map String.toList))

theorem Assigns.takesArguments {text : String} {count : Nat}
    (h : Assigns (List.range count) text.toList) : TakesArguments text count where
  slots := h.slotDigits_eq
  fills := by
    obtain ⟨fronts, last, hlength, hparts, htext⟩ := h.exists_fronts
    rw [List.length_range] at hlength
    refine ⟨fronts, last, hlength, hparts, htext, fun args hcount hargs => ?_⟩
    rw [List.forall_mem_cons] at hparts
    have hfronts : ∀ p ∈ fronts.zip ((List.range count).map fun k => (slot k).toList),
        slotDigits p.1 = [] := fun p hp => hparts.2 _ (List.of_mem_zip hp).1
    rw [toList_fillSlots, htext, fillFrom_assignments hparts.1 hfronts]
    have hvalues : ((List.range count).map fun k => fillFrom 0 args (slot k).toList) =
        args.map String.toList := by
      refine List.ext_getElem (by simp [hcount]) fun k _ hk => ?_
      rw [List.length_map] at hk
      have hslot : fillFrom 0 args (slot (0 + k)).toList = args[k].toList := fillFrom_slot hargs hk
      rw [Nat.zero_add] at hslot
      simpa using hslot
    rw [← hvalues, List.zip_map_right, List.zip_map_right, List.map_map]
    rfl

end KernelWeaver.Code
