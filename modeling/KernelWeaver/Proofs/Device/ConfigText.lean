import KernelWeaver.Proofs.Device.BlockSizes
import KernelWeaver.Proofs.Device.Settings
import KernelWeaver.Proofs.Text.Lines
import Mathlib.Data.List.Induction
import Mathlib.Logic.Relation

/-!
# Configurations as texts

A text is accepted if each of its lines is blank, a comment, a heading or the setting of a key of
the area that the nearest heading above names, and if the device that is described can run a warp.
Of several settings of a key the last one counts, and a key that is not set has its standard value.
So settings of different keys may change places.
-/

namespace KernelWeaver

namespace Config

/-! ### Lines -/

/-- The line is blank or a comment. -/
def Remark (line : String) : Prop :=
  Text.trim line = "" ∨ ∃ rest, (Text.trim line).toList = '#' :: rest

/-- The line is the heading of an area. -/
def Heading (line area : String) : Prop :=
  ∃ inner, (Text.trim line).toList = '[' :: (inner ++ [']']) ∧
    area = Text.trim (String.ofList inner)

/-- The line gives a text to a name. The text ends where a comment begins. -/
def Assigns (line name text : String) : Prop :=
  ¬Remark line ∧ (∀ area, ¬Heading line area) ∧
    ∃ front back, (Text.trim line).toList = front ++ '=' :: back ∧ '=' ∉ front ∧
      name = Text.trim (String.ofList front) ∧
      text = Text.trim (String.ofList (back.takeWhile (· ≠ '#')))

/-- The line gives a value to a key. -/
def Sets (line : String) (key : Key) (v : key.Value) : Prop :=
  ∃ text, Assigns line key.name text ∧ key.Takes text v

variable {line area name text : String}

theorem remark_iff : Remark line ↔
    (Text.trim line).toList.isEmpty ∨ (Text.trim line).toList.head? = some '#' := by
  rw [Remark, ← List.head?_eq_some_iff, List.isEmpty_iff, String.toList_eq_nil_iff]

theorem heading_iff : Heading line area ↔
    ((Text.trim line).toList.head? = some '[' ∧ (Text.trim line).toList.getLast? = some ']') ∧
      area = Text.trim (String.ofList (Text.trim line).toList.tail.dropLast) := by
  rw [Heading]
  constructor
  · rintro ⟨inner, hcs, rfl⟩
    rw [hcs]
    refine ⟨⟨rfl, ?_⟩, ?_⟩
    · rw [← List.cons_append, List.getLast?_concat]
    · rw [List.tail_cons, List.dropLast_concat]
  · rintro ⟨⟨hhead, hlast⟩, rfl⟩
    obtain ⟨rest, hrest⟩ := List.head?_eq_some_iff.mp hhead
    rw [hrest] at hlast ⊢
    obtain ⟨front, hfront⟩ := List.getLast?_eq_some_iff.mp hlast
    cases front with
    | nil => cases hfront
    | cons c inner =>
        obtain ⟨rfl, rfl⟩ := List.cons.inj hfront
        exact ⟨inner, rfl, by simp⟩

/-- A list is cut at the first place of a character. -/
theorem cut_iff {c : Char} {cs front back : List Char} : cs = front ++ c :: back ∧ c ∉ front ↔
    c ∈ cs ∧ front = cs.takeWhile (· ≠ c) ∧ back = (cs.dropWhile (· ≠ c)).tail := by
  constructor
  · rintro ⟨rfl, hfront⟩
    have hpass : ∀ d ∈ front, decide (d ≠ c) = true := fun d hd =>
      decide_eq_true fun heq => hfront (heq ▸ hd)
    rw [List.takeWhile_append_of_pos hpass, List.dropWhile_append_of_pos hpass]
    simp
  · rintro ⟨hmem, rfl, rfl⟩
    constructor
    · cases hdrop : cs.dropWhile (· ≠ c) with
      | nil => simpa using List.dropWhile_eq_nil_iff.mp hdrop c hmem
      | cons d rest =>
          have hd := List.head?_dropWhile_not (fun d => decide (d ≠ c)) cs
          rw [hdrop] at hd
          obtain rfl : d = c := by simpa using hd
          conv => lhs; rw [← List.takeWhile_append_dropWhile (l := cs), hdrop]
          rfl
    · exact fun h => by simpa using List.mem_takeWhile_imp h

theorem not_remark_of_heading (h : Heading line area) : ¬Remark line := by
  obtain ⟨inner, hcs, -⟩ := h
  rw [remark_iff, hcs]
  simp

/-- What a line says. -/
inductive Says (line : String) : Line → Prop where
  | nothing : Remark line → Says line .nothing
  | area {area : String} : Heading line area → Says line (.area area)
  | assignment {name text : String} : Assigns line name text → Says line (.assignment name text)

theorem ofString_eq_ok_iff {said : Line} : Line.ofString line = .ok said ↔ Says line said := by
  unfold Line.ofString
  constructor
  · intro h
    dsimp only at h
    split at h
    next hremark =>
      cases h
      exact .nothing (remark_iff.mpr hremark)
    next hremark =>
      split at h
      next hbrackets =>
        cases h
        exact .area (heading_iff.mpr ⟨hbrackets, rfl⟩)
      next hbrackets =>
        split at h
        next hcontains =>
          cases h
          have hmem := List.contains_iff_mem.mp hcontains
          obtain ⟨hcs, hfront⟩ := cut_iff.mpr ⟨hmem, rfl, rfl⟩
          exact .assignment ⟨fun h => hremark (remark_iff.mp h),
            fun _ h => hbrackets (heading_iff.mp h).1, _, _, hcs, hfront, rfl, rfl⟩
        next => cases h
  · intro h
    cases h with
    | nothing hremark => exact if_pos (remark_iff.mp hremark)
    | area hheading =>
        have hremark := not_remark_of_heading hheading
        rw [heading_iff] at hheading
        rw [remark_iff] at hremark
        rw [if_neg hremark, if_pos hheading.1, hheading.2]
    | assignment hassigns =>
        obtain ⟨hremark, hheading, front, back, hcs, hfront, rfl, rfl⟩ := hassigns
        have hcut := cut_iff.mp ⟨hcs, hfront⟩
        rw [remark_iff] at hremark
        have hbrackets := fun h => hheading _ (heading_iff.mpr ⟨h, rfl⟩)
        dsimp only
        rw [if_neg hremark, if_neg hbrackets, if_pos (List.contains_iff_mem.mpr hcut.1),
          ← hcut.2.1, ← hcut.2.2]

/-! ### Areas -/

/-- The area of the lines behind the given ones: the last heading names it. -/
def Under (above : List String) (area : String) : Prop :=
  (∃ before line between, above = before ++ line :: between ∧ Heading line area ∧
    ∀ l ∈ between, ∀ a, ¬Heading l a) ∨
  (area = "" ∧ ∀ l ∈ above, ∀ a, ¬Heading l a)

variable {above lines : List String}

theorem Heading.unique {area' : String} (h : Heading line area) (h' : Heading line area') :
    area = area' := by
  rw [heading_iff] at h h'
  rw [h.2, h'.2]

theorem under_nil : Under [] area ↔ area = "" := by
  simp [Under]

theorem under_concat : Under (above ++ [line]) area ↔
    Heading line area ∨ (∀ a, ¬Heading line a) ∧ Under above area := by
  constructor
  · rintro (⟨before, l, between, hsplit, hl, hbetween⟩ | ⟨rfl, hnone⟩)
    · rcases List.eq_nil_or_concat' between with rfl | ⟨between, last, rfl⟩
      · obtain ⟨-, hline⟩ := List.append_inj' hsplit rfl
        cases hline
        exact .inl hl
      · rw [← List.cons_append, ← List.append_assoc] at hsplit
        obtain ⟨rfl, hline⟩ := List.append_inj' hsplit rfl
        cases hline
        refine .inr ⟨hbetween _ (by simp), .inl ⟨before, l, between, rfl, hl, fun m hm => ?_⟩⟩
        exact hbetween m (List.mem_append_left _ hm)
    · refine .inr ⟨hnone line (by simp), .inr ⟨rfl, fun m hm => ?_⟩⟩
      exact hnone m (List.mem_append_left _ hm)
  · rintro (hline | ⟨hline, ⟨before, l, between, rfl, hl, hbetween⟩ | ⟨rfl, hnone⟩⟩)
    · exact .inl ⟨above, line, [], rfl, hline, by simp⟩
    · refine .inl ⟨before, l, between ++ [line], by simp, hl, fun m hm => ?_⟩
      rcases List.mem_append.mp hm with hm | hm
      · exact hbetween m hm
      · rwa [List.mem_singleton.mp hm]
    · refine .inr ⟨rfl, fun m hm => ?_⟩
      rcases List.mem_append.mp hm with hm | hm
      · exact hnone m hm
      · rwa [List.mem_singleton.mp hm]

theorem Under.unique {area' : String} (h : Under above area) (h' : Under above area') :
    area = area' := by
  induction above using List.reverseRecOn with
  | nil => rw [under_nil.mp h, under_nil.mp h']
  | append_singleton above line ih =>
      rcases under_concat.mp h with h | ⟨hnone, h⟩
      · rcases under_concat.mp h' with h' | ⟨hnone, -⟩
        · exact h.unique h'
        · exact absurd h (hnone _)
      · rcases under_concat.mp h' with h' | ⟨-, h'⟩
        · exact absurd h' (hnone _)
        · exact ih h h'

/-! ### Settings -/

/-- Line `i` gives a value to a key of the area it stands in. -/
def SetAt (lines : List String) (i : Nat) (key : Key) (v : key.Value) : Prop :=
  ∃ line ∈ lines[i]?, Under (lines.take i) key.area ∧ Sets line key v

/-- The key has the value of the last line that sets it, or its standard value if none does. -/
def Given (lines : List String) (key : Key) (v : key.Value) : Prop :=
  (∃ i, SetAt lines i key v ∧ ∀ j w, i < j → ¬SetAt lines j key w) ∨
  (v = standard.get key ∧ ∀ i w, ¬SetAt lines i key w)

/-- Each line is blank, a comment, a heading or the setting of a key. -/
def Valid (lines : List String) : Prop :=
  ∀ i, ∀ line ∈ lines[i]?, Remark line ∨ (∃ area, Heading line area) ∨ ∃ key v, SetAt lines i key v

variable {config config' : Config} {key : Key} {v w : key.Value} {i : Nat}

theorem Says.unique {said said' : Line} (h : Says line said) (h' : Says line said') :
    said = said' :=
  Except.ok.inj ((ofString_eq_ok_iff.mpr h).symm.trans (ofString_eq_ok_iff.mpr h'))

theorem Sets.unique (h : Sets line key v) (h' : Sets line key w) : v = w := by
  obtain ⟨text, hassigns, hv⟩ := h
  obtain ⟨text', hassigns', hw⟩ := h'
  cases (Says.assignment hassigns).unique (.assignment hassigns')
  exact hv.unique hw

theorem SetAt.unique (h : SetAt lines i key v) (h' : SetAt lines i key w) : v = w := by
  obtain ⟨line, hline, -, hv⟩ := h
  obtain ⟨line', hline', -, hw⟩ := h'
  cases Option.mem_unique hline hline'
  exact hv.unique hw

/-- A key has one value. -/
theorem Given.unique (h : Given lines key v) (h' : Given lines key w) : v = w := by
  rcases h with ⟨i, hi, hlast⟩ | ⟨rfl, hnone⟩
  · rcases h' with ⟨j, hj, hlast'⟩ | ⟨-, hnone⟩
    · obtain rfl : i = j := Nat.le_antisymm
        (Nat.not_lt.mp fun hlt => hlast' i v hlt hi) (Nat.not_lt.mp fun hlt => hlast j w hlt hj)
      exact hi.unique hj
    · exact absurd hi (hnone i v)
  · rcases h' with ⟨j, hj, -⟩ | ⟨rfl, -⟩
    · exact absurd hj (hnone j w)
    · rfl

theorem not_setAt (h : lines.length ≤ i) : ¬SetAt lines i key v := by
  rintro ⟨line, hline, -⟩
  rw [List.getElem?_eq_none h] at hline
  cases hline

theorem setAt_concat_of_lt (h : i < lines.length) :
    SetAt (lines ++ [line]) i key v ↔ SetAt lines i key v := by
  rw [SetAt, SetAt, List.getElem?_append_left h, List.take_append_of_le_length (Nat.le_of_lt h)]

theorem setAt_concat_length : SetAt (lines ++ [line]) lines.length key v ↔
    Under lines key.area ∧ Sets line key v := by
  rw [SetAt, List.getElem?_concat_length, List.take_left]
  simp

theorem given_nil (key : Key) : Given [] key (standard.get key) :=
  .inr ⟨rfl, fun _ _ => not_setAt (Nat.zero_le _)⟩

theorem given_concat_of_sets (harea : Under lines key.area) (h : Sets line key v) :
    Given (lines ++ [line]) key v := by
  refine .inl ⟨lines.length, setAt_concat_length.mpr ⟨harea, h⟩, fun j w hj => not_setAt ?_⟩
  rw [List.length_append]
  exact hj

theorem given_concat_of_not_sets (hgiven : Given lines key v)
    (h : ∀ w, Under lines key.area → ¬Sets line key w) : Given (lines ++ [line]) key v := by
  have hset {i : Nat} {w : key.Value} (hi : SetAt (lines ++ [line]) i key w) :
      SetAt lines i key w := by
    rcases Nat.lt_trichotomy i lines.length with hlt | rfl | hgt
    · exact (setAt_concat_of_lt hlt).mp hi
    · obtain ⟨harea, hsets⟩ := setAt_concat_length.mp hi
      exact absurd hsets (h w harea)
    · refine absurd hi (not_setAt ?_)
      rw [List.length_append]
      exact hgt
  rcases hgiven with ⟨i, hi, hlast⟩ | ⟨rfl, hnone⟩
  · have hlt : i < lines.length := Nat.not_le.mp fun hle => not_setAt hle hi
    exact .inl ⟨i, (setAt_concat_of_lt hlt).mpr hi, fun j w hj hset' => hlast j w hj (hset hset')⟩
  · exact .inr ⟨rfl, fun i w hi => hnone i w (hset hi)⟩

theorem valid_concat : Valid (lines ++ [line]) ↔ Valid lines ∧
    (Remark line ∨ (∃ area, Heading line area) ∨
      ∃ (key : Key) (v : key.Value), Under lines key.area ∧ Sets line key v) := by
  constructor
  · intro h
    constructor
    · intro i l hl
      have hlt : i < lines.length := (List.getElem?_eq_some_iff.mp hl).1
      have hi := h i l (by rwa [List.getElem?_append_left hlt])
      simpa only [setAt_concat_of_lt hlt] using hi
    · simpa only [setAt_concat_length] using h lines.length line List.getElem?_concat_length
  · rintro ⟨hlines, hline⟩ i l hl
    have hle : i < lines.length + 1 := by
      simpa using (List.getElem?_eq_some_iff.mp hl).1
    rcases Nat.lt_succ_iff_lt_or_eq.mp hle with hlt | rfl
    · simp only [setAt_concat_of_lt hlt]
      exact hlines i l (by rwa [List.getElem?_append_left hlt] at hl)
    · rw [List.getElem?_concat_length] at hl
      cases hl
      simpa only [setAt_concat_length] using hline

/-! ### Reading -/

/-- Takes over what one line says: a setting or the name of another area. -/
def readLine (state : Config × String) (line : String) : Except ConfigFlaw (Config × String) := do
  match ← Line.ofString line with
  | .nothing => return state
  | .area name => return (state.1, name)
  | .assignment name text => return (← state.1.assign state.2 name text, state.2)

variable {state state' : Config × String}

theorem readLines_eq_foldlM (config : Config) (area : String) (lines : List String) :
    readLines config area lines = (lines.foldlM readLine (config, area)).map Prod.fst := by
  induction lines generalizing config area with
  | nil => rfl
  | cons line rest ih =>
      rw [readLines, List.foldlM_cons, readLine]
      cases Line.ofString line with
      | error flaw => rfl
      | ok said =>
          cases said with
          | nothing => exact ih config area
          | area name => exact ih config name
          | assignment name text =>
              simp only [ok_bind]
              cases config.assign area name text with
              | error flaw => rfl
              | ok config' => exact ih config' area

/-- A line is taken over in one of three ways. -/
theorem readLine_eq_ok_iff : readLine state line = .ok state' ↔
    (Remark line ∧ state' = state) ∨
    (∃ area, Heading line area ∧ state' = (state.1, area)) ∨
    ∃ (key : Key) (v : key.Value), key.area = state.2 ∧ Sets line key v ∧
      state' = (state.1.set key v, state.2) := by
  rw [readLine, bind_eq_ok]
  constructor
  · rintro ⟨said, hsaid, h⟩
    cases ofString_eq_ok_iff.mp hsaid with
    | nothing hremark => exact .inl ⟨hremark, (Except.ok.inj h).symm⟩
    | area hheading => exact .inr (.inl ⟨_, hheading, (Except.ok.inj h).symm⟩)
    | assignment hassigns =>
        obtain ⟨config, hassign, hpure⟩ := bind_eq_ok.mp h
        obtain ⟨key, v, harea, rfl, hv, rfl⟩ := assign_eq_ok_iff.mp hassign
        exact .inr (.inr ⟨key, v, harea, ⟨_, hassigns, hv⟩, (Except.ok.inj hpure).symm⟩)
  · rintro (⟨hremark, rfl⟩ | ⟨area, hheading, rfl⟩ | ⟨key, v, harea, ⟨text, hassigns, hv⟩, rfl⟩)
    · exact ⟨.nothing, ofString_eq_ok_iff.mpr (.nothing hremark), rfl⟩
    · exact ⟨.area area, ofString_eq_ok_iff.mpr (.area hheading), rfl⟩
    · refine ⟨_, ofString_eq_ok_iff.mpr (.assignment hassigns), bind_eq_ok.mpr ⟨_, ?_, rfl⟩⟩
      exact assign_eq_ok_iff.mpr ⟨key, v, harea, rfl, hv, rfl⟩

/-- The state behind lines that were read: it stands in their area, and has what they set. -/
structure Reads (lines : List String) (state : Config × String) : Prop where
  valid : Valid lines
  under : Under lines state.2
  given : ∀ key, Given lines key (state.1.get key)

theorem reads_nil : Reads [] (standard, "") where
  valid i line hline := by cases hline
  under := under_nil.mpr rfl
  given := given_nil

theorem Reads.concat (h : Reads lines state) (hline : readLine state line = .ok state') :
    Reads (lines ++ [line]) state' := by
  rcases readLine_eq_ok_iff.mp hline with
    ⟨hremark, rfl⟩ | ⟨area, hheading, rfl⟩ | ⟨key, v, harea, hsets, rfl⟩
  · refine ⟨valid_concat.mpr ⟨h.valid, .inl hremark⟩, under_concat.mpr (.inr ⟨?_, h.under⟩), ?_⟩
    · exact fun a ha => not_remark_of_heading ha hremark
    · exact fun key => given_concat_of_not_sets (h.given key) fun w _ ⟨_, hassigns, _⟩ =>
        hassigns.1 hremark
  · refine ⟨valid_concat.mpr ⟨h.valid, .inr (.inl ⟨area, hheading⟩)⟩,
      under_concat.mpr (.inl hheading), ?_⟩
    exact fun key => given_concat_of_not_sets (h.given key) fun w _ ⟨_, hassigns, _⟩ =>
      hassigns.2.1 area hheading
  · have hunder : Under lines key.area := harea ▸ h.under
    refine ⟨valid_concat.mpr ⟨h.valid, .inr (.inr ⟨key, v, hunder, hsets⟩)⟩,
      under_concat.mpr (.inr ⟨?_, h.under⟩), fun other => ?_⟩
    · obtain ⟨text, hassigns, -⟩ := hsets
      exact hassigns.2.1
    · by_cases hother : other = key
      · subst hother
        rw [get_set_self]
        exact given_concat_of_sets hunder hsets
      · rw [get_set_of_ne _ _ hother]
        refine given_concat_of_not_sets (h.given other) fun w harea' ⟨_, hassigns', _⟩ => ?_
        -- a line gives a text to one name only
        obtain ⟨text, hassigns, -⟩ := hsets
        have hsame := (Says.assignment hassigns).unique (.assignment hassigns')
        refine hother (Key.eq_of_area_of_name (harea'.unique hunder) ?_)
        exact (Line.assignment.inj hsame).1.symm

theorem reads_of_foldlM (h : lines.foldlM readLine (standard, "") = .ok state) :
    Reads lines state := by
  induction lines using List.reverseRecOn generalizing state with
  | nil =>
      cases h
      exact reads_nil
  | append_singleton lines line ih =>
      rw [List.foldlM_append] at h
      obtain ⟨middle, hlines, hline⟩ := bind_eq_ok.mp h
      rw [List.foldlM_cons] at hline
      obtain ⟨last, hline, hnil⟩ := bind_eq_ok.mp hline
      cases hnil
      exact (ih hlines).concat hline

theorem exists_foldlM_of_valid (h : Valid lines) :
    ∃ state, lines.foldlM readLine (standard, "") = .ok state := by
  induction lines using List.reverseRecOn with
  | nil => exact ⟨_, rfl⟩
  | append_singleton lines line ih =>
      obtain ⟨hlines, hline⟩ := valid_concat.mp h
      obtain ⟨state, hstate⟩ := ih hlines
      obtain ⟨state', hstate'⟩ : ∃ state', readLine state line = .ok state' := by
        simp only [readLine_eq_ok_iff]
        rcases hline with hremark | ⟨area, hheading⟩ | ⟨key, v, hunder, hsets⟩
        · exact ⟨_, .inl ⟨hremark, rfl⟩⟩
        · exact ⟨_, .inr (.inl ⟨area, hheading, rfl⟩)⟩
        · have harea := hunder.unique (reads_of_foldlM hstate).under
          exact ⟨_, .inr (.inr ⟨key, v, harea, hsets, rfl⟩)⟩
      refine ⟨state', ?_⟩
      rw [List.foldlM_append, hstate, ok_bind, List.foldlM_cons, hstate']
      rfl

theorem exists_readLines_of_valid (h : Valid lines) :
    ∃ config, readLines standard "" lines = .ok config := by
  obtain ⟨state, hstate⟩ := exists_foldlM_of_valid h
  exact ⟨state.1, by rw [readLines_eq_foldlM, hstate]; rfl⟩

theorem readLines_eq_ok_iff : readLines standard "" lines = .ok config ↔
    Valid lines ∧ ∀ key, Given lines key (config.get key) := by
  rw [readLines_eq_foldlM, map_eq_ok]
  constructor
  · rintro ⟨state, hstate, rfl⟩
    exact ⟨(reads_of_foldlM hstate).valid, (reads_of_foldlM hstate).given⟩
  · rintro ⟨hvalid, hgiven⟩
    obtain ⟨state, hstate⟩ := exists_foldlM_of_valid hvalid
    exact ⟨state, hstate, ext_get fun key =>
      ((reads_of_foldlM hstate).given key).unique (hgiven key)⟩

/-! ### Changed places -/

/-- Two neighbouring lines have changed places. Neither is a heading, and they do not give a text
to the same name. -/
inductive Swap : List String → List String → Prop where
  | intro (above below : List String) {first second : String} :
      (∀ area, ¬Heading first area) → (∀ area, ¬Heading second area) →
      (∀ name text text', Assigns first name text → ¬Assigns second name text') →
      Swap (above ++ first :: second :: below) (above ++ second :: first :: below)

/-- Lines that set different keys may have changed places, any number of times, but not across
headings. -/
abbrev Reordered : List String → List String → Prop := Relation.ReflTransGen Swap

variable {first second : String} {lines' : List String}

theorem Swap.symm (h : Swap lines lines') : Swap lines' lines := by
  obtain ⟨above, below, hfirst, hsecond, hnames⟩ := h
  exact .intro above below hsecond hfirst fun name text text' hassigns hassigns' =>
    hnames name text' text hassigns' hassigns

theorem readLine_comm (hfirst : ∀ area, ¬Heading first area)
    (hsecond : ∀ area, ¬Heading second area)
    (hnames : ∀ name text text', Assigns first name text → ¬Assigns second name text')
    (h : (readLine state first >>= fun s => readLine s second) = .ok state') :
    (readLine state second >>= fun s => readLine s first) = .ok state' := by
  obtain ⟨middle, h₁, h₂⟩ := bind_eq_ok.mp h
  rw [bind_eq_ok]
  rcases readLine_eq_ok_iff.mp h₁ with
    ⟨hremark, rfl⟩ | ⟨area, hheading, -⟩ | ⟨key, v, harea, hv, rfl⟩
  · exact ⟨state', h₂, readLine_eq_ok_iff.mpr (.inl ⟨hremark, rfl⟩)⟩
  · exact absurd hheading (hfirst area)
  · rcases readLine_eq_ok_iff.mp h₂ with
      ⟨hremark, rfl⟩ | ⟨area, hheading, -⟩ | ⟨other, w, harea', hw, rfl⟩
    · exact ⟨state, readLine_eq_ok_iff.mpr (.inl ⟨hremark, rfl⟩), h₁⟩
    · exact absurd hheading (hsecond area)
    · have hne : key ≠ other := by
        rintro rfl
        obtain ⟨text, hassigns, -⟩ := hv
        obtain ⟨text', hassigns', -⟩ := hw
        exact hnames _ _ _ hassigns hassigns'
      refine ⟨_, readLine_eq_ok_iff.mpr (.inr (.inr ⟨other, w, harea', hw, rfl⟩)), ?_⟩
      refine readLine_eq_ok_iff.mpr (.inr (.inr ⟨key, v, harea, hv, ?_⟩))
      rw [set_comm _ _ _ hne]

theorem Swap.readLines (h : Swap lines lines') (hread : readLines config area lines = .ok config') :
    Config.readLines config area lines' = .ok config' := by
  obtain ⟨above, below, hfirst, hsecond, hnames⟩ := h
  rw [readLines_eq_foldlM, map_eq_ok] at hread ⊢
  obtain ⟨state, hstate, rfl⟩ := hread
  refine ⟨state, ?_, rfl⟩
  rw [List.foldlM_append] at hstate ⊢
  obtain ⟨middle, habove, hbelow⟩ := bind_eq_ok.mp hstate
  rw [List.foldlM_cons] at hbelow
  obtain ⟨_, h₁, hbelow⟩ := bind_eq_ok.mp hbelow
  rw [List.foldlM_cons] at hbelow
  obtain ⟨last, h₂, hbelow⟩ := bind_eq_ok.mp hbelow
  have hboth := readLine_comm hfirst hsecond hnames (bind_eq_ok.mpr ⟨_, h₁, h₂⟩)
  obtain ⟨_, h₂', h₁'⟩ := bind_eq_ok.mp hboth
  rw [habove, ok_bind, List.foldlM_cons, h₂', ok_bind, List.foldlM_cons, h₁', ok_bind]
  exact hbelow

theorem Reordered.readLines_eq_ok_iff (h : Reordered lines lines') :
    readLines config area lines' = .ok config' ↔ readLines config area lines = .ok config' := by
  induction h with
  | refl => rfl
  | tail _ hswap ih =>
      exact ⟨fun h => ih.mp (hswap.symm.readLines h), fun h => hswap.readLines (ih.mpr h)⟩

/-! ### Accepted texts -/

variable {origin : String}

theorem ofText_eq_ok_iff_readLines : ofText origin text = .ok config ↔
    readLines standard "" (Text.lines text) = .ok config ∧
      0 < config.device.warpSize ∧ config.device.warpSize ≤ config.device.maxThreadsPerBlock := by
  rw [ofText, mapError_eq_ok, bind_eq_ok]
  simp only [checkDevice_eq_ok_iff, Nat.pos_iff_ne_zero]
  constructor
  · rintro ⟨read, hread, hwarp, hblock, rfl⟩
    exact ⟨hread, hwarp, hblock⟩
  · rintro ⟨hread, hwarp, hblock⟩
    exact ⟨config, hread, hwarp, hblock, rfl⟩

/-- Block sizes that are given are whole numbers of 32 threads, and so are the standard ones. -/
theorem Given.blockSize {kernel : Kernel} {n : Nat} (h : Given lines (.blockSize kernel) n) :
    n ≠ 0 ∧ 32 ∣ n := by
  rcases h with ⟨i, ⟨line, -, -, text, -, htakes⟩, -⟩ | ⟨rfl, -⟩
  · exact htakes.2
  · cases kernel <;> decide

end Config

open Config

/-- A text is accepted exactly if each of its lines is blank, a comment, a heading or the setting of
a key of its area by a text that spells a value of the key, and if the device that results can run a
warp. An accepted configuration has for each key the value of the last line that sets it, or else
the standard value, so that each block size in it is a positive multiple of 32. It stays as it is
where lines that set different keys change places within their area. -/
theorem config_has_last_settings (origin text : String) :
    ((∃ config, Config.ofText origin text = .ok config) ↔
      Valid (Text.lines text) ∧ ∃ warp block,
        Given (Text.lines text) (.property .warpSize) warp ∧
        Given (Text.lines text) (.property .maxThreadsPerBlock) block ∧
        0 < warp ∧ warp ≤ block) ∧
    (∀ config, Config.ofText origin text = .ok config →
      (∀ key v, Given (Text.lines text) key v ↔ v = config.get key) ∧
      ∀ kernel, config.preferences.manual.get kernel ≠ 0 ∧
        32 ∣ config.preferences.manual.get kernel) ∧
    ∀ text', Reordered (Text.lines text) (Text.lines text') → ∀ config,
      Config.ofText origin text' = .ok config ↔ Config.ofText origin text = .ok config := by
  refine ⟨⟨?_, ?_⟩, ?_, ?_⟩
  · rintro ⟨config, hconfig⟩
    obtain ⟨hread, hwarp, hblock⟩ := ofText_eq_ok_iff_readLines.mp hconfig
    obtain ⟨hvalid, hgiven⟩ := readLines_eq_ok_iff.mp hread
    exact ⟨hvalid, _, _, hgiven (.property .warpSize), hgiven (.property .maxThreadsPerBlock),
      hwarp, hblock⟩
  · rintro ⟨hvalid, warp, block, hgivenWarp, hgivenBlock, hwarp, hblock⟩
    obtain ⟨config, hread⟩ := exists_readLines_of_valid hvalid
    obtain ⟨-, hgiven⟩ := readLines_eq_ok_iff.mp hread
    obtain rfl : warp = config.device.warpSize := hgivenWarp.unique (hgiven _)
    obtain rfl : block = config.device.maxThreadsPerBlock := hgivenBlock.unique (hgiven _)
    exact ⟨config, ofText_eq_ok_iff_readLines.mpr ⟨hread, hwarp, hblock⟩⟩
  · intro config hconfig
    obtain ⟨hread, -⟩ := ofText_eq_ok_iff_readLines.mp hconfig
    obtain ⟨-, hgiven⟩ := readLines_eq_ok_iff.mp hread
    have hvalue (key : Key) (v : key.Value) : Given (Text.lines text) key v ↔ v = config.get key :=
      ⟨fun h => h.unique (hgiven key), fun h => h ▸ hgiven key⟩
    exact ⟨hvalue, fun kernel => (hgiven (.blockSize kernel)).blockSize⟩
  · intro text' hreordered config
    rw [ofText_eq_ok_iff_readLines, ofText_eq_ok_iff_readLines, hreordered.readLines_eq_ok_iff]

/-- The name and the warps of a device change places. -/
theorem config_has_last_settings_swapped : ∃ config,
    Config.ofText "device.cfg" "[device]\nwarp_size = 16\nname = t4 # small" = .ok config ∧
    Config.ofText "device.cfg" "[device]\nname = t4 # small\nwarp_size = 16" = .ok config ∧
    Given (Text.lines "[device]\nwarp_size = 16\nname = t4 # small") .deviceName "t4" := by
  have hread : ∃ config,
      Config.ofText "device.cfg" "[device]\nwarp_size = 16\nname = t4 # small" = .ok config ∧
        config.device.name = "t4" := by
    apply exists_ok_of_decide
    decide +kernel
  obtain ⟨config, hconfig, hname⟩ := hread
  obtain ⟨-, haccepted, hreordered⟩ := config_has_last_settings "device.cfg"
    "[device]\nwarp_size = 16\nname = t4 # small"
  refine ⟨config, hconfig, (hreordered _ (.single ?_) config).mpr hconfig,
    ((haccepted config hconfig).1 .deviceName "t4").mpr hname.symm⟩
  rw [show Text.lines _ = ["[device]", "warp_size = 16", "name = t4 # small"] by decide +kernel,
    show Text.lines _ = ["[device]", "name = t4 # small", "warp_size = 16"] by decide +kernel]
  have hfirst : Says "warp_size = 16" (.assignment "warp_size" "16") :=
    ofString_eq_ok_iff.mp (by decide +kernel)
  have hsecond : Says "name = t4 # small" (.assignment "name" "t4") :=
    ofString_eq_ok_iff.mp (by decide +kernel)
  refine .intro ["[device]"] [] (fun area h => ?_) (fun area h => ?_)
    fun name text text' h h' => ?_
  · cases hfirst.unique (.area h)
  · cases hsecond.unique (.area h)
  · obtain ⟨rfl, -⟩ := Line.assignment.inj (hfirst.unique (.assignment h))
    obtain ⟨hname, -⟩ := Line.assignment.inj (hsecond.unique (.assignment h'))
    exact absurd hname (by decide)

end KernelWeaver
