import KernelWeaver.Merge.Group
import Mathlib.Data.List.Nodup

/-!
# Names of merged groups

A name of a merged group is its kind between two words, then its number, and for some a word behind
it. As long as the kind has no digits, the number and what is before it can be read off the name, so
that two groups share a name only if they have the same kind and the same number.
-/

namespace KernelWeaver.GroupId

variable {g h : GroupId} {name before behind kind kind' : String} {frame frame' : String × String}
  {n : Nat} {ids : List GroupId}

/-- All names of a merged group. -/
def names (g : GroupId) : List String :=
  [g.structName, g.deviceArray, g.hostArray, g.startTable, g.pushFunction]

/-! ### Reading a number off a name -/

/-- A text without digits. -/
def Digitless (s : String) : Prop := ∀ c ∈ s.toList, c.isDigit = false

instance (s : String) : Decidable (Digitless s) :=
  List.decidableBAll (fun c : Char => c.isDigit = false) s.toList

/-- What is before the first digit. -/
def stemOf (name : String) : List Char := name.toList.takeWhile (!·.isDigit)

/-- The digits. -/
def digitsOf (name : String) : List Char := name.toList.filter Char.isDigit

theorem Digitless.append (hbefore : Digitless before) (hbehind : Digitless behind) :
    Digitless (before ++ behind) := by
  intro c hc
  rw [String.toList_append, List.mem_append] at hc
  exact hc.elim (hbefore c) (hbehind c)

theorem Digitless.filter_isDigit (h : Digitless name) : name.toList.filter Char.isDigit = [] := by
  apply List.filter_eq_nil_iff.mpr
  intro c hc
  rw [h c hc]
  exact Bool.false_ne_true

theorem stemOf_numbered (hbefore : Digitless before) :
    stemOf (before ++ toString n ++ behind) = before.toList := by
  have hdigits : (toString n).toList ≠ [] := by
    rw [Nat.toString_eq_repr, Nat.toList_repr]
    exact Nat.toDigits_ne_nil
  obtain ⟨d, ds, hds⟩ := List.exists_cons_of_ne_nil hdigits
  have hd : d.isDigit = true := Text.isDigit_of_mem_toString (hds ▸ List.mem_cons_self)
  have hstem : ∀ c ∈ before.toList, (!c.isDigit) = true := by
    intro c hc
    rw [hbefore c hc, Bool.not_false]
  rw [stemOf, String.toList_append, String.toList_append, List.append_assoc,
    List.takeWhile_append_of_pos hstem, hds]
  simp [hd]

theorem digitsOf_numbered (hbefore : Digitless before) (hbehind : Digitless behind) :
    digitsOf (before ++ toString n ++ behind) = (toString n).toList := by
  have hall : (toString n).toList.filter Char.isDigit = (toString n).toList :=
    List.filter_eq_self.mpr fun _ => Text.isDigit_of_mem_toString
  rw [digitsOf, String.toList_append, String.toList_append, List.filter_append, List.filter_append,
    hbefore.filter_isDigit, hbehind.filter_isDigit, hall, List.nil_append, List.append_nil]

/-! ### The words around a kind -/

/-- The words before and behind the kind, for each of the names. -/
def frames : List (String × String) :=
  [("Merged", "Group"), ("d_merged", "Group"), ("merged", "Group"), ("d_merged", "GroupStartID"),
    ("pushMerged", "Group")]

/-- The kind between the two words. -/
def framed (kind : String) (frame : String × String) : String := frame.1 ++ kind ++ frame.2

theorem digitless_framed (hkind : Digitless kind) (hframe : frame ∈ frames) :
    Digitless (framed kind frame) := by
  have hwords : ∀ f ∈ frames, Digitless f.1 ∧ Digitless f.2 := by decide
  obtain ⟨hbefore, hbehind⟩ := hwords frame hframe
  exact (hbefore.append hkind).append hbehind

/-- The first letter and the last tell the words, whatever is between them. -/
theorem framed_inj (hframe : frame ∈ frames) (hframe' : frame' ∈ frames)
    (h : framed kind frame = framed kind' frame') : frame = frame' ∧ kind = kind' := by
  have hnonempty : ∀ f ∈ frames, f.1.toList ≠ [] ∧ f.2.toList ≠ [] := by decide
  have htell : ∀ f ∈ frames, ∀ f' ∈ frames, f.1.toList.head? = f'.1.toList.head? →
      f.2.toList.getLast? = f'.2.toList.getLast? → f = f' := by decide
  obtain ⟨hbefore, hbehind⟩ := hnonempty frame hframe
  obtain ⟨hbefore', hbehind'⟩ := hnonempty frame' hframe'
  have hlist : frame.1.toList ++ (kind.toList ++ frame.2.toList) =
      frame'.1.toList ++ (kind'.toList ++ frame'.2.toList) := by
    simpa [framed] using congrArg String.toList h
  have hhead := congrArg List.head? hlist
  rw [List.head?_append_of_ne_nil _ hbefore, List.head?_append_of_ne_nil _ hbefore'] at hhead
  have hlast := congrArg List.getLast? hlist
  rw [← List.append_assoc, ← List.append_assoc, List.getLast?_append_of_ne_nil _ hbehind,
    List.getLast?_append_of_ne_nil _ hbehind'] at hlast
  have hsame : frame = frame' := htell frame hframe frame' hframe' hhead hlast
  subst hsame
  exact ⟨rfl, String.toList_inj.mp (List.append_cancel_right (List.append_cancel_left hlist))⟩

/-! ### Distinct names -/

/-- What is behind the number, for each of the names. -/
def tails (g : GroupId) : List String :=
  ["", "", "", "", if g.onHost then "" else "ToDevice"]

theorem names_eq_map_zip (g : GroupId) :
    g.names = (frames.zip g.tails).map fun parts =>
      framed g.kind parts.1 ++ toString g.index ++ parts.2 := by
  simp [names, frames, tails, framed, structName, deviceArray, hostArray, startTable, pushFunction,
    ending, String.append_assoc]

theorem digitless_of_mem_tails (hname : name ∈ g.tails) : Digitless name := by
  have htails : ∀ onHost : Bool, ∀ tail ∈ tails ⟨"", 0, onHost⟩, Digitless tail := by decide
  exact htails g.onHost name hname

theorem exists_of_mem_names (hname : name ∈ g.names) :
    ∃ frame ∈ frames, ∃ tail ∈ g.tails,
      name = framed g.kind frame ++ toString g.index ++ tail := by
  rw [names_eq_map_zip, List.mem_map] at hname
  obtain ⟨⟨frame, tail⟩, hpair, rfl⟩ := hname
  obtain ⟨hframe, htail⟩ := List.of_mem_zip hpair
  exact ⟨frame, hframe, tail, htail, rfl⟩

theorem nodup_names (hkind : Digitless g.kind) : g.names.Nodup := by
  have hstems : g.names.map stemOf = frames.map fun frame => (framed g.kind frame).toList := by
    have hframes : (frames.zip g.tails).map Prod.fst = frames :=
      List.map_fst_zip (by simp [frames, tails])
    conv_rhs => rw [← hframes]
    rw [names_eq_map_zip, List.map_map, List.map_map]
    apply List.map_congr_left
    intro parts hparts
    exact stemOf_numbered (digitless_framed hkind (List.of_mem_zip hparts).1)
  apply List.Nodup.of_map stemOf
  rw [hstems]
  apply List.Nodup.map_on
  · intro frame hframe frame' hframe' h
    exact (framed_inj hframe hframe' (String.toList_inj.mp h)).1
  · decide

theorem eq_of_mem_names (hg : Digitless g.kind) (hh : Digitless h.kind) (hname : name ∈ g.names)
    (hname' : name ∈ h.names) : g.kind = h.kind ∧ g.index = h.index := by
  obtain ⟨frame, hframe, tail, htail, rfl⟩ := exists_of_mem_names hname
  obtain ⟨frame', hframe', tail', htail', heq⟩ := exists_of_mem_names hname'
  have hstem := congrArg stemOf heq
  rw [stemOf_numbered (digitless_framed hg hframe),
    stemOf_numbered (digitless_framed hh hframe')] at hstem
  have hdigits := congrArg digitsOf heq
  rw [digitsOf_numbered (digitless_framed hg hframe) (digitless_of_mem_tails htail),
    digitsOf_numbered (digitless_framed hh hframe') (digitless_of_mem_tails htail')] at hdigits
  constructor
  · exact (framed_inj hframe hframe' (String.toList_inj.mp hstem)).2
  · exact Text.eq_of_toList_toString_eq hdigits

/-- The names of groups are distinct if no two have the same kind and the same number. -/
theorem nodup_flatMap_names (hkinds : ∀ g ∈ ids, Digitless g.kind)
    (hids : (ids.map fun g => (g.kind, g.index)).Nodup) : (ids.flatMap names).Nodup := by
  rw [List.nodup_flatMap]
  constructor
  · intro g hg
    exact nodup_names (hkinds g hg)
  · apply (List.pairwise_map.mp hids).imp_of_mem
    intro g h hg hh hne name hname hname'
    obtain ⟨hkind, hindex⟩ := eq_of_mem_names (hkinds g hg) (hkinds h hh) hname hname'
    exact hne (Prod.ext hkind hindex)

end KernelWeaver.GroupId
