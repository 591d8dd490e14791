import KernelWeaver.Text.Blank
import Mathlib.Data.List.TakeWhile

/-!
# Trimmed lines

Trimming a text does not depend on the blanks at its ends. Lines that are joined to a text are found
in it again, up to blanks.
-/

namespace KernelWeaver.Text

variable {p : Char → Bool} {cs front back : List Char} {c : Char}

theorem trimBy_append_left (h : ∀ c ∈ front, p c = true) :
    trimBy p (front ++ cs) = trimBy p cs := by
  rw [trimBy, trimBy, List.dropWhile_append, List.dropWhile_eq_nil_iff.mpr h]
  rfl

theorem trimBy_append_right (h : ∀ c ∈ back, p c = true) :
    trimBy p (cs ++ back) = trimBy p cs := by
  rw [trimBy, trimBy, List.dropWhile_append]
  split
  next hnil =>
    rw [List.isEmpty_iff.mp hnil, List.dropWhile_eq_nil_iff.mpr h]
  next =>
    rw [dropTrailing, List.reverse_append, List.dropWhile_append,
      List.dropWhile_eq_nil_iff.mpr (by simpa using h)]
    rfl

/-- What is dropped stands at the end. -/
theorem exists_eq_dropTrailing (p : Char → Bool) (cs : List Char) :
    ∃ back, cs = dropTrailing p cs ++ back ∧ ∀ c ∈ back, p c = true := by
  refine ⟨(cs.reverse.takeWhile p).reverse, ?_,
    fun c hc => List.mem_takeWhile_imp (List.mem_reverse.mp hc)⟩
  rw [dropTrailing, ← List.reverse_append, List.takeWhile_append_dropWhile, List.reverse_reverse]

/-- What is trimmed stands at both ends. -/
theorem exists_eq_trimBy (p : Char → Bool) (cs : List Char) :
    ∃ front back, cs = front ++ (trimBy p cs ++ back) ∧ (∀ c ∈ front, p c = true) ∧
      ∀ c ∈ back, p c = true := by
  refine ⟨cs.takeWhile p, ((cs.dropWhile p).reverse.takeWhile p).reverse, ?_,
    fun _ => List.mem_takeWhile_imp, fun c hc => List.mem_takeWhile_imp (List.mem_reverse.mp hc)⟩
  rw [trimBy, dropTrailing, ← List.reverse_append, List.takeWhile_append_dropWhile,
    List.reverse_reverse, List.takeWhile_append_dropWhile]

theorem trimBy_trimBy (p : Char → Bool) (cs : List Char) :
    trimBy p (trimBy p cs) = trimBy p cs := by
  obtain ⟨front, back, hsplit, hfront, hback⟩ := exists_eq_trimBy p cs
  conv => rhs; rw [hsplit]
  rw [trimBy_append_left hfront, trimBy_append_right hback]

theorem count_trimBy (h : p c = false) : (trimBy p cs).count c = cs.count c := by
  obtain ⟨front, back, hsplit, hfront, hback⟩ := exists_eq_trimBy p cs
  have hzero {ends : List Char} (hends : ∀ c ∈ ends, p c = true) : ends.count c = 0 :=
    List.count_eq_zero.mpr fun hmem => by simp [hends c hmem] at h
  conv => rhs; rw [hsplit, List.count_append, List.count_append, hzero hfront, hzero hback]
  omega

theorem getLast?_trimBy (h : (trimBy p cs).getLast? = some c) : p c = false := by
  rw [trimBy, dropTrailing, List.getLast?_reverse] at h
  have hlast := List.head?_dropWhile_not p (cs.dropWhile p).reverse
  rwa [h] at hlast

theorem mem_of_mem_trimBy (h : c ∈ trimBy p cs) : c ∈ cs := by
  rw [trimBy, dropTrailing, List.mem_reverse] at h
  have hmem := (List.dropWhile_suffix p).subset h
  exact (List.dropWhile_suffix p).subset (List.mem_reverse.mp hmem)

theorem trim_trim (text : String) : trim (trim text) = trim text := by
  rw [trim, trim, String.toList_ofList, trimBy_trimBy]

theorem trim_empty : trim "" = "" := rfl

/-! ### Pieces and lines -/

variable {separator : Char}

theorem not_mem_of_mem_pieces {piece : List Char} (h : piece ∈ pieces separator cs) :
    separator ∉ piece := by
  induction cs generalizing piece with
  | nil =>
      rw [pieces, List.mem_singleton] at h
      simp [h]
  | cons c cs ih =>
      rw [pieces] at h
      split at h
      next =>
        rcases List.mem_cons.mp h with rfl | h
        · simp
        · exact ih h
      next hc =>
        split at h
        next =>
          rw [List.mem_singleton] at h
          simpa [h] using Ne.symm hc
        next first rest heq =>
          rw [heq] at ih
          rcases List.mem_cons.mp h with rfl | h
          · simpa [Ne.symm hc] using ih List.mem_cons_self
          · exact ih (List.mem_cons_of_mem _ h)

theorem pieces_append_cons (h : separator ∉ front) :
    pieces separator (front ++ separator :: cs) = front :: pieces separator cs := by
  induction front with
  | nil => rw [List.nil_append, pieces, if_pos rfl]
  | cons c front ih =>
      rw [List.mem_cons, not_or] at h
      rw [List.cons_append, pieces, if_neg (Ne.symm h.1), ih h.2]

/-- A line without the carriage return at its end. -/
def withoutReturn (line : List Char) : List Char :=
  if line.getLast? = some '\r' then line.dropLast else line

theorem endedLines_concat (lines : List (List Char)) :
    endedLines (lines ++ [[]]) = lines.map withoutReturn := by
  induction lines with
  | nil => rfl
  | cons line lines ih =>
      obtain ⟨second, rest, hrest⟩ := List.exists_cons_of_ne_nil
        (show lines ++ [[]] ≠ [] by simp)
      rw [List.cons_append, hrest, endedLines, ← hrest, ih]
      · rfl
      · simp

theorem mem_of_mem_endedLines {lines : List (List Char)} {line : List Char}
    (h : line ∈ endedLines lines) : ∃ l ∈ lines, ∀ c ∈ line, c ∈ l := by
  fun_induction endedLines lines with
  | case1 => cases h
  | case2 last hempty => cases h
  | case3 last hlast => exact ⟨last, List.mem_singleton_self _, by simp_all⟩
  | case4 first rest hrest ih =>
      rcases List.mem_cons.mp h with rfl | h
      · refine ⟨first, List.mem_cons_self, fun c hc => ?_⟩
        split at hc
        · exact List.dropLast_subset _ hc
        · exact hc
      · obtain ⟨l, hl, hsub⟩ := ih h
        exact ⟨l, List.mem_cons_of_mem _ hl, hsub⟩

theorem not_mem_of_mem_lines {text line : String} (h : line ∈ lines text) :
    '\n' ∉ line.toList := by
  obtain ⟨cs, hcs, rfl⟩ := List.mem_map.mp h
  obtain ⟨piece, hpiece, hsub⟩ := mem_of_mem_endedLines hcs
  rw [String.toList_ofList]
  exact fun hmem => not_mem_of_mem_pieces hpiece (hsub _ hmem)

theorem trimBy_withoutReturn (line : List Char) :
    trimBy isBlank (withoutReturn line) = trimBy isBlank line := by
  rw [withoutReturn]
  split
  next h =>
    obtain ⟨front, rfl⟩ := List.getLast?_eq_some_iff.mp h
    rw [List.dropLast_concat]
    refine (trimBy_append_right fun c hc => ?_).symm
    rw [List.mem_singleton.mp hc]
    rfl
  next => rfl

theorem trim_ofList (cs : List Char) :
    trim (String.ofList cs) = String.ofList (trimBy isBlank cs) := by
  rw [trim, String.toList_ofList]

theorem not_mem_of_mem_rawLines {text line : String} (h : line ∈ rawLines text) :
    '\n' ∉ line.toList := by
  obtain ⟨piece, hpiece, rfl⟩ := List.mem_map.mp h
  rw [String.toList_ofList]
  exact not_mem_of_mem_pieces hpiece

theorem pieces_join {ls : List String} (h : ∀ l ∈ ls, '\n' ∉ l.toList) :
    pieces '\n' (String.join (ls.map (· ++ "\n"))).toList = ls.map String.toList ++ [[]] := by
  induction ls with
  | nil => rfl
  | cons l ls ih =>
      rw [List.forall_mem_cons] at h
      have hjoin : (String.join ((l :: ls).map (· ++ "\n"))).toList =
          l.toList ++ '\n' :: (String.join (ls.map (· ++ "\n"))).toList := by
        simp [String.join_cons]
      rw [hjoin, pieces_append_cons h.1, ih h.2]
      rfl

theorem lines_join_eq_map {ls : List String} (h : ∀ l ∈ ls, '\n' ∉ l.toList) :
    lines (String.join (ls.map (· ++ "\n"))) =
      ls.map fun l => String.ofList (withoutReturn l.toList) := by
  rw [lines, pieces_join h, endedLines_concat, List.map_map, List.map_map]
  rfl

/-- Lines that were joined are found again, up to blanks. -/
theorem lines_join {ls : List String} (h : ∀ l ∈ ls, '\n' ∉ l.toList) :
    (lines (String.join (ls.map (· ++ "\n")))).map trim = ls.map trim := by
  rw [lines_join_eq_map h, List.map_map]
  refine List.map_congr_left fun l _ => ?_
  rw [Function.comp_apply, trim_ofList, trimBy_withoutReturn]
  rfl

/-- No end of a line is in the line, nor does one begin with its last character. -/
def Whole (line : String) : Prop := '\n' ∉ line.toList ∧ line.toList.getLast? ≠ some '\r'

/-- Whole lines that were joined are found again as they are. -/
theorem lines_join_of_whole {ls : List String} (h : ∀ l ∈ ls, Whole l) :
    lines (String.join (ls.map (· ++ "\n"))) = ls := by
  rw [lines_join_eq_map fun l hl => (h l hl).1]
  refine (List.map_congr_left fun l hl => ?_).trans (List.map_id ls)
  rw [withoutReturn, if_neg (h l hl).2, String.ofList_toList]
  rfl

end KernelWeaver.Text
