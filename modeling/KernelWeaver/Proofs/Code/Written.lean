import KernelWeaver.Code.Scope
import KernelWeaver.Proofs.Text.Lines

/-!
# What is written to a stream

What is written to a stream is added to its lines, line by line and up to blanks at either end of a
line. So is the code of a scope that is flushed into it.
-/

namespace KernelWeaver.Code

namespace CodeStream

/-- No line of the stream has a line feed in it. -/
def Single (s : CodeStream) : Prop := ∀ line ∈ s.lines, '\n' ∉ line.toList

/-- The stream has the written lines behind those of the other, up to blanks at their ends. -/
structure Gains (s : CodeStream) (written : List String) (t : CodeStream) : Prop where
  lines : t.lines.map Text.trim = (s.lines ++ written).map Text.trim
  single : s.Single → t.Single

namespace Gains

variable {s t u : CodeStream} {ls ms : List String}

theorem refl (s : CodeStream) : s.Gains [] s := ⟨by rw [List.append_nil], fun h => h⟩

theorem trans (h : s.Gains ls t) (h' : t.Gains ms u) : s.Gains (ls ++ ms) u where
  lines := by
    rw [h'.lines, List.map_append, h.lines, ← List.map_append, List.append_assoc]
  single hs := h'.single (h.single hs)

/-- What matters of the written lines is the lines without blanks at their ends. -/
theorem of_trim_eq (h : s.Gains ls t) (heq : ls.map Text.trim = ms.map Text.trim) :
    s.Gains ms t where
  lines := by rw [h.lines, List.map_append, heq, List.map_append]
  single := h.single

end Gains

theorem toList_indent (depth : Nat) : ∀ c ∈ (indent depth).toList, c = ' ' := by
  intro c hc
  rw [indent, String.toList_ofList] at hc
  exact List.eq_of_mem_replicate hc

theorem trim_indent_append (depth : Nat) (line : String) :
    Text.trim (indent depth ++ line) = Text.trim line := by
  rw [Text.trim, String.toList_append, Text.trimBy_append_left, ← Text.trim]
  intro c hc
  rw [toList_indent depth c hc]
  rfl

theorem not_mem_indent_append {depth : Nat} {line : String} (h : '\n' ∉ line.toList) :
    '\n' ∉ (indent depth ++ line).toList := by
  rw [String.toList_append, List.mem_append, not_or]
  exact ⟨fun hmem => absurd (toList_indent depth _ hmem) (by decide), h⟩

variable {s : CodeStream} {text line block : String}

/-- A line that is added is the written one, with other blanks at its ends. -/
theorem gains_push {added : String} {depth : Nat} (htrim : Text.trim added = Text.trim line)
    (hadded : '\n' ∉ added.toList) : s.Gains [line] ⟨s.lines ++ [added], depth⟩ where
  lines := by
    rw [List.map_append, List.map_append, List.map_singleton, List.map_singleton, htrim]
  single hs l hl := by
    rcases List.mem_append.mp hl with hl | hl
    · exact hs l hl
    · rwa [List.mem_singleton.mp hl]

theorem gains_blank (s : CodeStream) : s.Gains [""] s.blank :=
  gains_push rfl List.not_mem_nil

theorem gains_writeLine (s : CodeStream) (h : '\n' ∉ line.toList) :
    s.Gains [line] (s.writeLine line) := by
  unfold writeLine
  dsimp only
  split
  next hempty =>
    have hline : Text.trim line = "" := String.isEmpty_iff.mp hempty
    exact gains_push (by rw [hline, Text.trim_empty]) List.not_mem_nil
  next =>
    have hline : '\n' ∉ (Text.trim line).toList := by
      rw [Text.trim, String.toList_ofList]
      exact fun hmem => h (Text.mem_of_mem_trimBy hmem)
    exact gains_push (by rw [trim_indent_append, Text.trim_trim]) (not_mem_indent_append hline)

/-- The lines of a text are written one by one. -/
theorem gains_line (s : CodeStream) (text : String) :
    s.Gains (Text.rawLines text) (s.line text) := by
  have hall : ∀ line ∈ Text.rawLines text, '\n' ∉ line.toList :=
    fun _ => Text.not_mem_of_mem_rawLines
  rw [line]
  generalize Text.rawLines text = ls at hall ⊢
  induction ls generalizing s with
  | nil => exact .refl s
  | cons line ls ih =>
      rw [List.forall_mem_cons] at hall
      exact (gains_writeLine s hall.1).trans (ih _ hall.2)

theorem gains_writeAll (s : CodeStream) (texts : List String) :
    s.Gains (texts.flatMap Text.rawLines) (s.writeAll texts) := by
  rw [writeAll]
  induction texts generalizing s with
  | nil => exact .refl s
  | cons text texts ih => exact (gains_line s text).trans (ih _)

theorem trim_shifted (depth : Nat) (line : String) :
    Text.trim (shifted depth line) = Text.trim line := by
  unfold shifted
  split
  next hempty => rw [Text.trim_empty, String.isEmpty_iff.mp hempty]
  next => exact trim_indent_append depth line

theorem not_mem_shifted {depth : Nat} (h : '\n' ∉ line.toList) :
    '\n' ∉ (shifted depth line).toList := by
  unfold shifted
  split
  next => exact List.not_mem_nil
  next => exact not_mem_indent_append h

/-- The lines of a block are appended. -/
theorem gains_appendBlock (s : CodeStream) (block : String) :
    s.Gains (Text.lines block) (s.appendBlock block) where
  lines := by
    have hshifted : ((Text.lines block).map (shifted s.depth)).map Text.trim =
        (Text.lines block).map Text.trim := by
      rw [List.map_map]
      exact List.map_congr_left fun line _ => trim_shifted s.depth line
    rw [appendBlock, List.map_append, List.map_append, hshifted]
  single hs line hline := by
    rcases List.mem_append.mp hline with hline | hline
    · exact hs line hline
    · obtain ⟨l, hl, rfl⟩ := List.mem_map.mp hline
      exact not_mem_shifted (Text.not_mem_of_mem_lines hl)

theorem gains_foldl_appendBlock (s : CodeStream) (blocks : List String) :
    s.Gains (blocks.flatMap Text.lines) (blocks.foldl appendBlock s) := by
  induction blocks generalizing s with
  | nil => exact .refl s
  | cons block blocks ih => exact (gains_appendBlock s block).trans (ih _)

/-- The text of a stream has the lines of the stream. -/
theorem trim_lines_text (h : s.Single) :
    (Text.lines s.text).map Text.trim = s.lines.map Text.trim :=
  Text.lines_join h

end CodeStream

/-- A scope is flushed as the code of its initialisers and its own lines behind that. -/
theorem Scope.gains_flushInto {s : Scope} (h : s.stream.Single) (target : CodeStream) :
    target.Gains (s.emitted.flatMap Text.lines ++ s.stream.lines) (s.flushInto target) := by
  have hemitted := target.gains_foldl_appendBlock s.emitted
  have hown := CodeStream.gains_appendBlock (s.emitted.foldl CodeStream.appendBlock target)
    s.stream.text
  exact hemitted.trans (hown.of_trim_eq (CodeStream.trim_lines_text h))

end KernelWeaver.Code
