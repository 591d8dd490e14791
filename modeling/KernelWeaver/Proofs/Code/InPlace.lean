import KernelWeaver.Proofs.Code.Run
import KernelWeaver.Proofs.Code.Script
import KernelWeaver.Proofs.Code.Written

/-!
# Writing in place

Code that is written to a scope of its own and then flushed is the code that the same lines give
when they are written to the outer stream at once. Braces are counted where a line is written, and a
flushed block is only shifted, so both agree as long as the lines of the block close no brace that
they have not opened, and leave none open.
-/

namespace KernelWeaver.Code

/-- Something to write to a stream: the lines of a text, or an empty line. -/
inductive Writing where
  | line (text : String)
  | blank
deriving DecidableEq, Repr

namespace Writing

/-- The lines that are written one by one. -/
def lines : Writing → List String
  | line text => Text.rawLines text
  | blank => [""]

/-- Writes to a stream. -/
def write (s : CodeStream) : Writing → CodeStream
  | line text => s.line text
  | blank => s.blank

theorem write_eq_foldl (s : CodeStream) (w : Writing) :
    w.write s = w.lines.foldl CodeStream.writeLine s := by
  cases w with
  | line text => rfl
  | blank => rfl

theorem foldl_write (ws : List Writing) (s : CodeStream) :
    ws.foldl write s = (ws.flatMap lines).foldl CodeStream.writeLine s := by
  rw [List.foldl_flatMap]
  congr 1
  funext s w
  exact write_eq_foldl s w

theorem not_mem_of_mem_lines {w : Writing} {line : String} (h : line ∈ w.lines) :
    '\n' ∉ line.toList := by
  cases w with
  | line text => exact Text.not_mem_of_mem_rawLines h
  | blank =>
      rw [List.mem_singleton.mp h]
      exact List.not_mem_nil

end Writing

/-! ### Braces -/

/-- The braces that a line opens, less those that it closes. -/
def netBraces (line : String) : Int :=
  line.toList.count '\x7b' - line.toList.count '\x7d'

/-- Whether a line starts, behind its blanks, with a brace that closes. -/
def closesFirst (line : String) : Bool :=
  (Text.trim line).toList.head? = some '\x7d'

/-- With `depth` braces open in front of them, the lines close no brace that is not open, neither at
the front of a line nor up to its end, and no brace is open behind them. -/
def Closes (depth : Int) : List String → Prop
  | [] => depth = 0
  | line :: rest => (closesFirst line = true → 0 < depth) ∧ 0 ≤ depth + netBraces line ∧
      Closes (depth + netBraces line) rest

instance decidableCloses (depth : Int) (lines : List String) : Decidable (Closes depth lines) :=
  match lines with
  | [] => inferInstanceAs (Decidable (depth = 0))
  | line :: rest =>
    have : Decidable (Closes (depth + netBraces line) rest) := decidableCloses _ rest
    inferInstanceAs (Decidable (_ ∧ _ ∧ _))

/-- From no open brace on, what is written closes the braces that it opens, and no others. -/
abbrev Balanced (ws : List Writing) : Prop := Closes 0 (ws.flatMap Writing.lines)

theorem netBraces_trim (line : String) : netBraces (Text.trim line) = netBraces line := by
  rw [netBraces, netBraces, Text.trim, String.toList_ofList, Text.count_trimBy rfl,
    Text.count_trimBy rfl]

namespace CodeStream

variable {s t : CodeStream} {line : String} {depth : Nat}

/-! ### Depths that are not cut off at zero -/

theorem depths_add (hfirst : line.toList.head? = some '\x7d' → 0 < depth)
    (hnet : 0 ≤ depth + netBraces line) (more : Nat) :
    depths (more + depth) line.toList =
      (more + (depths depth line.toList).1, more + (depths depth line.toList).2) := by
  rw [netBraces] at hnet
  unfold depths
  dsimp only
  split
  next h =>
    have hdepth := hfirst h
    exact Prod.ext (by dsimp only; omega) (by dsimp only; omega)
  next => exact Prod.ext rfl (by dsimp only; omega)

theorem depths_snd (hfirst : line.toList.head? = some '\x7d' → 0 < depth)
    (hnet : 0 ≤ depth + netBraces line) :
    ((depths depth line.toList).2 : Int) = depth + netBraces line := by
  rw [netBraces] at hnet ⊢
  unfold depths
  dsimp only
  split
  next h =>
    have hdepth := hfirst h
    have hclosed : 0 < line.toList.count '\x7d' :=
      List.count_pos_iff.mpr (List.mem_of_head? h)
    dsimp only
    omega
  next =>
    dsimp only
    omega

theorem depth_writeLine (hfirst : closesFirst line = true → 0 < t.depth)
    (hnet : 0 ≤ t.depth + netBraces line) :
    ((t.writeLine line).depth : Int) = t.depth + netBraces line := by
  rw [closesFirst, decide_eq_true_eq] at hfirst
  rw [← netBraces_trim line] at hnet ⊢
  unfold writeLine
  dsimp only
  split
  next hempty =>
    rw [String.isEmpty_iff.mp hempty]
    rfl
  next => exact depths_snd hfirst hnet

/-! ### Lines that are found again -/

/-- The lines of the stream are the lines of its text. -/
def Intact (s : CodeStream) : Prop := ∀ line ∈ s.lines, Text.Whole line

theorem Intact.lines_text (h : s.Intact) : Text.lines s.text = s.lines :=
  Text.lines_join_of_whole h

theorem Intact.push {added : String} (h : s.Intact) (hadded : Text.Whole added) (depth : Nat) :
    Intact ⟨s.lines ++ [added], depth⟩ := by
  intro l hl
  rcases List.mem_append.mp hl with hl | hl
  · exact h l hl
  · rwa [List.mem_singleton.mp hl]

/-- A trimmed line does not end with a carriage return, whatever was written. -/
theorem whole_indent_append_trim (depth : Nat) (h : '\n' ∉ line.toList) :
    Text.Whole (indent depth ++ Text.trim line) := by
  constructor
  · refine not_mem_indent_append ?_
    rw [Text.trim, String.toList_ofList]
    exact fun hmem => h (Text.mem_of_mem_trimBy hmem)
  · rw [String.toList_append, List.getLast?_append]
    intro hlast
    rcases Option.or_eq_some_iff.mp hlast with hlast | ⟨-, hlast⟩
    · rw [Text.trim, String.toList_ofList] at hlast
      exact absurd (Text.getLast?_trimBy hlast) (by decide)
    · exact absurd (toList_indent depth _ (List.mem_of_getLast? hlast)) (by decide)

theorem Intact.writeLine (h : s.Intact) (hline : '\n' ∉ line.toList) :
    (s.writeLine line).Intact := by
  unfold CodeStream.writeLine
  dsimp only
  split
  next => exact h.push ⟨List.not_mem_nil, by decide⟩ _
  next => exact h.push (whole_indent_append_trim _ hline) _

theorem Intact.foldl_writeLine {ls : List String} (h : s.Intact)
    (hls : ∀ line ∈ ls, '\n' ∉ line.toList) : (ls.foldl CodeStream.writeLine s).Intact := by
  induction ls generalizing s with
  | nil => exact h
  | cons line ls ih =>
      rw [List.forall_mem_cons] at hls
      exact ih (h.writeLine hls.1) hls.2

/-! ### A block behind a stream -/

/-- The stream with a block behind its lines, shifted to its depth. The braces of both are open. -/
def continued (s t : CodeStream) : CodeStream :=
  ⟨s.lines ++ t.lines.map (shifted s.depth), s.depth + t.depth⟩

theorem continued_empty (s : CodeStream) : s.continued .empty = s := by
  rw [continued, empty, List.map_nil, List.append_nil]
  rfl

/-- A block that leaves no brace open is appended as it was written. -/
theorem appendBlock_text (s : CodeStream) (h : t.Intact) (hdepth : t.depth = 0) :
    s.appendBlock t.text = s.continued t := by
  rw [appendBlock, h.lines_text, continued, hdepth, Nat.add_zero]

theorem indent_add (m n : Nat) : indent (m + n) = indent m ++ indent n := by
  rw [indent, indent, indent, ← String.ofList_append, List.replicate_append_replicate, Nat.mul_add]

theorem shifted_indent_append (more : Nat) (h : (Text.trim line).isEmpty = false) :
    shifted more (indent depth ++ Text.trim line) = indent (more + depth) ++ Text.trim line := by
  rw [shifted, trim_indent_append, Text.trim_trim, if_neg (by simp [h]), indent_add,
    String.append_assoc]

/-- Behind a stream as in the block itself: the line is indented by as much more as the block is
shifted, for no depth is cut off at zero. -/
theorem continued_writeLine (s : CodeStream) (hfirst : closesFirst line = true → 0 < t.depth)
    (hnet : 0 ≤ t.depth + netBraces line) :
    (s.continued t).writeLine line = s.continued (t.writeLine line) := by
  rw [closesFirst, decide_eq_true_eq] at hfirst
  rw [← netBraces_trim line] at hnet
  unfold writeLine
  dsimp only
  split
  next =>
    rw [continued, continued, blank, blank, List.map_append, List.append_assoc]
    rfl
  next hempty =>
    have hdepths := depths_add hfirst hnet s.depth
    rw [continued, continued, List.map_append, List.map_singleton,
      shifted_indent_append _ (Bool.eq_false_iff.mpr hempty), List.append_assoc, hdepths]

/-- Lines that close the braces they open are written behind a stream as they are written to an
empty one. -/
theorem continued_foldl_writeLine (s : CodeStream) {ls : List String}
    (h : Closes t.depth ls) :
    ls.foldl writeLine (s.continued t) = s.continued (ls.foldl writeLine t) ∧
      (ls.foldl writeLine t).depth = 0 := by
  induction ls generalizing t with
  | nil => exact ⟨rfl, Int.ofNat_eq_zero.mp h⟩
  | cons line ls ih =>
      obtain ⟨hfirst, hnet, hrest⟩ := h
      have hfirst' : closesFirst line = true → 0 < t.depth :=
        fun hclose => Int.ofNat_lt.mp (hfirst hclose)
      rw [← depth_writeLine hfirst' hnet] at hrest
      rw [List.foldl_cons, List.foldl_cons, continued_writeLine s hfirst' hnet]
      exact ih hrest

theorem appendBlock_foldl_write (s : CodeStream) {ws : List Writing} (h : Balanced ws) :
    s.appendBlock (ws.foldl Writing.write .empty).text = ws.foldl Writing.write s := by
  rw [Writing.foldl_write, Writing.foldl_write]
  have hlines : ∀ line ∈ ws.flatMap Writing.lines, '\n' ∉ line.toList := by
    intro line hline
    obtain ⟨w, -, hw⟩ := List.mem_flatMap.mp hline
    exact Writing.not_mem_of_mem_lines hw
  have hempty : Intact .empty := by simp [Intact, empty]
  obtain ⟨hcontinued, hdepth⟩ := continued_foldl_writeLine (t := .empty) s h
  rw [continued_empty] at hcontinued
  rw [hcontinued, appendBlock_text s (hempty.foldl_writeLine hlines) hdepth]

end CodeStream

/-! ### Scopes -/

/-- A script that only writes, to its scope and to scopes inside, and the writings of all scopes in
order. Those of each scope inside close the braces that they open. -/
inductive Script.Writes : Script → List Writing → Prop
  | done : Script.Writes .done []
  | line {rest : Script} {ws : List Writing} (text : String) (hrest : rest.Writes ws) :
      Script.Writes (.act (.line text) rest) (.line text :: ws)
  | blank {rest : Script} {ws : List Writing} (hrest : rest.Writes ws) :
      Script.Writes (.act .blank rest) (.blank :: ws)
  | inside {child rest : Script} {us ws : List Writing} (fields : Option StructFields)
      (hchild : child.Writes us) (hclosed : Balanced us) (hrest : rest.Writes ws) :
      Script.Writes (.inside fields child rest) (us ++ ws)

theorem Chain.modifyStream_modifyStream (c : Chain) (f g : CodeStream → CodeStream) :
    (c.modifyStream f).modifyStream g = c.modifyStream (g ∘ f) := by
  obtain ⟨scopes, sink⟩ := c
  cases scopes with
  | nil => rfl
  | cons s outer => rfl

theorem Emit.runOn_within {fields : Option StructFields} {m : Emit Unit} {c c₁ : Chain}
    (h : m.runOn (c.push (.empty fields)) = (.ok (), c₁)) :
    (Emit.within fields m).runOn c = (.ok (), c₁.pop) := by
  cases fields with
  | none => exact Emit.runOn_afterwards_eq_ok.mpr ⟨c₁, h, rfl⟩
  | some fields =>
      let last := (c₁.scopes.head?.bind Scope.fields).getD fields
      refine Emit.runOn_bind_eq_ok.mpr ⟨((), last), c₁.pop, ?_, rfl⟩
      refine Emit.runOn_afterwards_eq_ok.mpr ⟨c₁, ?_, rfl⟩
      exact Emit.runOn_bind_eq_ok.mpr ⟨(), c₁, h, rfl⟩

/-- A scope that has only been written to is flushed as a block. -/
theorem Chain.pop_modifyStream_push (c : Chain) (fields : Option StructFields)
    (f : CodeStream → CodeStream) :
    ((c.push (.empty fields)).modifyStream f).pop =
      c.modifyStream (·.appendBlock (f .empty).text) := rfl

/-- A script that only writes has the effect of its writings in place. -/
theorem Script.Writes.runOn {script : Script} {ws : List Writing} (h : script.Writes ws)
    (c : Chain) :
    script.run.runOn c = (.ok (), c.modifyStream fun s => ws.foldl Writing.write s) := by
  induction h generalizing c with
  | done =>
      obtain ⟨scopes, sink⟩ := c
      cases scopes <;> rfl
  | line text _ ih =>
      refine Emit.runOn_bind_eq_ok.mpr ⟨(), c.modifyStream (·.line text), rfl, ?_⟩
      rw [ih, Chain.modifyStream_modifyStream]
      rfl
  | blank _ ih =>
      refine Emit.runOn_bind_eq_ok.mpr ⟨(), c.modifyStream .blank, rfl, ?_⟩
      rw [ih, Chain.modifyStream_modifyStream]
      rfl
  | @inside child rest us ws fields _ hclosed _ ihchild ih =>
      have hwithin := Emit.runOn_within (ihchild (c.push (.empty fields)))
      rw [Chain.pop_modifyStream_push] at hwithin
      refine Emit.runOn_bind_eq_ok.mpr ⟨(), _, hwithin, ?_⟩
      rw [ih, Chain.modifyStream_modifyStream]
      congr 2
      funext s
      rw [Function.comp_apply, CodeStream.appendBlock_foldl_write s hclosed, List.foldl_append]

/-- Lines that close the braces they open give the same code and the same depth whether they are
written to a stream of their own that is then appended, to a scope that is then flushed, with any
scopes inside, or to the stream itself. -/
theorem flush_eq_writing_in_place (s : CodeStream) :
    (∀ ws, Balanced ws →
      s.appendBlock (ws.foldl Writing.write .empty).text = ws.foldl Writing.write s) ∧
    ∀ script ws fields, Script.Writes script ws → Balanced ws →
      script.flush fields s = .ok (ws.foldl Writing.write s) := by
  refine ⟨fun ws => s.appendBlock_foldl_write, fun script ws fields hwrites hws => ?_⟩
  have hwithin := Emit.runOn_within (hwrites.runOn (Chain.push ⟨[], s⟩ (.empty fields)))
  rw [Script.flush, hwithin, Chain.pop_modifyStream_push]
  exact congrArg Except.ok (s.appendBlock_foldl_write hws)

/-- A function whose branches are scopes inside. Its writings have braces that close and open on one
line, an empty line and a text of two lines. -/
def branchingScript : Script :=
  .act (.line "if (a) \x7b if (b) \x7b") <|
  .inside none (.act (.line "x = 1;") <| .act .blank <|
    .inside none (.act (.line "while (c) \x7b\ny++; \x7d") .done) .done) <|
  .act (.line "\x7d \x7d else \x7b") <|
  .act (.line "  z = 2;") <|
  .act (.line "\x7d") .done

theorem flush_eq_writing_in_place_branching :
    ∃ ws, Script.Writes branchingScript ws ∧ Balanced ws ∧
      branchingScript.flush none ⟨["f() \x7b"], 1⟩ =
        .ok (ws.foldl Writing.write ⟨["f() \x7b"], 1⟩) ∧
      ws.foldl Writing.write ⟨["f() \x7b"], 1⟩ =
        ⟨["f() \x7b", "    if (a) \x7b if (b) \x7b", "            x = 1;", "",
          "            while (c) \x7b", "                y++; \x7d", "        \x7d \x7d else \x7b",
          "        z = 2;", "    \x7d"], 1⟩ := by
  have hwrites : Script.Writes branchingScript _ :=
    .line _ <| .inside none (.line _ <| .blank <| .inside none (.line _ .done) (by decide) .done)
      (by decide) <| .line _ <| .line _ <| .line _ .done
  refine ⟨_, hwrites, by decide, ?_, by decide⟩
  exact (flush_eq_writing_in_place _).2 _ _ none hwrites (by decide)

end KernelWeaver.Code
