import KernelWeaver.Proofs.Snippet.ExprCompleteness

/-!
# Reading a list of tokens as an expression

A list of tokens is read as an expression exactly if it spells one that is nested within the limit.
The grammar is not ambiguous, and a list of tokens that is not read gets exactly one remark.
-/

namespace KernelWeaver.Snippet

open KernelWeaver.Snippet.Parser

/-- An expression that tokens spell and that is nested within the limit. -/
structure Spells (ts : List Token) (e : Expr) : Prop where
  derives : Derives Anywhere (.expr .assignment e) ts
  nesting : e.nesting ≤ maxDepth

variable {tokens : List Token} {e : Expr}

section Sentence

variable (hend : ∀ t ∈ tokens.dropLast, t.kind ≠ .endOfInput)
include hend

theorem kind_ne_endOfInput_of_reads {c : Cursor} {ts : List Token}
    (hr : (Cursor.ofTokens tokens).Reads ts c) : ∀ t ∈ c.rest, t.kind ≠ .endOfInput := by
  intro t ht
  have hmem : t ∈ sentence tokens := by
    rw [← Cursor.rest_ofTokens hend, hr.rest]
    exact List.mem_append_right _ ht
  simpa using (List.mem_filter.mp hmem).2

/-- Tokens that spell an expression are read to the end as one of its shape, unless it is nested
too deeply. -/
theorem agrees_sentence (h : Derives Anywhere (.expr .assignment e) (sentence tokens)) :
    (expression (.ofTokens tokens)).Agrees (.ofTokens tokens) (sentence tokens) e.nesting
      (·.shape = e.shape) := by
  have hkind : (Cursor.ofTokens tokens).kindBefore [] = .endOfInput :=
    Cursor.closed_ofTokens tokens
  have hagrees := agrees_expression h
    ((Cursor.rest_ofTokens hend).trans (List.append_nil _).symm) (by rw [hkind]; rfl)
  rwa [Cursor.depth_ofTokens, Nat.zero_add] at hagrees

/-- What is read is spelled by the tokens, at the places of its tokens. -/
theorem derives_of_parseExpr {report : Report} (h : parseExpr tokens = (some e, report)) :
    report = [] ∧ Derives CoversOrdered (.expr .assignment e) (sentence tokens) ∧
      e.nesting ≤ maxDepth ∧ ∃ c, expression (.ofTokens tokens) = .done e c := by
  have hsound := sound_expression (Cursor.closed_ofTokens tokens)
  rw [parseExpr] at h
  cases hrun : expression (.ofTokens tokens) with
  | failed c =>
      rw [hrun] at h
      cases h
  | done e₀ c =>
      rw [hrun] at h hsound
      obtain ⟨ts, hr, he⟩ := hsound
      dsimp only at h
      split at h
      next hatEnd =>
        cases h
        have hnil := Cursor.rest_eq_nil_of_atEnd (kind_ne_endOfInput_of_reads hend hr) hatEnd
        have hts : ts = sentence tokens := by
          rw [← Cursor.rest_ofTokens hend, hr.rest, hnil, List.append_nil]
        subst hts
        refine ⟨hr.report.trans (Cursor.report_ofTokens tokens), he.derives, ?_, c, rfl⟩
        have hnesting := he.nesting
        rwa [Cursor.depth_ofTokens, Nat.zero_add] at hnesting
      next => cases h

omit hend in
theorem length_report_of_parseExpr {report : Report} (h : parseExpr tokens = (none, report)) :
    report.length = 1 := by
  have hsound := sound_expression (Cursor.closed_ofTokens tokens)
  rw [parseExpr] at h
  cases hrun : expression (.ofTokens tokens) with
  | failed c =>
      rw [hrun] at h hsound
      obtain ⟨-, d, hd⟩ := hsound
      cases h
      rw [hd]
      rfl
  | done e c =>
      rw [hrun] at h hsound
      obtain ⟨ts, hr, -⟩ := hsound
      dsimp only at h
      split at h
      next => cases h
      next =>
        cases h
        rw [Cursor.reportHere, hr.report]
        rfl

theorem parseExpr_of_spells (h : Spells (sentence tokens) e) :
    ∃ e' report, parseExpr tokens = (some e', report) := by
  rcases agrees_sentence hend h.derives with ⟨-, c, hr, e', hrun, -⟩ | ⟨hdeep, -⟩
  · have hrest : c.rest = [] := hr.rest_eq
      ((Cursor.rest_ofTokens hend).trans (List.append_nil _).symm)
    have hatEnd : c.atEnd = true := by
      have hclosed := hr.closed (Cursor.closed_ofTokens tokens)
      rw [Cursor.atEnd, Cursor.kind, Cursor.current, hrest, decide_eq_true_eq]
      exact hclosed
    refine ⟨e', c.report, ?_⟩
    rw [parseExpr, hrun]
    dsimp only
    rw [if_pos hatEnd]
  · exact absurd h.nesting (by omega)

/-- What is read has the shape of every expression that the tokens spell. -/
theorem shape_eq_of_parseExpr {e' : Expr} {report : Report}
    (h : parseExpr tokens = (some e, report))
    (he' : Derives Anywhere (.expr .assignment e') (sentence tokens)) : e.shape = e'.shape := by
  obtain ⟨-, -, -, c, hrun⟩ := derives_of_parseExpr hend h
  rcases agrees_sentence hend he' with ⟨-, _, -, e₀, hrun', hshape⟩ | ⟨-, _, hrun'⟩
  · rw [hrun] at hrun'
    cases hrun'
    exact hshape
  · rw [hrun] at hrun'
    cases hrun'

/-- A list of tokens is read as an expression if and only if it spells one that is nested within the
limit. Nothing is remarked then, what is read has the shape of every expression that the tokens
spell, and every node of it is where its tokens are. In all other cases there is one remark. -/
theorem parseExpr_iff_spells :
    ((∃ e report, parseExpr tokens = (some e, report)) ↔ ∃ e, Spells (sentence tokens) e) ∧
    (∀ e report, parseExpr tokens = (some e, report) →
      report = [] ∧ Spells (sentence tokens) e ∧
      (∀ e', Derives Anywhere (.expr .assignment e') (sentence tokens) → e'.shape = e.shape) ∧
      (Ordered (sentence tokens) → Derives Covers (.expr .assignment e) (sentence tokens))) ∧
    ∀ report, parseExpr tokens = (none, report) → report.length = 1 := by
  have hread : ∀ {e report}, parseExpr tokens = (some e, report) → Spells (sentence tokens) e := by
    intro e report h
    obtain ⟨-, hderives, hnesting, -⟩ := derives_of_parseExpr hend h
    exact ⟨hderives.imp (C := fun _ => True) ⟨fun _ => trivial, fun _ => trivial, fun _ => trivial⟩
      (fun _ _ => trivial) trivial, hnesting⟩
  refine ⟨⟨fun ⟨e, report, h⟩ => ⟨e, hread h⟩, fun ⟨e, h⟩ => parseExpr_of_spells hend h⟩, ?_,
    fun report h => length_report_of_parseExpr h⟩
  intro e report h
  obtain ⟨hreport, hderives, -, -⟩ := derives_of_parseExpr hend h
  exact ⟨hreport, hread h, fun e' he' => (shape_eq_of_parseExpr hend h he').symm,
    fun hordered => hderives.imp ofParts_ordered (fun ho hplace => hplace ho) hordered⟩

end Sentence

/-- The tokens of `x = a * -b` with the end of input. -/
def assignedProduct : List Token :=
  [⟨.identifier, "x", ⟨0, 1, 1⟩⟩, ⟨.equal, "=", ⟨2, 3, 1⟩⟩, ⟨.identifier, "a", ⟨4, 5, 1⟩⟩,
    ⟨.star, "*", ⟨6, 7, 1⟩⟩, ⟨.minus, "-", ⟨8, 9, 1⟩⟩, ⟨.identifier, "b", ⟨9, 10, 1⟩⟩,
    ⟨.endOfInput, "", ⟨10, 10, 1⟩⟩]

theorem parseExpr_iff_spells_assignedProduct :
    (∀ t ∈ assignedProduct.dropLast, t.kind ≠ .endOfInput) ∧
    ∃ e, Spells (sentence assignedProduct) e ∧
      (Ordered (sentence assignedProduct) →
        Derives Covers (.expr .assignment e) (sentence assignedProduct)) := by
  have hend : ∀ t ∈ assignedProduct.dropLast, t.kind ≠ .endOfInput := by decide
  obtain ⟨-, hread, -⟩ := parseExpr_iff_spells hend
  have hsome : (parseExpr assignedProduct).1.isSome = true := by decide +kernel
  obtain ⟨⟨result, report⟩, hrun⟩ : ∃ r, parseExpr assignedProduct = r := ⟨_, rfl⟩
  rw [hrun] at hsome
  obtain ⟨e, rfl⟩ := Option.isSome_iff_exists.mp hsome
  obtain ⟨-, hspells, -, hcovers⟩ := hread e report hrun
  exact ⟨hend, e, hspells, hcovers⟩

end KernelWeaver.Snippet
