import KernelWeaver.Proofs.Snippet.ParseExpr
import KernelWeaver.Proofs.Snippet.StmtCompleteness

/-!
# Reading a list of tokens as items

A list of tokens is read without a remark exactly if it spells a list of items that is nested within
the limit, and this list is what is read.
-/

namespace KernelWeaver.Snippet

open KernelWeaver.Snippet.Parser

/-- Items that tokens spell and that are nested within the limit. -/
structure SpellsItems (ts : List Token) (ss : List Stmt) : Prop where
  derives : DerivesStmt Anywhere (.items ss) ts
  nesting : Stmt.nestingOfItems ss ≤ maxDepth

variable {tokens : List Token} {ss : List Stmt}

theorem parseItems_eq (tokens : List Token) :
    parseItems tokens =
      let run := items (itemSteps (Cursor.ofTokens tokens).rest.length) false (.ofTokens tokens)
      (run.1, run.2.report) := rfl

section Sentence

variable (hend : ∀ t ∈ tokens.dropLast, t.kind ≠ .endOfInput)
include hend

/-- What is read without a remark is spelled by the tokens, at the places of its tokens. -/
theorem derives_of_parseItems (h : (parseItems tokens).2 = []) :
    DerivesStmt CoversOrdered (.items (parseItems tokens).1) (sentence tokens) ∧
      Stmt.nestingOfItems (parseItems tokens).1 ≤ maxDepth := by
  rw [parseItems_eq] at h ⊢
  dsimp only at h ⊢
  have hclean := (soundStmtWithin (itemSteps (Cursor.ofTokens tokens).rest.length)).items false
    (.ofTokens tokens) (Cursor.closed_ofTokens tokens) (by rw [itemSteps]; omega)
    (Nat.zero_le _)
  obtain ⟨ts, hr, hitems⟩ := hclean (by rw [h]; exact Nat.zero_le _)
  have hatEnd := hitems.ends
  rw [Bool.false_and, Bool.or_false] at hatEnd
  have hnil := Cursor.rest_eq_nil_of_atEnd (kind_ne_endOfInput_of_reads hend hr) hatEnd
  have hts : ts = sentence tokens := by
    rw [← Cursor.rest_ofTokens hend, hr.rest, hnil, List.append_nil]
  subst hts
  have hnesting := hitems.nesting
  rw [Cursor.depth_ofTokens, Nat.zero_add] at hnesting
  exact ⟨hitems.derives, hnesting⟩

/-- Items that the tokens spell are read, and nothing is remarked. -/
theorem parseItems_of_spellsItems (h : SpellsItems (sentence tokens) ss) :
    (parseItems tokens).2 = [] ∧ Stmt.shapes (parseItems tokens).1 = Stmt.shapes ss := by
  obtain ⟨c, ss', hrun, hr, hshapes⟩ := (completesStmt h.derives
    (itemSteps (Cursor.ofTokens tokens).rest.length) false (.ofTokens tokens) []
    ((Cursor.rest_ofTokens hend).trans (List.append_nil _).symm) (by rw [itemSteps]; omega)
    (by rw [Cursor.depth_ofTokens, Nat.zero_add]; exact h.nesting)
    (.inl (Cursor.closed_ofTokens tokens))).exists
  obtain ⟨hss, hc⟩ := Outcome.done.inj hrun
  rw [parseItems_eq]
  dsimp only
  rw [hss, hc]
  exact ⟨hr.report.trans (Cursor.report_ofTokens tokens), hshapes⟩

/-- Nothing is remarked if and only if the tokens spell a list of items that is nested within the
limit. What is read then has the shape of every such list, and every node of it is where its tokens
are. -/
theorem parseItems_iff_spellsItems :
    ((parseItems tokens).2 = [] ↔ ∃ ss, SpellsItems (sentence tokens) ss) ∧
    ((parseItems tokens).2 = [] →
      SpellsItems (sentence tokens) (parseItems tokens).1 ∧
      (∀ ss, SpellsItems (sentence tokens) ss →
        Stmt.shapes ss = Stmt.shapes (parseItems tokens).1) ∧
      (Ordered (sentence tokens) →
        DerivesStmt Covers (.items (parseItems tokens).1) (sentence tokens))) := by
  have hread : (parseItems tokens).2 = [] → SpellsItems (sentence tokens) (parseItems tokens).1 := by
    intro h
    obtain ⟨hderives, hnesting⟩ := derives_of_parseItems hend h
    exact ⟨hderives.imp (C := fun _ => True) ⟨fun _ => trivial, fun _ => trivial, fun _ => trivial⟩
      (fun _ _ => trivial) trivial, hnesting⟩
  refine ⟨⟨fun h => ⟨_, hread h⟩, fun ⟨ss, h⟩ => (parseItems_of_spellsItems hend h).1⟩, fun h => ?_⟩
  refine ⟨hread h, fun ss hss => (parseItems_of_spellsItems hend hss).2.symm, fun hordered => ?_⟩
  exact (derives_of_parseItems hend h).1.imp ofParts_ordered (fun ho hplace => hplace ho) hordered

end Sentence

/-- The tokens of `if(a) if(b) ; else break;`, without the end of input. -/
def danglingElse : List Token :=
  [⟨.ifWord, "if", ⟨0, 2, 1⟩⟩, ⟨.leftParen, "(", ⟨2, 3, 1⟩⟩, ⟨.identifier, "a", ⟨3, 4, 1⟩⟩,
    ⟨.rightParen, ")", ⟨4, 5, 1⟩⟩, ⟨.ifWord, "if", ⟨6, 8, 1⟩⟩, ⟨.leftParen, "(", ⟨8, 9, 1⟩⟩,
    ⟨.identifier, "b", ⟨9, 10, 1⟩⟩, ⟨.rightParen, ")", ⟨10, 11, 1⟩⟩,
    ⟨.semicolon, ";", ⟨12, 13, 1⟩⟩, ⟨.elseWord, "else", ⟨14, 18, 1⟩⟩,
    ⟨.breakWord, "break", ⟨19, 24, 1⟩⟩, ⟨.semicolon, ";", ⟨24, 25, 1⟩⟩]

theorem parseItems_iff_spellsItems_danglingElse :
    (∀ t ∈ danglingElse.dropLast, t.kind ≠ .endOfInput) ∧
    ∃ ss, SpellsItems (sentence danglingElse) ss := by
  have hend : ∀ t ∈ danglingElse.dropLast, t.kind ≠ .endOfInput := by decide
  have hclean : (parseItems danglingElse).2 = [] := by decide +kernel
  exact ⟨hend, (parseItems_iff_spellsItems hend).1.mp hclean⟩

end KernelWeaver.Snippet
