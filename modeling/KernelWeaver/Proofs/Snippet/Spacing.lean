import KernelWeaver.Proofs.Snippet.Accounting

/-!
# Spacing

The tokens of a source do not depend on how it is spaced. What separates two tokens is not part of
either, and a blank ends every token: words, numbers and strings, which a blank does not continue,
and symbols, none of which has a blank in it.
-/

namespace KernelWeaver.Snippet

open Lexer

variable {aliases : Aliases} {rest : List Char} {t : Token} {source : String} {scan : Scan}

/-- The token without its place in a source. -/
def Token.content (t : Token) : TokenKind × String := (t.kind, t.lexeme)

/-- The token is a symbol, or its text has the form that its kind tells. -/
def Token.Spelled (aliases : Aliases) (t : Token) : Prop :=
  (t.lexeme, t.kind) ∈ TokenKind.symbols ∨ IsText aliases t.kind t.lexeme.toList

/-- The text of a token is read as that token again where it is the end of the source or a blank
follows. -/
theorem lexeme_of_spelled (h : t.Spelled aliases) (hrest : ∀ c ∈ rest.head?, c = ' ') :
    ∃ c more, t.lexeme.toList = c :: more ∧
      lexeme aliases c (more ++ rest) = .ok ⟨.token t.kind, t.lexeme.toList, rest⟩ := by
  rcases h with hsymbol | htext
  · apply lexeme_symbol aliases hsymbol
    intro c hc
    rw [hrest c hc]
    exact joins_blank hsymbol
  · apply lexeme_of_isText htext
    intro c hc
    rw [hrest c hc]
    rfl

theorem scans_of_spelled (h : t.Spelled aliases) (rest : List Char)
    (hrest : ∀ c ∈ rest.head?, c = ' ') (place : Place) :
    ∃ t' place', Scans aliases place (t.lexeme.toList ++ rest) [t'] place' rest ∧
      t'.content = t.content := by
  obtain ⟨c, more, htext, hlexeme⟩ := lexeme_of_spelled h hrest
  rw [htext] at hlexeme ⊢
  obtain ⟨t', place', hscans, hkind, ht'⟩ := scans_lexeme hlexeme place
  rw [← htext, String.ofList_toList] at ht'
  exact ⟨t', place', hscans, Prod.ext hkind ht'⟩

/-- The tokens of a source are a symbol each, or a text of the form that the kind tells. -/
theorem spelled_of_mem_sentence (h : Scan.ofSource aliases source = .ok scan)
    (ht : t ∈ sentence scan.tokens) : t.Spelled aliases := by
  obtain ⟨ps, place', hdivides, rfl⟩ := exists_divides_of_read h
  obtain ⟨hmem, hkind⟩ := List.mem_filter.mp ht
  rcases List.mem_append.mp hmem with hmem | hmem
  · obtain ⟨p, hp, ht⟩ := List.mem_filterMap.mp hmem
    obtain ⟨-, hlexeme, hreading⟩ := Piece.eq_of_token? ht
    obtain ⟨-, c, more, -, hl, -⟩ := hdivides.of_mem hp
    rw [Token.Spelled, hlexeme, String.toList_ofList]
    exact symbol_or_isText_of_lexeme hl hreading
  · rw [List.mem_singleton.mp hmem] at hkind
    simp [endOfInput] at hkind

/-- The texts of tokens with a blank between neighbours are read as these tokens. -/
theorem scans_join_lexemes {ts : List Token} (h : ∀ t ∈ ts, t.Spelled aliases) (place : Place) :
    ∃ ts' place', Scans aliases place (Text.join " " (ts.map Token.lexeme)).toList ts' place' [] ∧
      ts'.map Token.content = ts.map Token.content := by
  induction ts generalizing place with
  | nil => exact ⟨[], place, .refl, rfl⟩
  | cons t ts ih =>
      obtain ⟨ht, hts⟩ := List.forall_mem_cons.mp h
      cases ts with
      | nil =>
          obtain ⟨t', place', hscans, hcontent⟩ := scans_of_spelled ht [] (by simp) place
          refine ⟨[t'], place', ?_, by simp [hcontent]⟩
          simpa [Text.join] using hscans
      | cons next ts =>
          let behind := (Text.join " " ((next :: ts).map Token.lexeme)).toList
          obtain ⟨t', place₁, hfirst, hcontent⟩ :=
            scans_of_spelled ht (' ' :: behind) (by simp) place
          obtain ⟨ts', place₂, hothers, hcontents⟩ :=
            ih hts (place₁.after ⟨.skip, [' '], behind⟩)
          refine ⟨t' :: ts', place₂, ?_, by simp [hcontent, hcontents]⟩
          have hjoin : (Text.join " " ((t :: next :: ts).map Token.lexeme)).toList =
              t.lexeme.toList ++ ' ' :: behind := by
            simp [behind, Text.join]
          rw [hjoin]
          exact hfirst.trans ((scans_blank place₁ behind).trans hothers)

/-- The tokens of a source in front of its end, and the end. -/
theorem exists_tokens_eq_sentence (h : Scan.ofSource aliases source = .ok scan) :
    ∃ place, scan.tokens = sentence scan.tokens ++ [endOfInput place] := by
  obtain ⟨ps, place, -, hscan⟩ := exists_divides_of_read h
  obtain ⟨hfront, -⟩ := Scan.sentence_of_ofSource h
  refine ⟨place, ?_⟩
  rw [hscan, List.dropLast_concat] at hfront
  rw [hscan, sentence, List.filter_append, List.filter_eq_self.mpr (by simpa using hfront)]
  simp [endOfInput]

/-- The texts of the tokens of a source, joined by single blanks, are a source that has the same
tokens and nothing to report. -/
theorem scan_join_lexemes (h : Scan.ofSource aliases source = .ok scan) :
    ∃ scan', Scan.ofSource aliases (Text.join " " ((sentence scan.tokens).map Token.lexeme)) =
        .ok scan' ∧
      scan'.report = [] ∧ scan'.tokens.map Token.content = scan.tokens.map Token.content := by
  obtain ⟨ts, place', hscans, hcontent⟩ :=
    scans_join_lexemes (fun t ht => spelled_of_mem_sentence h ht) .start
  obtain ⟨place, htokens⟩ := exists_tokens_eq_sentence h
  have hend : Scan.read aliases place' [] = .ok ⟨[endOfInput place'], []⟩ := by
    rw [Scan.read]
    rfl
  refine ⟨_, hscans.read hend, rfl, ?_⟩
  rw [htokens, List.map_append, List.map_append, hcontent]
  rfl

/-- Operators right beside what they join, a number that begins with its point, a comment and a
string with an escaped quote and the mark of a comment in it. -/
theorem scan_join_lexemes_unspaced :
    ∃ scan, Scan.ofSource [] "x+=.5f<<y/**/\"/*\\\"\";//" = .ok scan ∧ scan.report = [] ∧
      ∃ scan', Scan.ofSource [] "x += .5f << y \"/*\\\"\" ;" = .ok scan' ∧ scan'.report = [] ∧
        scan'.tokens.map Token.content = scan.tokens.map Token.content := by
  obtain ⟨scan, hscan, hreport, hjoin⟩ := exists_ok_of_decide
    (x := Scan.ofSource [] "x+=.5f<<y/**/\"/*\\\"\";//")
    (P := fun scan => scan.report = [] ∧
      Text.join " " ((sentence scan.tokens).map Token.lexeme) = "x += .5f << y \"/*\\\"\" ;")
    (by decide +kernel)
  have hagain := scan_join_lexemes hscan
  rw [hjoin] at hagain
  exact ⟨scan, hscan, hreport, hagain⟩

end KernelWeaver.Snippet
