import KernelWeaver.Proofs.Snippet.Grammar
import KernelWeaver.Proofs.Snippet.Lexemes

/-!
# Reading a text part by part

A text that is put together from parts is read part by part: what is read from a part does not
depend on what follows, as long as that cannot continue the last lexeme of the part.
-/

namespace KernelWeaver.Snippet

open Lexer

variable {aliases : Aliases} {place place' place'' : Place} {c : Char}
  {cs cs' cs'' text text' rest : List Char} {ts us : List Token} {P Q : List Token → Prop}

/-- Reading from a place on gives the tokens and nothing to report, and gets to another place, with
what follows there. -/
inductive Scans (aliases : Aliases) :
    Place → List Char → List Token → Place → List Char → Prop where
  | refl {place : Place} {cs : List Char} : Scans aliases place cs [] place cs
  | skip {place place' : Place} {c : Char} {cs cs' : List Char} {l : Lexeme} {ts : List Token} :
      lexeme aliases c cs = .ok l → l.reading = .skip →
      Scans aliases (place.after l) l.rest ts place' cs' →
      Scans aliases place (c :: cs) ts place' cs'
  | token {place place' : Place} {c : Char} {cs cs' : List Char} {l : Lexeme} {kind : TokenKind}
      {ts : List Token} :
      lexeme aliases c cs = .ok l → l.reading = .token kind →
      Scans aliases (place.after l) l.rest ts place' cs' →
      Scans aliases place (c :: cs) (⟨kind, String.ofList l.text, place.spanOf l⟩ :: ts) place' cs'

theorem Scans.trans (h : Scans aliases place cs ts place' cs')
    (h' : Scans aliases place' cs' us place'' cs'') :
    Scans aliases place cs (ts ++ us) place'' cs'' := by
  induction h with
  | refl => exact h'
  | skip hl hskip _ ih => exact .skip hl hskip (ih h')
  | token hl hkind _ ih => exact .token hl hkind (ih h')

theorem Scan.read_cons {l : Lexeme} (h : lexeme aliases c cs = .ok l) (place : Place) :
    Scan.read aliases place (c :: cs) =
      (Scan.read aliases (place.after l) l.rest).map (Scan.add place l) := by
  rw [Scan.read]
  split
  next fault heq =>
    rw [h] at heq
    cases heq
  next l' heq =>
    rw [h] at heq
    cases heq
    rfl

/-- What is read first comes before what is read from the rest. -/
theorem Scans.read {scan : Scan} (h : Scans aliases place cs ts place' cs')
    (hrest : Scan.read aliases place' cs' = .ok scan) :
    Scan.read aliases place cs = .ok { scan with tokens := ts ++ scan.tokens } := by
  induction h with
  | refl => exact hrest
  | skip hl hskip _ ih =>
      rw [Scan.read_cons hl, ih hrest]
      simp only [Except.map, Scan.add, hskip]
  | token hl hkind _ ih =>
      rw [Scan.read_cons hl, ih hrest]
      simp only [Except.map, Scan.add, hkind, List.cons_append]

/-- A text that is read to its end is a source without a flaw. -/
theorem Scans.ofSource {source : String} (h : Scans aliases .start source.toList ts place' []) :
    ∃ last : Token, last.kind = .endOfInput ∧
      Scan.ofSource aliases source = .ok ⟨ts ++ [last], []⟩ := by
  refine ⟨⟨.endOfInput, "", ⟨place'.offset, place'.offset, place'.line⟩⟩, rfl, ?_⟩
  exact h.read (by rw [Scan.read])

/-! ### The tokens of a source -/

/-- The kind of the token is that of a symbol, or its text has the form that the kind tells. -/
def Token.Formed (aliases : Aliases) (t : Token) : Prop :=
  t.kind ∈ TokenKind.symbols.map Prod.snd ∨ IsText aliases t.kind t.lexeme.toList

theorem formed_of_lexeme {l : Lexeme} {kind : TokenKind} (h : lexeme aliases c cs = .ok l)
    (hkind : l.reading = .token kind) (span : Span) :
    Token.Formed aliases ⟨kind, String.ofList l.text, span⟩ := by
  rcases symbol_or_isText_of_lexeme h hkind with hsymbol | htext
  · exact .inl (List.mem_map_of_mem (f := Prod.snd) hsymbol)
  · right
    rwa [String.toList_ofList]

/-- A word is a qualifier, a specifier, a name or a keyword. -/
theorem wordKind_cases (aliases : Aliases) (word : String) :
    (word = "const" ∧ wordKind aliases word = .typeQualifier) ∨
      (word ≠ "const" ∧ wordKind aliases word ∈
        .typeSpecifier :: .identifier :: TokenKind.keywords.map Prod.snd) := by
  by_cases hconst : word = "const"
  · exact .inl ⟨hconst, by rw [hconst]; rfl⟩
  refine .inr ⟨hconst, ?_⟩
  rw [wordKind, TokenKind.ofWord?, if_neg hconst]
  split
  next kind hkind =>
    split at hkind
    next => cases hkind; simp
    next =>
      obtain ⟨before, after, heq, -⟩ := List.lookup_eq_some_iff.mp hkind
      simp [heq]
  next => split <;> simp

theorem wordKind_ne_endOfInput (aliases : Aliases) (word : String) :
    wordKind aliases word ≠ .endOfInput := by
  have hkinds : ∀ kind ∈ .typeSpecifier :: .identifier :: TokenKind.keywords.map Prod.snd,
      kind ≠ .endOfInput := by
    decide
  rcases wordKind_cases aliases word with ⟨-, hkind⟩ | ⟨-, hmem⟩
  · rw [hkind]
    decide
  · exact hkinds _ hmem

theorem Token.Formed.kind_ne {t : Token} (h : t.Formed aliases) : t.kind ≠ .endOfInput := by
  rcases h with hsymbol | htext
  · intro hend
    rw [hend] at hsymbol
    revert hsymbol
    decide
  · generalize t.kind = kind, t.lexeme.toList = text at htext
    cases htext with
    | word => exact wordKind_ne_endOfInput aliases _
    | number => decide
    | string => decide

/-- A source gives formed tokens and, behind them, the end of input. -/
theorem Scan.tokens_of_read {scan : Scan} (h : Scan.read aliases place cs = .ok scan) :
    ∃ front last, scan.tokens = front ++ [last] ∧ last.kind = .endOfInput ∧
      ∀ t ∈ front, t.Formed aliases := by
  fun_induction Scan.read aliases place cs generalizing scan with
  | case1 => 
      cases h
      exact ⟨[], _, rfl, rfl, fun t ht => absurd ht List.not_mem_nil⟩
  | case2 => cases h
  | case3 place c cs l hl ih =>
      cases hrest : Scan.read aliases (place.after l) l.rest with
      | error fault => rw [hrest] at h; cases h
      | ok more =>
          rw [hrest] at h
          cases h
          obtain ⟨front, last, htokens, hlast, hfront⟩ := ih hrest
          rw [Scan.add]
          split
          next => exact ⟨front, last, htokens, hlast, hfront⟩
          next kind hkind =>
            refine ⟨_ :: front, last, by rw [htokens]; rfl, hlast, ?_⟩
            exact List.forall_mem_cons.mpr ⟨formed_of_lexeme hl hkind _, hfront⟩
          next => exact ⟨front, last, htokens, hlast, hfront⟩

/-- The tokens of a source in front of its end of input. -/
theorem Scan.sentence_of_ofSource {source : String} {scan : Scan}
    (h : Scan.ofSource aliases source = .ok scan) :
    (∀ t ∈ scan.tokens.dropLast, t.kind ≠ .endOfInput) ∧
      ∀ t ∈ sentence scan.tokens, t.Formed aliases := by
  obtain ⟨front, last, htokens, hlast, hfront⟩ := Scan.tokens_of_read h
  rw [htokens, List.dropLast_concat]
  refine ⟨fun t ht => (hfront t ht).kind_ne, fun t ht => ?_⟩
  rw [sentence, List.mem_filter, List.mem_append, List.mem_singleton] at ht
  obtain ⟨ht | rfl, hkind⟩ := ht
  · exact hfront t ht
  · simp [hlast] at hkind

/-! ### Texts made of parts -/

/-- In front of what continues neither a word nor a number, the text is read as tokens of the
property. -/
def ReadsAs (aliases : Aliases) (text : List Char) (P : List Token → Prop) : Prop :=
  ∀ place rest, Ends rest →
    ∃ ts place', Scans aliases place (text ++ rest) ts place' rest ∧ P ts

theorem ReadsAs.imp (h : ReadsAs aliases text P) (hPQ : ∀ ts, P ts → Q ts) :
    ReadsAs aliases text Q := by
  intro place rest hends
  obtain ⟨ts, place', hscans, hP⟩ := h place rest hends
  exact ⟨ts, place', hscans, hPQ ts hP⟩

theorem ReadsAs.nil (h : P []) : ReadsAs aliases [] P :=
  fun place _ _ => ⟨[], place, .refl, h⟩

/-- A source that is such a text gives such tokens and an end of input. -/
theorem ReadsAs.ofSource {source : String} (h : ReadsAs aliases source.toList P) :
    ∃ ts last, last.kind = .endOfInput ∧ P ts ∧
      Scan.ofSource aliases source = .ok ⟨ts ++ [last], []⟩ := by
  obtain ⟨ts, place', hscans, hP⟩ := h .start [] .nil
  rw [List.append_nil] at hscans
  obtain ⟨last, hlast, hscan⟩ := hscans.ofSource
  exact ⟨ts, last, hlast, hP, hscan⟩

/-- The tokens of such a source in front of its end of input are such tokens. -/
theorem ReadsAs.sentence {source : String} (h : ReadsAs aliases source.toList P) :
    ∃ tokens, Scan.ofSource aliases source = .ok ⟨tokens, []⟩ ∧
      (∀ t ∈ tokens.dropLast, t.kind ≠ .endOfInput) ∧ P (sentence tokens) := by
  obtain ⟨ts, last, hlast, hP, hscan⟩ := h.ofSource
  obtain ⟨hend, -⟩ := Scan.sentence_of_ofSource hscan
  have hsentence : Snippet.sentence (ts ++ [last]) = ts := by
    rw [List.dropLast_concat] at hend
    have hkeep : ts.filter (·.kind ≠ .endOfInput) = ts :=
      List.filter_eq_self.mpr fun t ht => decide_eq_true (hend t ht)
    rw [Snippet.sentence, List.filter_append, hkeep]
    simp [hlast]
  exact ⟨ts ++ [last], hscan, hend, hsentence.symm ▸ hP⟩

theorem scans_lexeme {kind : TokenKind} {more : List Char}
    (h : lexeme aliases c (more ++ rest) = .ok ⟨.token kind, c :: more, rest⟩) (place : Place) :
    ∃ t place', Scans aliases place (c :: more ++ rest) [t] place' rest ∧ t.kind = kind ∧
      t.lexeme = String.ofList (c :: more) :=
  ⟨_, _, .token h rfl .refl, rfl, rfl⟩

theorem readsAs_text {kind : TokenKind} (h : IsText aliases kind text)
    (hP : ∀ t : Token, t.kind = kind → t.lexeme = String.ofList text → P [t]) :
    ReadsAs aliases text P := by
  intro place rest hends
  obtain ⟨c, more, rfl, hlexeme⟩ := lexeme_of_isText h hends
  obtain ⟨t, place', hscans, hkind, ht⟩ := scans_lexeme hlexeme place
  exact ⟨[t], place', hscans, hP t hkind ht⟩

theorem scans_symbol (aliases : Aliases) {spelling : String} {kind : TokenKind}
    (h : (spelling, kind) ∈ TokenKind.symbols) (hrest : Lacks (joins spelling) rest)
    (place : Place) :
    ∃ t place', Scans aliases place (spelling.toList ++ rest) [t] place' rest ∧
      t.kind = kind := by
  obtain ⟨c, more, htext, hlexeme⟩ := lexeme_symbol aliases h hrest
  rw [htext] at hlexeme ⊢
  obtain ⟨t, place', hscans, hkind, -⟩ := scans_lexeme hlexeme place
  exact ⟨t, place', hscans, hkind⟩

theorem scans_blank (place : Place) (rest : List Char) :
    Scans aliases place (' ' :: rest) [] (place.after ⟨.skip, [' '], rest⟩) rest :=
  .skip rfl rfl .refl

/-- One text behind another. The second begins with what does not continue the first. -/
theorem ReadsAs.append (h : ReadsAs aliases text P) (h' : ReadsAs aliases text' Q)
    (hends : Ends text') :
    ReadsAs aliases (text ++ text') fun ts => ∃ us vs, ts = us ++ vs ∧ P us ∧ Q vs := by
  intro place rest hrest
  obtain ⟨us, place₁, hscans, hP⟩ := h place (text' ++ rest) (hends.append hrest)
  obtain ⟨vs, place₂, hscans', hQ⟩ := h' place₁ rest hrest
  rw [← List.append_assoc] at hscans
  exact ⟨us ++ vs, place₂, hscans.trans hscans', us, vs, rfl, hP, hQ⟩

theorem ReadsAs.blank (h : ReadsAs aliases text P) : ReadsAs aliases (' ' :: text) P := by
  intro place rest hrest
  obtain ⟨ts, place', hscans, hP⟩ := h (place.after ⟨.skip, [' '], text ++ rest⟩) rest hrest
  exact ⟨ts, place', (scans_blank place (text ++ rest)).trans hscans, hP⟩

/-- A symbol in front of a text that it is not read together with. -/
theorem ReadsAs.behind_symbol {spelling : String} {kind : TokenKind} (h : ReadsAs aliases text P)
    (hsymbol : (spelling, kind) ∈ TokenKind.symbols) (hne : text ≠ [])
    (hjoins : Lacks (joins spelling) text) :
    ReadsAs aliases (spelling.toList ++ text) fun ts =>
      ∃ t us, ts = t :: us ∧ t.kind = kind ∧ P us := by
  intro place rest hrest
  have hlacks : Lacks (joins spelling) (text ++ rest) := by
    cases text with
    | nil => exact absurd rfl hne
    | cons c text => exact lacks_cons.mpr (lacks_cons.mp hjoins)
  obtain ⟨t, place₁, hscans, hkind⟩ := scans_symbol aliases hsymbol hlacks place
  obtain ⟨us, place₂, hscans', hP⟩ := h place₁ rest hrest
  rw [List.append_assoc]
  exact ⟨t :: us, place₂, hscans.trans hscans', t, us, rfl, hkind, hP⟩

/-- A symbol that is read together with nothing. -/
theorem readsAs_symbol {spelling : String} {kind : TokenKind}
    (hsymbol : (spelling, kind) ∈ TokenKind.symbols) (hjoins : ∀ c, joins spelling c = false) :
    ReadsAs aliases spelling.toList fun ts => ∃ t, ts = [t] ∧ t.kind = kind := by
  intro place rest _
  obtain ⟨t, place', hscans, hkind⟩ :=
    scans_symbol aliases hsymbol (fun c _ => hjoins c) place
  exact ⟨[t], place', hscans, t, rfl, hkind⟩

theorem joins_blank {spelling : String} {kind : TokenKind}
    (hsymbol : (spelling, kind) ∈ TokenKind.symbols) : joins spelling ' ' = false := by
  have hall : ∀ s ∈ TokenKind.symbols, joins s.1 ' ' = false := by decide +kernel
  exact hall (spelling, kind) hsymbol

/-- Two texts with a symbol between them that has a blank on either side. -/
theorem ReadsAs.spaced {spelling : String} {kind : TokenKind} (h : ReadsAs aliases text P)
    (hsymbol : (spelling, kind) ∈ TokenKind.symbols) (h' : ReadsAs aliases text' Q) :
    ReadsAs aliases (text ++ ' ' :: (spelling.toList ++ ' ' :: text')) fun ts =>
      ∃ us t vs, ts = us ++ t :: vs ∧ P us ∧ t.kind = kind ∧ Q vs := by
  have hright := h'.blank.behind_symbol hsymbol (List.cons_ne_nil _ _)
    (lacks_cons.mpr (joins_blank hsymbol))
  refine (h.append hright.blank (lacks_cons.mpr rfl)).imp ?_
  rintro ts ⟨us, _, rfl, hP, t, vs, rfl, hkind, hQ⟩
  exact ⟨us, t, vs, rfl, hP, hkind, hQ⟩

end KernelWeaver.Snippet
