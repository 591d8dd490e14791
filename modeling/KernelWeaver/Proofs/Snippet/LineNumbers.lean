import KernelWeaver.Proofs.Snippet.Accounting

/-!
# Line numbers

Lines are counted where blanks and comments are skipped. A string can take in a line feed too, behind
a backslash, and that one is not counted: the line of whatever stands behind such a string is smaller
than the number of the line that it stands on. Apart from these the lines are right.
-/

namespace KernelWeaver.Snippet

open Lexer

namespace Lexer

variable {p : Char → Bool} {c : Char} {cs text : List Char} {aliases : Aliases} {l : Lexeme}

/-! ### Lexemes that have no line feed -/

theorem lineFeed_notMem_run (h : p '\n' = false) (cs : List Char) : '\n' ∉ (run p cs).1 := by
  intro hmem
  rw [of_mem_run hmem] at h
  cases h

theorem lineFeed_notMem_atMostOne (h : p '\n' = false) (cs : List Char) :
    '\n' ∉ (atMostOne p cs).1 := by
  rcases atMostOne_cases p cs with ⟨hnil, -, -⟩ | ⟨c, hone, hc⟩
  · simp [hnil]
  · rw [hone, List.mem_singleton]
    rintro rfl
    rw [h] at hc
    cases hc

theorem lineFeed_notMem_endNumber (h : '\n' ∉ text) (cs : List Char) :
    '\n' ∉ (endNumber text cs).text := by
  have hmore := lineFeed_notMem_run (p := Text.isAsciiWord) (by decide) cs
  rw [endNumber]
  split
  next => exact h
  next more rest _ hrun =>
    rw [hrun] at hmore
    simp [h, hmore]

theorem lineFeed_notMem_fraction (cs : List Char) : '\n' ∉ (fraction cs).1 := by
  have hpoint := lineFeed_notMem_atMostOne (p := (· = '.')) (by decide) cs
  rw [fraction]
  split
  next => simp
  next point rest _ hone =>
    rw [hone] at hpoint
    simp [hpoint, lineFeed_notMem_run]

theorem lineFeed_notMem_exponentMark (cs : List Char) : '\n' ∉ (exponentMark cs).1 := by
  have hletter := lineFeed_notMem_atMostOne (p := fun c => c = 'e' || c = 'E') (by decide) cs
  rw [exponentMark]
  split
  next => simp
  next letter rest _ hone =>
    rw [hone] at hletter
    simp [hletter, lineFeed_notMem_atMostOne]

theorem lineFeed_notMem_decimalNumber (cs : List Char) : '\n' ∉ (decimalNumber cs).text := by
  have hdigits := lineFeed_notMem_run (p := Char.isDigit) (by decide)
  unfold decimalNumber
  by_cases hmark : (exponentMark (fraction (run Char.isDigit cs).2).2).1.isEmpty = true
  · simp only [hmark, if_true, Bool.not_true, Bool.false_and, Bool.false_eq_true, if_false]
    apply lineFeed_notMem_endNumber
    simp only [List.mem_append, not_or]
    refine ⟨⟨⟨⟨hdigits _, lineFeed_notMem_fraction _⟩, lineFeed_notMem_exponentMark _⟩, by simp⟩, ?_⟩
    apply lineFeed_notMem_atMostOne
    split <;> decide
  · simp only [hmark, Bool.false_eq_true, if_false]
    split
    next => simp [hdigits, lineFeed_notMem_fraction, lineFeed_notMem_exponentMark]
    next =>
      apply lineFeed_notMem_endNumber
      simp only [List.mem_append, not_or]
      refine ⟨⟨⟨⟨hdigits _, lineFeed_notMem_fraction _⟩, lineFeed_notMem_exponentMark _⟩,
        hdigits _⟩, ?_⟩
      apply lineFeed_notMem_atMostOne
      split <;> decide

theorem lineFeed_notMem_number (cs : List Char) : '\n' ∉ (number cs).text := by
  unfold number
  split
  next x rest =>
    split
    next hx =>
      have hmark : '\n' ∉ ['0', x] := by
        simp only [Bool.or_eq_true, decide_eq_true_eq] at hx
        rcases hx with rfl | rfl <;> decide
      rw [hexNumber]
      dsimp only
      split
      next => exact hmark
      next =>
        apply lineFeed_notMem_endNumber
        simp only [List.mem_append, not_or]
        exact ⟨⟨hmark, lineFeed_notMem_run (by decide) _⟩, lineFeed_notMem_atMostOne (by decide) _⟩
    next => exact lineFeed_notMem_decimalNumber _
  next => exact lineFeed_notMem_decimalNumber _

/-- What can have a line feed in it. -/
theorem reading_of_lineFeed_mem (h : lexeme aliases c cs = .ok l) (hline : '\n' ∈ l.text) :
    (l.reading = .skip ∨ l.reading = .flaw .openComment) ∨
      l.reading = .token .string ∨ l.reading = .flaw .openString := by
  unfold lexeme at h
  split at h
  next =>
    cases h
    exact .inl (.inl rfl)
  next hblank =>
  split at h
  next =>
    cases h
    exact absurd hline (lineFeed_notMem_run (by decide) _)
  next =>
  split at h
  next =>
    cases h
    exact absurd hline (lineFeed_notMem_number _)
  next =>
  split at h
  next =>
    obtain ⟨body, hbody, rfl⟩ := map_eq_ok.mp h
    have hbodyReading := reading_stringBody hbody
    exact .inr hbodyReading
  next =>
  split at h
  next =>
    cases h
    exact .inl (.inl rfl)
  next =>
  split at h
  next =>
    cases h
    exact .inl (reading_commentBody _)
  next =>
    have hnone : ∀ s ∈ TokenKind.symbols, '\n' ∉ s.1.toList := by decide +kernel
    cases h
    rw [symbol] at hline
    split at hline
    next spelling found hfound =>
      dsimp only at hline
      rw [text_of_symbol? hfound] at hline
      exact absurd hline (hnone _ (List.mem_of_find?_eq_some hfound))
    next =>
      obtain rfl := List.mem_singleton.mp hline
      exact absurd rfl hblank

end Lexer

/-! ### Pieces -/

theorem Text.lineFeeds_append (xs ys : List Char) :
    Text.lineFeeds (xs ++ ys) = Text.lineFeeds xs + Text.lineFeeds ys :=
  List.count_append

variable {aliases : Aliases} {c : Char} {cs cs' : List Char} {l : Lexeme} {place place' : Place}
  {p : Piece} {ps front behind : List Piece} {source : String} {scan : Scan} {span : Span}

/-- The piece is a string, closed or not. -/
def Piece.IsString (p : Piece) : Prop :=
  p.lexeme.reading = .token .string ∨ p.lexeme.reading = .flaw .openString

instance (p : Piece) : Decidable p.IsString :=
  inferInstanceAs (Decidable (_ ∨ _))

/-- The number of line feeds in strings. -/
def quotedLineFeeds (ps : List Piece) : Nat := Text.lineFeeds (textOf (ps.filter (·.IsString)))

theorem quotedLineFeeds_append :
    quotedLineFeeds (front ++ behind) = quotedLineFeeds front + quotedLineFeeds behind := by
  rw [quotedLineFeeds, List.filter_append, textOf_append, Text.lineFeeds_append]
  rfl

theorem quotedLineFeeds_eq_zero :
    quotedLineFeeds ps = 0 ↔ ∀ p ∈ ps, p.IsString → '\n' ∉ p.lexeme.text := by
  simp [quotedLineFeeds, Text.lineFeeds, List.count_eq_zero, textOf]

/-- Behind a lexeme the line has grown by the line feeds in it, unless it is a string. -/
theorem line_after (h : lexeme aliases c cs = .ok l) (place : Place) :
    (place.after l).line + quotedLineFeeds [⟨place, l⟩] = place.line + Text.lineFeeds l.text := by
  by_cases hstring : Piece.IsString ⟨place, l⟩
  · have hline : (place.after l).line = place.line := by
      rcases hstring with hreading | hreading <;> rw [Place.after, hreading]
    rw [hline, quotedLineFeeds, List.filter_singleton, decide_eq_true hstring]
    simp [textOf]
  · have hquoted : quotedLineFeeds [⟨place, l⟩] = 0 := by
      rw [quotedLineFeeds, List.filter_singleton, decide_eq_false hstring]
      rfl
    rw [hquoted, Nat.add_zero]
    -- blanks and comments count their line feeds, and nothing else has any
    by_cases hmem : '\n' ∈ l.text
    · rcases reading_of_lineFeed_mem h hmem with hreading | hreading
      · rcases hreading with hreading | hreading <;> rw [Place.after, hreading]
      · exact absurd hreading hstring
    · have hzero : Text.lineFeeds l.text = 0 := List.count_eq_zero.mpr hmem
      rw [Place.after]
      split <;> simp [hzero]

namespace Divides

/-- The line at the end of the pieces. -/
theorem line_eq (h : Divides aliases place cs ps place' cs') :
    place'.line + quotedLineFeeds ps = place.line + Text.lineFeeds (textOf ps) := by
  induction h with
  | nil => rfl
  | @cons place place' c cs cs' l ps hl _ ih =>
      have hstep := line_after hl place
      rw [← List.singleton_append, quotedLineFeeds_append, textOf_append, Text.lineFeeds_append]
      have htext : textOf [⟨place, l⟩] = l.text := List.append_nil l.text
      rw [htext]
      omega

/-- Pieces can be divided in two. -/
theorem exists_of_append (h : Divides aliases place cs (front ++ behind) place' cs') :
    ∃ middle rest, Divides aliases place cs front middle rest ∧
      Divides aliases middle rest behind place' cs' := by
  induction front generalizing place cs with
  | nil => exact ⟨place, cs, .nil, h⟩
  | cons q front ih =>
      cases h with
      | cons hl hrest =>
          obtain ⟨middle, rest, hfront, hbehind⟩ := ih hrest
          exact ⟨middle, rest, .cons hl hfront, hbehind⟩

end Divides

/-! ### Sources -/

/-- The spans of the tokens and of what is reported. -/
def Scan.spans (scan : Scan) : List Span :=
  scan.tokens.map Token.span ++ scan.report.map Diagnostic.span

/-- The line of the span is one more than the number of line feeds in front of it. -/
def LineCounted (source : String) (span : Span) : Prop :=
  ∃ before behind, source.toList = before ++ behind ∧ span.start = Text.byteLength before ∧
    span.line = 1 + Text.lineFeeds before

theorem Text.eq_of_byteLength_eq {xs ys xs' ys' : List Char} (h : xs ++ xs' = ys ++ ys')
    (hlength : Text.byteLength xs = Text.byteLength ys) : xs = ys := by
  rcases List.append_eq_append_iff.mp h with ⟨more, rfl, -⟩ | ⟨more, rfl, -⟩
  all_goals
    rw [Text.byteLength_append] at hlength
    by_cases hmore : more = []
    · simp [hmore]
    · have hpos := Text.byteLength_pos hmore
      omega

section Source

variable (h : Divides aliases .start source.toList ps place' [])
include h

/-- In front of each span are some of the pieces. -/
theorem Divides.exists_front (hspan : span ∈ Scan.spans
      ⟨ps.filterMap Piece.token? ++ [endOfInput place'], ps.filterMap Piece.remark?⟩) :
    ∃ front behind place rest, ps = front ++ behind ∧
      Divides aliases .start source.toList front place rest ∧ span.start = place.offset ∧
      span.line = place.line := by
  have hpiece : ∀ p ∈ ps, ∃ front behind place rest, ps = front ++ behind ∧
      Divides aliases .start source.toList front place rest ∧ p.span.start = place.offset ∧
      p.span.line = place.line := by
    intro p hp
    obtain ⟨front, behind, rfl⟩ := List.append_of_mem hp
    obtain ⟨middle, rest, hfront, hbehind⟩ := h.exists_of_append
    cases hbehind with
    | cons => exact ⟨front, _ :: behind, _, _, rfl, hfront, rfl, rfl⟩
  rw [Scan.spans, List.map_append, List.mem_append, List.mem_append] at hspan
  rcases hspan with (hspan | hspan) | hspan
  · obtain ⟨t, ht, rfl⟩ := List.mem_map.mp hspan
    obtain ⟨p, hp, ht⟩ := List.mem_filterMap.mp ht
    rw [(Piece.eq_of_token? ht).1]
    exact hpiece p hp
  · rw [List.mem_singleton.mp hspan]
    exact ⟨ps, [], place', [], by simp, h, rfl, rfl⟩
  · obtain ⟨d, hd, rfl⟩ := List.mem_map.mp hspan
    obtain ⟨p, hp, hd⟩ := List.mem_filterMap.mp hd
    rw [(Piece.span_of_remark? hd).1]
    exact hpiece p hp

end Source

/-- The line of each token and of what is reported is one more than the number of line feeds in
front of it that are in no string. -/
theorem line_of_mem_spans (h : Scan.ofSource aliases source = .ok scan) :
    ∃ ps place', Divides aliases .start source.toList ps place' [] ∧
      (∀ span ∈ scan.spans, ∃ front behind, ps = front ++ behind ∧
        span.start = Text.byteLength (textOf front) ∧
        span.line + quotedLineFeeds front = 1 + Text.lineFeeds (textOf front)) ∧
      ((∀ span ∈ scan.spans, LineCounted source span) ↔
        ∀ p ∈ ps, p.IsString → '\n' ∉ p.lexeme.text) := by
  obtain ⟨ps, place', hdivides, rfl⟩ := exists_divides_of_read h
  have hlines : ∀ span ∈ Scan.spans
        ⟨ps.filterMap Piece.token? ++ [endOfInput place'], ps.filterMap Piece.remark?⟩,
      ∃ front behind, ps = front ++ behind ∧
        span.start = Text.byteLength (textOf front) ∧
        span.line + quotedLineFeeds front = 1 + Text.lineFeeds (textOf front) := by
    intro span hspan
    obtain ⟨front, behind, place, rest, rfl, hfront, hstart, hline⟩ := hdivides.exists_front hspan
    refine ⟨front, behind, rfl, ?_, ?_⟩
    · rw [hstart, hfront.eq_append.2]
      exact Nat.zero_add _
    · rw [hline]
      exact hfront.line_eq
  refine ⟨ps, place', hdivides, hlines, ?_⟩
  rw [← quotedLineFeeds_eq_zero]
  have hsource : source.toList = textOf ps := by simpa using hdivides.eq_append.1
  constructor
  · -- the end of input stands behind all strings
    intro hcounted
    obtain ⟨before, behind, hbefore, hstart, hline⟩ :=
      hcounted (endOfInput place').span (by simp [Scan.spans])
    have hwhole : before = textOf ps := by
      have hparts : before ++ behind = textOf ps ++ [] := by
        rw [← hbefore, List.append_nil, hsource]
      refine Text.eq_of_byteLength_eq hparts ?_
      have hoffset := hdivides.eq_append.2
      rw [← hstart, endOfInput, hoffset]
      exact Nat.zero_add _
    have hend := hdivides.line_eq
    rw [hwhole] at hline
    change place'.line = _ at hline
    change _ = 1 + _ at hend
    omega
  · intro hnone span hspan
    obtain ⟨front, behind, rfl, hstart, hline⟩ := hlines span hspan
    rw [quotedLineFeeds_append] at hnone
    refine ⟨textOf front, textOf behind, by rw [hsource, textOf_append], hstart, ?_⟩
    omega

/-- The name behind a string of two lines is on the second line and has the number of the first;
behind a comment of two lines it has its own. -/
example : (match Scan.ofSource [] "\"a\\\nb\" x", Scan.ofSource [] "/*\n*/ x" with
    | .ok quoted, .ok commented => (quoted.spans.map Span.line, commented.spans.map Span.line)
    | _, _ => ([], [])) = ([1, 1, 1], [2, 2]) := by
  decide +kernel

end KernelWeaver.Snippet
