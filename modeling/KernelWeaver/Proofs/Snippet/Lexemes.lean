import KernelWeaver.Proofs.Snippet.Numerals

/-!
# Reading a lexeme again

A word, a number or a string that was found in one source is found again in another in which nothing
follows that could continue it, and a symbol wherever it does not stand in front of what it would be
read together with.
-/

namespace KernelWeaver.Snippet

namespace Lexer

variable {c : Char} {cs text rest : List Char} {aliases : Aliases} {l : Lexeme}

/-! ### Strings -/

/-- A string ends with its closing quote, whatever follows. -/
theorem stringBody_again (h : stringBody cs = .ok ⟨.token .string, text, rest⟩)
    (rest' : List Char) :
    stringBody (text ++ rest') = .ok ⟨.token .string, text, rest'⟩ := by
  fun_induction stringBody cs generalizing text with
  | case1 => cases h
  | case2 => cases h
  | case3 rest => cases h; rfl
  | case4 => cases h
  | case5 c more ih =>
      cases hbody : stringBody more with
      | error fault => rw [hbody] at h; cases h
      | ok body =>
          obtain ⟨reading, inner, behind⟩ := body
          rw [hbody] at h ih
          cases h
          rw [List.cons_append, List.cons_append, stringBody, ih rfl]
          rfl
  | case6 c more hnewline hquote hlast hpair ih =>
      cases hbody : stringBody more with
      | error fault => rw [hbody] at h; cases h
      | ok body =>
          obtain ⟨reading, inner, behind⟩ := body
          rw [hbody] at h ih
          cases h
          have hslash : c ≠ '\\' := by
            rintro rfl
            cases more with
            | nil => exact hlast rfl rfl
            | cons d more => exact hpair d more rfl rfl
          rw [List.cons_append, stringBody, ih rfl]
          · rfl
          · exact hnewline
          · exact hquote
          · exact fun heq _ => hslash heq
          · exact fun _ _ heq _ => hslash heq

/-! ### Words and symbols -/

/-- The kind of a word. -/
def wordKind (aliases : Aliases) (word : String) : TokenKind :=
  match TokenKind.ofWord? word with
  | some kind => kind
  | none => if Table.has aliases word then .typeSpecifier else .identifier

/-- The text of a word. -/
structure IsWord (text : List Char) : Prop where
  starts : ∃ c more, text = c :: more ∧ isNameStart c = true
  chars : ∀ c ∈ text, Text.isAsciiWord c = true

theorem isWord_of_all (hstart : text.head?.any isNameStart = true)
    (hall : text.all Text.isAsciiWord = true) : IsWord text := by
  refine ⟨?_, List.all_eq_true.mp hall⟩
  cases text with
  | nil => cases hstart
  | cons c more => exact ⟨c, more, rfl, hstart⟩

theorem word_eq (aliases : Aliases) (cs : List Char) :
    word aliases cs = ⟨.token (wordKind aliases (String.ofList (run Text.isAsciiWord cs).1)),
      (run Text.isAsciiWord cs).1, (run Text.isAsciiWord cs).2⟩ := rfl

theorem isAsciiBlank_of_isNameStart (h : isNameStart c = true) : Text.isAsciiBlank c = false := by
  cases hblank : Text.isAsciiBlank c with
  | false => rfl
  | true =>
      simp only [Text.isAsciiBlank, Bool.or_eq_true, decide_eq_true_eq] at hblank
      rcases hblank with (((rfl | rfl) | rfl) | rfl) | rfl <;> cases h

theorem isAsciiBlank_of_isDigit (h : c.isDigit = true) : Text.isAsciiBlank c = false := by
  cases hblank : Text.isAsciiBlank c with
  | false => rfl
  | true =>
      simp only [Text.isAsciiBlank, Bool.or_eq_true, decide_eq_true_eq] at hblank
      rcases hblank with (((rfl | rfl) | rfl) | rfl) | rfl <;> cases h

theorem not_isNameStart_of_isDigit (h : c.isDigit = true) : isNameStart c = false := by
  have hval : 48 ≤ c.val.toNat ∧ c.val.toNat ≤ 57 := by
    simpa [Char.isDigit, UInt32.le_iff_toNat_le] using h
  have hunderscore : c ≠ '_' := by
    rintro rfl
    cases h
  have hletter : c.isAlpha = false := by
    rw [Bool.eq_false_iff]
    intro hletter
    have hrange : (65 ≤ c.val ∧ c.val ≤ 90) ∨ (97 ≤ c.val ∧ c.val ≤ 122) := by
      rcases Bool.or_eq_true_iff.mp hletter with hupper | hlower
      · exact .inl (of_decide_eq_true hupper)
      · exact .inr ((Bool.and_eq_true_iff.mp hlower).imp of_decide_eq_true of_decide_eq_true)
    simp only [UInt32.le_iff_toNat_le] at hrange
    change (65 ≤ c.val.toNat ∧ c.val.toNat ≤ 90) ∨
      (97 ≤ c.val.toNat ∧ c.val.toNat ≤ 122) at hrange
    omega
  simp [isNameStart, hletter, hunderscore]

/-- The character, right behind a symbol, would be read together with it. -/
def joins (spelling : String) (c : Char) : Bool :=
  (TokenKind.symbols.any fun (other, _) => (spelling.toList ++ [c]).isPrefixOf other.toList) ||
    (spelling = "/" && (c = '/' || c = '*'))

/-- No symbol begins with one that stands before it in the table. -/
theorem pairwise_symbols :
    TokenKind.symbols.Pairwise fun a b => ¬ a.1.toList <+: b.1.toList := by
  decide +kernel

/-- A symbol is found in front of what it is not read together with. -/
theorem symbol?_of_mem {spelling : String} {kind : TokenKind}
    (h : (spelling, kind) ∈ TokenKind.symbols) (hrest : Lacks (joins spelling) rest) :
    symbol? (spelling.toList ++ rest) = some (spelling, kind) := by
  have hitself : spelling.toList.isPrefixOf (spelling.toList ++ rest) = true :=
    List.isPrefixOf_iff_prefix.mpr (List.prefix_append _ _)
  rw [symbol?]
  cases hfind : TokenKind.symbols.find? fun (s, _) =>
      s.toList.isPrefixOf (spelling.toList ++ rest) with
  | none =>
      have hnone := List.find?_eq_none.mp hfind (spelling, kind) h
      exact absurd hitself hnone
  | some found =>
      obtain ⟨other, otherKind⟩ := found
      obtain ⟨hbegins, before, after, hsymbols, hbefore⟩ :=
        List.find?_eq_some_iff_append.mp hfind
      rw [List.isPrefixOf_iff_prefix] at hbegins
      rw [hsymbols, List.mem_append, List.mem_cons] at h
      rcases h with hin | heq | hin
      · have hnot := hbefore _ hin
        dsimp only at hnot
        rw [hitself] at hnot
        cases hnot
      · rw [heq]
      · -- the symbol stands behind the one that was found, which must then be longer
        exfalso
        have hpairs := pairwise_symbols
        rw [hsymbols, List.pairwise_append, List.pairwise_cons] at hpairs
        have hshorter := hpairs.2.1.1 _ hin
        have hmem : (other, otherKind) ∈ TokenKind.symbols := by
          rw [hsymbols]
          simp
        rcases List.prefix_or_prefix_of_prefix hbegins (List.prefix_append spelling.toList rest)
          with hle | hle
        · exact hshorter hle
        · obtain ⟨more, hmore⟩ := hle
          cases more with
          | nil => exact hshorter ⟨[], by simpa using hmore.symm⟩
          | cons d more =>
              rw [← hmore, List.prefix_append_right_inj] at hbegins
              cases rest with
              | nil => simp at hbegins
              | cons e rest =>
                  obtain ⟨rfl, -⟩ := List.cons_prefix_cons.mp hbegins
                  have hjoin := lacks_cons.mp hrest
                  rw [joins, Bool.or_eq_false_iff, List.any_eq_false] at hjoin
                  refine hjoin.1 _ hmem ?_
                  rw [List.isPrefixOf_iff_prefix, ← hmore]
                  exact ⟨more, by simp⟩

/-- What the first character of a symbol is not. -/
theorem symbols_heads : ∀ s ∈ TokenKind.symbols, ∃ c ∈ s.1.toList.head?,
    Text.isAsciiBlank c = false ∧ isNameStart c = false ∧ c.isDigit = false ∧ c ≠ '.' ∧
      c ≠ '"' ∧ (c = '/' → s.1 = "/" ∨ s.1 = "/=") := by
  -- as a Boolean test the property is small enough for the kernel to evaluate
  have hall : (TokenKind.symbols.all fun s => s.1.toList.head?.any fun c =>
      !Text.isAsciiBlank c && !isNameStart c && !c.isDigit && c != '.' && c != '"' &&
        (c != '/' || s.1 == "/" || s.1 == "/=")) = true := by
    decide +kernel
  intro s hs
  obtain ⟨c, hhead, hc⟩ := (Option.any_eq_true ..).mp (List.all_eq_true.mp hall s hs)
  simp only [Bool.and_eq_true, Bool.not_eq_true', bne_iff_ne, ne_eq, Bool.or_eq_true, beq_iff_eq]
    at hc
  obtain ⟨⟨⟨⟨⟨hblank, hname⟩, hdigit⟩, hpoint⟩, hquote⟩, hslash⟩ := hc
  refine ⟨c, hhead, hblank, hname, hdigit, hpoint, hquote, fun heq => ?_⟩
  rw [or_assoc, or_iff_right (not_not_intro heq)] at hslash
  exact hslash

/-- A symbol is read by itself in front of what it is not read together with. -/
theorem lexeme_symbol (aliases : Aliases) {spelling : String} {kind : TokenKind}
    (h : (spelling, kind) ∈ TokenKind.symbols) (hrest : Lacks (joins spelling) rest) :
    ∃ c more, spelling.toList = c :: more ∧
      lexeme aliases c (more ++ rest) = .ok ⟨.token kind, spelling.toList, rest⟩ := by
  obtain ⟨c, hhead, hblank, hname, hdigit, hpoint, hquote, hslash⟩ := symbols_heads _ h
  obtain ⟨more, htext⟩ := List.head?_eq_some_iff.mp (Option.mem_def.mp hhead)
  dsimp only at htext
  refine ⟨c, more, htext, ?_⟩
  have hcomment : ∀ d, d = '/' ∨ d = '*' → ¬ (c = '/' ∧ (more ++ rest).head? = some d) := by
    rintro d hd ⟨hc, hnext⟩
    rcases hslash hc with rfl | rfl
    · cases htext
      have hjoin := hrest d hnext
      rcases hd with rfl | rfl <;> revert hjoin <;> decide
    · cases htext
      cases hnext
      rcases hd with hd | hd <;> cases hd
  have hsymbol := symbol?_of_mem h hrest
  rw [htext, List.cons_append] at hsymbol
  simp only [lexeme, hblank, hname, hdigit, hpoint, hquote, Bool.false_eq_true, if_false,
    decide_false, Bool.false_and, Bool.or_false, Bool.and_eq_true, decide_eq_true_eq,
    if_neg (hcomment '/' (.inl rfl)), if_neg (hcomment '*' (.inr rfl))]
  rw [symbol, hsymbol]
  simp [htext]

/-! ### The lexeme of a token -/

theorem reading_endNumber (text cs : List Char) : (endNumber text cs).reading = .token .number ∨
    ∃ flaw, (endNumber text cs).reading = .flaw flaw := by
  rw [endNumber]
  split
  next => exact .inl rfl
  next => exact .inr ⟨_, rfl⟩

theorem reading_decimalNumber (cs : List Char) : (decimalNumber cs).reading = .token .number ∨
    ∃ flaw, (decimalNumber cs).reading = .flaw flaw := by
  unfold decimalNumber
  by_cases hmark : (exponentMark (fraction (run Char.isDigit cs).2).2).1.isEmpty = true
  · simp only [hmark, if_true, Bool.not_true, Bool.false_and, Bool.false_eq_true, if_false]
    exact reading_endNumber _ _
  · simp only [hmark, Bool.false_eq_true, if_false]
    split
    next => exact .inr ⟨_, rfl⟩
    next => exact reading_endNumber _ _

theorem reading_number (cs : List Char) : (number cs).reading = .token .number ∨
    ∃ flaw, (number cs).reading = .flaw flaw := by
  unfold number
  split
  next =>
    split
    next =>
      simp only [hexNumber]
      split
      next => exact .inr ⟨_, rfl⟩
      next => exact reading_endNumber _ _
    next => exact reading_decimalNumber _
  next => exact reading_decimalNumber _

theorem reading_stringBody (h : stringBody cs = .ok l) :
    l.reading = .token .string ∨ l.reading = .flaw .openString := by
  fun_induction stringBody cs generalizing l with
  | case1 => cases h; exact .inr rfl
  | case2 => cases h; exact .inr rfl
  | case3 => cases h; exact .inl rfl
  | case4 => cases h
  | case5 c more ih =>
      cases hbody : stringBody more with
      | error fault => rw [hbody] at h; cases h
      | ok body =>
          rw [hbody] at h ih
          cases h
          have hinner := ih rfl
          exact hinner
  | case6 c more _ _ _ _ ih =>
      cases hbody : stringBody more with
      | error fault => rw [hbody] at h; cases h
      | ok body =>
          rw [hbody] at h ih
          cases h
          have hinner := ih rfl
          exact hinner

theorem reading_commentBody (cs : List Char) :
    (commentBody cs).reading = .skip ∨ (commentBody cs).reading = .flaw .openComment := by
  fun_induction commentBody cs with
  | case1 => exact .inr rfl
  | case2 => exact .inl rfl
  | case3 c rest body _ ih => exact ih

/-- The text of a token that is no symbol. -/
inductive IsText (aliases : Aliases) : TokenKind → List Char → Prop where
  | word {text : List Char} : IsWord text →
      IsText aliases (wordKind aliases (String.ofList text)) text
  | number {text : List Char} : IsNumber text → IsText aliases .number text
  | string {text : List Char} :
      (∀ rest, stringBody (text ++ rest) = .ok ⟨.token .string, text, rest⟩) →
      IsText aliases .string ('"' :: text)

theorem isText_of_ofWord? (aliases : Aliases) {word : String} {kind : TokenKind}
    (h : IsWord word.toList) (hkind : TokenKind.ofWord? word = some kind) :
    IsText aliases kind word.toList := by
  have htext : IsText aliases (wordKind aliases (String.ofList word.toList)) word.toList := .word h
  rwa [String.ofList_toList, wordKind, hkind] at htext

/-- No operator begins a word, a number or a string. -/
theorem IsText.starts {kind : TokenKind} (h : IsText aliases kind text) :
    ∃ c more, text = c :: more ∧ c ≠ '=' ∧ c ≠ '&' := by
  cases h with
  | word hword =>
      obtain ⟨⟨c, more, rfl, hname⟩, -⟩ := hword
      refine ⟨c, more, rfl, ?_⟩
      constructor <;> rintro rfl <;> cases hname
  | number hnumber =>
      obtain ⟨c, more, rfl, hstart⟩ := hnumber.starts
      refine ⟨c, more, rfl, ?_⟩
      constructor <;> rintro rfl <;> cases hstart
  | string => exact ⟨_, _, rfl, by decide⟩

/-- The symbol that is found is what the text begins with. -/
theorem text_of_symbol? {spelling : String} {kind : TokenKind}
    (h : symbol? (c :: cs) = some (spelling, kind)) :
    c :: cs.take (spelling.toList.length - 1) = spelling.toList := by
  obtain ⟨d, hhead, -⟩ := symbols_heads _ (List.mem_of_find?_eq_some h)
  obtain ⟨more, htext⟩ := List.head?_eq_some_iff.mp (Option.mem_def.mp hhead)
  have hbegins := List.find?_some h
  rw [List.isPrefixOf_iff_prefix] at hbegins
  dsimp only at htext hbegins
  rw [htext] at hbegins ⊢
  obtain ⟨rfl, rest, rfl⟩ := List.cons_prefix_cons.mp hbegins
  simp

/-- Where a token is read, its text is that of a symbol or has the form that its kind tells. -/
theorem symbol_or_isText_of_lexeme {kind : TokenKind} (h : lexeme aliases c cs = .ok l)
    (hkind : l.reading = .token kind) :
    (String.ofList l.text, kind) ∈ TokenKind.symbols ∨ IsText aliases kind l.text := by
  unfold lexeme at h
  split at h
  next =>
    cases h
    cases hkind
  next =>
  split at h
  next hname =>
    cases h
    rw [word_eq] at hkind ⊢
    cases hkind
    refine .inr (.word ⟨⟨c, cs.takeWhile Text.isAsciiWord, ?_, hname⟩, fun d hd => of_mem_run hd⟩)
    simp [run, isAsciiWord_of_isNameStart hname]
  next =>
  split at h
  next hstart =>
    cases h
    rcases reading_number (c :: cs) with hread | ⟨flaw, hread⟩
    · rw [hread] at hkind
      cases hkind
      have hrun : number (c :: cs) =
          ⟨.token .number, (number (c :: cs)).text, (number (c :: cs)).rest⟩ := by
        rw [← hread]
      exact .inr (.number (of_number ⟨c, cs, rfl, hstart⟩ hrun))
    · rw [hread] at hkind
      cases hkind
  next =>
  split at h
  next hquote =>
    cases hbody : stringBody cs with
    | error fault => rw [hbody] at h; cases h
    | ok body =>
        rw [hbody] at h
        cases h
        rcases reading_stringBody hbody with hread | hread
        · change body.reading = _ at hkind
          rw [hread] at hkind
          cases hkind
          obtain ⟨reading, text, rest⟩ := body
          cases hread
          rw [hquote]
          exact .inr (.string (stringBody_again hbody))
        · change body.reading = _ at hkind
          rw [hread] at hkind
          cases hkind
  next =>
  split at h
  next =>
    cases h
    cases hkind
  next =>
  split at h
  next =>
    cases h
    rcases reading_commentBody (cs.drop 1) with hread | hread
    · rw [hread] at hkind
      cases hkind
    · rw [hread] at hkind
      cases hkind
  next =>
    cases h
    rw [symbol] at hkind ⊢
    split at hkind
    next spelling found hfound =>
      cases hkind
      left
      dsimp only
      rw [text_of_symbol? hfound, String.ofList_toList]
      exact List.mem_of_find?_eq_some hfound
    next => cases hkind

/-- A text that is no symbol is read in front of anything that does not continue it. -/
theorem lexeme_of_isText {kind : TokenKind} (h : IsText aliases kind text) (hends : Ends rest) :
    ∃ c more, text = c :: more ∧
      lexeme aliases c (more ++ rest) = .ok ⟨.token kind, text, rest⟩ := by
  cases h with
  | word hword =>
      obtain ⟨⟨c, more, rfl, hname⟩, hchars⟩ := hword
      refine ⟨c, more, rfl, ?_⟩
      have hrun := run_of_lacks hchars hends.lacks_isAsciiWord
      rw [List.cons_append] at hrun
      rw [lexeme, if_neg (by rw [isAsciiBlank_of_isNameStart hname]; decide), if_pos hname,
        word_eq, hrun]
  | number hnumber =>
      obtain ⟨c, more, rfl, hstart⟩ := hnumber.starts
      refine ⟨c, more, rfl, ?_⟩
      have hnot : Text.isAsciiBlank c = false ∧ isNameStart c = false := by
        simp only [Bool.or_eq_true, Bool.and_eq_true, decide_eq_true_eq] at hstart
        rcases hstart with hdigit | ⟨rfl, -⟩
        · exact ⟨isAsciiBlank_of_isDigit hdigit, not_isNameStart_of_isDigit hdigit⟩
        · decide
      have hlonger : (c.isDigit || (c = '.' && (more ++ rest).head?.any Char.isDigit)) = true := by
        cases more with
        | nil => simpa using Or.inl (by simpa using hstart)
        | cons d more => exact hstart
      have hrun := number_of_isNumber hnumber hends
      rw [List.cons_append] at hrun
      rw [lexeme, if_neg (by rw [hnot.1]; decide), if_neg (by rw [hnot.2]; decide),
        if_pos hlonger, hrun]
  | @string body hbody =>
      refine ⟨'"', body, rfl, ?_⟩
      change (stringBody (body ++ rest)).map _ = _
      rw [hbody]
      rfl

end Lexer

end KernelWeaver.Snippet
