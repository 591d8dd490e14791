import KernelWeaver.Proofs.Snippet.Rescan
import KernelWeaver.Snippet.Tree

/-!
# Numbers and their types

A number is taken apart in one way: into its mark and digits, or its whole part, fraction and
exponent, and a suffix. The type that its spelling gives it is the one of that form, so a digit that
is a letter too is never taken for a suffix or for the letter of an exponent.
-/

namespace KernelWeaver.Snippet

open Lexer

/-- The parts of a number. -/
inductive NumberForm where
  | hexadecimal (mark : Char) (digits suffix : List Char)
  /-- A fraction has its point in front, and `mark` is the letter and the sign of an exponent. Each
  part may be missing. -/
  | decimal (whole fraction mark exponent suffix : List Char)

namespace NumberForm

/-- The parts one after another. -/
def text : NumberForm → List Char
  | hexadecimal x digits suffix => '0' :: x :: digits ++ suffix
  | decimal whole fraction mark exponent suffix =>
    whole ++ (fraction ++ (mark ++ (exponent ++ suffix)))

/-- Whether there is neither a fraction nor an exponent. -/
def isInteger : NumberForm → Bool
  | hexadecimal .. => true
  | decimal _ fraction mark .. => fraction.isEmpty && mark.isEmpty

def suffix : NumberForm → List Char
  | hexadecimal _ _ suffix | decimal _ _ _ _ suffix => suffix

/-- The type of a number of the form: an integer with or without a sign, or a real number in single
or double precision, as the suffix tells. -/
def type (f : NumberForm) : Numeric :=
  if f.isInteger then if f.suffix.isEmpty then .int32 else .uint32
  else if f.suffix.isEmpty then .double else .float

/-- The parts are digits and marks of the right kind. -/
def HasParts : NumberForm → Prop
  | hexadecimal x digits _ =>
    (x = 'x' ∨ x = 'X') ∧ digits ≠ [] ∧ ∀ c ∈ digits, isHexDigit c = true
  | decimal whole fraction mark exponent _ =>
    (∀ c ∈ whole, c.isDigit = true) ∧ IsFraction fraction ∧ IsExponent mark exponent

/-- The text of a number has the form. -/
structure Spells (f : NumberForm) (lexeme : List Char) : Prop where
  text_eq : f.text = lexeme
  starts : StartsNumber lexeme
  parts : f.HasParts
  suffix : f.suffix = [] ∨ ∃ c, f.suffix = [c] ∧ isSuffix (!f.isInteger) c = true

variable {f g : NumberForm} {lexeme whole fraction mark exponent suffix : List Char} {c d : Char}

/-! ### The form of a number -/

theorem isNumber_iff : IsNumber lexeme ↔ ∃ f : NumberForm, f.Spells lexeme := by
  constructor
  · rintro ⟨hstarts, hhex | hdecimal⟩
    · cases hhex with
      | @intro x digits suffix hx hne hdigits hsuffix =>
          refine ⟨.hexadecimal x digits suffix, rfl, hstarts, ⟨hx, hne, hdigits⟩, ?_⟩
          rcases hsuffix with rfl | rfl | rfl
          · exact .inl rfl
          · exact .inr ⟨'u', rfl, rfl⟩
          · exact .inr ⟨'U', rfl, rfl⟩
    · cases hdecimal with
      | @intro whole fraction mark digits suffix hwhole hfraction hexponent hsuffix =>
          exact ⟨.decimal whole fraction mark digits suffix, rfl, hstarts,
            ⟨hwhole, hfraction, hexponent⟩, hsuffix⟩
  · rintro ⟨f, rfl, hstarts, hparts, hsuffix⟩
    refine ⟨hstarts, ?_⟩
    cases f with
    | hexadecimal x digits suffix =>
        obtain ⟨hx, hne, hdigits⟩ := hparts
        refine .inl (.intro hx hne hdigits ?_)
        rcases hsuffix with hnone | ⟨c, hone, hc⟩
        · exact .inl hnone
        · have hletter : c = 'u' ∨ c = 'U' := by simpa [isSuffix, isInteger] using hc
          refine .inr (hletter.imp ?_ ?_) <;> rintro rfl <;> exact hone
    | decimal whole fraction mark exponent suffix =>
        obtain ⟨hwhole, hfraction, hexponent⟩ := hparts
        exact .inr (.intro hwhole hfraction hexponent hsuffix)

theorem Spells.isDecimal (h : (decimal whole fraction mark exponent suffix).Spells lexeme) :
    IsDecimal lexeme := by
  obtain ⟨rfl, -, ⟨hwhole, hfraction, hexponent⟩, hsuffix⟩ := h
  exact .intro hwhole hfraction hexponent hsuffix

/-- The parts of a decimal number, found from the left. -/
def partsOf (cs : List Char) : List Char × List Char × List Char × List Char × List Char :=
  let (whole, cs) := run Char.isDigit cs
  let (fraction, cs) := Lexer.fraction cs
  let (mark, cs) := exponentMark cs
  let (exponent, suffix) := run Char.isDigit cs
  (whole, fraction, mark, exponent, suffix)

theorem Spells.partsOf_eq (h : (decimal whole fraction mark exponent suffix).Spells lexeme) :
    partsOf lexeme = (whole, fraction, mark, exponent, suffix) := by
  obtain ⟨rfl, -, ⟨hwhole, hfraction, hexponent⟩, hsuffix⟩ := h
  have hbehind := lacks_suffix_append hsuffix .nil
  rw [List.append_nil] at hbehind
  have hpoint : Lacks isDigitOrPoint suffix := hbehind.imp fun c hc => by simp [hc]
  have hdigit : Lacks Char.isDigit suffix := hpoint.imp fun c hc => by simp [isDigitOrPoint, hc]
  have htail := lacks_exponent_append hexponent hpoint
  have hfirst : Lacks Char.isDigit (fraction ++ (mark ++ (exponent ++ suffix))) :=
    lacks_fraction_append hfraction (htail.imp fun c hc => by simp [isDigitOrPoint, hc])
  rw [NumberForm.text, partsOf, run_of_lacks hwhole hfirst]
  dsimp only
  rw [fraction_of_isFraction hfraction htail]
  dsimp only
  rcases hexponent with ⟨rfl, rfl⟩ | ⟨hmark, hne, hdigits⟩
  · have hnone : Lacks isExponentLetter suffix := hbehind.imp fun c hc => by simp [hc]
    have hrun : run Char.isDigit ([] ++ suffix) = ([], suffix) := run_of_lacks (by simp) hdigit
    rw [List.nil_append, exponentMark_of_lacks (by simpa using hnone)]
    dsimp only
    rw [hrun]
  · rw [exponentMark_of_isMark hmark (lacks_sign_append hne hdigits suffix)]
    dsimp only
    rw [run_of_lacks hdigits hdigit]

/-- The marks of hexadecimal numbers are in no decimal one. -/
theorem Spells.not_hexadecimal {x : Char} {digits suffix' : List Char}
    (h : (decimal whole fraction mark exponent suffix).Spells lexeme) :
    ¬(hexadecimal x digits suffix').Spells lexeme := by
  rintro ⟨rfl, -, ⟨hx, -⟩, -⟩
  have hne := h.isDecimal.ne_x (List.mem_cons_of_mem '0' List.mem_cons_self)
  exact hx.elim hne.1 hne.2

/-- A number is taken apart in one way. -/
theorem Spells.unique (hf : f.Spells lexeme) (hg : g.Spells lexeme) : f = g := by
  cases f with
  | decimal whole fraction mark exponent suffix =>
      cases g with
      | decimal =>
          have hparts := hf.partsOf_eq.symm.trans hg.partsOf_eq
          simpa using hparts
      | hexadecimal => exact absurd hg hf.not_hexadecimal
  | hexadecimal x digits suffix =>
      cases g with
      | decimal => exact absurd hf hg.not_hexadecimal
      | hexadecimal y others suffix' =>
          have hlacks : ∀ {cs : List Char},
              (cs = [] ∨ ∃ c, cs = [c] ∧ isSuffix (!true) c = true) → Lacks isHexDigit cs := by
            rintro cs (rfl | ⟨c, rfl, hc⟩)
            · exact .nil
            · have hletter : c = 'u' ∨ c = 'U' := by simpa [isSuffix] using hc
              refine lacks_cons.mpr ?_
              rcases hletter with rfl | rfl <;> decide
          have htext : x :: digits ++ suffix = y :: others ++ suffix' :=
            (List.cons.inj (hf.text_eq.trans hg.text_eq.symm)).2
          obtain ⟨rfl, htail⟩ := List.cons.inj htext
          have hleft : run isHexDigit (digits ++ suffix) = (digits, suffix) :=
            run_of_lacks hf.parts.2.2 (hlacks hf.suffix)
          have hright : run isHexDigit (others ++ suffix') = (others, suffix') :=
            run_of_lacks hg.parts.2.2 (hlacks hg.suffix)
          have hsplit : (digits, suffix) = (others, suffix') := by
            rw [← hleft, ← hright]
            exact congrArg _ htail
          simpa using hsplit

/-! ### The type of a number -/

theorem toLower_of_isDigit (h : c.isDigit = true) : c.toLower = c := by
  have hval : c.val.toNat ≤ 57 := by
    have hrange : 48 ≤ c.val.toNat ∧ c.val.toNat ≤ 57 := by
      simpa [Char.isDigit, UInt32.le_iff_toNat_le] using h
    exact hrange.2
  delta Char.toLower
  rw [dif_neg]
  rintro ⟨hupper, -⟩
  have hle : 65 ≤ c.val.toNat := UInt32.le_iff_toNat_le.mp hupper
  omega

/-- Only a letter and its capital have the same small letter. -/
theorem eq_or_eq_of_toLower (h : c.toLower = d) : c = d ∨ c.val.toNat + 32 = d.val.toNat := by
  delta Char.toLower at h
  split at h
  next hupper =>
    right
    have hle : c.val.toNat ≤ 90 := UInt32.le_iff_toNat_le.mp hupper.2
    rw [← h, UInt32.toNat_add]
    change _ = (c.val.toNat + 32) % 2 ^ 32
    omega
  next => exact .inl h

theorem toLower_ne_of_isHexDigit (h : isHexDigit c = true) : c.toLower ≠ 'u' := by
  intro heq
  rcases eq_or_eq_of_toLower heq with rfl | hval
  · revert h
    decide
  · have hcapital : c = 'U' := Char.ext (UInt32.toNat_inj.mp (Nat.add_right_cancel hval))
    rw [hcapital] at h
    revert h
    decide

theorem toLower_ne_x (h : c ≠ 'x' ∧ c ≠ 'X') : c.toLower ≠ 'x' := by
  intro heq
  rcases eq_or_eq_of_toLower heq with rfl | hval
  · exact h.1 rfl
  · exact h.2 (Char.ext (UInt32.toNat_inj.mp (Nat.add_right_cancel hval)))

/-- The last character of a text of characters with a property. -/
theorem exists_getLast? {p : Char → Prop} {cs : List Char} (hne : cs ≠ [])
    (h : ∀ c ∈ cs, p c) : ∃ c, cs.getLast? = some c ∧ p c :=
  ⟨cs.getLast hne, List.getLast?_eq_some_getLast hne, h _ (List.getLast_mem hne)⟩

/-- A number without a suffix ends with a digit, or with its point. -/
theorem Spells.exists_last (h : (decimal whole fraction mark exponent []).Spells lexeme) :
    ∃ c, lexeme.getLast? = some c ∧ (c.isDigit = true ∨ c = '.') := by
  obtain ⟨rfl, hstarts, ⟨hwhole, hfraction, hexponent⟩, -⟩ := h
  simp only [NumberForm.text, List.append_nil] at hstarts ⊢
  rcases hexponent with ⟨rfl, rfl⟩ | ⟨-, hne, hdigits⟩
  · have hall : ∀ c ∈ whole ++ fraction, c.isDigit = true ∨ c = '.' := by
      intro c hc
      rcases List.mem_append.mp hc with hc | hc
      · exact .inl (hwhole c hc)
      · rcases hfraction with rfl | ⟨ds, rfl, hds⟩
        · cases hc
        · exact (List.mem_cons.mp hc).symm.imp_left (hds c)
    rw [List.append_nil, List.append_nil] at hstarts ⊢
    refine exists_getLast? ?_ hall
    obtain ⟨c, more, htext, -⟩ := hstarts
    rw [htext]
    exact List.cons_ne_nil c more
  · obtain ⟨c, hlast, hc⟩ := exists_getLast? hne hdigits
    refine ⟨c, ?_, .inl hc⟩
    simp [List.getLast?_append, hlast]

/-- The suffix of a number, as a small letter, is its last character. -/
theorem Spells.last_eq (h : f.Spells lexeme) :
    f.suffix = [] ∨ f.suffix.isEmpty = false ∧
      (lexeme.map Char.toLower).getLast? = some (if f.isInteger then 'u' else 'f') := by
  refine h.suffix.imp_right ?_
  rintro ⟨c, hone, hc⟩
  refine ⟨by rw [hone]; rfl, ?_⟩
  have hlast : lexeme.getLast? = some c := by
    rw [← h.text_eq]
    cases f with
    | hexadecimal x digits suffix =>
        change suffix = [c] at hone
        rw [NumberForm.text, hone, List.getLast?_concat]
    | decimal whole fraction mark exponent suffix =>
        change suffix = [c] at hone
        rw [NumberForm.text, hone]
        simp only [← List.append_assoc, List.getLast?_concat]
  rw [List.getLast?_map, hlast, Option.map_some]
  cases hform : f.isInteger with
  | true =>
      have hletter : c = 'u' ∨ c = 'U' := by simpa [isSuffix, hform] using hc
      rcases hletter with rfl | rfl <;> rfl
  | false =>
      have hletter : c = 'f' ∨ c = 'F' := by simpa [isSuffix, hform] using hc
      rcases hletter with rfl | rfl <;> rfl

theorem numberType_hexadecimal {x : Char} {digits : List Char}
    (h : (hexadecimal x digits suffix).Spells lexeme) :
    numberType (String.ofList lexeme) = (hexadecimal x digits suffix).type := by
  have hmark : ['0', 'x'].isPrefixOf (lexeme.map Char.toLower) = true := by
    rw [← h.text_eq]
    rcases h.parts.1 with rfl | rfl <;> rfl
  simp only [numberType, String.toList_ofList]
  rw [if_pos hmark]
  rcases h.last_eq with hnone | ⟨hsome, hlast⟩
  · obtain rfl : suffix = [] := hnone
    obtain ⟨c, hlast, hc⟩ := exists_getLast? h.parts.2.1 h.parts.2.2
    have hend : (lexeme.map Char.toLower).getLast? = some c.toLower := by
      rw [← h.text_eq, NumberForm.text, List.append_nil, List.getLast?_map]
      simp [List.getLast?_cons, hlast]
    rw [hend, if_neg (by simpa using toLower_ne_of_isHexDigit hc)]
    rfl
  · rw [hlast, type, hsome]
    rfl

/-- The characters of a decimal number, as small letters, do not begin like a hexadecimal one. -/
theorem Spells.not_prefix (h : (decimal whole fraction mark exponent suffix).Spells lexeme) :
    ['0', 'x'].isPrefixOf (lexeme.map Char.toLower) = false := by
  rw [Bool.eq_false_iff, ne_eq, List.isPrefixOf_iff_prefix]
  rintro ⟨rest, hrest⟩
  have hmem : 'x' ∈ lexeme.map Char.toLower := by
    rw [← hrest]
    simp
  obtain ⟨c, hc, heq⟩ := List.mem_map.mp hmem
  exact toLower_ne_x (h.isDecimal.ne_x hc) heq

/-- A number without a suffix ends neither with the letter of one nor with its capital. -/
theorem Spells.last_ne (h : (decimal whole fraction mark exponent []).Spells lexeme) :
    (lexeme.map Char.toLower).getLast? ≠ some 'u' ∧
      (lexeme.map Char.toLower).getLast? ≠ some 'f' := by
  obtain ⟨c, hlast, hc⟩ := h.exists_last
  rw [List.getLast?_map, hlast, Option.map_some, ne_eq, ne_eq, Option.some_inj, Option.some_inj]
  rcases hc with hdigit | rfl
  · rw [toLower_of_isDigit hdigit]
    constructor <;> rintro rfl <;> cases hdigit
  · decide

theorem numberType_integer (h : (decimal whole [] [] exponent suffix).Spells lexeme) :
    numberType (String.ofList lexeme) = (decimal whole [] [] exponent suffix).type := by
  have hexponent : exponent = [] := by
    rcases h.parts.2.2 with ⟨-, hnone⟩ | ⟨⟨_, _, hmark, -⟩, -⟩
    · exact hnone
    · cases hmark
  have hletters : ∀ c ∈ lexeme.map Char.toLower, c ≠ '.' ∧ c ≠ 'e' := by
    rw [← h.text_eq, NumberForm.text, hexponent]
    simp only [List.nil_append, List.map_append, List.mem_append, List.mem_map]
    rintro _ (⟨c, hc, rfl⟩ | ⟨c, hc, rfl⟩)
    · have hdigit := h.parts.1 c hc
      rw [toLower_of_isDigit hdigit]
      constructor <;> rintro rfl <;> cases hdigit
    · rcases h.suffix with hnone | ⟨d, hone, hd⟩
      · obtain rfl : suffix = [] := hnone
        cases hc
      · obtain rfl : suffix = [d] := hone
        obtain rfl := List.mem_singleton.mp hc
        have hletter : c = 'u' ∨ c = 'U' := by simpa [isSuffix, isInteger] using hd
        rcases hletter with rfl | rfl <;> decide
  have hreal : (lexeme.map Char.toLower).contains '.' = false ∧
      (lexeme.map Char.toLower).contains 'e' = false := by
    simp only [List.contains_eq_mem, decide_eq_false_iff_not]
    exact ⟨fun hmem => (hletters _ hmem).1 rfl, fun hmem => (hletters _ hmem).2 rfl⟩
  simp only [numberType, String.toList_ofList, h.not_prefix, hreal.1, hreal.2, Bool.or_self,
    Bool.false_eq_true, if_false]
  rcases h.last_eq with hnone | ⟨hsome, hlast⟩
  · obtain rfl : suffix = [] := hnone
    rw [if_neg h.last_ne.2, if_neg h.last_ne.1]
    rfl
  · rw [hlast, type, hsome]
    rfl

theorem numberType_real (h : (decimal whole fraction mark exponent suffix).Spells lexeme)
    (hreal : fraction ≠ [] ∨ mark ≠ []) :
    numberType (String.ofList lexeme) = (decimal whole fraction mark exponent suffix).type := by
  have hform : (decimal whole fraction mark exponent suffix).isInteger = false := by
    rw [isInteger, Bool.and_eq_false_iff, List.isEmpty_eq_false_iff, List.isEmpty_eq_false_iff]
    exact hreal
  have hmark : ((lexeme.map Char.toLower).contains '.' ||
      (lexeme.map Char.toLower).contains 'e') = true := by
    rw [Bool.or_eq_true, List.contains_iff_mem, List.contains_iff_mem, ← h.text_eq]
    simp only [NumberForm.text, List.map_append, List.mem_append]
    rcases h.parts.2.1 with rfl | ⟨ds, rfl, -⟩
    · rcases h.parts.2.2 with ⟨rfl, -⟩ | ⟨⟨letter, sign, rfl, hletter, -⟩, -⟩
      · simp at hreal
      · rcases hletter with rfl | rfl
        · exact .inr (.inr (.inr (.inl List.mem_cons_self)))
        · exact .inr (.inr (.inr (.inl List.mem_cons_self)))
    · exact .inl (.inr (.inl List.mem_cons_self))
  simp only [numberType, String.toList_ofList, h.not_prefix, hmark, Bool.false_eq_true, if_false,
    if_true]
  rcases h.last_eq with hnone | ⟨hsome, hlast⟩
  · obtain rfl : suffix = [] := hnone
    rw [if_neg h.last_ne.2, type, hform]
    rfl
  · rw [hlast, type, hsome, hform]
    rfl

/-- The type that the spelling of a number gives it is that of its form. -/
theorem Spells.numberType_eq (h : f.Spells lexeme) :
    numberType (String.ofList lexeme) = f.type := by
  cases f with
  | hexadecimal => exact numberType_hexadecimal h
  | decimal whole fraction mark exponent suffix =>
      by_cases hreal : fraction ≠ [] ∨ mark ≠ []
      · exact numberType_real h hreal
      · obtain ⟨rfl, rfl⟩ : fraction = [] ∧ mark = [] := by simpa using hreal
        exact numberType_integer h

end NumberForm

/-- A number token has the text of a number. -/
theorem Token.Formed.isNumber {aliases : Aliases} {t : Token} (h : t.Formed aliases)
    (hkind : t.kind = .number) : IsNumber t.lexeme.toList := by
  rcases h with hsymbol | htext
  · rw [hkind] at hsymbol
    exact absurd hsymbol (by decide)
  · generalize t.kind = kind, t.lexeme.toList = text at htext hkind
    cases htext with
    | word =>
        rcases wordKind_cases aliases (String.ofList text) with ⟨-, hword⟩ | ⟨-, hword⟩
        · rw [hkind] at hword
          cases hword
        · rw [hkind] at hword
          exact absurd hword (by decide)
    | number h => exact h
    | string => cases hkind

/-- A number token of a source is taken apart in one way, and its spelling gives it the type of its
form: an integer, hexadecimal or without a fraction and an exponent, is unsigned with a suffix and
signed without one; any other number has single precision with a suffix and double precision
without one. Every text of such a form is the token of a source. -/
theorem number_tokens_have_types_of_forms (aliases : Aliases) :
    (∀ source scan, Scan.ofSource aliases source = .ok scan →
      ∀ t ∈ scan.tokens, t.kind = .number → ∃ f : NumberForm, f.Spells t.lexeme.toList ∧
        (∀ g : NumberForm, g.Spells t.lexeme.toList → g = f) ∧ numberType t.lexeme = f.type) ∧
    ∀ (f : NumberForm) lexeme, f.Spells lexeme → ∃ t last : Token, t.kind = .number ∧
      t.lexeme = String.ofList lexeme ∧ last.kind = .endOfInput ∧
        Scan.ofSource aliases (String.ofList lexeme) = .ok ⟨[t, last], []⟩ := by
  constructor
  · intro source scan hscan t ht hkind
    have hmem : t ∈ sentence scan.tokens := List.mem_filter.mpr ⟨ht, by simp [hkind]⟩
    have hnumber := ((Scan.sentence_of_ofSource hscan).2 t hmem).isNumber hkind
    obtain ⟨f, hf⟩ := NumberForm.isNumber_iff.mp hnumber
    refine ⟨f, hf, fun g hg => hg.unique hf, ?_⟩
    have htype := hf.numberType_eq
    rwa [String.ofList_toList] at htype
  · intro f lexeme hf
    have hread : ReadsAs aliases (String.ofList lexeme).toList fun ts =>
        ∃ t : Token, ts = [t] ∧ t.kind = .number ∧ t.lexeme = String.ofList lexeme := by
      rw [String.toList_ofList]
      exact readsAs_text (.number (NumberForm.isNumber_iff.mpr ⟨f, hf⟩))
        fun t hkind ht => ⟨t, rfl, hkind, ht⟩
    obtain ⟨_, last, hlast, ⟨t, rfl, hkind, ht⟩, hscan⟩ := hread.ofSource
    exact ⟨t, last, hkind, ht, hlast, hscan⟩

/-- Letters that are digits, exponents and suffixes. -/
example : ["0xEF", "0x1eU", "1e2f", "1E2", "1.f", "27u"].map numberType =
    [.int32, .uint32, .float, .double, .float, .uint32] := by decide

end KernelWeaver.Snippet
