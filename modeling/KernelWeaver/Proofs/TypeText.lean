import KernelWeaver.Proofs.Snippet.Accounting
import KernelWeaver.Proofs.Snippet.ParseExpr
import KernelWeaver.Proofs.Text.Lines
import KernelWeaver.Proofs.Typing.Parts
import Mathlib

/-!
# Two ways to read a type

The type of a model's variable is read word by word, the type in a snippet token by token. Where
both accept a text they find the same number, and a pointer or none. They differ in one place:
`const` behind the star makes the pointer constant in a snippet, and in a model the number behind
the pointer.
-/

namespace KernelWeaver

open Snippet Lexer

variable {c : Char} {cs rest front : List Char} {aliases : Aliases} {text : String} {t : Token}
  {place place' : Place}

/-! ### Words of a text -/

namespace Text

theorem pieces_eq_singleton {separator : Char} (h : separator ∉ cs) :
    pieces separator cs = [cs] := by
  induction cs with
  | nil => rfl
  | cons c cs ih =>
      rw [List.mem_cons, not_or] at h
      rw [pieces, if_neg (Ne.symm h.1), ih h.2]

theorem words_nil : words (String.ofList []) = [] := by
  simp [words, pieces]

theorem words_blank (hc : isBlank c = true) :
    words (String.ofList (c :: cs)) = words (String.ofList cs) := by
  simp [words, pieces, hc]

/-- Characters that are not blank, up to a blank or the end, are a word. -/
theorem words_run (hne : front ≠ []) (hfront : ∀ c ∈ front, isBlank c = false)
    (hrest : Lacks (! isBlank ·) rest) :
    words (String.ofList (front ++ rest)) = String.ofList front :: words (String.ofList rest) := by
  have hmap : (front.map fun c => if isBlank c then ' ' else c) = front := by
    refine (List.map_congr_left fun c hc => ?_).trans (List.map_id front)
    rw [hfront c hc]
    rfl
  have hspace : ' ' ∉ front := fun hmem => by cases hfront ' ' hmem
  cases rest with
  | nil => simp [words, pieces, hmap, pieces_eq_singleton hspace, hne]
  | cons c rest =>
      have hc : isBlank c = true := by simpa using lacks_cons.mp hrest
      rw [words_blank hc]
      simp [words, hc, hmap, pieces_append_cons hspace, hne]

theorem isBlank_star : isBlank '*' = false := by decide

theorem isBlank_slash : isBlank '/' = false := by decide

theorem words_star (hrest : Lacks (! isBlank ·) rest) :
    words (String.ofList ('*' :: rest)) = "*" :: words (String.ofList rest) := by
  have hstar : "*" = String.ofList ['*'] := rfl
  rw [hstar, ← words_run (List.cons_ne_nil '*' []) (by simpa using isBlank_star) hrest]
  rfl

/-- What is not blank makes up a word with all that follows up to the next blank. -/
theorem words_append (hne : front ≠ []) (hfront : ∀ c ∈ front, isBlank c = false)
    (cs : List Char) : words (String.ofList (front ++ cs)) =
      String.ofList (front ++ (run (! isBlank ·) cs).1) ::
        words (String.ofList (run (! isBlank ·) cs).2) := by
  conv => lhs; rw [← run_append (! isBlank ·) cs, ← List.append_assoc]
  refine words_run (by simp [hne]) (fun c hc => ?_) (lacks_run _ cs)
  rcases List.mem_append.mp hc with hc | hc
  · exact hfront c hc
  · simpa using of_mem_run hc

theorem isBlank_of_isAsciiWord (h : isAsciiWord c = true) : isBlank c = false := by
  have hrange : 48 ≤ c.toNat ∧ c.toNat ≤ 122 := by
    simp only [isAsciiWord, Char.isAlphanum, Char.isAlpha, Char.isUpper, Char.isLower,
      Char.isDigit, Bool.or_eq_true, Bool.and_eq_true, decide_eq_true_eq, ge_iff_le,
      UInt32.le_iff_toNat_le] at h
    change (((65 ≤ c.toNat ∧ c.toNat ≤ 90) ∨ (97 ≤ c.toNat ∧ c.toNat ≤ 122)) ∨
      (48 ≤ c.toNat ∧ c.toNat ≤ 57)) ∨ c = '_' at h
    rcases h with h | rfl
    · omega
    · decide
  simp only [isBlank, Bool.or_eq_false_iff, Bool.and_eq_false_iff, decide_eq_false_iff_not]
  omega

theorem mem_join {separator word : String} {words : List String} (hword : word ∈ words)
    (hc : c ∈ word.toList) : c ∈ (join separator words).toList := by
  rw [join, String.toList_intercalate]
  have hmem := List.mem_map_of_mem (f := String.toList) hword
  generalize words.map String.toList = pieces at hmem
  induction pieces with
  | nil => cases hmem
  | cons first pieces ih =>
      cases pieces with
      | nil =>
          rw [List.mem_singleton] at hmem
          simpa [List.intercalate, ← hmem] using hc
      | cons second pieces =>
          rw [List.intercalate_cons_cons, List.mem_append, List.mem_append]
          rcases List.mem_cons.mp hmem with rfl | hmem
          · exact .inl (.inl hc)
          · exact .inr (ih hmem)

end Text

/-! ### Words taken apart -/

namespace Aliases

theorem splitStar_of_not_mem (h : '*' ∉ cs) :
    splitStar (String.ofList cs) = (String.ofList cs, false) := by
  rw [splitStar, String.toList_ofList, if_neg fun hlast => h (List.mem_of_getLast? hlast)]

theorem splitStar_concat (cs : List Char) :
    splitStar (String.ofList (cs ++ ['*'])) = (String.ofList cs, true) := by
  simp [splitStar]

/-- Neither a star nor a slash is in the word, but for a star at its end. -/
def Plain (word : String) : Prop := ∀ c ∈ (splitStar word).1.toList, c ≠ '*' ∧ c ≠ '/'

theorem mem_splitStar (h : c ∈ cs.dropLast) : c ∈ (splitStar (String.ofList cs)).1.toList := by
  rw [splitStar, String.toList_ofList]
  split
  next => rwa [String.toList_ofList]
  next => rw [String.toList_ofList]; exact List.dropLast_subset _ h

theorem Plain.eq_nil (h : Plain (String.ofList (front ++ '*' :: cs))) : cs = [] := by
  by_contra hne
  refine (h '*' (mem_splitStar ?_)).1 rfl
  simp [List.dropLast_cons_of_ne_nil hne]

theorem Plain.slash_notMem (h : Plain (String.ofList cs)) : '/' ∉ cs := by
  intro hmem
  obtain ⟨front, last, rfl⟩ : ∃ front last, cs = front ++ [last] :=
    ⟨_, _, (List.dropLast_append_getLast (List.ne_nil_of_mem hmem)).symm⟩
  by_cases hlast : last = '*'
  · subst hlast
    have hfront : '/' ∈ front := by simpa using hmem
    exact (h '/' (mem_splitStar (by simpa using hfront))).2 rfl
  · have hsplit : splitStar (String.ofList (front ++ [last])) =
        (String.ofList (front ++ [last]), false) := by
      rw [splitStar, String.toList_ofList, if_neg (by simpa using hlast)]
    exact (h '/' (by rw [hsplit, String.toList_ofList]; exact hmem)).2 rfl

/-- Every word of the text is plain. -/
def PlainText (cs : List Char) : Prop := ∀ word ∈ Text.words (String.ofList cs), Plain word

/-- A word as what stands in front of the star at its end, and the star. -/
def apart (word : String) : List String :=
  let (name, star) := splitStar word
  (if name = "" then [] else [name]) ++ if star then ["*"] else []

/-- The words of a text taken apart. -/
def parts (cs : List Char) : List String := (Text.words (String.ofList cs)).flatMap apart

theorem apart_of_not_mem (hne : cs ≠ []) (h : '*' ∉ cs) :
    apart (String.ofList cs) = [String.ofList cs] := by
  rw [apart, splitStar_of_not_mem h]
  simp [hne]

theorem apart_concat (hne : cs ≠ []) :
    apart (String.ofList (cs ++ ['*'])) = [String.ofList cs, "*"] := by
  rw [apart, splitStar_concat]
  simp [hne]

theorem parts_nil : parts [] = [] := by
  rw [parts, Text.words_nil]
  rfl

theorem parts_blank (hc : Text.isBlank c = true) : parts (c :: cs) = parts cs := by
  rw [parts, Text.words_blank hc, parts]

theorem PlainText.blank (h : PlainText (c :: cs)) (hc : Text.isBlank c = true) : PlainText cs := by
  rwa [PlainText, Text.words_blank hc] at h

/-- The word that a plain text begins with has no slash. -/
theorem PlainText.slash_notMem (h : PlainText (front ++ rest)) (hne : front ≠ [])
    (hfront : ∀ c ∈ front, Text.isBlank c = false) :
    '/' ∉ front ++ (run (! Text.isBlank ·) rest).1 := by
  rw [PlainText, Text.words_append hne hfront, List.forall_mem_cons] at h
  exact h.1.slash_notMem

/-- Nothing follows a star in a word of a plain text. -/
theorem PlainText.lacks (front : List Char) (h : PlainText (front ++ '*' :: rest))
    (hfront : ∀ c ∈ front, Text.isBlank c = false) : Lacks (! Text.isBlank ·) rest := by
  have hblank : ∀ c ∈ front ++ ['*'], Text.isBlank c = false := by
    simpa [or_imp, forall_and] using ⟨hfront, Text.isBlank_star⟩
  rw [PlainText, List.append_cons, Text.words_append (by simp) hblank, List.forall_mem_cons,
    List.append_assoc, List.singleton_append] at h
  have hrest := run_append (! Text.isBlank ·) rest
  rw [h.1.eq_nil, List.nil_append] at hrest
  rw [← hrest]
  exact lacks_run _ _

/-- A star of a plain text that begins a word is the word. -/
theorem parts_star (h : PlainText ('*' :: rest)) :
    parts ('*' :: rest) = "*" :: parts rest ∧ PlainText rest := by
  have hwords := Text.words_star (PlainText.lacks [] h (by simp))
  rw [PlainText, hwords] at h
  refine ⟨?_, (List.forall_mem_cons.mp h).2⟩
  rw [parts, hwords]
  rfl

/-- The word of a type is found in front of a blank, a star or the end. -/
theorem parts_word (h : PlainText (front ++ rest)) (hne : front ≠ [])
    (hfront : ∀ c ∈ front, Text.isBlank c = false) (hstar : '*' ∉ front)
    (hrest : Lacks (! Text.isBlank ·) rest ∨ ∃ more, rest = '*' :: more) :
    parts (front ++ rest) = String.ofList front :: parts rest ∧ PlainText rest := by
  rcases hrest with hends | ⟨more, rfl⟩
  · have hwords := Text.words_run hne hfront hends
    rw [PlainText, hwords] at h
    refine ⟨?_, (List.forall_mem_cons.mp h).2⟩
    rw [parts, hwords, List.flatMap_cons, apart_of_not_mem hne hstar, parts]
    rfl
  · have hends := h.lacks front hfront
    have hwords := Text.words_run (show front ++ ['*'] ≠ [] by simp)
      (by simpa [or_imp, forall_and] using ⟨hfront, Text.isBlank_star⟩) hends
    rw [← List.append_cons] at hwords
    rw [PlainText, hwords, List.forall_mem_cons] at h
    have hmore : PlainText ('*' :: more) := by
      rw [PlainText, Text.words_star hends, List.forall_mem_cons]
      exact ⟨by simp [Plain, splitStar], h.2⟩
    refine ⟨?_, hmore⟩
    rw [(parts_star hmore).1, parts, hwords, List.flatMap_cons, apart_concat hne, parts]
    rfl

/-! ### What words say -/

/-- The word is no specifier. -/
def isMark (word : String) : Bool := word = "const" || word = "*"

variable {word : String} {ws words : List String} {n : Numeric}

theorem Plain.name_ne_star (h : Plain word) : (splitStar word).1 ≠ "*" := by
  intro heq
  rw [Plain, heq] at h
  exact (h '*' (by simp)).1 rfl

theorem mem_apart {part : String} : part ∈ apart word ↔
    ((splitStar word).1 = part ∧ part ≠ "") ∨ ((splitStar word).2 = true ∧ part = "*") := by
  rw [apart]
  obtain ⟨name, star⟩ := splitStar word
  by_cases hname : name = "" <;> cases star <;> simp [hname] <;> grind

theorem filter_flatMap_apart (h : ∀ word ∈ ws, Plain word) :
    (ws.flatMap apart).filter (! isMark ·) =
      ((ws.map splitStar).map Prod.fst).filter fun word => word != "const" && word != "" := by
  induction ws with
  | nil => rfl
  | cons word ws ih =>
      rw [List.forall_mem_cons] at h
      have hstar := h.1.name_ne_star
      rw [List.flatMap_cons, List.filter_append, ih h.2, List.map_cons, List.map_cons,
        List.filter_cons, apart]
      generalize splitStar word = p at hstar ⊢
      obtain ⟨name, star⟩ := p
      by_cases hname : name = "" <;> by_cases hconst : name = "const" <;> cases star <;>
        simp_all [isMark]

theorem const_mem_flatMap_apart (ws : List String) : "const" ∈ ws.flatMap apart ↔
    "const" ∈ (ws.map splitStar).map Prod.fst := by
  simp [mem_apart]

theorem star_mem_flatMap_apart (h : ∀ word ∈ ws, Plain word) :
    "*" ∈ ws.flatMap apart ↔ (ws.map splitStar).any Prod.snd = true := by
  have hword (word : String) (hmem : word ∈ ws) :
      "*" ∈ apart word ↔ (splitStar word).2 = true := by
    simp [mem_apart, (h word hmem).name_ne_star]
  simp only [List.mem_flatMap, List.any_map, List.any_eq_true, Function.comp_apply]
  exact exists_congr fun word => and_congr_right (hword word)

/-- What the parts of a plain text say of a type. -/
theorem parseType?_eq (h : PlainText text.toList) :
    aliases.parseType? text =
      (aliases.resolve? ((parts text.toList).filter (! isMark ·))).map fun n =>
        if "*" ∈ parts text.toList then
          .pointer (.value n (decide ("const" ∈ parts text.toList))) false
        else .value n (decide ("const" ∈ parts text.toList)) := by
  rw [PlainText, String.ofList_toList] at h
  have hconst := const_mem_flatMap_apart (Text.words text)
  have hstar := star_mem_flatMap_apart h
  rw [parts, String.ofList_toList, filter_flatMap_apart h]
  simp only [hconst, hstar]
  rw [parseType?]
  simp only [List.contains_eq_mem]
  rfl

/-- No alias has a star or a slash in its name. -/
def KeepsMarks (aliases : Aliases) : Prop :=
  ∀ name, Table.has aliases name = true → '*' ∉ name.toList ∧ '/' ∉ name.toList

/-- Words that spell a number have neither stars nor slashes. -/
theorem plain_of_ofSpecifiers? (h : Numeric.ofSpecifiers? words = some n) (hword : word ∈ words)
    (hc : c ∈ word.toList) : c ≠ '*' ∧ c ≠ '/' := by
  rw [Numeric.ofSpecifiers?] at h
  have hmem : c ∈ (Text.join " " (words.mergeSort fun a b => !decide (b < a))).toList :=
    Text.mem_join (List.mem_mergeSort.mpr hword) hc
  generalize Text.join " " (words.mergeSort fun a b => !decide (b < a)) = spelling at h hmem
  have hall : (spelling.toList.all fun c => c != '*' && c != '/') = true := by
    split at h
    case h_18 => cases h
    all_goals decide +kernel
  simpa using List.all_eq_true.mp hall c hmem

theorem plain_of_resolve? (haliases : KeepsMarks aliases) (h : aliases.resolve? words = some n)
    (hword : word ∈ words) (hc : c ∈ word.toList) : c ≠ '*' ∧ c ≠ '/' := by
  unfold resolve? at h
  split at h
  next =>
    split at h
    next m hfind =>
      rw [List.mem_singleton] at hword
      subst hword
      obtain ⟨hstar, hslash⟩ := haliases word (by rw [Table.has, hfind]; rfl)
      exact ⟨fun heq => hstar (heq ▸ hc), fun heq => hslash (heq ▸ hc)⟩
    next => exact plain_of_ofSpecifiers? h hword hc
  next => exact plain_of_ofSpecifiers? h hword hc

/-- Only a plain text spells a type. -/
theorem plainText_of_parseType? {a : CType} (haliases : KeepsMarks aliases)
    (h : aliases.parseType? text = some a) : PlainText text.toList := by
  rw [parseType?] at h
  obtain ⟨n, hresolve, -⟩ := Option.map_eq_some_iff.mp h
  rw [PlainText, String.ofList_toList]
  intro word hword c hc
  by_cases hmark : (splitStar word).1 = "const" ∨ (splitStar word).1 = ""
  · have hall : ("const".toList.all fun c => c != '*' && c != '/') = true := by decide
    rcases hmark with hmark | hmark
    · rw [hmark] at hc
      simpa using List.all_eq_true.mp hall c hc
    · simp [hmark] at hc
  · refine plain_of_resolve? haliases hresolve ?_ hc
    rw [not_or] at hmark
    refine List.mem_filter.mpr ⟨?_, by simp [hmark]⟩
    exact List.mem_map_of_mem (List.mem_map_of_mem hword)

end Aliases

/-! ### Pieces of a type -/

namespace Snippet

open Aliases

variable {l : Lexeme} {ps : List Piece} {cs' : List Char}

/-- What can be read where a type stands: blanks, comments, words of types and stars. -/
inductive IsTypePiece (aliases : Aliases) : Lexeme → Prop where
  | blank {c : Char} {rest : List Char} : Text.isAsciiBlank c = true →
      IsTypePiece aliases ⟨.skip, [c], rest⟩
  | comment {text rest : List Char} : IsComment text rest →
      IsTypePiece aliases ⟨.skip, text, rest⟩
  | word {text rest : List Char} : IsWord text → Lacks Text.isAsciiWord rest →
      (wordKind aliases (String.ofList text)).startsType = true →
      IsTypePiece aliases ⟨.token (wordKind aliases (String.ofList text)), text, rest⟩
  | star {rest : List Char} : IsTypePiece aliases ⟨.token .star, ['*'], rest⟩

theorem symbols_of_type : ∀ s ∈ TokenKind.symbols,
    s.2.startsType = true ∨ s.2 = .star → s = ("*", .star) := by
  decide

/-- A word is read up to where it ends. -/
theorem lacks_of_isWord (h : lexeme aliases c cs = .ok l) (hword : IsWord l.text) :
    Lacks Text.isAsciiWord l.rest := by
  obtain ⟨⟨d, more, htext, hname⟩, -⟩ := hword
  have happend := lexeme_append h
  rw [htext] at happend
  obtain ⟨rfl, -⟩ := List.cons.inj happend
  rw [lexeme, if_neg (by rw [isAsciiBlank_of_isNameStart hname]; decide), if_pos hname,
    word_eq] at h
  cases h
  exact lacks_run _ _

theorem startsType_wordKind {word : String} (h : (wordKind aliases word).startsType = true ∨
    wordKind aliases word = .star) : (wordKind aliases word).startsType = true := by
  refine h.resolve_right fun hstar => ?_
  rcases wordKind_cases aliases word with ⟨-, hkind⟩ | ⟨-, hkind⟩
  · rw [hstar] at hkind
    cases hkind
  · rw [hstar] at hkind
    revert hkind
    decide

/-- A lexeme without a flaw that is no other token is such a piece. -/
theorem isTypePiece_of_lexeme (h : lexeme aliases c cs = .ok l)
    (hflaw : ∀ flaw, l.reading ≠ .flaw flaw)
    (hkind : ∀ kind, l.reading = .token kind → kind.startsType = true ∨ kind = .star) :
    IsTypePiece aliases l := by
  obtain ⟨reading, text, rest⟩ := l
  cases reading with
  | flaw flaw => exact absurd rfl (hflaw flaw)
  | skip =>
      rcases blank_or_comment_of_skip h rfl with ⟨hblank, htext⟩ | hcomment
      · cases htext
        exact .blank hblank
      · exact .comment hcomment
  | token kind =>
      have htype := hkind kind rfl
      rcases symbol_or_isText_of_lexeme h rfl with hsymbol | htext
      · have hstar := symbols_of_type _ hsymbol htype
        rw [Prod.mk.injEq] at hstar
        obtain ⟨hspelling, rfl⟩ := hstar
        have htext : text = ['*'] := by
          rw [← String.toList_ofList (l := text), hspelling]
          rfl
        rw [htext]
        exact .star
      · replace htext : IsText aliases kind text := htext
        cases htext with
        | word hword => exact .word hword (lacks_of_isWord h hword) (startsType_wordKind htype)
        | number => rcases htype with htype | htype <;> cases htype
        | string => rcases htype with htype | htype <;> cases htype

/-- A text without a flaw that has no other tokens is made of such pieces. -/
theorem isTypePiece_of_divides (h : Divides aliases place cs ps place' cs')
    (hremarks : ps.filterMap Piece.remark? = [])
    (hkinds : ∀ t ∈ ps.filterMap Piece.token?, t.kind.startsType = true ∨ t.kind = .star) :
    ∀ p ∈ ps, IsTypePiece aliases p.lexeme := by
  intro p hp
  obtain ⟨_, c, more, -, hlexeme, -⟩ := h.of_mem hp
  refine isTypePiece_of_lexeme hlexeme (fun flaw hflaw => ?_) fun kind hkind => ?_
  · have hremark := List.filterMap_eq_nil_iff.mp hremarks p hp
    rw [Piece.remark?, hflaw] at hremark
    cases hremark
  · exact hkinds ⟨kind, String.ofList p.lexeme.text, p.span⟩
      (List.mem_filterMap.mpr ⟨p, hp, by rw [Piece.token?, hkind]⟩)

/-- A word of a type is followed by a blank, a star or nothing. -/
theorem blank_or_star_of_divides (h : Divides aliases place rest ps place' [])
    (hpieces : ∀ p ∈ ps, IsTypePiece aliases p.lexeme) (hends : Lacks Text.isAsciiWord rest)
    (hslash : '/' ∉ (run (! Text.isBlank ·) rest).1) :
    Lacks (! Text.isBlank ·) rest ∨ ∃ more, rest = '*' :: more := by
  cases h with
  | nil => exact .inl .nil
  | @cons _ _ d more _ l ps hl _ =>
      have hpiece := hpieces _ List.mem_cons_self
      have happend := lexeme_append hl
      replace hpiece : IsTypePiece aliases l := hpiece
      cases hpiece with
      | @blank c rest hblank =>
          obtain ⟨rfl, -⟩ := List.cons.inj happend
          exact .inl (lacks_cons.mpr (by simp [Text.isBlank_of_isAsciiBlank hblank]))
      | comment hcomment =>
          have hd : d = '/' := by cases hcomment <;> exact (List.cons.inj happend).1.symm
          subst hd
          exact absurd (by simp [run, Text.isBlank_slash]) hslash
      | word hword _ _ =>
          obtain ⟨⟨c, _, rfl, hname⟩, -⟩ := hword
          obtain ⟨rfl, -⟩ := List.cons.inj happend
          rw [lacks_cons, isAsciiWord_of_isNameStart hname] at hends
          cases hends
      | star =>
          obtain ⟨rfl, -⟩ := List.cons.inj happend
          exact .inr ⟨more, rfl⟩

/-- The words of a plain text, taken apart, are its tokens. -/
theorem parts_of_divides (h : Divides aliases place cs ps place' [])
    (hpieces : ∀ p ∈ ps, IsTypePiece aliases p.lexeme) (hplain : PlainText cs) :
    parts cs = (ps.filterMap Piece.token?).map Token.lexeme := by
  generalize hend : ([] : List Char) = cs' at h
  induction h with
  | nil =>
      subst hend
      exact parts_nil
  | @cons place place' c cs _ l ps hl hrest ih =>
      subst hend
      rw [List.forall_mem_cons] at hpieces
      obtain ⟨hpiece, hmore⟩ := hpieces
      replace hpiece : IsTypePiece aliases l := hpiece
      rw [← lexeme_append hl] at hplain ⊢
      cases hpiece with
      | @blank c rest hblank =>
          have hc := Text.isBlank_of_isAsciiBlank hblank
          have hwords := (show PlainText (c :: rest) from hplain).blank hc
          exact (parts_blank hc).trans (ih hmore hwords rfl)
      | @comment text rest hcomment =>
          -- a comment would put a slash into a word
          obtain ⟨body, rfl⟩ : ∃ body, text = '/' :: body := by
            cases hcomment <;> exact ⟨_, rfl⟩
          have hslash := (show PlainText (['/'] ++ (body ++ rest)) from hplain).slash_notMem
            (by simp) (by simpa using Text.isBlank_slash)
          exact absurd (List.mem_append_left _ (List.mem_singleton_self _)) hslash
      | @word text rest hword hends hkind =>
          have hne : text ≠ [] := by
            obtain ⟨c, more, rfl, -⟩ := hword.starts
            exact List.cons_ne_nil c more
          have hblank : ∀ c ∈ text, Text.isBlank c = false :=
            fun c hc => Text.isBlank_of_isAsciiWord (hword.chars c hc)
          have hstar : '*' ∉ text := fun hmem => by cases hword.chars _ hmem
          have hslash := hplain.slash_notMem hne hblank
          rw [List.mem_append, not_or] at hslash
          have hnext := blank_or_star_of_divides hrest hmore hends hslash.2
          obtain ⟨hparts, hwords⟩ := parts_word hplain hne hblank hstar hnext
          exact hparts.trans (congrArg _ (ih hmore hwords rfl))
      | @star rest =>
          obtain ⟨hparts, hwords⟩ := parts_star hplain
          exact hparts.trans (congrArg _ (ih hmore hwords rfl))

/-! ### The type that tokens spell -/

/-- The text of a token of the kind tells which part of a type it is. -/
structure TellsPart (kind : TokenKind) (lexeme : String) : Prop where
  specifier : kind = .typeSpecifier ↔ isMark lexeme = false
  qualifier : kind = .typeQualifier ↔ lexeme = "const"
  star : kind = .star ↔ lexeme = "*"

theorem tellsPart_word {word : String} (hstar : word ≠ "*")
    (hkind : (wordKind aliases word).startsType = true) :
    TellsPart (wordKind aliases word) word := by
  rcases wordKind_cases aliases word with ⟨rfl, hconst⟩ | ⟨hword, hmem⟩
  · rw [hconst]
    exact ⟨by decide, by decide, by decide⟩
  · have hspecifier : wordKind aliases word = .typeSpecifier := by
      revert hkind hmem
      generalize wordKind aliases word = kind
      cases kind <;> decide
    rw [hspecifier]
    exact ⟨by simp [isMark, hword, hstar], by simp [hword], by simp [hstar]⟩

theorem tellsPart_of_piece {p : Piece} (h : IsTypePiece aliases p.lexeme)
    (ht : p.token? = some t) : TellsPart t.kind t.lexeme := by
  obtain ⟨place, l⟩ := p
  replace h : IsTypePiece aliases l := h
  cases h with
  | blank | comment => cases ht
  | @word text rest hword hends hkind =>
      cases ht
      refine tellsPart_word (fun heq => ?_) hkind
      have hstar : '*' ∈ text := by
        rw [← String.toList_ofList (l := text), heq]
        exact List.mem_singleton_self _
      cases hword.chars _ hstar
  | star =>
      cases ht
      have hstar : TellsPart .star "*" := ⟨by decide, by decide, by decide⟩
      exact hstar

variable {type : TypeSpec} {ss qs : List Token}

theorem SpellsPointer.kinds {pointer : Option PointerMark} (h : SpellsPointer pointer qs) :
    qs.filter (·.kind = .typeSpecifier) = [] ∧
      qs.any (·.kind = .typeQualifier) = pointer.any PointerMark.isConst ∧
      qs.any (·.kind = .star) = pointer.isSome := by
  cases h with
  | none => exact ⟨rfl, rfl, rfl⟩
  | plain hstar => simp [hstar]
  | const hstar hqualifier => simp [hstar, hqualifier]

theorem SpellsPointer.kind_of_mem {pointer : Option PointerMark} (h : SpellsPointer pointer qs)
    (ht : t ∈ qs) : t.kind.startsType = true ∨ t.kind = .star := by
  cases h with
  | none => cases ht
  | plain hstar =>
      rw [List.mem_singleton.mp ht]
      exact .inr hstar
  | const hstar hqualifier =>
      rcases List.mem_cons.mp ht with rfl | ht
      · exact .inr hstar
      · rw [List.mem_singleton.mp ht, hqualifier]
        exact .inl rfl

/-- What the texts of tokens say of the type that they spell. -/
theorem parts_of_spells (htype : SpellsSpecifiers type ss)
    (hpointer : SpellsPointer type.pointer qs)
    (htells : ∀ t ∈ ss ++ qs, TellsPart t.kind t.lexeme) :
    ((ss ++ qs).map Token.lexeme).filter (! isMark ·) = type.words ∧
      ("const" ∈ (ss ++ qs).map Token.lexeme ↔
        type.isConst = true ∨ type.pointer.any PointerMark.isConst = true) ∧
      ("*" ∈ (ss ++ qs).map Token.lexeme ↔ type.pointer.isSome = true) := by
  obtain ⟨hspecifier, hqualifier, hstar⟩ := hpointer.kinds
  refine ⟨?_, ?_, ?_⟩
  · rw [List.filter_map, htype.words, ← List.append_nil (ss.filter _), ← hspecifier,
      ← List.filter_append]
    refine congrArg _ (List.filter_congr fun t ht => ?_)
    have hkind := (htells t ht).specifier
    cases hmark : isMark t.lexeme <;> simp_all
  · rw [htype.isConst, ← hqualifier, ← Bool.or_eq_true, ← List.any_append, List.any_eq_true,
      List.mem_map]
    refine exists_congr fun t => and_congr_right fun ht => ?_
    rw [decide_eq_true_eq, (htells t ht).qualifier]
  · have hnone : ss.any (·.kind = .star) = false := by
      rw [List.any_eq_false]
      intro t ht hkind
      have hstarts := htype.kinds t ht
      rw [of_decide_eq_true hkind] at hstarts
      cases hstarts
    rw [← hstar, ← Bool.false_or (qs.any _), ← hnone, ← List.any_append, List.any_eq_true,
      List.mem_map]
    refine exists_congr fun t => and_congr_right fun ht => ?_
    rw [decide_eq_true_eq, (htells t ht).star]

/-- What the words of a plain text say of the type that is read in it. -/
theorem parts_of_typeName {tokens : List Token} {cursor : Cursor} (hplain : PlainText text.toList)
    (hscan : Scan.ofSource aliases text = .ok ⟨tokens, []⟩)
    (hread : Parser.typeName (.ofTokens tokens) = .done type cursor) (hend : cursor.atEnd = true) :
    (parts text.toList).filter (! isMark ·) = type.words ∧
      ("const" ∈ parts text.toList ↔
        type.isConst = true ∨ type.pointer.any PointerMark.isConst = true) ∧
      ("*" ∈ parts text.toList ↔ type.pointer.isSome = true) := by
  obtain ⟨hlast, -⟩ := Scan.sentence_of_ofSource hscan
  obtain ⟨ps, place, hdivides, hpieces⟩ := exists_divides_of_read hscan
  injection hpieces with htokens hreport
  have hsound := Parser.sound_typeName (Cursor.closed_ofTokens tokens)
  rw [hread] at hsound
  obtain ⟨_, hreads, ss, qs, rfl, htype, hpointer, -⟩ := hsound
  have hsentence : ps.filterMap Piece.token? = ss ++ qs := by
    have hrest := hreads.rest
    rw [Cursor.rest_eq_nil_of_atEnd (kind_ne_endOfInput_of_reads hlast hreads) hend,
      List.append_nil, Cursor.rest_ofTokens hlast] at hrest
    rw [htokens, List.dropLast_concat] at hlast
    rw [← hrest, sentence, htokens, List.filter_append,
      List.filter_eq_self.mpr fun t ht => by simpa using hlast t ht]
    simp [endOfInput]
  have htypePieces : ∀ p ∈ ps, IsTypePiece aliases p.lexeme := by
    refine isTypePiece_of_divides hdivides hreport.symm ?_
    rw [hsentence, List.forall_mem_append]
    exact ⟨fun t ht => .inl (htype.kinds t ht), fun t ht => hpointer.kind_of_mem ht⟩
  have htells : ∀ t ∈ ss ++ qs, TellsPart t.kind t.lexeme := by
    intro t ht
    rw [← hsentence] at ht
    obtain ⟨p, hp, htoken⟩ := List.mem_filterMap.mp ht
    exact tellsPart_of_piece (htypePieces p hp) htoken
  rw [parts_of_divides hdivides htypePieces hplain, hsentence]
  exact parts_of_spells htype hpointer htells

end Snippet

open Aliases Typing

/-- The text is a type of a snippet: it is read without a remark as the specifiers of a type and a
star, and these are found to be the type. -/
def IsSnippetType (setting : Setting) (text : String) (b : CType) : Prop :=
  ∃ tokens type cursor checker checker', Scan.ofSource setting.aliases text = .ok ⟨tokens, []⟩ ∧
    Parser.typeName (.ofTokens tokens) = .done type cursor ∧ cursor.atEnd = true ∧
    resolve setting type none checker = (some b, checker')

theorem castTarget?_of_resolve {setting : Setting} {type : TypeSpec} {b : CType}
    {checker checker' : Checker} (h : resolve setting type none checker = (some b, checker')) :
    castTarget? setting.aliases type = some b := by
  rw [resolve_eq] at h
  cases htarget : castTarget? setting.aliases type with
  | none =>
      rw [htarget] at h
      cases h
  | some t =>
      rw [htarget] at h
      cases h
      rfl

/-- What both a model and a snippet read as a type is the same type, but for a pointer that is const
in the snippet: in the model it is not, and the number behind it is. -/
theorem model_type_of_snippet_type {setting : Setting} (haliases : setting.aliases.KeepsMarks)
    {a b : CType} (hmodel : setting.aliases.parseType? text = some a)
    (hsnippet : IsSnippetType setting text b) :
    (¬ (b.isPointer = true ∧ b.isConst = true) ∧ a = b) ∨
      ∃ n isConst, b = .pointer (.value n isConst) true ∧ a = .pointer (.value n true) false := by
  obtain ⟨tokens, type, cursor, checker, checker', hscan, hread, hend, hresolve⟩ := hsnippet
  have hplain := plainText_of_parseType? haliases hmodel
  obtain ⟨hwords, hconst, hstar⟩ := parts_of_typeName hplain hscan hread hend
  have htarget := castTarget?_of_resolve hresolve
  rw [parseType?_eq hplain, hwords] at hmodel
  rw [castTarget?] at htarget
  obtain ⟨n, hn, rfl⟩ := Option.map_eq_some_iff.mp htarget
  rw [hn] at hmodel
  injection hmodel with hmodel
  subst hmodel
  simp only [hconst, hstar]
  rcases type.pointer with _ | ⟨_ | _⟩
  · exact .inl (by simp [CType.isPointer, CType.target?])
  · exact .inl (by simp [CType.isConst])
  · exact .inr ⟨n, type.isConst, by simp⟩

example : Aliases.parseType? (.ofPrecision .float) "scalar* const" =
    some (.pointer (.value .float true) false) := by
  decide +kernel

example : IsSnippetType ⟨fun _ => none, .ofPrecision .float, none⟩ "scalar* const"
    (.pointer (.value .float false) true) := by
  refine ⟨[⟨.typeSpecifier, "scalar", ⟨0, 6, 1⟩⟩, ⟨.star, "*", ⟨6, 7, 1⟩⟩,
    ⟨.typeQualifier, "const", ⟨8, 13, 1⟩⟩, ⟨.endOfInput, "", ⟨13, 13, 1⟩⟩], _, _, .initial, _,
    ?_, rfl, rfl, rfl⟩
  cbv

end KernelWeaver
