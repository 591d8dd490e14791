import KernelWeaver.Proofs.Outcome
import KernelWeaver.Proofs.Snippet.Rescan
import Mathlib

/-!
# Every byte of a source is accounted for

Reading divides a source into pieces that follow one another without a gap: tokens, flaws, which are
reported, blanks and comments. Only a source that ends inside a string, with a backslash that has
nothing to escape, is not read to its end.
-/

namespace KernelWeaver

/-- The byte at the offset is in the span. -/
def Span.Has (span : Span) (i : Nat) : Prop := span.start ≤ i ∧ i < span.stop

/-- No byte is in both spans. -/
def Span.Apart (a b : Span) : Prop := a.stop ≤ b.start ∨ b.stop ≤ a.start

instance : Std.Symm Span.Apart := ⟨fun _ _ h => h.symm⟩

/-! ### Bytes of a text -/

namespace Text

theorem size_utf8Encode (cs : List Char) : cs.utf8Encode.size = byteLength cs := by
  induction cs with
  | nil => rfl
  | cons c cs ih =>
      rw [List.utf8Encode_cons, ByteArray.size_append, ih, List.utf8Encode_singleton,
        List.size_toByteArray, String.length_utf8EncodeChar]
      rfl

theorem utf8ByteSize_eq (source : String) : source.utf8ByteSize = byteLength source.toList := by
  rw [← size_utf8Encode, ← String.toByteArray_ofList, String.ofList_toList,
    String.size_toByteArray]

theorem byteLength_append (xs ys : List Char) :
    byteLength (xs ++ ys) = byteLength xs + byteLength ys := by
  rw [← size_utf8Encode, List.utf8Encode_append, ByteArray.size_append, size_utf8Encode,
    size_utf8Encode]

theorem byteLength_pos {cs : List Char} (h : cs ≠ []) : 0 < byteLength cs := by
  cases cs with
  | nil => exact absurd rfl h
  | cons c cs => exact Nat.add_pos_left c.utf8Size_pos _

/-- The bytes of a part of a source are those of the source from where the part begins. -/
theorem extract_toByteArray {source : String} {before text rest : List Char}
    (h : source.toList = before ++ text ++ rest) :
    source.toByteArray.extract (byteLength before) (byteLength before + byteLength text) =
      (String.ofList text).toByteArray := by
  rw [← String.ofList_toList (s := source), h, String.toByteArray_ofList, String.toByteArray_ofList,
    List.utf8Encode_append, List.utf8Encode_append, ByteArray.append_assoc,
    ← size_utf8Encode before, ← size_utf8Encode text,
    ← Nat.add_zero before.utf8Encode.size, Nat.add_assoc, Nat.zero_add,
    ByteArray.extract_append_size_add]
  exact ByteArray.extract_append_eq_left rfl

end Text

namespace Snippet

open Lexer

/-! ### Strings that are not closed -/

/-- The inside of a string that is still open: characters that neither close it nor end the line,
and backslashes, each with the character that it escapes. -/
inductive IsOpen : List Char → Prop where
  | nil : IsOpen []
  | plain {c : Char} {cs : List Char} :
      c ≠ '"' → c ≠ '\\' → c ≠ '\n' → IsOpen cs → IsOpen (c :: cs)
  | escape {c : Char} {cs : List Char} : IsOpen cs → IsOpen ('\\' :: c :: cs)

/-- The rest of a string that is open when the text ends in a backslash with nothing to escape. -/
def EndsInEscape (cs : List Char) : Prop := ∃ body, cs = body ++ ['\\'] ∧ IsOpen body

variable {aliases : Aliases} {c : Char} {cs cs' : List Char} {l : Lexeme} {place place' : Place}
  {fault : Fault}

theorem endsInEscape_plain (hquote : c ≠ '"') (hslash : c ≠ '\\') (hline : c ≠ '\n') :
    EndsInEscape (c :: cs) ↔ EndsInEscape cs := by
  constructor
  · rintro ⟨body, heq, hopen⟩
    cases hopen with
    | nil => exact absurd (List.cons.inj heq).1 hslash
    | @plain _ more _ _ _ hmore => exact ⟨more, (List.cons.inj heq).2, hmore⟩
    | escape _ => exact absurd (List.cons.inj heq).1 hslash
  · rintro ⟨body, rfl, hopen⟩
    exact ⟨c :: body, rfl, .plain hquote hslash hline hopen⟩

theorem endsInEscape_escape : EndsInEscape ('\\' :: c :: cs) ↔ EndsInEscape cs := by
  constructor
  · rintro ⟨body, heq, hopen⟩
    cases hopen with
    | nil => cases heq
    | plain _ hslash => exact absurd (List.cons.inj heq).1.symm hslash
    | @escape _ more hmore =>
        injection heq with _ heq
        injection heq with _ hcs
        exact ⟨more, hcs, hmore⟩
  · rintro ⟨body, rfl, hopen⟩
    exact ⟨'\\' :: c :: body, rfl, .escape hopen⟩

/-- The inside of a string has no answer exactly if it ends in a backslash with nothing to
escape. -/
theorem stringBody_eq_error_iff :
    stringBody cs = .error fault ↔ fault = .outOfRange ∧ EndsInEscape cs := by
  fun_induction stringBody cs with
  | case1 =>
      simp [EndsInEscape]
  | case2 rest =>
      refine ⟨by rintro ⟨⟩, ?_⟩
      rintro ⟨-, body, heq, hopen⟩
      cases hopen with
      | nil => cases heq
      | plain _ _ hline => exact absurd (List.cons.inj heq).1.symm hline
      | escape => cases heq
  | case3 rest =>
      refine ⟨by rintro ⟨⟩, ?_⟩
      rintro ⟨-, body, heq, hopen⟩
      cases hopen with
      | nil => cases heq
      | plain hquote => exact absurd (List.cons.inj heq).1.symm hquote
      | escape => cases heq
  | case4 =>
      have hends : EndsInEscape ['\\'] := ⟨[], rfl, .nil⟩
      simp [hends, eq_comm]
  | case5 c rest ih =>
      rw [map_eq_error, ih, endsInEscape_escape]
  | case6 c rest hline hquote hlast hpair ih =>
      have hslash : c ≠ '\\' := by
        rintro rfl
        cases rest with
        | nil => exact hlast rfl rfl
        | cons d rest => exact hpair d rest rfl rfl
      rw [map_eq_error, ih, endsInEscape_plain hquote hslash hline]

/-- Reading a lexeme has no answer exactly at the quote of such a string. -/
theorem lexeme_eq_error_iff :
    lexeme aliases c cs = .error fault ↔ fault = .outOfRange ∧ c = '"' ∧ EndsInEscape cs := by
  have hdifferent : c ≠ '"' → (fault = .outOfRange ∧ c = '"' ∧ EndsInEscape cs ↔ False) :=
    fun hne => ⟨fun h => hne h.2.1, False.elim⟩
  unfold lexeme
  split
  next hblank =>
    rw [hdifferent (by rintro rfl; cases hblank)]
    exact ⟨nofun, False.elim⟩
  next =>
  split
  next hname =>
    rw [hdifferent (by rintro rfl; cases hname)]
    exact ⟨nofun, False.elim⟩
  next =>
  split
  next hnumber =>
    rw [hdifferent (by rintro rfl; cases hnumber)]
    exact ⟨nofun, False.elim⟩
  next =>
  split
  next hquote => rw [map_eq_error, stringBody_eq_error_iff, and_iff_right hquote]
  next hquote =>
    rw [hdifferent hquote]
    split
    next => exact ⟨nofun, False.elim⟩
    next =>
      split
      next => exact ⟨nofun, False.elim⟩
      next => exact ⟨nofun, False.elim⟩

/-! ### Comments -/

/-- A text with what follows it is a comment: to the end of the line, or from `/*` to the first
`*/`. -/
inductive IsComment : (text rest : List Char) → Prop where
  | line {text rest : List Char} : '\n' ∉ text → (∀ c ∈ rest.head?, c = '\n') →
      IsComment ('/' :: '/' :: text) rest
  | block {text rest : List Char} : ¬ ['*', '/'] <:+: text ++ ['*'] →
      IsComment ('/' :: '*' :: text ++ ['*', '/']) rest

/-- A block comment that is skipped ends at the first mark that can close it. -/
theorem exists_text_of_commentBody (h : (commentBody cs).reading = .skip) :
    ∃ text, (commentBody cs).text = text ++ ['*', '/'] ∧ ¬ ['*', '/'] <:+: text ++ ['*'] := by
  fun_induction commentBody cs with
  | case1 => cases h
  | case2 rest => exact ⟨[], rfl, by decide⟩
  | case3 c rest hclose body ih =>
      obtain ⟨text, htext, hnot⟩ := ih h
      refine ⟨c :: text, congrArg (c :: ·) htext, ?_⟩
      rw [List.cons_append, List.infix_cons_iff, not_or]
      refine ⟨fun hprefix => ?_, hnot⟩
      obtain ⟨rfl, hnext⟩ := List.cons_prefix_cons.mp hprefix
      have happend := commentBody_append rest
      rw [htext] at happend
      cases text with
      | nil => exact absurd hnext (by decide)
      | cons d text =>
          obtain ⟨rfl, -⟩ := List.cons_prefix_cons.mp hnext
          exact hclose _ rfl happend.symm

/-- What is skipped is a blank or a comment. -/
theorem blank_or_comment_of_skip (h : lexeme aliases c cs = .ok l) (hskip : l.reading = .skip) :
    (Text.isAsciiBlank c = true ∧ l.text = [c]) ∨ IsComment l.text l.rest := by
  unfold lexeme at h
  split at h
  next hblank =>
    cases h
    exact .inl ⟨hblank, rfl⟩
  next =>
  right
  split at h
  next =>
    cases h
    rw [word_eq] at hskip
    cases hskip
  next =>
  split at h
  next =>
    cases h
    rcases reading_number (c :: cs) with hread | ⟨flaw, hread⟩
    · rw [hread] at hskip
      cases hskip
    · rw [hread] at hskip
      cases hskip
  next =>
  split at h
  next =>
    obtain ⟨body, hbody, rfl⟩ := map_eq_ok.mp h
    change body.reading = _ at hskip
    rcases reading_stringBody hbody with hread | hread
    · rw [hread] at hskip
      cases hskip
    · rw [hread] at hskip
      cases hskip
  next =>
  split at h
  next hline =>
    cases h
    simp only [Bool.and_eq_true, decide_eq_true_eq] at hline
    obtain ⟨rfl, hsecond⟩ := hline
    obtain ⟨more, rfl⟩ := List.head?_eq_some_iff.mp hsecond
    have htext : '\n' ∉ more.takeWhile (· != '\n') :=
      fun hmem => by simpa using List.mem_takeWhile_imp hmem
    exact .line htext fun d hd => by simpa using lacks_run (· != '\n') more d hd
  next =>
  split at h
  next hblock =>
    cases h
    simp only [Bool.and_eq_true, decide_eq_true_eq] at hblock
    obtain ⟨rfl, hsecond⟩ := hblock
    obtain ⟨more, rfl⟩ := List.head?_eq_some_iff.mp hsecond
    obtain ⟨text, htext, hnot⟩ := exists_text_of_commentBody hskip
    rw [List.drop_one, List.tail_cons] at htext ⊢
    rw [htext]
    exact .block hnot
  next =>
    cases h
    rw [symbol] at hskip
    split at hskip
    next => cases hskip
    next => cases hskip

/-! ### Pieces -/

/-- A lexeme and the place where it begins. -/
structure Piece where
  place : Place
  lexeme : Lexeme

namespace Piece

/-- The bytes of the piece. -/
def span (p : Piece) : Span := p.place.spanOf p.lexeme

/-- The token that the piece is, if it is one. -/
def token? (p : Piece) : Option Token :=
  match p.lexeme.reading with
  | .token kind => some ⟨kind, String.ofList p.lexeme.text, p.span⟩
  | _ => none

/-- What is reported of the piece, if it has a flaw. -/
def remark? (p : Piece) : Option Diagnostic :=
  match p.lexeme.reading with
  | .flaw flaw => some (.error p.span (flaw.message p.lexeme.text))
  | _ => none

variable {p : Piece} {t : Token} {d : Diagnostic}

theorem eq_of_token? (h : p.token? = some t) :
    t.span = p.span ∧ t.lexeme = String.ofList p.lexeme.text ∧
      p.lexeme.reading = .token t.kind := by
  rw [token?] at h
  split at h
  next kind hkind =>
    cases h
    exact ⟨rfl, rfl, hkind⟩
  next => cases h

theorem span_of_remark? (h : p.remark? = some d) :
    d.span = p.span ∧ p.token? = none ∧ p.lexeme.reading ≠ .skip := by
  rw [remark?] at h
  split at h
  next flaw hflaw =>
    cases h
    simp [Diagnostic.error, token?, hflaw]
  next => cases h

end Piece

theorem Place.offset_after (place : Place) (l : Lexeme) :
    (place.after l).offset = place.offset + Text.byteLength l.text := by
  rw [Place.after]
  split <;> rfl

/-- The text of the pieces. -/
def textOf (ps : List Piece) : List Char := ps.flatMap (·.lexeme.text)

@[simp] theorem textOf_cons (p : Piece) (ps : List Piece) :
    textOf (p :: ps) = p.lexeme.text ++ textOf ps :=
  List.flatMap_cons

@[simp] theorem textOf_append (ps qs : List Piece) : textOf (ps ++ qs) = textOf ps ++ textOf qs :=
  List.flatMap_append

/-- From one place to another a text is read as the pieces, with what follows at the second. -/
inductive Divides (aliases : Aliases) :
    Place → List Char → List Piece → Place → List Char → Prop where
  | nil {place : Place} {cs : List Char} : Divides aliases place cs [] place cs
  | cons {place place' : Place} {c : Char} {cs cs' : List Char} {l : Lexeme} {ps : List Piece} :
      lexeme aliases c cs = .ok l → Divides aliases (place.after l) l.rest ps place' cs' →
      Divides aliases place (c :: cs) (⟨place, l⟩ :: ps) place' cs'

/-- The token behind all others. -/
def endOfInput (place : Place) : Token :=
  ⟨.endOfInput, "", ⟨place.offset, place.offset, place.line⟩⟩

theorem Scan.add_eq (place : Place) (l : Lexeme) (scan : Scan) :
    scan.add place l = ⟨(Piece.token? ⟨place, l⟩).toList ++ scan.tokens,
      (Piece.remark? ⟨place, l⟩).toList ++ scan.report⟩ := by
  rw [Scan.add, Piece.token?, Piece.remark?]
  cases l.reading <;> rfl

/-- A text that is read to its end is divided into pieces. -/
theorem exists_divides_of_read {scan : Scan} (h : Scan.read aliases place cs = .ok scan) :
    ∃ ps place', Divides aliases place cs ps place' [] ∧
      scan = ⟨ps.filterMap Piece.token? ++ [endOfInput place'], ps.filterMap Piece.remark?⟩ := by
  fun_induction Scan.read aliases place cs generalizing scan with
  | case1 place =>
      cases h
      exact ⟨[], place, .nil, rfl⟩
  | case2 => cases h
  | case3 place c cs l hl ih =>
      obtain ⟨more, hrest, rfl⟩ := map_eq_ok.mp h
      obtain ⟨ps, place', hdivides, rfl⟩ := ih hrest
      refine ⟨⟨place, l⟩ :: ps, place', .cons hl hdivides, ?_⟩
      rw [Scan.add_eq, List.filterMap_cons, List.filterMap_cons]
      cases Piece.token? ⟨place, l⟩ <;> cases Piece.remark? ⟨place, l⟩ <;> rfl

/-- A text is not read to its end exactly if some pieces of it end at the quote of a string that is
open at the end. -/
theorem read_eq_error_iff : Scan.read aliases place cs = .error fault ↔
    fault = .outOfRange ∧ ∃ ps place' body,
      Divides aliases place cs ps place' ('"' :: body) ∧ EndsInEscape body := by
  fun_induction Scan.read aliases place cs with
  | case1 place =>
      refine ⟨by rintro ⟨⟩, ?_⟩
      rintro ⟨-, ps, place', body, hdivides, -⟩
      cases hdivides
  | case2 place c cs fault' hl =>
      rw [lexeme_eq_error_iff] at hl
      obtain ⟨rfl, rfl, hends⟩ := hl
      rw [Except.error.injEq, eq_comm]
      exact (and_iff_left ⟨[], place, cs, .nil, hends⟩).symm
  | case3 place c cs l hl ih =>
      rw [map_eq_error, ih]
      refine and_congr_right fun _ => ⟨?_, ?_⟩
      · rintro ⟨ps, place', body, hdivides, hends⟩
        exact ⟨⟨place, l⟩ :: ps, place', body, .cons hl hdivides, hends⟩
      · rintro ⟨ps, place', body, hdivides, hends⟩
        cases hdivides with
        | nil =>
            have herror : lexeme aliases '"' cs = .error .outOfRange :=
              lexeme_eq_error_iff.mpr ⟨rfl, rfl, hends⟩
            rw [hl] at herror
            cases herror
        | cons hl' hdivides =>
            rw [hl] at hl'
            cases hl'
            exact ⟨_, _, _, hdivides, hends⟩

namespace Divides

variable {ps : List Piece} {p : Piece} {i : Nat}

/-- The pieces and what follows make up the text. -/
theorem eq_append (h : Divides aliases place cs ps place' cs') :
    cs = textOf ps ++ cs' ∧ place'.offset = place.offset + Text.byteLength (textOf ps) := by
  induction h with
  | nil => exact ⟨rfl, rfl⟩
  | @cons place place' c cs cs' l ps hl _ ih =>
      obtain ⟨hrest, hoffset⟩ := ih
      constructor
      · rw [← lexeme_append hl, hrest, textOf_cons, List.append_assoc]
      · rw [hoffset, Place.offset_after, textOf_cons, Text.byteLength_append, Nat.add_assoc]

/-- Where a piece stands in the text. -/
theorem of_mem (h : Divides aliases place cs ps place' cs') (hp : p ∈ ps) :
    ∃ before c more, cs = before ++ c :: more ∧ lexeme aliases c more = .ok p.lexeme ∧
      p.place.offset = place.offset + Text.byteLength before := by
  induction h with
  | nil => cases hp
  | @cons place place' c cs cs' l ps hl _ ih =>
      rcases List.mem_cons.mp hp with rfl | hp
      · exact ⟨[], c, cs, rfl, hl, rfl⟩
      · obtain ⟨before, d, more, hrest, hd, hoffset⟩ := ih hp
        refine ⟨l.text ++ before, d, more, ?_, hd, ?_⟩
        · rw [← lexeme_append hl, hrest, List.append_assoc]
        · rw [hoffset, Place.offset_after, Text.byteLength_append, Nat.add_assoc]

/-- Each piece ends before the next one begins. -/
theorem pairwise (h : Divides aliases place cs ps place' cs') :
    ps.Pairwise fun p q => p.span.stop ≤ q.span.start := by
  induction h with
  | nil => exact .nil
  | @cons place place' c cs cs' l ps hl hrest ih =>
      refine .cons (fun q hq => ?_) ih
      obtain ⟨before, -, -, -, -, hoffset⟩ := hrest.of_mem hq
      change place.offset + Text.byteLength l.text ≤ q.place.offset
      rw [hoffset, Place.offset_after]
      exact Nat.le_add_right _ _

/-- There is no gap between pieces. -/
theorem exists_has (h : Divides aliases place cs ps place' cs') (hle : place.offset ≤ i)
    (hlt : i < place'.offset) : ∃ p ∈ ps, p.span.Has i := by
  induction h with
  | nil => exact absurd hlt (Nat.not_lt.mpr hle)
  | @cons place place' c cs cs' l ps hl _ ih =>
      by_cases hin : i < place.offset + Text.byteLength l.text
      · exact ⟨⟨place, l⟩, List.mem_cons_self, hle, hin⟩
      · obtain ⟨p, hp, hhas⟩ := ih (by rw [Place.offset_after]; omega) hlt
        exact ⟨p, List.mem_cons_of_mem _ hp, hhas⟩

end Divides

/-! ### Sources -/

/-- The bytes of blanks between tokens. -/
def blankBytes : List UInt8 := [0x20, 0x09, 0x0A, 0x0C, 0x0D]

/-- The byte is part of a comment, which shares no byte with a token or with what is reported. -/
def InComment (source : String) (scan : Scan) (i : Nat) : Prop :=
  ∃ before text rest, ∃ span : Span, source.toList = before ++ text ++ rest ∧
    IsComment text rest ∧ span.start = Text.byteLength before ∧
    span.stop = span.start + Text.byteLength text ∧ span.Has i ∧
    (∀ t ∈ scan.tokens, span.Apart t.span) ∧ ∀ d ∈ scan.report, span.Apart d.span

/-- The tokens of a source are its bytes in order, behind them is the end of input, and the bytes
that are in no token are blanks, in comments or in what is reported. -/
structure Accounts (source : String) (scan : Scan) : Prop where
  ends : ∃ front last, scan.tokens = front ++ [last] ∧ last.kind = .endOfInput ∧
    last.lexeme = "" ∧ last.span.start = source.utf8ByteSize ∧
    last.span.stop = source.utf8ByteSize ∧
    ∀ t ∈ front, t.kind ≠ .endOfInput ∧ t.span.start < t.span.stop
  ordered : scan.tokens.Pairwise fun a b =>
    a.span.start < b.span.start ∧ a.span.stop ≤ b.span.start
  lexemes : ∀ t ∈ scan.tokens,
    t.lexeme.toByteArray = source.toByteArray.extract t.span.start t.span.stop
  bytes : ∀ i (h : i < source.toByteArray.size),
    (∃ t ∈ scan.tokens, t.span.Has i) ∨ (∃ d ∈ scan.report, d.span.Has i) ∨
      source.toByteArray[i] ∈ blankBytes ∨ InComment source scan i
  /-- The numbers of bytes are 32-bit words. -/
  words : (∀ t ∈ scan.tokens, t.span.stop < 2 ^ 32) ∧ ∀ d ∈ scan.report, d.span.stop < 2 ^ 32

section Source

variable {source : String} {ps : List Piece} {p : Piece} {i : Nat}
  (h : Divides aliases .start source.toList ps place' [])
include h

theorem Divides.offset_eq : place'.offset = source.utf8ByteSize := by
  obtain ⟨htext, hoffset⟩ := h.eq_append
  rw [List.append_nil] at htext
  rw [hoffset, Text.utf8ByteSize_eq, htext]
  exact Nat.zero_add _

/-- The part of the source that a piece is. -/
theorem Divides.exists_part (hp : p ∈ ps) : ∃ before,
    source.toList = before ++ p.lexeme.text ++ p.lexeme.rest ∧
      p.span.start = Text.byteLength before := by
  obtain ⟨before, c, more, hsource, hl, hoffset⟩ := h.of_mem hp
  refine ⟨before, ?_, ?_⟩
  · rw [hsource, List.append_assoc, lexeme_append hl]
  · change p.place.offset = _
    rw [hoffset]
    exact Nat.zero_add _

theorem Divides.start_lt_stop (hp : p ∈ ps) : p.span.start < p.span.stop := by
  obtain ⟨before, c, more, -, hl, -⟩ := h.of_mem hp
  exact Nat.lt_add_of_pos_right (Text.byteLength_pos (lexeme_text_ne_nil hl))

theorem Divides.stop_le (hp : p ∈ ps) : p.span.stop ≤ source.utf8ByteSize := by
  obtain ⟨before, hsource, hstart⟩ := h.exists_part hp
  have hstop : p.span.stop = p.span.start + Text.byteLength p.lexeme.text := rfl
  rw [Text.utf8ByteSize_eq, hsource, Text.byteLength_append, Text.byteLength_append, hstop, hstart]
  exact Nat.le_add_right _ _

theorem Divides.bytes_eq (hp : p ∈ ps) :
    (String.ofList p.lexeme.text).toByteArray =
      source.toByteArray.extract p.span.start p.span.stop := by
  obtain ⟨before, hsource, hstart⟩ := h.exists_part hp
  have hstop : p.span.stop = p.span.start + Text.byteLength p.lexeme.text := rfl
  rw [hstop, hstart, Text.extract_toByteArray hsource]

/-- Two pieces share no byte. -/
theorem Divides.apart {q : Piece} (hp : p ∈ ps) (hq : q ∈ ps) (hne : p ≠ q) :
    p.span.Apart q.span :=
  have hapart : ps.Pairwise fun a b => Span.Apart a.span b.span := h.pairwise.imp .inl
  have : Std.Symm fun a b : Piece => Span.Apart a.span b.span := ⟨fun _ _ hab => hab.symm⟩
  hapart.forall hp hq hne

/-- The byte of a blank. -/
theorem Divides.blank_mem (hp : p ∈ ps) {c : Char} (hblank : Text.isAsciiBlank c = true)
    (htext : p.lexeme.text = [c]) (hhas : p.span.Has i) (hi : i < source.toByteArray.size) :
    source.toByteArray[i] ∈ blankBytes := by
  have hencode : [c].utf8Encode.size = 1 ∧
      ∀ hsize : 0 < [c].utf8Encode.size, [c].utf8Encode[0] ∈ blankBytes := by
    simp only [Text.isAsciiBlank, Bool.or_eq_true, decide_eq_true_eq] at hblank
    rcases hblank with (((rfl | rfl) | rfl) | rfl) | rfl <;> decide
  have hbytes := h.bytes_eq hp
  have hlength : p.span.stop = p.span.start + 1 := by
    rw [← hencode.1, Text.size_utf8Encode, ← htext]
    rfl
  have hstart : i = p.span.start := by
    have := hhas.1
    have := hhas.2
    omega
  subst hstart
  rw [htext, String.toByteArray_ofList] at hbytes
  have hzero : 0 < [c].utf8Encode.size := by
    rw [hencode.1]
    exact Nat.zero_lt_one
  have hsame : source.toByteArray[p.span.start] = [c].utf8Encode[0] := by
    simp only [hbytes, ByteArray.getElem_extract, Nat.add_zero]
  rw [hsame]
  exact hencode.2 hzero

/-- The tokens among the pieces, and the end of input, in order. -/
theorem Divides.ordered :
    (ps.filterMap Piece.token? ++ [endOfInput place']).Pairwise fun a b =>
      a.span.start < b.span.start ∧ a.span.stop ≤ b.span.start := by
  rw [List.pairwise_append]
  refine ⟨?_, List.pairwise_singleton _ _, ?_⟩
  · rw [List.pairwise_filterMap]
    refine h.pairwise.imp_of_mem fun hp _ hle a ha b hb => ?_
    rw [(Piece.eq_of_token? ha).1, (Piece.eq_of_token? hb).1]
    exact ⟨(h.start_lt_stop hp).trans_le hle, hle⟩
  · intro a ha b hb
    obtain ⟨p, hp, ha⟩ := List.mem_filterMap.mp ha
    obtain rfl := List.mem_singleton.mp hb
    rw [(Piece.eq_of_token? ha).1]
    have hstop := h.stop_le hp
    rw [← h.offset_eq] at hstop
    exact ⟨(h.start_lt_stop hp).trans_le hstop, hstop⟩

/-- A comment among the pieces is apart from what is a token or reported. -/
theorem Divides.inComment (hp : p ∈ ps) (hskip : p.lexeme.reading = .skip)
    (hcomment : IsComment p.lexeme.text p.lexeme.rest) (hhas : p.span.Has i) :
    InComment source ⟨ps.filterMap Piece.token? ++ [endOfInput place'],
      ps.filterMap Piece.remark?⟩ i := by
  obtain ⟨before, hsource, hstart⟩ := h.exists_part hp
  refine ⟨before, p.lexeme.text, p.lexeme.rest, p.span, hsource, hcomment, hstart, rfl, hhas,
    fun t ht => ?_, fun d hd => ?_⟩
  · rcases List.mem_append.mp ht with ht | ht
    · obtain ⟨q, hq, ht⟩ := List.mem_filterMap.mp ht
      obtain ⟨hspan, -, hkind⟩ := Piece.eq_of_token? ht
      rw [hspan]
      refine h.apart hp hq ?_
      rintro rfl
      rw [hskip] at hkind
      cases hkind
    · obtain rfl := List.mem_singleton.mp ht
      exact .inl ((h.stop_le hp).trans_eq h.offset_eq.symm)
  · obtain ⟨q, hq, hd⟩ := List.mem_filterMap.mp hd
    obtain ⟨hspan, -, hflaw⟩ := Piece.span_of_remark? hd
    rw [hspan]
    refine h.apart hp hq ?_
    rintro rfl
    exact hflaw hskip

/-- How a byte is accounted for that is in a piece. -/
theorem Divides.byte_accounted (hp : p ∈ ps) (hhas : p.span.Has i)
    (hi : i < source.toByteArray.size) :
    let scan : Scan :=
      ⟨ps.filterMap Piece.token? ++ [endOfInput place'], ps.filterMap Piece.remark?⟩
    (∃ t ∈ scan.tokens, t.span.Has i) ∨ (∃ d ∈ scan.report, d.span.Has i) ∨
      source.toByteArray[i] ∈ blankBytes ∨ InComment source scan i := by
  cases hreading : p.lexeme.reading with
  | token kind =>
      have ht : p.token? = some ⟨kind, String.ofList p.lexeme.text, p.span⟩ := by
        rw [Piece.token?, hreading]
      exact .inl ⟨_, List.mem_append_left _ (List.mem_filterMap.mpr ⟨p, hp, ht⟩), hhas⟩
  | flaw flaw =>
      have hd : p.remark? = some (.error p.span (flaw.message p.lexeme.text)) := by
        rw [Piece.remark?, hreading]
      exact .inr (.inl ⟨_, List.mem_filterMap.mpr ⟨p, hp, hd⟩, hhas⟩)
  | skip =>
      obtain ⟨-, c, more, -, hl, -⟩ := h.of_mem hp
      rcases blank_or_comment_of_skip hl hreading with ⟨hblank, htext⟩ | hcomment
      · exact .inr (.inr (.inl (h.blank_mem hp hblank htext hhas hi)))
      · exact .inr (.inr (.inr (h.inComment hp hreading hcomment hhas)))

/-- A source that is divided into pieces is accounted for by its tokens and the report. -/
theorem Divides.accounts (hsize : source.utf8ByteSize < 2 ^ 32) :
    Accounts source ⟨ps.filterMap Piece.token? ++ [endOfInput place'],
      ps.filterMap Piece.remark?⟩ where
  ends := by
    refine ⟨_, _, rfl, rfl, rfl, h.offset_eq, h.offset_eq, fun t ht => ?_⟩
    obtain ⟨p, hp, ht⟩ := List.mem_filterMap.mp ht
    obtain ⟨-, c, more, -, hl, -⟩ := h.of_mem hp
    obtain ⟨hspan, -, hkind⟩ := Piece.eq_of_token? ht
    rw [hspan]
    exact ⟨(formed_of_lexeme hl hkind p.span).kind_ne, h.start_lt_stop hp⟩
  ordered := h.ordered
  lexemes t ht := by
    rcases List.mem_append.mp ht with ht | ht
    · obtain ⟨p, hp, ht⟩ := List.mem_filterMap.mp ht
      obtain ⟨hspan, hlexeme, -⟩ := Piece.eq_of_token? ht
      rw [hspan, hlexeme, h.bytes_eq hp]
    · obtain rfl := List.mem_singleton.mp ht
      exact ByteArray.extract_same.symm
  bytes i hi := by
    obtain ⟨p, hp, hhas⟩ := h.exists_has (i := i) (Nat.zero_le i)
      (by rwa [h.offset_eq, ← String.size_toByteArray])
    exact h.byte_accounted hp hhas hi
  words := by
    refine ⟨fun t ht => ?_, fun d hd => ?_⟩
    · rcases List.mem_append.mp ht with ht | ht
      · obtain ⟨p, hp, ht⟩ := List.mem_filterMap.mp ht
        rw [(Piece.eq_of_token? ht).1]
        exact (h.stop_le hp).trans_lt hsize
      · obtain rfl := List.mem_singleton.mp ht
        exact h.offset_eq.trans_lt hsize
    · obtain ⟨p, hp, hd⟩ := List.mem_filterMap.mp hd
      rw [(Piece.span_of_remark? hd).1]
      exact (h.stop_le hp).trans_lt hsize

end Source

/-- A string of the source is still open when the source ends in a backslash that escapes
nothing. -/
def EndsInOpenString (aliases : Aliases) (source : String) : Prop :=
  ∃ ps place body, Divides aliases .start source.toList ps place ('"' :: body) ∧ EndsInEscape body

/-- A source of fewer than `2 ^ 32` bytes either ends in a backslash inside a string, and then has
no tokens, or it has tokens that, with the report, account for each of its bytes. -/
theorem scan_accounts_for_source (aliases : Aliases) (source : String)
    (hsize : source.utf8ByteSize < 2 ^ 32) :
    (EndsInOpenString aliases source ∧ Scan.ofSource aliases source = .error .outOfRange) ∨
      (¬ EndsInOpenString aliases source ∧
        ∃ scan, Scan.ofSource aliases source = .ok scan ∧ Accounts source scan) := by
  cases hscan : Scan.ofSource aliases source with
  | error fault =>
      obtain ⟨rfl, hopen⟩ := read_eq_error_iff.mp hscan
      exact .inl ⟨hopen, rfl⟩
  | ok scan =>
      obtain ⟨ps, place', hdivides, rfl⟩ := exists_divides_of_read hscan
      refine .inr ⟨fun hopen => ?_, _, rfl, hdivides.accounts hsize⟩
      have herror : Scan.ofSource aliases source = .error .outOfRange :=
        read_eq_error_iff.mpr ⟨rfl, hopen⟩
      rw [hscan] at herror
      cases herror

/-- A comment, a string with an escaped quote and a letter of two bytes, a stray character and an
exponent without digits leave no byte over; a string that ends in a backslash is not read. -/
theorem scan_accounts_for_source_malformed :
    "v /* 2 */ += \"é\\\"\" @ 1e // end".utf8ByteSize < 2 ^ 32 ∧
      (∃ scan, Scan.ofSource [] "v /* 2 */ += \"é\\\"\" @ 1e // end" = .ok scan ∧
        scan.tokens.length = 4 ∧ scan.report.length = 2 ∧
        Accounts "v /* 2 */ += \"é\\\"\" @ 1e // end" scan) ∧
      "f(\"\\".utf8ByteSize < 2 ^ 32 ∧ EndsInOpenString [] "f(\"\\" := by
  have hsize : "v /* 2 */ += \"é\\\"\" @ 1e // end".utf8ByteSize < 2 ^ 32 := by decide
  have hsize' : "f(\"\\".utf8ByteSize < 2 ^ 32 := by decide
  refine ⟨hsize, ?_, hsize', ?_⟩
  · obtain ⟨scan, hscan, htokens, hreport⟩ := exists_ok_of_decide
      (x := Scan.ofSource [] "v /* 2 */ += \"é\\\"\" @ 1e // end")
      (P := fun scan => scan.tokens.length = 4 ∧ scan.report.length = 2) (by decide +kernel)
    obtain ⟨-, herror⟩ | ⟨-, scan', hscan', haccounts⟩ := scan_accounts_for_source [] _ hsize
    · rw [hscan] at herror
      cases herror
    · obtain rfl : scan = scan' := Except.ok.inj (hscan.symm.trans hscan')
      exact ⟨scan, hscan, htokens, hreport, haccounts⟩
  · obtain ⟨hopen, -⟩ | ⟨-, scan, hscan, -⟩ := scan_accounts_for_source [] _ hsize'
    · exact hopen
    · have herror : (Scan.ofSource [] "f(\"\\").toOption.isNone = true := by
        decide +kernel
      rw [hscan] at herror
      cases herror

end Snippet

end KernelWeaver
