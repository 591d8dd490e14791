import KernelWeaver.Snippet.Lexer
import Mathlib.Data.List.TakeWhile

/-!
# The form of numbers

Which texts are numbers, said without a reader: hexadecimal digits behind their mark, or digits with
a fraction, an exponent and a suffix, each of which may be left out. Such a text is read off the
front of a longer one as it stands, if nothing follows that could continue it.
-/

namespace KernelWeaver.Snippet

namespace Lexer

/-- The text does not begin with a character of the property. -/
def Lacks (p : Char → Bool) (cs : List Char) : Prop := ∀ c ∈ cs.head?, p c = false

/-- A character that can continue a word or a number. -/
def continues (c : Char) : Bool := Text.isAsciiWord c || c = '.'

/-- What follows continues neither a word nor a number. -/
abbrev Ends (cs : List Char) : Prop := Lacks continues cs

variable {p q : Char → Bool} {c : Char} {cs xs text rest rest' : List Char} {aliases : Aliases}
  {l : Lexeme}

theorem Lacks.nil : Lacks p [] := fun _ h => nomatch h

theorem lacks_cons : Lacks p (c :: cs) ↔ p c = false := by simp [Lacks]

theorem Lacks.imp (h : Lacks p cs) (hqp : ∀ c, q c = true → p c = true) : Lacks q cs := by
  intro c hc
  have hp := h c hc
  cases hq : q c with
  | false => rfl
  | true => rw [hqp c hq] at hp; cases hp

/-- A text in front does not begin with such a character, or is empty. -/
theorem Lacks.append (hxs : Lacks p xs) (hcs : Lacks p cs) : Lacks p (xs ++ cs) := by
  cases xs with
  | nil => exact hcs
  | cons x xs => exact lacks_cons.mpr (lacks_cons.mp hxs)

theorem isAsciiWord_of_isDigit (h : c.isDigit = true) : Text.isAsciiWord c = true := by
  simp [Text.isAsciiWord, Char.isAlphanum, h]

theorem isAsciiWord_of_isNameStart (h : isNameStart c = true) : Text.isAsciiWord c = true := by
  simp only [isNameStart, Bool.or_eq_true] at h
  simp only [Text.isAsciiWord, Char.isAlphanum, Bool.or_eq_true]
  exact h.imp_left Or.inl

theorem Ends.lacks_isAsciiWord (h : Ends cs) : Lacks Text.isAsciiWord cs :=
  h.imp fun c hc => by simp [continues, hc]

/-! ### Runs -/

theorem run_of_lacks (hxs : ∀ c ∈ xs, p c = true) (hcs : Lacks p cs) :
    run p (xs ++ cs) = (xs, cs) := by
  have htake : cs.takeWhile p = [] := by
    cases cs with
    | nil => rfl
    | cons c cs => simp [lacks_cons.mp hcs]
  have hdrop : cs.dropWhile p = cs := by
    cases cs with
    | nil => rfl
    | cons c cs => simp [lacks_cons.mp hcs]
  rw [run, List.takeWhile_append_of_pos hxs, List.dropWhile_append_of_pos hxs, htake, hdrop,
    List.append_nil]

theorem of_mem_run (h : c ∈ (run p cs).1) : p c = true := List.mem_takeWhile_imp h

theorem lacks_run (p : Char → Bool) (cs : List Char) : Lacks p (run p cs).2 := by
  rw [run]
  induction cs with
  | nil => exact .nil
  | cons c cs ih =>
      cases h : p c with
      | true => simpa [List.dropWhile_cons, h] using ih
      | false => simpa [List.dropWhile_cons, h] using lacks_cons.mpr h

theorem atMostOne_cases (p : Char → Bool) (cs : List Char) :
    ((atMostOne p cs).1 = [] ∧ (atMostOne p cs).2 = cs ∧ Lacks p cs) ∨
      ∃ c, (atMostOne p cs).1 = [c] ∧ p c = true := by
  cases cs with
  | nil => exact .inl ⟨rfl, rfl, .nil⟩
  | cons c cs =>
      by_cases h : p c = true
      · exact .inr ⟨c, by simp [atMostOne, h], h⟩
      · refine .inl ⟨by simp [atMostOne, h], by simp [atMostOne, h], ?_⟩
        exact lacks_cons.mpr (by simpa using h)

theorem atMostOne_of_lacks (h : Lacks p cs) : atMostOne p cs = ([], cs) := by
  cases cs with
  | nil => rfl
  | cons c cs => simp [atMostOne, lacks_cons.mp h]

theorem atMostOne_cons (h : p c = true) : atMostOne p (c :: cs) = ([c], cs) := by
  simp [atMostOne, h]

/-! ### Numbers -/

theorem endNumber_of_lacks (h : Lacks Text.isAsciiWord cs) :
    endNumber text cs = ⟨.token .number, text, cs⟩ := by
  have hrun : run Text.isAsciiWord ([] ++ cs) = ([], cs) :=
    run_of_lacks (fun _ hc => absurd hc List.not_mem_nil) h
  rw [List.nil_append] at hrun
  rw [endNumber, hrun]

theorem of_endNumber (h : endNumber text cs = ⟨.token .number, xs, rest⟩) :
    xs = text ∧ rest = cs ∧ Lacks Text.isAsciiWord rest := by
  have hlacks := lacks_run Text.isAsciiWord cs
  rw [endNumber] at h
  split at h
  next cs' hrun =>
    cases h
    have hsplit := run_append Text.isAsciiWord cs
    rw [hrun] at hlacks hsplit
    simp only [List.nil_append] at hsplit
    exact ⟨rfl, rfl, hsplit ▸ hlacks⟩
  next => cases h

/-- The text of a hexadecimal number. -/
inductive IsHex : List Char → Prop where
  | intro {x : Char} {digits suffix : List Char} : x = 'x' ∨ x = 'X' → digits ≠ [] →
      (∀ c ∈ digits, isHexDigit c = true) → (suffix = [] ∨ suffix = ['u'] ∨ suffix = ['U']) →
      IsHex ('0' :: x :: digits ++ suffix)

/-- A point and the digits behind it, or nothing. -/
def IsFraction (cs : List Char) : Prop :=
  cs = [] ∨ ∃ digits, cs = '.' :: digits ∧ ∀ c ∈ digits, c.isDigit = true

/-- The letter and the sign of an exponent. -/
def IsMark (cs : List Char) : Prop :=
  ∃ letter sign, cs = letter :: sign ∧ (letter = 'e' ∨ letter = 'E') ∧
    (sign = [] ∨ sign = ['+'] ∨ sign = ['-'])

/-- The mark of an exponent and its digits, or nothing. -/
def IsExponent (mark digits : List Char) : Prop :=
  (mark = [] ∧ digits = []) ∨
    (IsMark mark ∧ digits ≠ [] ∧ ∀ c ∈ digits, c.isDigit = true)

/-- The suffix of a decimal number, which tells whether it has a point or an exponent. -/
def isSuffix (isFloat : Bool) (c : Char) : Bool :=
  if isFloat then c = 'f' || c = 'F' else c = 'u' || c = 'U'

/-- The text of a decimal number. -/
inductive IsDecimal : List Char → Prop where
  | intro {whole fraction mark digits suffix : List Char} : (∀ c ∈ whole, c.isDigit = true) →
      IsFraction fraction → IsExponent mark digits →
      (suffix = [] ∨ ∃ c, suffix = [c] ∧
        isSuffix (!(fraction.isEmpty && mark.isEmpty)) c = true) →
      IsDecimal (whole ++ (fraction ++ (mark ++ (digits ++ suffix))))

/-- The text begins with a digit, or with a point in front of one. -/
def StartsNumber (cs : List Char) : Prop :=
  ∃ c more, cs = c :: more ∧ (c.isDigit || (c = '.' && more.head?.any Char.isDigit)) = true

/-- The text of a number. -/
structure IsNumber (text : List Char) : Prop where
  starts : StartsNumber text
  form : IsHex text ∨ IsDecimal text

theorem of_hexNumber {x : Char} (hx : x = 'x' ∨ x = 'X')
    (h : hexNumber ['0', x] cs = ⟨.token .number, text, rest⟩) :
    IsHex text ∧ Lacks Text.isAsciiWord rest := by
  simp only [hexNumber] at h
  split at h
  next => cases h
  next hdigits =>
    obtain ⟨htext, -, hlacks⟩ := of_endNumber h
    refine ⟨?_, hlacks⟩
    rw [htext]
    refine .intro hx (by simpa using hdigits) (fun c hc => of_mem_run hc) ?_
    rcases atMostOne_cases (fun c => c = 'u' || c = 'U') (run isHexDigit cs).2 with
      ⟨hnil, -, -⟩ | ⟨c, hone, hc⟩
    · exact .inl hnil
    · simp only [Bool.or_eq_true, decide_eq_true_eq] at hc
      rw [hone]
      rcases hc with rfl | rfl
      · exact .inr (.inl rfl)
      · exact .inr (.inr rfl)

theorem hexNumber_of_isHex {x : Char} {digits suffix : List Char} (hne : digits ≠ [])
    (hdigits : ∀ c ∈ digits, isHexDigit c = true)
    (hsuffix : suffix = [] ∨ suffix = ['u'] ∨ suffix = ['U']) (hends : Ends rest) :
    hexNumber ['0', x] (digits ++ suffix ++ rest) =
      ⟨.token .number, '0' :: x :: digits ++ suffix, rest⟩ := by
  have hword := hends.lacks_isAsciiWord
  have hlacks : Lacks isHexDigit (suffix ++ rest) := by
    rcases hsuffix with rfl | rfl | rfl
    · refine hends.imp fun c hc => ?_
      -- every hexadecimal digit is a letter or a digit
      simp only [isHexDigit, Bool.or_eq_true, Bool.and_eq_true, decide_eq_true_eq] at hc
      rcases hc with (hc | hc) | hc
      · simp [continues, isAsciiWord_of_isDigit hc]
      · have hlower : c.isLower = true := Bool.and_eq_true_iff.mpr
          ⟨decide_eq_true hc.1, decide_eq_true (Char.le_trans hc.2 (by decide))⟩
        have hletter : c.isAlpha = true := Bool.or_eq_true_iff.mpr (.inr hlower)
        simp [continues, Text.isAsciiWord, Char.isAlphanum, hletter]
      · have hupper : c.isUpper = true :=
          decide_eq_true ⟨hc.1, Char.le_trans hc.2 (by decide)⟩
        have hletter : c.isAlpha = true := Bool.or_eq_true_iff.mpr (.inl hupper)
        simp [continues, Text.isAsciiWord, Char.isAlphanum, hletter]
    · exact lacks_cons.mpr (by decide)
    · exact lacks_cons.mpr (by decide)
  have hend : atMostOne (fun c => c = 'u' || c = 'U') (suffix ++ rest) = (suffix, rest) := by
    rcases hsuffix with rfl | rfl | rfl
    · refine atMostOne_of_lacks (hends.imp fun c hc => ?_)
      simp only [Bool.or_eq_true, decide_eq_true_eq] at hc
      rcases hc with rfl | rfl <;> decide
    · exact atMostOne_cons (by decide)
    · exact atMostOne_cons (by decide)
  have hempty : digits.isEmpty = false := by simpa using hne
  rw [List.append_assoc]
  simp only [hexNumber, run_of_lacks hdigits hlacks, hempty, hend, Bool.false_eq_true, if_false]
  rw [endNumber_of_lacks hword]
  rfl

theorem isFraction_fraction (cs : List Char) : IsFraction (fraction cs).1 := by
  rcases atMostOne_cases (· = '.') cs with ⟨hnil, -, -⟩ | ⟨c, hone, hc⟩
  · left
    rw [fraction]
    split
    next => rfl
    next point rest hne heq =>
      rw [heq] at hnil
      exact absurd hnil hne
  · right
    rw [fraction]
    split
    next heq =>
      rw [heq] at hone
      cases hone
    next point rest hne heq =>
      rw [heq] at hone
      cases hone
      simp only [decide_eq_true_eq] at hc
      subst hc
      exact ⟨_, rfl, fun c hc => of_mem_run hc⟩

theorem exponentMark_cases (cs : List Char) :
    (exponentMark cs).1 = [] ∨ IsMark (exponentMark cs).1 := by
  rcases atMostOne_cases (fun c => c = 'e' || c = 'E') cs with ⟨hnil, -, -⟩ | ⟨c, hone, hc⟩
  · left
    rw [exponentMark]
    split
    next => rfl
    next letter rest hne heq =>
      rw [heq] at hnil
      exact absurd hnil hne
  · right
    rw [exponentMark]
    split
    next heq =>
      rw [heq] at hone
      cases hone
    next letter rest hne heq =>
      rw [heq] at hone
      cases hone
      refine ⟨c, _, rfl, by simpa using hc, ?_⟩
      rcases atMostOne_cases (fun c => c = '+' || c = '-') rest with ⟨hnil, -, -⟩ | ⟨d, hsign, hd⟩
      · exact .inl hnil
      · simp only [Bool.or_eq_true, decide_eq_true_eq] at hd
        rw [hsign]
        rcases hd with rfl | rfl
        · exact .inr (.inl rfl)
        · exact .inr (.inr rfl)

theorem suffix_cases (isFloat : Bool) (cs : List Char) :
    (atMostOne (isSuffix isFloat) cs).1 = [] ∨
      ∃ c, (atMostOne (isSuffix isFloat) cs).1 = [c] ∧ isSuffix isFloat c = true :=
  (atMostOne_cases (isSuffix isFloat) cs).imp_left And.left

theorem of_decimalNumber (h : decimalNumber cs = ⟨.token .number, text, rest⟩) :
    IsDecimal text ∧ Lacks Text.isAsciiWord rest := by
  have hwhole : ∀ c ∈ (run Char.isDigit cs).1, c.isDigit = true := fun c hc => of_mem_run hc
  have hfraction := isFraction_fraction (run Char.isDigit cs).2
  unfold decimalNumber at h
  rcases exponentMark_cases (fraction (run Char.isDigit cs).2).2 with hmark | hmark
  · simp only [hmark, List.isEmpty_nil, if_true, Bool.not_true, Bool.false_and,
      Bool.false_eq_true, if_false] at h
    obtain ⟨rfl, -, hlacks⟩ := of_endNumber h
    refine ⟨?_, hlacks⟩
    have hsuffix := suffix_cases (!((fraction (run Char.isDigit cs).2).1.isEmpty && true))
      (exponentMark (fraction (run Char.isDigit cs).2).2).2
    have hform := IsDecimal.intro hwhole hfraction (.inl ⟨rfl, rfl⟩) hsuffix
    simp only [List.append_assoc]
    exact hform
  · have hempty : (exponentMark (fraction (run Char.isDigit cs).2).2).1.isEmpty = false := by
      obtain ⟨letter, sign, hmark, -⟩ := hmark
      rw [hmark]
      rfl
    simp only [hempty, Bool.not_false, Bool.true_and, Bool.false_eq_true, if_false,
      Bool.and_false, if_true] at h
    split at h
    next => cases h
    next hdigits =>
      obtain ⟨rfl, -, hlacks⟩ := of_endNumber h
      refine ⟨?_, hlacks⟩
      have hsuffix := suffix_cases true
        (run Char.isDigit (exponentMark (fraction (run Char.isDigit cs).2).2).2).2
      have hform := IsDecimal.intro hwhole hfraction
        (.inr ⟨hmark, by simpa using hdigits, fun c hc => of_mem_run hc⟩)
        (by rw [hempty, Bool.and_false]; exact hsuffix)
      simp only [List.append_assoc]
      exact hform

/-- Digits and points. -/
def isDigitOrPoint (c : Char) : Bool := c.isDigit || c = '.'

/-- The letter of an exponent. -/
def isExponentLetter (c : Char) : Bool := c = 'e' || c = 'E'

theorem lacks_suffix_append {isFloat : Bool} {suffix : List Char}
    (hsuffix : suffix = [] ∨ ∃ c, suffix = [c] ∧ isSuffix isFloat c = true) (hends : Ends rest) :
    Lacks (fun c => isDigitOrPoint c || isExponentLetter c) (suffix ++ rest) := by
  rcases hsuffix with rfl | ⟨c, rfl, hc⟩
  · refine hends.imp fun c hc => ?_
    simp only [isDigitOrPoint, isExponentLetter, Bool.or_eq_true, decide_eq_true_eq] at hc
    rcases hc with (hc | rfl) | rfl | rfl
    · simp [continues, isAsciiWord_of_isDigit hc]
    · decide
    · decide
    · decide
  · refine lacks_cons.mpr ?_
    cases isFloat <;> simp [isSuffix] at hc <;> rcases hc with rfl | rfl <;> decide

theorem atMostOne_suffix {isFloat : Bool} {suffix : List Char}
    (hsuffix : suffix = [] ∨ ∃ c, suffix = [c] ∧ isSuffix isFloat c = true) (hends : Ends rest) :
    atMostOne (isSuffix isFloat) (suffix ++ rest) = (suffix, rest) := by
  rcases hsuffix with rfl | ⟨c, rfl, hc⟩
  · refine atMostOne_of_lacks (hends.imp fun c hc => ?_)
    cases isFloat <;> simp [isSuffix] at hc <;> rcases hc with rfl | rfl <;> decide
  · exact atMostOne_cons hc

theorem fraction_of_isFraction {xs : List Char} (h : IsFraction xs)
    (hcs : Lacks isDigitOrPoint cs) : fraction (xs ++ cs) = (xs, cs) := by
  rcases h with rfl | ⟨digits, rfl, hdigits⟩
  · have hpoint : Lacks (fun c => decide (c = '.')) cs :=
      hcs.imp fun c hc => by simp [isDigitOrPoint, of_decide_eq_true hc]
    rw [List.nil_append, fraction, atMostOne_of_lacks hpoint]
  · have hlacks : Lacks Char.isDigit cs := hcs.imp fun c hc => by simp [isDigitOrPoint, hc]
    have hone : atMostOne (fun c => decide (c = '.')) ('.' :: (digits ++ cs)) =
        (['.'], digits ++ cs) := atMostOne_cons (by decide)
    rw [List.cons_append, fraction, hone]
    simp only [run_of_lacks hdigits hlacks]
    rfl

theorem exponentMark_of_lacks (hcs : Lacks isExponentLetter cs) :
    exponentMark cs = ([], cs) := by
  have hnone : atMostOne (fun c => decide (c = 'e') || decide (c = 'E')) cs = ([], cs) :=
    atMostOne_of_lacks hcs
  rw [exponentMark, hnone]

theorem exponentMark_of_isMark {xs : List Char} (h : IsMark xs)
    (hcs : Lacks (fun c => c = '+' || c = '-') cs) : exponentMark (xs ++ cs) = (xs, cs) := by
  obtain ⟨letter, sign, rfl, hletter, hsign⟩ := h
  have hone : atMostOne (fun c => decide (c = 'e') || decide (c = 'E'))
      (letter :: (sign ++ cs)) = ([letter], sign ++ cs) := atMostOne_cons (by simpa using hletter)
  have hmore : atMostOne (fun c => decide (c = '+') || decide (c = '-')) (sign ++ cs) =
      (sign, cs) := by
    rcases hsign with rfl | rfl | rfl
    · exact atMostOne_of_lacks hcs
    · exact atMostOne_cons (by decide)
    · exact atMostOne_cons (by decide)
  rw [List.cons_append, exponentMark, hone]
  simp only [hmore]
  rfl

/-- Behind the fraction of a decimal number stands neither a digit nor a point. -/
theorem lacks_exponent_append {mark digits : List Char} (h : IsExponent mark digits)
    (hcs : Lacks isDigitOrPoint cs) : Lacks isDigitOrPoint (mark ++ (digits ++ cs)) := by
  rcases h with ⟨rfl, rfl⟩ | ⟨⟨letter, sign, rfl, hletter, -⟩, -, -⟩
  · exact hcs
  · refine lacks_cons.mpr ?_
    rcases hletter with rfl | rfl <;> decide

/-- A fraction begins with its point. -/
theorem lacks_fraction_append {fraction : List Char} (h : IsFraction fraction)
    (hcs : Lacks Char.isDigit cs) : Lacks Char.isDigit (fraction ++ cs) := by
  refine Lacks.append ?_ hcs
  rcases h with rfl | ⟨ds, rfl, -⟩
  · exact .nil
  · exact lacks_cons.mpr (by decide)

/-- Digits are no signs. -/
theorem lacks_sign_append {digits : List Char} (hne : digits ≠ [])
    (hdigits : ∀ c ∈ digits, c.isDigit = true) (cs : List Char) :
    Lacks (fun c => c = '+' || c = '-') (digits ++ cs) := by
  obtain ⟨d, ds, rfl⟩ := List.exists_cons_of_ne_nil hne
  refine lacks_cons.mpr ?_
  have hd := hdigits d List.mem_cons_self
  rw [Bool.or_eq_false_iff, decide_eq_false_iff_not, decide_eq_false_iff_not]
  constructor <;> rintro rfl <;> cases hd

theorem decimalNumber_of_isDecimal (h : IsDecimal text) (hends : Ends rest) :
    decimalNumber (text ++ rest) = ⟨.token .number, text, rest⟩ := by
  cases h with
  | @intro whole fraction mark digits suffix hwhole hfraction hexponent hsuffix =>
  have hbehind := lacks_suffix_append hsuffix hends
  have hpoint : Lacks isDigitOrPoint (suffix ++ rest) := hbehind.imp fun c hc => by simp [hc]
  have htail := lacks_exponent_append hexponent hpoint
  have hfirst : Lacks Char.isDigit (fraction ++ (mark ++ (digits ++ (suffix ++ rest)))) :=
    lacks_fraction_append hfraction (htail.imp fun c hc => by simp [isDigitOrPoint, hc])
  have hend := atMostOne_suffix hsuffix hends
  have hword := hends.lacks_isAsciiWord
  have hassoc : whole ++ (fraction ++ (mark ++ (digits ++ suffix))) ++ rest =
      whole ++ (fraction ++ (mark ++ (digits ++ (suffix ++ rest)))) := by simp
  unfold decimalNumber
  rw [hassoc, run_of_lacks hwhole hfirst]
  dsimp only
  rw [fraction_of_isFraction hfraction htail]
  dsimp only
  rcases hexponent with ⟨rfl, rfl⟩ | ⟨hmark, hne, hdigits⟩
  · have hnone : Lacks isExponentLetter (suffix ++ rest) := hbehind.imp fun c hc => by simp [hc]
    rw [List.nil_append, List.nil_append, exponentMark_of_lacks hnone]
    simp only [List.isEmpty_nil, if_true, Bool.not_true, Bool.false_and, Bool.false_eq_true,
      if_false]
    change endNumber (whole ++ fraction ++ [] ++ [] ++ (atMostOne (isSuffix _) _).1)
      (atMostOne (isSuffix _) _).2 = _
    rw [List.isEmpty_nil] at hend
    rw [hend, endNumber_of_lacks hword]
    simp only [List.append_nil, List.append_assoc, List.nil_append]
  · have hsign := lacks_sign_append hne hdigits (suffix ++ rest)
    have hdigit : Lacks Char.isDigit (suffix ++ rest) :=
      hpoint.imp fun c hc => by simp [isDigitOrPoint, hc]
    have hmarked : mark.isEmpty = false := by
      obtain ⟨letter, sign, rfl, -⟩ := hmark
      rfl
    have hempty : digits.isEmpty = false := by simpa using hne
    rw [exponentMark_of_isMark hmark hsign]
    simp only [hmarked, hempty, run_of_lacks hdigits hdigit, Bool.not_false, Bool.and_false,
      Bool.false_eq_true, if_false]
    change endNumber (whole ++ fraction ++ mark ++ digits ++ (atMostOne (isSuffix true) _).1)
      (atMostOne (isSuffix true) _).2 = _
    rw [hmarked, Bool.and_false, Bool.not_false] at hend
    rw [hend, endNumber_of_lacks hword]
    simp only [List.append_assoc]

/-- The characters of a decimal number besides digits. -/
def numberMarks : List Char := ['.', 'e', 'E', '+', '-', 'f', 'F', 'u', 'U']

theorem IsMark.chars (h : IsMark text) (hc : c ∈ text) : c ∈ numberMarks := by
  obtain ⟨letter, sign, rfl, hletter, hsign⟩ := h
  rcases List.mem_cons.mp hc with rfl | hc
  · rcases hletter with rfl | rfl <;> decide
  · rcases hsign with rfl | rfl | rfl
    · cases hc
    · rw [List.mem_singleton.mp hc]
      decide
    · rw [List.mem_singleton.mp hc]
      decide

theorem isSuffix_mem {isFloat : Bool} (h : isSuffix isFloat c = true) : c ∈ numberMarks := by
  cases isFloat <;> simp [isSuffix] at h <;> rcases h with rfl | rfl <;> decide

theorem IsDecimal.chars (h : IsDecimal text) (hc : c ∈ text) :
    c.isDigit = true ∨ c ∈ numberMarks := by
  cases h with
  | @intro whole fraction mark digits suffix hwhole hfraction hexponent hsuffix =>
  rw [List.mem_append, List.mem_append, List.mem_append, List.mem_append] at hc
  rcases hc with hc | hc | hc | hc | hc
  · exact .inl (hwhole c hc)
  · rcases hfraction with rfl | ⟨ds, rfl, hds⟩
    · cases hc
    · rcases List.mem_cons.mp hc with rfl | hc
      · exact .inr (by decide)
      · exact .inl (hds c hc)
  · rcases hexponent with ⟨rfl, -⟩ | ⟨hmark, -⟩
    · cases hc
    · exact .inr (hmark.chars hc)
  · rcases hexponent with ⟨-, rfl⟩ | ⟨-, -, hdigits⟩
    · cases hc
    · exact .inl (hdigits c hc)
  · rcases hsuffix with rfl | ⟨d, rfl, hd⟩
    · cases hc
    · rw [List.mem_singleton.mp hc]
      exact .inr (isSuffix_mem hd)

/-- A decimal number has no hexadecimal mark in it. -/
theorem IsDecimal.ne_x (h : IsDecimal text) (hc : c ∈ text) : c ≠ 'x' ∧ c ≠ 'X' := by
  have hchar := h.chars hc
  constructor <;> rintro rfl <;> revert hchar <;> decide

/-- What begins like a number and is no hexadecimal one is decimal. -/
theorem number_eq_decimalNumber (h : ∀ x more, cs = '0' :: x :: more → x ≠ 'x' ∧ x ≠ 'X') :
    number cs = decimalNumber cs := by
  unfold number
  split
  next x more =>
    obtain ⟨hlower, hupper⟩ := h x more rfl
    rw [if_neg (by simp [hlower, hupper])]
  next => rfl

theorem of_number (hstart : StartsNumber cs) (h : number cs = ⟨.token .number, text, rest⟩) :
    IsNumber text := by
  have hform : (IsHex text ∨ IsDecimal text) ∧ Lacks Text.isAsciiWord rest := by
    unfold number at h
    split at h
    next x more =>
      split at h
      next hx => exact (of_hexNumber (by simpa using hx) h).imp_left .inl
      next => exact (of_decimalNumber h).imp_left .inr
    next => exact (of_decimalNumber h).imp_left .inr
  refine ⟨?_, hform.1⟩
  obtain ⟨c, more, rfl, hc⟩ := hstart
  have hsplit := number_append (c :: more)
  have hne : (number (c :: more)).text ≠ [] := number_text_ne_nil
    (by simp only [Bool.or_eq_true, Bool.and_eq_true, decide_eq_true_eq] at hc
        exact hc.imp_right And.left)
  rw [h] at hsplit hne
  cases text with
  | nil => exact absurd rfl hne
  | cons d text =>
      obtain ⟨rfl, rfl⟩ := List.cons.inj hsplit
      refine ⟨d, text, rfl, ?_⟩
      -- the digit behind a leading point belongs to the number, for none follows it
      cases text with
      | cons e text => exact hc
      | nil =>
          cases rest with
          | nil => exact hc
          | cons e rest =>
              have hword := lacks_cons.mp hform.2
              cases hdigit : e.isDigit with
              | true => rw [isAsciiWord_of_isDigit hdigit] at hword; cases hword
              | false =>
                  change (d.isDigit || (d = '.' && e.isDigit)) = true at hc
                  rw [hdigit, Bool.and_false, Bool.or_false] at hc
                  simp [hc]

theorem number_of_isNumber (h : IsNumber text) (hends : Ends rest) :
    number (text ++ rest) = ⟨.token .number, text, rest⟩ := by
  rcases h.form with hhex | hdecimal
  · cases hhex with
    | @intro x digits suffix hx hne hdigits hsuffix =>
        have hmark : (x = 'x' || x = 'X') = true := by simpa using hx
        have hrun := hexNumber_of_isHex (x := x) hne hdigits hsuffix hends
        simp only [List.cons_append, number]
        rw [if_pos hmark, hrun]
        rfl
  · rw [number_eq_decimalNumber, decimalNumber_of_isDecimal hdecimal hends]
    intro x more heq
    obtain ⟨c, text', rfl, -⟩ := h.starts
    cases text' with
    | nil =>
        rw [List.cons_append, List.nil_append, List.cons.injEq] at heq
        have hword := lacks_cons.mp (heq.2 ▸ hends.lacks_isAsciiWord)
        constructor <;> rintro rfl <;> cases hword
    | cons d text' =>
        rw [List.cons_append, List.cons_append, List.cons.injEq, List.cons.injEq] at heq
        exact heq.2.1 ▸ hdecimal.ne_x (List.mem_cons_of_mem _ List.mem_cons_self)

end Lexer

end KernelWeaver.Snippet
