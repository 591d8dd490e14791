import KernelWeaver.Decimal.Shortest
import KernelWeaver.Proofs.Snippet.Numerals
import Mathlib

/-!
# Texts of decimals

Zero is none of the reals that round to a positive float, so the shortest decimal among them has
digits. Its text is that of a decimal number with a point or an exponent.
-/

namespace KernelWeaver.Decimal

open Snippet.Lexer

variable {i : Interval} {unit : Int} {n count : Nat}

/-! ### The shortest decimal is positive -/

theorem tenTo_pos (e : Int) : 0 < tenTo e := Nat.pow_pos (by decide)

theorem twoTo_pos (e : Int) : 0 < twoTo e := Nat.pow_pos (by decide)

theorem lt_pow_decimalLength (n : Nat) : n < 10 ^ decimalLength n :=
  (Nat.length_toDigits_le_iff (by decide) Nat.length_toDigits_pos).mp le_rfl

theorem pow_le_of_lt_decimalLength (hn : 0 < n) (h : count < decimalLength n) :
    10 ^ count ≤ n := by
  rcases Nat.eq_zero_or_pos count with rfl | hcount
  · exact hn
  · exact Nat.le_of_not_lt fun hlt => absurd
      ((Nat.length_toDigits_le_iff (by decide) hcount).mpr hlt) (Nat.not_le_of_lt h)

namespace Interval

/-- All reals of the interval are positive. -/
structure Positive (i : Interval) : Prop where
  scale : 0 < i.scale
  low : 0 < i.low
  value : 0 < i.value

theorem positive_around (format : BinaryFormat) {m : Nat} (hm : 0 < m) (q : Int) :
    (around format m q).Positive where
  scale := Nat.mul_pos (by decide) (twoTo_pos _)
  low := by
    refine Nat.mul_pos ?_ (twoTo_pos q)
    split <;> omega
  value := Nat.mul_pos (by omega) (twoTo_pos q)

/-- Zero is not in the interval. -/
theorem Positive.pos_of_holds (h : i.Positive) (hn : i.holds unit n = true) : 0 < n := by
  rcases Nat.eq_zero_or_pos n with rfl | hpos
  · have hlow : 0 < i.low * tenTo (-unit) := Nat.mul_pos h.low (tenTo_pos _)
    rw [holds, Nat.zero_mul, Nat.zero_mul] at hn
    split at hn
    all_goals
      rw [Bool.and_eq_true, decide_eq_true_eq] at hn
      omega
  · exact hpos

theorem Positive.pos_of_onGrid? (h : i.Positive) (hn : i.onGrid? unit = some n) : 0 < n := by
  unfold onGrid? at hn
  dsimp only at hn
  split at hn
  next hfirst _ =>
    have hpos := h.pos_of_holds hfirst
    split at hn <;> cases hn
    · exact Nat.succ_pos _
    · exact hpos
  next hfirst _ => cases hn; exact h.pos_of_holds hfirst
  next => cases hn; exact Nat.succ_pos _
  next => cases hn

/-- The value has as many digits in front of its point as it is said to have. -/
theorem Positive.scale_le_value (h : i.Positive) (hcount : 0 < count) :
    i.scale * tenTo (i.point - count) ≤ i.value * tenTo (count - i.point) := by
  rw [point]
  split
  next hle =>
    have hquotient : 0 < i.value / i.scale := Nat.div_pos hle h.scale
    have hpower : tenTo (decimalLength (i.value / i.scale) - count) ≤ i.value / i.scale :=
      pow_le_of_lt_decimalLength hquotient (by
        have hlength : 0 < decimalLength (i.value / i.scale) := Nat.length_toDigits_pos
        omega)
    calc i.scale * tenTo (decimalLength (i.value / i.scale) - count)
        ≤ i.scale * (i.value / i.scale) := Nat.mul_le_mul_left _ hpower
      _ ≤ i.value := Nat.mul_div_le _ _
      _ ≤ i.value * tenTo (count - decimalLength (i.value / i.scale)) :=
        Nat.le_mul_of_pos_right _ (tenTo_pos _)
  next hlt =>
    generalize hlength : decimalLength ((i.scale - 1) / i.value) = length
    have hone : tenTo (1 - length - count) = 1 := by
      have hzero : (1 - (length : Int) - count).toNat = 0 := by omega
      rw [tenTo, hzero, Nat.pow_eq, Nat.pow_zero]
    have hpower : 10 ^ length ≤ tenTo (count - (1 - length)) :=
      Nat.pow_le_pow_right (by decide) (by omega)
    have hbelow : (i.scale - 1) / i.value < 10 ^ length := hlength ▸ lt_pow_decimalLength _
    rw [Nat.div_lt_iff_lt_mul h.value, Nat.mul_comm] at hbelow
    rw [hone, Nat.mul_one]
    calc i.scale ≤ i.value * 10 ^ length := by omega
      _ ≤ i.value * tenTo (count - (1 - length)) := Nat.mul_le_mul_left _ hpower

theorem Positive.pos_digits_search (h : i.Positive) (more : Nat) (hcount : 0 < count) :
    0 < (i.search i.point more count).digits := by
  induction more generalizing count with
  | zero =>
      -- however many digits were tried, cutting off the value leaves some of them
      exact Nat.div_pos (h.scale_le_value hcount) (Nat.mul_pos h.scale (tenTo_pos _))
  | succ more ih =>
      rw [search]
      split
      next n hn => exact h.pos_of_onGrid? hn
      next => exact ih (Nat.succ_pos count)

/-- The shortest decimal that rounds to a positive float is positive. -/
theorem pos_digits_shortest (format : BinaryFormat) {m : Nat} (hm : 0 < m) (q : Int) :
    0 < (around format m q).shortest.digits :=
  (positive_around format hm q).pos_digits_search 17 Nat.one_pos

end Interval

/-! ### The form of texts -/

/-- Digits, at least one. -/
structure AreDigits (cs : List Char) : Prop where
  ne_nil : cs ≠ []
  isDigit : ∀ c ∈ cs, c.isDigit = true

theorem areDigits_toDigits (n : Nat) : AreDigits (Nat.toDigits 10 n) where
  ne_nil := Nat.toDigits_ne_nil
  isDigit _ hc := Nat.isDigit_of_mem_toDigits (by decide) (by decide) hc

/-- An integer is written as digits with at most a minus in front. -/
theorem toList_toString_int (z : Int) : ∃ sign digits,
    (toString z).toList = sign ++ digits ∧ (sign = [] ∨ sign = ['-']) ∧ AreDigits digits := by
  rw [Int.toString_eq_repr, Int.repr_eq_if]
  split
  · exact ⟨[], _, Nat.toList_repr, .inl rfl, areDigits_toDigits _⟩
  · have htext : ("-" ++ (-z).toNat.repr).toList = ['-'] ++ Nat.toDigits 10 (-z).toNat := by
      rw [String.toList_append, Nat.toList_repr]
      rfl
    exact ⟨['-'], _, htext, .inr rfl, areDigits_toDigits _⟩

/-- Of a positive number some digits are not zero. -/
theorem areDigits_significantDigits (hn : 0 < n) : AreDigits (significantDigits n) where
  ne_nil := by
    intro hnil
    rw [significantDigits, List.reverse_eq_nil_iff, List.dropWhile_eq_nil_iff] at hnil
    -- a number whose digits are all zeros is zero
    have hzeros : Nat.toDigits 10 n = List.replicate (Nat.toDigits 10 n).length '0' :=
      List.eq_replicate_iff.mpr ⟨rfl, fun c hc => by simpa using hnil c (List.mem_reverse.mpr hc)⟩
    have hvalue : Nat.ofDigitChars 10 (Nat.toDigits 10 n) 0 = n := Nat.ofDigitChars_ten_toDigits
    rw [hzeros, Nat.ofDigitChars_replicate_zero, Nat.mul_zero] at hvalue
    exact Nat.ne_of_lt hn hvalue
  isDigit c hc := by
    rw [significantDigits, List.mem_reverse] at hc
    have hmem := List.mem_reverse.mp ((List.dropWhile_suffix _).subset hc)
    exact (areDigits_toDigits n).isDigit c hmem

/-- The text of a decimal number without a suffix, with digits in front of its point or its
exponent. -/
inductive IsUnsuffixed : List Char → Prop where
  | intro {whole fraction mark digits : List Char} : AreDigits whole → IsFraction fraction →
      IsExponent mark digits → (fraction.isEmpty && mark.isEmpty) = false →
      IsUnsuffixed (whole ++ (fraction ++ (mark ++ digits)))

theorem AreDigits.startsNumber {digits : List Char} (h : AreDigits digits) (more : List Char) :
    StartsNumber (digits ++ more) := by
  obtain ⟨c, ds, rfl⟩ := List.exists_cons_of_ne_nil h.ne_nil
  exact ⟨c, _, rfl, by rw [h.isDigit c List.mem_cons_self, Bool.true_or]⟩

/-- Such a text is a decimal number, also with the suffix for single precision. -/
theorem IsUnsuffixed.isDecimal {text suffix : List Char} (h : IsUnsuffixed text)
    (hsuffix : suffix = [] ∨ suffix = ['f']) :
    StartsNumber (text ++ suffix) ∧ IsDecimal (text ++ suffix) := by
  cases h with
  | @intro whole fraction mark digits hwhole hfraction hexponent hfloat =>
  rw [List.append_assoc, List.append_assoc, List.append_assoc]
  refine ⟨hwhole.startsNumber _, .intro hwhole.isDigit hfraction hexponent ?_⟩
  exact hsuffix.imp_right fun heq => ⟨'f', heq, by rw [hfloat]; decide⟩

/-- Digits are a decimal number, also with the suffix for numbers without sign. -/
theorem AreDigits.isDecimal {digits suffix : List Char} (h : AreDigits digits)
    (hsuffix : suffix = [] ∨ suffix = ['U']) :
    StartsNumber (digits ++ suffix) ∧ IsDecimal (digits ++ suffix) := by
  have hdecimal : IsDecimal (digits ++ ([] ++ ([] ++ ([] ++ suffix)))) :=
    .intro h.isDigit (.inl rfl) (.inl ⟨rfl, rfl⟩)
      (hsuffix.imp_right fun heq => ⟨'U', heq, by decide⟩)
  exact ⟨h.startsNumber suffix, hdecimal⟩

theorem AreDigits.take {digits : List Char} (h : AreDigits digits) (hcount : 0 < count) :
    AreDigits (digits.take count) where
  ne_nil := by
    rw [ne_eq, List.take_eq_nil_iff, not_or]
    exact ⟨Nat.ne_of_gt hcount, h.ne_nil⟩
  isDigit c hc := h.isDigit c (List.mem_of_mem_take hc)

/-- Digits on both sides of a point, zero behind it if none are left. -/
theorem isUnsuffixed_of_point {digits : List Char} (h : AreDigits digits) (hcount : 0 < count) :
    IsUnsuffixed (digits.take count ++
      '.' :: (if (digits.drop count).isEmpty then ['0'] else digits.drop count)) := by
  have hfraction : IsFraction
      ('.' :: (if (digits.drop count).isEmpty then ['0'] else digits.drop count)) := by
    refine .inr ⟨_, rfl, fun c hc => ?_⟩
    split at hc
    · obtain rfl := List.mem_singleton.mp hc
      rfl
    · exact h.isDigit c (List.mem_of_mem_drop hc)
  have hnone : IsExponent [] [] := .inl ⟨rfl, rfl⟩
  have htext := IsUnsuffixed.intro (h.take hcount) hfraction hnone rfl
  rwa [List.nil_append, List.append_nil] at htext

/-- Digits, with a point behind the first of several, and an exponent. -/
theorem isUnsuffixed_of_exponent {digits : List Char} (h : AreDigits digits) (e : Int) :
    IsUnsuffixed (digits.take 1 ++ (if digits.length > 1 then '.' :: digits.drop 1 else []) ++
      'e' :: (toString e).toList) := by
  obtain ⟨sign, exponent, htext, hsign, hexponent⟩ := toList_toString_int e
  have hfraction : IsFraction (if digits.length > 1 then '.' :: digits.drop 1 else []) := by
    split
    · exact .inr ⟨_, rfl, fun c hc => h.isDigit c (List.mem_of_mem_drop hc)⟩
    · exact .inl rfl
  have hmark : IsMark ('e' :: sign) := ⟨'e', sign, rfl, .inl rfl, hsign.imp_right .inr⟩
  have hnumber := IsUnsuffixed.intro (h.take Nat.one_pos) hfraction
    (.inr ⟨hmark, hexponent.ne_nil, hexponent.isDigit⟩) (Bool.and_false _)
  rw [htext, List.append_assoc]
  exact hnumber

/-- A positive decimal is written as a number. -/
theorem Numeral.isUnsuffixed_text (style : TextStyle) {d : Numeral} (hd : 0 < d.digits) :
    IsUnsuffixed (d.text style) := by
  have hdigits := areDigits_significantDigits hd
  unfold Numeral.text
  generalize significantDigits d.digits = digits at hdigits
  dsimp only
  split
  · refine isUnsuffixed_of_point ⟨?_, ?_⟩ (Nat.lt_of_lt_of_le Nat.one_pos (Nat.le_max_right _ _))
    · simp [hdigits.ne_nil]
    · rw [List.forall_mem_append, List.forall_mem_append]
      refine ⟨⟨fun c hc => ?_, hdigits.isDigit⟩, fun c hc => ?_⟩ <;>
        rw [List.eq_of_mem_replicate hc] <;> rfl
  · exact isUnsuffixed_of_exponent hdigits _

/-- A finite float is written as a number with at most a minus in front. -/
theorem Binary.toList_text_finite (format : BinaryFormat) (style : TextStyle) (negative : Bool)
    (m : Nat) (q : Int) : ∃ sign magnitude,
      ((Binary.finite negative m q).text format style).toList = sign ++ magnitude ∧
        (sign = [] ∨ sign = ['-']) ∧ IsUnsuffixed magnitude := by
  have hmagnitude : IsUnsuffixed (if m = 0 then ['0', '.', '0'] else
      (Interval.around format m q).shortest.text style) := by
    split
    · have hzero : AreDigits ['0'] := ⟨List.cons_ne_nil _ _, List.forall_mem_singleton.mpr rfl⟩
      exact isUnsuffixed_of_point hzero Nat.one_pos
    next hm =>
      exact Numeral.isUnsuffixed_text style
        (Interval.pos_digits_shortest format (Nat.pos_of_ne_zero hm) q)
  rw [text, String.toList_ofList]
  cases negative with
  | false => exact ⟨[], _, rfl, .inl rfl, hmagnitude⟩
  | true => exact ⟨['-'], _, rfl, .inr rfl, hmagnitude⟩

end KernelWeaver.Decimal
