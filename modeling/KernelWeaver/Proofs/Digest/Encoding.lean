import KernelWeaver.Model.Encoding
import Mathlib.Algebra.Group.Nat.Defs
import Mathlib.Data.List.Forall2

/-!
# Encodings that can be taken apart

Every part of an encoding tells by itself where it ends. Two encodings that are put together in the
same way are therefore the same bytes only if they agree part by part, whatever follows them. The
one limit is the width of a length: it is a 64-bit word, like the count of the bytes that the hash
function takes.
-/

namespace KernelWeaver.Encoding

/-- The hash function counts the bytes that it takes in a 64-bit word. -/
def IsHashable (e : Encoding) : Prop := e.length < 2 ^ 64

instance (e : Encoding) : Decidable (IsHashable e) := inferInstanceAs (Decidable (_ < _))

theorem IsHashable.of_append {x y : Encoding} (h : IsHashable (x ++ y)) : IsHashable y := by
  simp only [IsHashable, List.length_append] at h ⊢
  omega

/-- Two encodings differ unless `same` holds, even if more bytes follow them, and then what follows
is the same as well. -/
structure TellsApart (x y : Encoding) (same : Prop) : Prop where
  of_append : ∀ {r s : Encoding}, IsHashable (x ++ r) → x ++ r = y ++ s → same ∧ r = s
  eq_of_same : same → x = y

theorem length_text_pos (s : String) : 0 < (text s).length := by
  rw [text, List.length_append, word64, length_littleEndian]
  omega

theorem littleEndian_injective {count m n : Nat} (hm : m < 256 ^ count) (hn : n < 256 ^ count)
    (h : littleEndian count m = littleEndian count n) : m = n := by
  induction count generalizing m n with
  | zero => simp_all
  | succ count ih =>
      obtain ⟨hlow, hhigh⟩ := List.cons.inj h
      have hlow : m % 256 = n % 256 := by simpa using congrArg UInt8.toNat hlow
      rw [Nat.pow_succ] at hm hn
      have hhigh := ih (by omega) (by omega) hhigh
      omega

/-- A number in front of at least as many bytes can be read back. -/
theorem of_counted {m n : Nat} {x y : Encoding} (hm : m ≤ x.length) (hn : n ≤ y.length)
    (hx : IsHashable (word64 m ++ x)) (h : word64 m ++ x = word64 n ++ y) : m = n ∧ x = y := by
  obtain ⟨hcount, hrest⟩ := List.append_inj h (by simp [word64])
  subst hrest
  have hlength : x.length < 256 ^ 8 := hx.of_append
  exact ⟨littleEndian_injective (by omega) (by omega) hcount, rfl⟩

theorem length_le_flatMap {α : Type} {encode : α → Encoding} {items : List α}
    (hpos : ∀ a ∈ items, 0 < (encode a).length) :
    items.length ≤ (items.flatMap encode).length := by
  induction items with
  | nil => exact Nat.le_refl 0
  | cons a items ih =>
      obtain ⟨ha, hitems⟩ := List.forall_mem_cons.mp hpos
      have hrest := ih hitems
      simp only [List.flatMap_cons, List.length_append, List.length_cons]
      omega

namespace TellsApart

variable {x y x' y' : Encoding} {p q : Prop}

theorem eq_iff (h : TellsApart x y p) (hx : IsHashable x) : x = y ↔ p := by
  constructor
  · intro heq
    apply And.left (h.of_append (r := []) (s := []) _ _)
    · simpa using hx
    · simpa using heq
  · exact h.eq_of_same

theorem congr (h : TellsApart x y p) (hpq : p ↔ q) : TellsApart x y q :=
  propext hpq ▸ h

/-- What comes later may be made in a way that depends on what comes first. -/
theorem append_of (h : TellsApart x y p) (h' : p → TellsApart x' y' q) :
    TellsApart (x ++ x') (y ++ y') (p ∧ q) where
  of_append := by
    intro r s hhash heq
    rw [List.append_assoc] at hhash
    rw [List.append_assoc, List.append_assoc] at heq
    obtain ⟨hp, hrest⟩ := h.of_append hhash heq
    obtain ⟨hq, hrs⟩ := (h' hp).of_append hhash.of_append hrest
    exact ⟨⟨hp, hq⟩, hrs⟩
  eq_of_same := by
    intro ⟨hp, hq⟩
    rw [h.eq_of_same hp, (h' hp).eq_of_same hq]

theorem append (h : TellsApart x y p) (h' : TellsApart x' y' q) :
    TellsApart (x ++ x') (y ++ y') (p ∧ q) :=
  h.append_of fun _ => h'

/-- Encodings of one length differ where they are different. -/
theorem of_length (h : x.length = y.length) : TellsApart x y (x = y) where
  of_append := fun _ heq => List.append_inj heq h
  eq_of_same := id

theorem byte {m n : Nat} (hm : m < 256) (hn : n < 256) :
    TellsApart (byte m) (byte n) (m = n) :=
  (of_length (by simp [Encoding.byte])).congr
    ⟨littleEndian_injective (by omega) (by omega), congrArg Encoding.byte⟩

theorem flag (a b : Bool) : TellsApart (flag a) (flag b) (a = b) :=
  (byte (by cases a <;> decide) (by cases b <;> decide)).congr (by cases a <;> cases b <;> decide)

/-- Different first bytes already tell apart. -/
theorem byte_ne {m n : Nat} (hm : m < 256) (hn : n < 256) (hne : m ≠ n) :
    TellsApart (Encoding.byte m ++ x) (Encoding.byte n ++ y) False :=
  ((byte hm hn).append_of fun heq => absurd heq hne).congr (and_iff_right_of_imp False.elim)

theorem text (s t : String) : TellsApart (text s) (text t) (s = t) where
  of_append := by
    intro r r' hhash heq
    rw [Encoding.text, List.append_assoc] at hhash
    rw [Encoding.text, Encoding.text, List.append_assoc, List.append_assoc] at heq
    obtain ⟨hsize, heq⟩ := of_counted (by simp) (by simp) hhash heq
    obtain ⟨hdata, hrest⟩ := List.append_inj heq (by simpa using hsize)
    exact ⟨String.toByteArray_inj.mp (ByteArray.ext (Array.toList_inj.mp hdata)), hrest⟩
  eq_of_same := by
    intro heq
    rw [heq]

/-- Items one behind another, if it is known how many there are. -/
theorem flatMap {α β : Type} {f : α → Encoding} {g : β → Encoding} {same : α → β → Prop}
    {xs : List α} {ys : List β} (hlength : xs.length = ys.length)
    (h : ∀ a ∈ xs, ∀ b ∈ ys, TellsApart (f a) (g b) (same a b)) :
    TellsApart (xs.flatMap f) (ys.flatMap g) (List.Forall₂ same xs ys) := by
  induction xs generalizing ys with
  | nil =>
      cases List.length_eq_zero_iff.mp hlength.symm
      exact ⟨fun _ heq => ⟨.nil, heq⟩, fun _ => rfl⟩
  | cons a xs ih =>
      obtain ⟨b, ys, rfl⟩ := List.exists_cons_of_length_eq_add_one hlength.symm
      have hhead := h a List.mem_cons_self b List.mem_cons_self
      have htail := ih (Nat.succ.inj hlength) fun a' ha' b' hb' =>
        h a' (List.mem_cons_of_mem _ ha') b' (List.mem_cons_of_mem _ hb')
      rw [List.flatMap_cons, List.flatMap_cons, List.forall₂_cons]
      exact hhead.append htail

/-- Items behind their number, none of which is empty. -/
theorem list {α : Type} {encode : α → Encoding} {same : α → α → Prop} {xs ys : List α}
    (hxs : ∀ a ∈ xs, 0 < (encode a).length) (hys : ∀ b ∈ ys, 0 < (encode b).length)
    (h : ∀ a ∈ xs, ∀ b ∈ ys, TellsApart (encode a) (encode b) (same a b)) :
    TellsApart (encodeList encode xs) (encodeList encode ys) (List.Forall₂ same xs ys) where
  of_append := by
    intro r s hhash heq
    rw [encodeList, List.append_assoc] at hhash
    rw [encodeList, encodeList, List.append_assoc, List.append_assoc] at heq
    obtain ⟨hlength, heq⟩ := of_counted (Nat.le_trans (length_le_flatMap hxs) (by simp))
      (Nat.le_trans (length_le_flatMap hys) (by simp)) hhash heq
    exact (flatMap hlength h).of_append hhash.of_append heq
  eq_of_same := by
    intro hsame
    rw [encodeList, encodeList, hsame.length_eq, (flatMap hsame.length_eq h).eq_of_same hsame]

/-- The same items, if the encodings of items tell them apart. -/
theorem list_eq {α : Type} {encode : α → Encoding} {xs ys : List α}
    (hxs : ∀ a ∈ xs, 0 < (encode a).length) (hys : ∀ b ∈ ys, 0 < (encode b).length)
    (h : ∀ a ∈ xs, ∀ b ∈ ys, TellsApart (encode a) (encode b) (a = b)) :
    TellsApart (encodeList encode xs) (encodeList encode ys) (xs = ys) :=
  (list hxs hys h).congr (by rw [List.forall₂_eq_eq_eq])

theorem texts (xs ys : List String) : TellsApart (texts xs) (texts ys) (xs = ys) :=
  list_eq (fun s _ => length_text_pos s) (fun t _ => length_text_pos t) fun s _ t _ => text s t

end TellsApart

end KernelWeaver.Encoding
