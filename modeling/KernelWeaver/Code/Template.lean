import KernelWeaver.Text.Blank
import KernelWeaver.Text.WordChar

/-!
# Code templates

A template is text with markers `$(name)` that stand for the code of other names. Reading a
template loses nothing: its segments, written out, are its text. Numbered slots such as `$(0)` are
no markers; they stand for the arguments of a call and are replaced in the finished text.
-/

namespace KernelWeaver.Code

/-- A piece of a template. -/
inductive Segment where
  | text (chars : List Char)
  | marker (name : List Char)
deriving DecidableEq, Repr

/-- The pieces of a template in order. -/
abbrev Template := List Segment

/-- The characters of a segment as written in a template. -/
def Segment.written : Segment → List Char
  | text cs => cs
  | marker name => '$' :: '(' :: name ++ [')']

namespace Template

/-- Characters that may begin the name in a marker. -/
def isNameStart (c : Char) : Bool := c.isAlpha || c = '_'

/-- The name of the marker at the front of a text, if there is one. -/
def markerName? : List Char → Option (List Char)
  | '$' :: '(' :: c :: cs =>
    let more := cs.takeWhile Text.isWordChar
    if isNameStart c ∧ (cs.dropWhile Text.isWordChar).head? = some ')' then some (c :: more)
    else none
  | _ => none

/-- Puts a character in front of a template. -/
def push (c : Char) : Template → Template
  | .text cs :: rest => .text (c :: cs) :: rest
  | rest => .text [c] :: rest

/-- The segments of a text behind its first `skip` characters. -/
def readFrom (skip : Nat) : List Char → Template
  | [] => []
  | c :: cs =>
    match skip with
    | skip + 1 => readFrom skip cs
    | 0 =>
      match markerName? (c :: cs) with
      -- besides the name, an opening and a closing parenthesis are still to be skipped
      | some name => .marker name :: readFrom (name.length + 2) cs
      | none => push c (readFrom 0 cs)

/-- The template that a text spells: markers are found from the left, all else is text. -/
def ofString (text : String) : Template :=
  readFrom 0 text.toList

/-- The characters of a template as written. -/
def written (t : Template) : List Char :=
  t.flatMap Segment.written

/-- The names of the markers in order. -/
def markerNames (t : Template) : List String :=
  t.filterMap fun
    | .marker name => some (String.ofList name)
    | .text _ => none

/-- The text of a template with every marker replaced by what `lookup` finds for its name. The
names are looked up in order, and what is found is not searched for markers. -/
def render {m : Type → Type} [Monad m] (lookup : String → m String) : Template → m String
  | [] => pure ""
  | .text cs :: rest => do
    let more ← render lookup rest
    return String.ofList cs ++ more
  | .marker name :: rest => do
    let found ← lookup (String.ofList name)
    let more ← render lookup rest
    return found ++ more

theorem written_push (c : Char) (t : Template) : written (push c t) = c :: written t := by
  unfold push
  split <;> simp [written, Segment.written]

theorem readFrom_eq_drop (n : Nat) (cs : List Char) :
    readFrom n cs = readFrom 0 (cs.drop n) := by
  induction cs generalizing n with
  | nil => simp [readFrom]
  | cons c cs ih =>
    cases n with
    | zero => rfl
    | succ n => simpa [readFrom] using ih n

/-- A marker found at the front of a text is how that text begins. -/
theorem eq_written_of_markerName? {cs name : List Char} (h : markerName? cs = some name) :
    cs = (Segment.marker name).written ++ cs.drop (name.length + 3) := by
  unfold markerName? at h
  split at h
  · rename_i c cs
    split at h
    · rename_i hc
      obtain ⟨_, hclose⟩ := hc
      cases h
      have hsplit := List.takeWhile_append_dropWhile (p := Text.isWordChar) (l := cs)
      generalize cs.takeWhile Text.isWordChar = more at hsplit ⊢
      generalize cs.dropWhile Text.isWordChar = rest at hsplit hclose
      cases rest with
      | nil => simp at hclose
      | cons d rest =>
        cases hclose
        subst hsplit
        simp [Segment.written]
    · simp at h
  · simp at h

end Template

/-- `text` with every occurrence of `part`, found from the left, replaced; its first `skip`
characters are left out. -/
def replaceFrom (part other : List Char) (skip : Nat) : List Char → List Char
  | [] => []
  | c :: cs =>
    match skip with
    | skip + 1 => replaceFrom part other skip cs
    | 0 =>
      if part.isPrefixOf (c :: cs) then other ++ replaceFrom part other (part.length - 1) cs
      else c :: replaceFrom part other 0 cs

/-- The slot of the argument with the given number. -/
def slot (i : Nat) : String := "$(" ++ toString i ++ ")"

/-- Whether a text has a slot for the first argument. -/
def hasSlots (text : String) : Bool := Text.contains text (slot 0)

/-- `text` with the slots replaced by the arguments, the last argument first. -/
def fillSlots (text : String) (args : List String) : String :=
  String.ofList <| args.zipIdx.foldr
    (fun (arg, i) cs => replaceFrom (slot i).toList arg.toList 0 cs) text.toList

end KernelWeaver.Code
