import KernelWeaver.Proofs.Snippet.Recovery
import Mathlib.Logic.Relation

/-!
# Reading stays inside the list of tokens

Reading goes step by step, and what it looks at next, what it has read last and what is left are told
by a position in the list of tokens. No step leaves the list: the end of input is its last token, and
it is never passed.
-/

namespace KernelWeaver.Snippet

open KernelWeaver.Snippet.Parser

namespace Cursor

/-- One step of reading, of whatever kind. -/
inductive Step : Cursor → Cursor → Prop where
  | advance (c : Cursor) : Step c c.advance
  | fresh (c : Cursor) : Step c { c with nextId := c.nextId + 1 }
  | remark (c : Cursor) (message : String) : Step c (c.reportHere message)
  | deeper (c : Cursor) : Step c c.deeper
  | shallower (c : Cursor) : Step c c.shallower

/-- Any number of steps. -/
abbrev StepsTo : Cursor → Cursor → Prop := Relation.ReflTransGen Step

variable {c c' c'' : Cursor}

/-- Skipping is passing one token after another. -/
theorem stepsTo_skipToBoundary (rest : List Token) (c : Cursor) (hrest : c.rest = rest) :
    c.StepsTo { c with
      previous := (skipToBoundary c.previous rest).1, rest := (skipToBoundary c.previous rest).2 } := by
  induction rest generalizing c with
  | nil =>
      have hsame : { c with previous := c.previous, rest := [] } = c := by rw [← hrest]
      rw [skipToBoundary, hsame]
  | cons t rest ih =>
      have hadvance := advance_of_rest hrest
      rw [skipToBoundary]
      split
      next =>
        have hsame : { c with previous := c.previous, rest := t :: rest } = c := by rw [← hrest]
        rw [hsame]
      next =>
        have hmore := ih c.advance (by rw [hadvance])
        rw [hadvance] at hmore
        exact .head (hadvance ▸ .advance c) hmore

theorem stepsTo_resume (c : Cursor) : c.StepsTo c.resume := by
  cases hrest : c.rest with
  | nil =>
      have hsame : c.resume = c := by rw [resume, hrest]
      rw [hsame]
  | cons t rest =>
      have hadvance := advance_of_rest hrest
      have hmore := stepsTo_skipToBoundary rest c.advance (by rw [hadvance])
      rw [resume, hrest]
      rw [hadvance] at hmore
      exact .head (hadvance ▸ .advance c) hmore

end Cursor

/-- All reading is made of steps. -/
def Law.steps : Law := ⟨Cursor.StepsTo, Cursor.StepsTo, Cursor.StepsTo⟩

theorem holds_steps : Law.steps.Holds where
  refl _ := .refl
  trans := .trans
  trans_failed := .trans
  fresh c := .single (.fresh c)
  advance _ := .single (.advance _)
  stop _ := .refl
  fail c _ _ := .single (.remark c _)
  tooDeep c _ := .head (.deeper c) (.single (.remark _ _))
  leave h := .head (.deeper _) (.tail h (.shallower _))
  leave_failed h := .head (.deeper _) (.tail h (.shallower _))
  block _ h _ := .head (.advance _) (.tail h (.advance _))
  unclosed _ _ h _ := .head (.advance _) (.tail h (.remark _ _))
  items_refl _ := .refl
  item := .trans
  skip _ h h' := h.trans ((Cursor.stepsTo_resume _).trans h')

theorem Outcome.Keeps.steps {α : Type} {c : Cursor} {o : Outcome α} (h : o.Keeps Law.steps c) :
    c.StepsTo o.cursor := by
  cases o <;> exact h

/-- Whatever is read from the cursor is read by steps, also where it is given up. -/
structure Cursor.GoesBySteps (c : Cursor) : Prop where
  expression (n : Nat) : c.StepsTo (assignment n c).cursor
  names (n : Nat) : c.StepsTo (declarators n c).cursor
  item (n : Nat) : c.StepsTo (blockItem n c).cursor
  items (n : Nat) (inBlock : Bool) : c.StepsTo (items n inBlock c).2

theorem Cursor.goesBySteps (c : Cursor) : c.GoesBySteps where
  expression n := ((holds_steps.keptWithin n).assignment c).steps
  names n := (holds_steps.declarators n c).steps
  item n := ((holds_steps.stmtKeptWithin n).blockItem c).steps
  items n inBlock := (holds_steps.stmtKeptWithin n).items inBlock c

/-- The list of tokens with an end of input behind it, if it has none. -/
def withEnd (tokens : List Token) : List Token :=
  if tokens.getLast?.map Token.kind = some .endOfInput then tokens
  else tokens ++ [Cursor.endAfter tokens]

theorem withEnd_eq (tokens : List Token) :
    withEnd tokens = (Cursor.ofTokens tokens).rest ++ [(Cursor.ofTokens tokens).ending] := by
  rw [withEnd, Cursor.ofTokens]
  rcases tokens.eq_nil_or_concat with rfl | ⟨front, last, rfl⟩
  · rfl
  · rw [List.concat_eq_append, List.getLast?_concat]
    by_cases hkind : last.kind = .endOfInput <;> simp [hkind]

namespace Cursor

/-- The cursor stands at a position of the list: there is the next token, right before it the one
that was read last, and from there on all that is left. -/
structure StandsAt (tokens : List Token) (position : Nat) (c : Cursor) : Prop where
  current : tokens[position]? = some c.current
  previous : tokens[position - 1]? = some c.previous
  second : (tokens[position + 1]?.map Token.kind).getD .endOfInput = c.secondKind
  rest : tokens.drop position = c.rest ++ [c.ending]

variable {tokens : List Token} {position : Nat} {c c' : Cursor}

theorem standsAt_of_drop (hc : c.Closed) (hrest : tokens.drop position = c.rest ++ [c.ending])
    (hprevious : tokens[position - 1]? = some c.previous) : c.StandsAt tokens position := by
  have hat : ∀ i, tokens[position + i]? = (c.rest ++ [c.ending])[i]? := by
    intro i
    rw [← hrest, List.getElem?_drop]
  refine ⟨?_, hprevious, ?_, hrest⟩
  · rw [← Nat.add_zero position, hat, Cursor.current]
    cases c.rest <;> rfl
  · rw [hat, secondKind]
    cases hr : c.rest with
    | nil => rfl
    | cons t rest =>
        cases rest with
        | nil => exact hc
        | cons u rest => rfl

theorem StandsAt.lt (h : c.StandsAt tokens position) : position < tokens.length :=
  (List.getElem?_eq_some_iff.mp h.current).1

/-- A step stays where it is or goes to the next position. -/
theorem StandsAt.step (h : c.StandsAt tokens position) (hc : c.Closed) (hstep : c.Step c') :
    c'.Closed ∧ ∃ next, c'.StandsAt tokens next := by
  cases hstep with
  | advance =>
      refine ⟨(Moves.advance c).closed hc, ?_⟩
      cases hrest : c.rest with
      | nil =>
          have hsame : c.advance = c := by rw [Cursor.advance, hrest]
          exact ⟨position, hsame.symm ▸ h⟩
      | cons t rest =>
          refine ⟨position + 1, standsAt_of_drop ((Moves.advance c).closed hc) ?_ ?_⟩
          · have hdrop := h.rest
            rw [hrest] at hdrop
            rw [advance_of_rest hrest, ← List.tail_drop, hdrop]
            rfl
          · have hcurrent := h.current
            rw [current_of_rest hrest] at hcurrent
            rw [Nat.add_sub_cancel, hcurrent, advance_of_rest hrest]
  | fresh | remark | deeper | shallower =>
      exact ⟨hc, position, standsAt_of_drop hc h.rest h.previous⟩

theorem standsAt_ofTokens (tokens : List Token) :
    (ofTokens tokens).StandsAt (withEnd tokens) 0 := by
  refine standsAt_of_drop (closed_ofTokens tokens) (withEnd_eq tokens) ?_
  rw [withEnd_eq]
  have hprevious : (ofTokens tokens).previous =
      (ofTokens tokens).rest.headD (ofTokens tokens).ending := rfl
  rw [hprevious]
  cases (ofTokens tokens).rest <;> rfl

/-- Wherever reading gets to, it stands at a position of the list of tokens. -/
theorem exists_standsAt (h : (ofTokens tokens).StepsTo c) :
    c.Closed ∧ ∃ position, c.StandsAt (withEnd tokens) position := by
  induction h with
  | refl => exact ⟨closed_ofTokens tokens, 0, standsAt_ofTokens tokens⟩
  | tail _ hstep ih =>
      obtain ⟨hc, position, hstands⟩ := ih
      exact hstands.step hc hstep

end Cursor

end KernelWeaver.Snippet
