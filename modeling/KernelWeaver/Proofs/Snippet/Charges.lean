import KernelWeaver.Proofs.Snippet.EnoughSteps
import KernelWeaver.Proofs.Snippet.Positions

/-!
# A token for each item and each remark

Whatever the tokens are, reading them as items comes to an end inside the list, and there are no
more items and remarks than tokens. Tokens pay for what is read: an item passes a token more than
there are remarks in it, unless nothing was remarked, and what is given up owes one token at most,
which is skipped before reading is taken up again.
-/

namespace KernelWeaver.Snippet

open KernelWeaver.Snippet.Parser

namespace Cursor

/-- The remarks that were made and the tokens that are left to pay for more. -/
def weight (c : Cursor) : Nat := c.report.length + c.rest.length

/-- The tokens that were passed pay for the remarks that were made, with one left over, or there were
no remarks. -/
structure Pays (c c' : Cursor) : Prop extends c.Moves c' where
  paid : c.Closed → c'.weight < c.weight ∨ c'.report.length = c.report.length

/-- The tokens that were passed pay for the remarks that were made, or there was only one. -/
structure OwesOne (c c' : Cursor) : Prop extends c.Moves c' where
  owed : c.Closed → c'.weight ≤ c.weight ∨ c'.report.length ≤ c.report.length + 1

/-- The tokens that were passed pay for the remarks that were made. -/
structure Affords (c c' : Cursor) : Prop extends c.Moves c' where
  paid : c.Closed → c'.weight ≤ c.weight

variable {c c' c'' : Cursor}

theorem Moves.weight_le (h : c.Moves c') (hreport : c'.report.length = c.report.length) :
    c'.weight ≤ c.weight := by
  have hlength := h.length_le
  rw [weight, weight]
  omega

theorem Pays.affords (h : c.Pays c') : c.Affords c' :=
  ⟨h.toMoves, fun hc => (h.paid hc).elim Nat.le_of_lt h.toMoves.weight_le⟩

theorem Pays.of_report (h : c.Moves c') (hreport : c'.report = c.report) : c.Pays c' :=
  ⟨h, fun _ => .inr (congrArg List.length hreport)⟩

theorem Pays.trans (h : c.Pays c') (h' : c'.Pays c'') : c.Pays c'' := by
  refine ⟨h.toMoves.trans h'.toMoves, fun hc => ?_⟩
  have hfirst := (h.affords.paid hc)
  have hsecond := h'.affords.paid (h.closed hc)
  rcases h.paid hc, h'.paid (h.closed hc) with ⟨hpaid | hsame, hpaid' | hsame'⟩
  · exact .inl (hpaid'.trans hpaid)
  · exact .inl (hsecond.trans_lt hpaid)
  · exact .inl (hpaid'.trans_le hfirst)
  · exact .inr (hsame'.trans hsame)

theorem Affords.trans (h : c.Affords c') (h' : c'.Affords c'') : c.Affords c'' :=
  ⟨h.toMoves.trans h'.toMoves, fun hc => (h'.paid (h.closed hc)).trans (h.paid hc)⟩

theorem Pays.trans_owesOne (h : c.Pays c') (h' : c'.OwesOne c'') : c.OwesOne c'' := by
  refine ⟨h.toMoves.trans h'.toMoves, fun hc => ?_⟩
  have hfirst := h.affords.paid hc
  have hlength := h'.toMoves.length_le
  rcases h.paid hc, h'.owed (h.closed hc) with ⟨hpaid | hsame, howed | hone⟩
  · exact .inl (howed.trans hfirst)
  · -- the token that is left over pays for the remark
    rw [weight, weight] at *
    exact .inl (by omega)
  · exact .inl (howed.trans hfirst)
  · exact .inr (hsame ▸ hone)

/-- A token pays for one remark. -/
theorem weight_advance (hc : c.Closed) (hkind : c.kind ≠ .endOfInput) :
    c.advance.weight < c.weight := by
  have hlength := length_advance hc hkind
  rw [weight, weight, report_advance]
  omega

theorem OwesOne.of_reportHere (message : String) (h : c.Moves (c'.reportHere message))
    (hreport : c'.report.length ≤ c.report.length) : c.OwesOne (c'.reportHere message) := by
  refine ⟨h, fun _ => .inr ?_⟩
  rw [reportHere, List.length_append, List.length_singleton]
  omega

/-- The token that is skipped before reading is taken up again is the one that is owed. -/
theorem OwesOne.resume (h : c.OwesOne c') (hend : c.atEnd = false) : c.Affords c'.resume := by
  refine ⟨h.toMoves.trans (.resume c'), fun hc => ?_⟩
  have hlength := length_resume_lt hc hend h.toMoves
  have hle := (Moves.resume c').length_le
  have howed := h.owed hc
  rw [weight, weight] at *
  rw [report_resume]
  omega

/-- The brace in front pays for a remark. -/
theorem Affords.weight_lt (hkind : c.kind = .leftBrace) (h : c.advance.Affords c')
    (hc : c.Closed) : c'.weight < c.weight :=
  (h.paid ((Moves.advance c).closed hc)).trans_lt (weight_advance hc (by rw [hkind]; decide))

end Cursor

/-- All reading pays for its remarks, but what is given up may owe one. -/
def Law.charges : Law := ⟨Cursor.Pays, Cursor.OwesOne, Cursor.Affords⟩

theorem holds_charges : Law.charges.Holds where
  refl c := .of_report (.refl c) rfl
  trans := .trans
  trans_failed := Cursor.Pays.trans_owesOne
  fresh c := .of_report (holds_moves.fresh c) rfl
  advance {c} _ := .of_report (.advance c) c.report_advance
  stop c := ⟨.refl c, fun _ => .inl le_rfl⟩
  fail c _ hmessage := .of_reportHere _ (.fail c hmessage) le_rfl
  tooDeep c _ := Cursor.OwesOne.of_reportHere _ (.tooDeep c) (le_refl c.deeper.report.length)
  leave h := ⟨h.toMoves.leave, h.paid⟩
  leave_failed h := ⟨h.toMoves.leave, h.owed⟩
  block {_ c'} hkind h hclose := by
    -- the brace in front has paid for nothing yet, so a block leaves a token over
    refine ⟨holds_moves.block hkind h.toMoves hclose, fun hc => .inl ?_⟩
    exact ((Cursor.Moves.advance c').weight_le (by rw [c'.report_advance])).trans_lt
      (h.weight_lt hkind hc)
  unclosed {c c' message} hmessage hkind h hclose := by
    refine ⟨holds_moves.unclosed hmessage hkind h.toMoves hclose, fun hc => .inl ?_⟩
    have hlt := h.weight_lt hkind hc
    rw [Cursor.weight] at hlt
    rw [Cursor.weight, Cursor.reportHere, List.length_append, List.length_singleton]
    change c'.report.length + 1 + c'.rest.length ≤ c.weight
    omega
  items_refl c := ⟨.refl c, fun _ => le_rfl⟩
  item h h' := h.affords.trans h'
  skip hend h h' := (h.resume hend).trans h'

/-- The tokens that were passed pay for the remarks that were made and for the items that were read
as well. -/
theorem items_affords (n : Nat) (inBlock : Bool) {c : Cursor} (hc : c.Closed) :
    (items n inBlock c).1.length + (items n inBlock c).2.weight ≤ c.weight := by
  induction n generalizing c with
  | zero => rw [items, List.length_nil, Nat.zero_add]
  | succ n ih =>
      have hitem := (holds_charges.stmtKeptWithin n).blockItem c
      rcases items_cases n inBlock c with
        ⟨-, hitems⟩ | ⟨s, c₁, hrun, hitems⟩ | ⟨c₁, hend, hrun, hitems⟩
      · rw [hitems, List.length_nil, Nat.zero_add]
      · rw [hrun] at hitem
        have hpays : c.Pays c₁ := hitem
        have hlength := length_blockItem hc hrun
        have hlt : c₁.weight < c.weight := by
          rcases hpays.paid hc with hpaid | hsame
          · exact hpaid
          · rw [Cursor.weight, Cursor.weight]
            omega
        have hmore := ih (hpays.closed hc)
        rw [hitems]
        dsimp only
        rw [List.length_cons]
        omega
      · rw [hrun] at hitem
        have hskip : c.Affords c₁.resume := Cursor.OwesOne.resume hitem hend
        rw [hitems]
        exact (ih (hskip.closed hc)).trans (hskip.paid hc)

section Sentence

variable {tokens : List Token} (hend : ∀ t ∈ tokens.dropLast, t.kind ≠ .endOfInput)
include hend

/-- There is a token for each item that is read and each remark that is made. -/
theorem length_parseItems_le :
    (parseItems tokens).1.length + (parseItems tokens).2.length ≤ (sentence tokens).length := by
  have haffords := items_affords (itemSteps (Cursor.ofTokens tokens).rest.length) false
    (Cursor.closed_ofTokens tokens)
  rw [Cursor.weight, Cursor.weight, Cursor.report_ofTokens, Cursor.rest_ofTokens hend] at haffords
  rw [parseItems_eq, Cursor.rest_ofTokens hend]
  dsimp only
  rw [List.length_nil] at haffords
  omega

/-- Reading goes on until nothing is left. -/
theorem reaches_end :
    ∃ c, (Cursor.ofTokens tokens).StepsTo c ∧ c.rest = [] ∧ c.report = (parseItems tokens).2 := by
  have hends := (Cursor.closed_ofTokens tokens).finishes.items_end false le_rfl
  have hmoves := moves_items (itemSteps (Cursor.ofTokens tokens).rest.length) false
    (.ofTokens tokens)
  rw [parseItems_eq]
  refine ⟨_, (Cursor.ofTokens tokens).goesBySteps.items (itemSteps _) false, ?_, rfl⟩
  refine Cursor.rest_eq_nil_of_atEnd (fun t ht => ?_) (by simpa using hends)
  have hmem : t ∈ sentence tokens := Cursor.rest_ofTokens hend ▸ hmoves.rest.subset ht
  simpa using (List.mem_filter.mp hmem).2

/-- Reading a list of tokens as items comes to an end, inside the list, and there is a token for each
item and each remark. -/
theorem parseItems_inside :
    (∀ c, (Cursor.ofTokens tokens).StepsTo c → c.Finishes ∧ c.GoesBySteps ∧
      ∃ position < (withEnd tokens).length, c.StandsAt (withEnd tokens) position) ∧
    (∃ c, (Cursor.ofTokens tokens).StepsTo c ∧ c.rest = [] ∧ c.report = (parseItems tokens).2) ∧
    (parseItems tokens).1.length + (parseItems tokens).2.length ≤ (sentence tokens).length := by
  refine ⟨fun c hsteps => ?_, reaches_end hend, length_parseItems_le hend⟩
  obtain ⟨hc, position, hstands⟩ := Cursor.exists_standsAt hsteps
  exact ⟨hc.finishes, c.goesBySteps, position, hstands.lt, hstands⟩

end Sentence

/-- A bracket that nothing opened, in a block that nothing closes: an item and two remarks, one for
each of the three tokens. -/
def strayBracket : List Token :=
  [⟨.semicolon, ";", ⟨0, 1, 1⟩⟩, ⟨.leftBrace, "\x7b", ⟨2, 3, 1⟩⟩, ⟨.rightParen, ")", ⟨4, 5, 1⟩⟩]

theorem parseItems_inside_strayBracket :
    (parseItems strayBracket).1.length + (parseItems strayBracket).2.length = 3 ∧
      (parseItems strayBracket).1.length + (parseItems strayBracket).2.length ≤
        (sentence strayBracket).length :=
  have hend : ∀ t ∈ strayBracket.dropLast, t.kind ≠ .endOfInput := by decide
  ⟨by decide +kernel, (parseItems_inside hend).2.2⟩

end KernelWeaver.Snippet
