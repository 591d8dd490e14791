import KernelWeaver.Proofs.Snippet.Grammar

/-!
# Reading tokens

What reading does to a cursor: it takes tokens off the front and leaves the depth and the report as
they were, or it gives up with one more remark on the report. Rules for reading one thing after
another follow.
-/

namespace KernelWeaver.Snippet

namespace Cursor

/-- The tokens end with an end of input. -/
def Closed (c : Cursor) : Prop := c.ending.kind = .endOfInput

/-- Between two cursors some tokens were read, and nothing was remarked. -/
structure Reads (c : Cursor) (ts : List Token) (c' : Cursor) : Prop where
  rest : c.rest = ts ++ c'.rest
  previous : c'.previous = ts.getLast?.getD c.previous
  ending : c'.ending = c.ending
  depth : c'.depth = c.depth
  report : c'.report = c.report

/-- The cursor inside a nested form. -/
def deeper (c : Cursor) : Cursor := { c with depth := c.depth + 1 }

variable {c c' c'' : Cursor} {ts us : List Token}

@[simp] theorem depth_deeper (c : Cursor) : c.deeper.depth = c.depth + 1 := rfl

@[simp] theorem rest_deeper (c : Cursor) : c.deeper.rest = c.rest := rfl

theorem Reads.refl (c : Cursor) : Reads c [] c := ⟨rfl, rfl, rfl, rfl, rfl⟩

theorem Reads.trans (h : Reads c ts c') (h' : Reads c' us c'') : Reads c (ts ++ us) c'' where
  rest := by rw [h.rest, h'.rest, List.append_assoc]
  previous := by
    rw [h'.previous, h.previous, List.getLast?_append]
    cases us.getLast? <;> rfl
  ending := h'.ending.trans h.ending
  depth := h'.depth.trans h.depth
  report := h'.report.trans h.report

theorem Reads.closed (h : Reads c ts c') (hc : c.Closed) : c'.Closed := by
  rw [Closed, h.ending]
  exact hc

theorem Reads.length (h : Reads c ts c') : c.rest.length = ts.length + c'.rest.length := by
  rw [h.rest, List.length_append]

theorem Reads.length_lt (h : c.Reads ts c') (hts : ts ≠ []) :
    c'.rest.length < c.rest.length := by
  have hpos := List.length_pos_iff.mpr hts
  rw [h.length]
  omega

theorem Reads.length_cons {t : Token} (h : c.Reads (t :: ts) c') :
    c'.rest.length < c.rest.length := h.length_lt (List.cons_ne_nil t ts)

theorem Reads.length_le (h : c.Reads ts c') : c'.rest.length ≤ c.rest.length := by
  rw [h.length]
  exact Nat.le_add_left _ _

theorem Reads.previous_concat {t : Token} (h : Reads c (ts ++ [t]) c') : c'.previous = t := by
  simpa using h.previous

/-- Only the number of the next node has changed. -/
theorem Reads.fresh (c : Cursor) : Reads c [] { c with nextId := c.nextId + 1 } :=
  ⟨rfl, rfl, rfl, rfl, rfl⟩

theorem current_of_rest {t : Token} {rest : List Token} (h : c.rest = t :: rest) :
    c.current = t := by
  rw [current, h]
  rfl

theorem kind_of_rest {t : Token} {rest : List Token} (h : c.rest = t :: rest) :
    c.kind = t.kind := by
  rw [kind, current_of_rest h]

theorem advance_of_rest {t : Token} {rest : List Token} (h : c.rest = t :: rest) :
    c.advance = { c with previous := t, rest := rest } := by
  rw [advance]
  split
  next hnil => rw [h] at hnil; cases hnil
  next hcons =>
    rw [h] at hcons
    cases hcons
    rfl

theorem ending_advance (c : Cursor) : c.advance.ending = c.ending := by
  rw [advance]
  split <;> rfl

theorem report_advance (c : Cursor) : c.advance.report = c.report := by
  rw [advance]
  split <;> rfl

theorem exists_rest (hc : c.Closed) (hk : c.kind ≠ .endOfInput) :
    ∃ rest, c.rest = c.current :: rest := by
  cases hrest : c.rest with
  | nil =>
      rw [kind, current, hrest] at hk
      exact absurd hc hk
  | cons t rest => exact ⟨rest, by rw [current_of_rest hrest]⟩

theorem reads_of_rest {t : Token} {rest : List Token} (h : c.rest = t :: rest) :
    Reads c [t] c.advance := by
  rw [advance_of_rest h]
  exact ⟨h, rfl, rfl, rfl, rfl⟩

theorem reads_advance (hc : c.Closed) (hk : c.kind ≠ .endOfInput) :
    Reads c [c.current] c.advance := by
  obtain ⟨rest, hrest⟩ := exists_rest hc hk
  exact reads_of_rest hrest

theorem reads_advanceBy (n : Nat) (c : Cursor) (hn : n ≤ c.rest.length) :
    Reads c (c.rest.take n) (Parser.advanceBy n c) := by
  induction n generalizing c with
  | zero => exact Reads.refl c
  | succ n ih =>
      cases hrest : c.rest with
      | nil => simp [hrest] at hn
      | cons t rest =>
          have hstep := reads_of_rest hrest
          have hlen := hstep.length
          have htail : c.advance.rest = rest := by rw [advance_of_rest hrest]
          have hmore := ih c.advance (by simp only [List.length_singleton] at hlen; omega)
          rw [htail] at hmore
          exact hstep.trans hmore

section OfTokens

variable {tokens : List Token} (hend : ∀ t ∈ tokens.dropLast, t.kind ≠ .endOfInput)

theorem closed_ofTokens (tokens : List Token) : (ofTokens tokens).Closed := by
  rw [ofTokens, Closed]
  cases hlast : tokens.getLast? with
  | none => rfl
  | some last =>
      dsimp only
      split
      next hkind => exact hkind
      next => rfl

theorem depth_ofTokens (tokens : List Token) : (ofTokens tokens).depth = 0 := rfl

theorem report_ofTokens (tokens : List Token) : (ofTokens tokens).report = [] := rfl

include hend

theorem rest_ofTokens : (ofTokens tokens).rest = sentence tokens := by
  rw [ofTokens, sentence]
  rcases tokens.eq_nil_or_concat with rfl | ⟨front, last, rfl⟩
  · rfl
  · rw [List.concat_eq_append] at *
    rw [List.dropLast_concat] at hend
    have hfront : front.filter (·.kind ≠ .endOfInput) = front :=
      List.filter_eq_self.mpr fun t ht => by simpa using hend t ht
    rw [List.getLast?_concat, List.filter_append, hfront]
    by_cases hkind : last.kind = .endOfInput <;> simp [hkind]

end OfTokens

/-- Among tokens without an end of input the end is reached where nothing is left. -/
theorem rest_eq_nil_of_atEnd (h : ∀ t ∈ c.rest, t.kind ≠ .endOfInput) (hend : c.atEnd = true) :
    c.rest = [] := by
  cases hrest : c.rest with
  | nil => rfl
  | cons t rest =>
      rw [atEnd, kind_of_rest hrest, decide_eq_true_eq] at hend
      exact absurd hend (h t (hrest ▸ List.mem_cons_self))

end Cursor

/-- Reading ended behind some tokens with a value of which `Q` holds, or with one more remark. -/
def Outcome.Sound {α : Type} (c : Cursor) (Q : α → List Token → Cursor → Prop) :
    Outcome α → Prop
  | .done a c' => ∃ ts, c.Reads ts c' ∧ Q a ts c'
  | .failed c' => c'.ending = c.ending ∧ ∃ d, c'.report = c.report ++ [d]

namespace Parser

variable {α β : Type} {c c' : Cursor} {ts : List Token}

theorem pure_bind (a : α) (f : α → Parser β) (c : Cursor) :
    ((pure a : Parser α) >>= f) c = f a c := rfl

theorem here_bind (f : Cursor → Parser β) (c : Cursor) : (here >>= f) c = f c c := rfl

theorem hereSpan_bind (f : Span → Parser β) (c : Cursor) :
    (hereSpan >>= f) c = f c.current.span c := rfl

theorem spanFrom_bind (start : Span) (f : Span → Parser β) (c : Cursor) :
    (spanFrom start >>= f) c = f (start.merge c.previous.span) c := rfl

theorem take_bind (f : Token → Parser β) (c : Cursor) :
    (take >>= f) c = f c.current c.advance := rfl

theorem freshId_bind (f : NodeId → Parser β) (c : Cursor) :
    (freshId >>= f) c = f c.nextId { c with nextId := c.nextId + 1 } := rfl

theorem node_bind (span : Span) (f : Node → Parser β) (c : Cursor) :
    (node span >>= f) c = f ⟨c.nextId, span⟩ { c with nextId := c.nextId + 1 } := rfl

theorem bind_of_done {p : Parser α} {a : α} (h : p c = .done a c') (f : α → Parser β) :
    (p >>= f) c = f a c' := by
  change (match p c with
    | .done a c => f a c
    | .failed c => .failed c) = _
  rw [h]

theorem bind_of_failed {p : Parser α} (h : p c = .failed c') (f : α → Parser β) :
    (p >>= f) c = .failed c' := by
  change (match p c with
    | .done a c => f a c
    | .failed c => .failed c) = _
  rw [h]

theorem accept_bind (kind : TokenKind) (f : Bool → Parser β) (c : Cursor) :
    (accept kind >>= f) c = if c.kind = kind then f true c.advance else f false c := by
  by_cases h : c.kind = kind
  · rw [bind_of_done (by rw [accept, if_pos h]), if_pos h]
  · rw [bind_of_done (by rw [accept, if_neg h]), if_neg h]

theorem expect_bind {kind : TokenKind} (context : String) (f : Span → Parser β)
    (h : c.kind = kind) : (expect kind context >>= f) c = f c.current.span c.advance :=
  bind_of_done (by rw [expect, if_pos h]) f

end Parser

namespace Outcome.Sound

open KernelWeaver.Snippet.Parser

variable {α β : Type} {c c' : Cursor} {ts : List Token}
  {Q : α → List Token → Cursor → Prop} {R : β → List Token → Cursor → Prop}

theorem pure {a : α} (h : Q a [] c) : ((Pure.pure a : Parser α) c).Sound c Q :=
  ⟨[], .refl c, h⟩

theorem fail (message : String) : ((Parser.fail message : Parser α) c).Sound c Q :=
  ⟨rfl, _, rfl⟩

theorem imp {o : Outcome α} {Q' : α → List Token → Cursor → Prop} (h : o.Sound c Q)
    (himp : ∀ a ts c', c.Reads ts c' → Q a ts c' → Q' a ts c') : o.Sound c Q' := by
  cases o with
  | done a c' =>
      obtain ⟨ts, hr, hq⟩ := h
      exact ⟨ts, hr, himp a ts c' hr hq⟩
  | failed c' => exact h

/-- Reading that goes on behind tokens already read. -/
theorem after {o : Outcome α} (hr : c.Reads ts c')
    (h : o.Sound c' fun a us c'' => Q a (ts ++ us) c'') : o.Sound c Q := by
  cases o with
  | done a c'' =>
      obtain ⟨us, hr', hq⟩ := h
      exact ⟨ts ++ us, hr.trans hr', hq⟩
  | failed c'' =>
      obtain ⟨hending, d, hd⟩ := h
      exact ⟨hending.trans hr.ending, d, by rw [hd, hr.report]⟩

/-- Reading one thing after another. -/
theorem bind {p : Parser α} {f : α → Parser β} (hp : (p c).Sound c Q)
    (hf : ∀ a ts c', c.Reads ts c' → Q a ts c' →
      (f a c').Sound c' fun b us c'' => R b (ts ++ us) c'') :
    ((p >>= f) c).Sound c R := by
  cases hrun : p c with
  | done a c' =>
      rw [hrun] at hp
      obtain ⟨ts, hr, hq⟩ := hp
      rw [bind_of_done hrun]
      exact (hf a ts c' hr hq).after hr
  | failed c' =>
      rw [hrun] at hp
      rw [bind_of_failed hrun]
      exact hp

/-- Taking a token that is not the end of input. -/
theorem take {f : Token → Parser β} (hc : c.Closed) (hk : c.kind ≠ .endOfInput)
    (h : c.Reads [c.current] c.advance →
      (f c.current c.advance).Sound c.advance fun b us c'' => R b (c.current :: us) c'') :
    ((Parser.take >>= f) c).Sound c R :=
  (h (Cursor.reads_advance hc hk)).after (Cursor.reads_advance hc hk)

theorem accept {kind : TokenKind} {f : Bool → Parser β} (hc : c.Closed)
    (hk : kind ≠ .endOfInput)
    (hyes : c.kind = kind → c.Reads [c.current] c.advance →
      (f true c.advance).Sound c.advance fun b us c'' => R b (c.current :: us) c'')
    (hno : c.kind ≠ kind → (f false c).Sound c R) : ((Parser.accept kind >>= f) c).Sound c R := by
  rw [accept_bind]
  split
  next heq =>
    have hr := Cursor.reads_advance hc (heq ▸ hk)
    exact (hyes heq hr).after hr
  next hne => exact hno hne

theorem expect {kind : TokenKind} {context : String} {f : Span → Parser β} (hc : c.Closed)
    (hk : kind ≠ .endOfInput)
    (h : c.kind = kind → c.Reads [c.current] c.advance →
      (f c.current.span c.advance).Sound c.advance fun b us c'' => R b (c.current :: us) c'') :
    ((Parser.expect kind context >>= f) c).Sound c R := by
  by_cases heq : c.kind = kind
  · have hr := Cursor.reads_advance hc (heq ▸ hk)
    rw [expect_bind context f heq]
    exact (h heq hr).after hr
  · rw [bind_of_failed (by rw [Parser.expect, if_neg heq])]
    exact ⟨rfl, _, rfl⟩

theorem node {span : Span} {f : Node → Parser β}
    (h : (f ⟨c.nextId, span⟩ { c with nextId := c.nextId + 1 }).Sound
      { c with nextId := c.nextId + 1 } R) : ((Parser.node span >>= f) c).Sound c R := by
  rw [node_bind]
  exact h.after (.fresh c)

/-- Reading a nested form is sound if reading the form one level deeper is. -/
theorem nested {p : Parser α}
    (h : c.depth + 1 ≤ maxDepth → (p c.deeper).Sound c.deeper Q)
    (hQ : ∀ a ts c', Q a ts c' → Q a ts { c' with depth := c'.depth - 1 }) :
    (Parser.nested p c).Sound c Q := by
  rw [Parser.nested]
  split
  next => exact ⟨rfl, _, rfl⟩
  next hdepth =>
    have hp := h (Nat.le_of_not_lt hdepth)
    rw [Cursor.deeper] at hp
    split
    next a c' hrun =>
      rw [hrun] at hp
      obtain ⟨ts, hr, hq⟩ := hp
      refine ⟨ts, ⟨hr.rest, hr.previous, hr.ending, ?_, hr.report⟩, hQ a ts c' hq⟩
      change c'.depth - 1 = c.depth
      rw [hr.depth]
      rfl
    next c' hrun =>
      rw [hrun] at hp
      exact hp

end Outcome.Sound

namespace Parser

variable {c : Cursor}

theorem specifierWords_eq (ts : List Token) :
    specifierWords ts =
      (((ts.takeWhile (·.kind.startsType)).filter (·.kind = .typeSpecifier)).map Token.lexeme,
        (ts.takeWhile (·.kind.startsType)).any (·.kind = .typeQualifier),
        (ts.takeWhile (·.kind.startsType)).length) := by
  induction ts with
  | nil => rfl
  | cons t ts ih =>
      rw [specifierWords, ih]
      cases hk : t.kind <;> simp [TokenKind.startsType, hk]

end Parser

end KernelWeaver.Snippet
