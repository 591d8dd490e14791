import KernelWeaver.Proofs.Printing.ReadBack
import KernelWeaver.Proofs.Typing.Derivation
import KernelWeaver.Proofs.Typing.Synthesis

/-!
# Reading printed expressions with code for their names

Where names stand for operands, and names of constants for literals that may have a sign, the text
of a checked expression is read as the expression with these in the place of the names.
-/

namespace KernelWeaver.Printing

open Code Snippet Snippet.Lexer Typing

variable {aliases : Aliases} {types : NodeTypes} {names : String → Option (List CType)}
  {replacement : Node → String → Expr} {P : Span → List Token → Prop}

/-- Tokens, each of the form of its kind, spell the phrase. -/
def Spelled (aliases : Aliases) (phrase : Phrase) : Prop :=
  ∃ ts, Derives Anywhere phrase ts ∧ ∀ t ∈ ts, t.Formed aliases

/-- What may take the place of a name that is bound to these types: a literal with a sign only for a
constant number, and otherwise what can be subscripted, called and stepped. -/
inductive StandsFor (aliases : Aliases) (types : NodeTypes) (bound : Option (List CType))
    (e : Expr) : Prop where
  | constant {n : Numeric} (isBound : bound = some [.value n true])
      (spelled : Spelled aliases (.expr .unary e)) (readable : Readable types e.parts)
      (begins : ¬ ['&'] <+: (plainText types e).toList)
  | operand (spelled : Spelled aliases (.expr .suffixed e)) (readable : Readable types e.parts)
      (assignable : ∀ t, bound = some [t] → t.isConst = false → e.isAssignable = true)

/-- Whether the expression is a single token. -/
def isAtom : Expr → Bool
  | .number .. | .bool .. | .string .. | .name .. => true
  | _ => false

theorem readable_of_isAtom {parts : List Expr} (h : ∀ e ∈ parts, isAtom e = true) :
    Readable types parts where
  callees _ _ _ hmem := by cases h _ hmem
  signs _ _ _ hmem := by cases h _ hmem
  addresses _ _ hmem := by cases h _ hmem
  casts _ _ _ hmem := by cases h _ hmem

/-- A name can stand for any name. -/
theorem standsFor_name {bound : Option (List CType)} (node : Node) {name : String}
    (h : IsText aliases .identifier name.toList) :
    StandsFor aliases types bound (.name node name) := by
  let t : Token := ⟨.identifier, name, default⟩
  have hprimary : Derives Anywhere (.expr .primary (.name node t.lexeme)) [t] :=
    .name rfl trivial
  have hformed : ∀ u ∈ [t], u.Formed aliases := List.forall_mem_singleton.mpr (.inr h)
  exact .operand ⟨[t], .ofPrimary hprimary, hformed⟩
    (readable_of_isAtom (List.forall_mem_singleton.mpr rfl)) fun _ _ _ => rfl

/-- How the expansion of an expression of the level and the type can be spelled: in the place of an
operand as one, or as a constant with a sign. -/
def SpelledAt (aliases : Aliases) (replacement : Node → String → Expr) (e : Expr) (t : CType) :
    Level → Prop
  | .primary | .suffixed => Spelled aliases (.expr .suffixed (e.expand replacement)) ∨
      (∃ n, t = .value n true) ∧ Spelled aliases (.expr .unary (e.expand replacement))
  | level => Spelled aliases (.expr level (e.expand replacement))

/-- The expansion of a phrase that has types can be spelled. -/
def Expands (aliases : Aliases) (names : String → Option (List CType))
    (replacement : Node → String → Expr) : Phrase → Prop
  | .expr level e => Expr.CallsNames e.parts → ∀ t, typeOf? aliases names e = some t →
      SpelledAt aliases replacement e t level
  | .arguments es => Expr.CallsNames (Expr.partsOfAll es) →
      ∀ ts, typesOfAll? aliases names es = some ts →
      Spelled aliases (.arguments (Expr.expandAll replacement es))

/-- What is assigned to can be assigned to with code for its names. -/
theorem isAssignable_expand
    (hstands : ∀ node name, (names name).isSome = true →
      StandsFor aliases types (names name) (replacement node name)) :
    ∀ (e : Expr) {t : CType}, e.isAssignable = true → typeOf? aliases names e = some t →
      t.isConst = false → (e.expand replacement).isAssignable = true
  | .name node name, t, _, htype, hconst => by
      obtain ⟨bound, hbound, hsole⟩ := Option.bind_eq_some_iff.mp htype
      have hone : names name = some [t] := by
        rw [hbound, eq_of_sole? hsole]
      cases hstands node name (Option.isSome_of_eq_some hbound) with
      | constant isBound =>
          rw [hone] at isBound
          cases isBound
          cases hconst
      | operand _ _ assignable => exact assignable t hone hconst
  | .group _ inner, _, hassignable, htype, hconst =>
      isAssignable_expand hstands inner hassignable htype hconst
  | .unary _ op _, _, hassignable, _, _ => by
      cases op with
      | deref => rfl
      | _ => cases hassignable
  | .subscript .., _, _, _, _ => rfl

/-- What is called stands for an operand. -/
theorem spelled_callee
    (hstands : ∀ node name, (names name).isSome = true →
      StandsFor aliases types (names name) (replacement node name)) {node calleeNode : Node}
    {name : String} {args : List Expr} {t : CType}
    (htype : typeOf? aliases names (.call node (.name calleeNode name) args) = some t) :
    Spelled aliases (.expr .suffixed (replacement calleeNode name)) := by
  rw [typeOf?_call] at htype
  obtain ⟨choices, hbound, htype⟩ := Option.bind_eq_some_iff.mp htype
  obtain ⟨ts, -, htype⟩ := Option.bind_eq_some_iff.mp htype
  obtain ⟨chosen, hchosen, -⟩ := Option.map_eq_some_iff.mp htype
  obtain ⟨hmem, score, hscore⟩ := of_chooseCall? hchosen
  cases hstands calleeNode name (Option.isSome_of_eq_some hbound) with
  | constant isBound =>
      rw [choicesOf?] at hbound
      rw [hbound] at isBound
      cases isBound
      rw [List.mem_singleton.mp hmem] at hscore
      cases hscore
  | operand spelled => exact spelled

/-- The expansion of a phrase that tokens spell can be spelled. -/
theorem expands
    (hstands : ∀ node name, (names name).isSome = true →
      StandsFor aliases types (names name) (replacement node name)) {phrase : Phrase}
    {ts : List Token} (h : Derives P phrase ts) (hts : ∀ t ∈ ts, t.Formed aliases) :
    Expands aliases names replacement phrase := by
  induction h with
  | number hk _ => exact fun _ _ _ => .inl ⟨_, .ofPrimary (.number hk trivial), hts⟩
  | trueWord hk _ => exact fun _ _ _ => .inl ⟨_, .ofPrimary (.trueWord hk trivial), hts⟩
  | falseWord hk _ => exact fun _ _ _ => .inl ⟨_, .ofPrimary (.falseWord hk trivial), hts⟩
  | string hk _ => exact fun _ _ _ => .inl ⟨_, .ofPrimary (.string hk trivial), hts⟩
  | @name node t _ _ =>
      intro _ s htype
      obtain ⟨bound, hbound, hsole⟩ := Option.bind_eq_some_iff.mp htype
      cases hstands node t.lexeme (Option.isSome_of_eq_some hbound) with
      | @constant n isBound spelled =>
          rw [hbound, eq_of_sole? hsole] at isBound
          cases isBound
          exact .inr ⟨⟨n, rfl⟩, spelled⟩
      | operand spelled => exact .inl spelled
  | group hleft _ hright _ ih =>
      intro hcalls s htype
      rw [List.cons_append, List.forall_mem_cons, List.forall_mem_append] at hts
      obtain ⟨us, hus, hformed⟩ := ih hts.2.1 hcalls.tail s htype
      refine .inl ⟨_, .ofPrimary (.group hleft hus hright trivial), ?_⟩
      rw [List.cons_append, List.forall_mem_cons, List.forall_mem_append]
      exact ⟨hts.1, hformed, hts.2.2⟩
  | ofPrimary _ ih => exact ih hts
  | subscript _ hleft _ hright _ iha ihi =>
      intro hcalls s htype
      rw [List.append_assoc, List.cons_append, List.forall_mem_append, List.forall_mem_cons,
        List.forall_mem_append] at hts
      obtain ⟨a, ha, htype⟩ := Option.bind_eq_some_iff.mp htype
      obtain ⟨i, hi, htype⟩ := Option.bind_eq_some_iff.mp htype
      obtain ⟨vs, hvs, hformed'⟩ := ihi hts.2.2.1 hcalls.tail.right i hi
      rcases iha hts.1 hcalls.tail.left a ha with ⟨us, hus, hformed⟩ | ⟨⟨n, rfl⟩, -⟩
      · refine .inl ⟨_, .subscript hus hleft hvs hright trivial, ?_⟩
        rw [List.append_assoc, List.cons_append, List.forall_mem_append, List.forall_mem_cons,
          List.forall_mem_append]
        exact ⟨hformed, hts.2.1, hformed', hts.2.2.2⟩
      · rw [subscripted?] at htype
        split at htype <;> cases htype
  | @callNone node left right ts callee _ hleft hright _ ih =>
      intro hcalls s htype
      rw [List.forall_mem_append] at hts
      obtain ⟨calleeNode, name, rfl⟩ := hcalls node callee [] List.mem_cons_self
      obtain ⟨us, hus, hformed⟩ := spelled_callee hstands htype
      refine .inl ⟨_, .callNone hus hleft hright trivial, ?_⟩
      exact List.forall_mem_append.mpr ⟨hformed, hts.2⟩
  | @call node left right ts us callee args _ hleft _ hright _ _ ih =>
      intro hcalls s htype
      rw [List.append_assoc, List.cons_append, List.forall_mem_append, List.forall_mem_cons,
        List.forall_mem_append] at hts
      obtain ⟨calleeNode, name, rfl⟩ := hcalls node callee args List.mem_cons_self
      obtain ⟨us, hus, hformed⟩ := spelled_callee hstands htype
      rw [typeOf?_call] at htype
      obtain ⟨choices, -, htype⟩ := Option.bind_eq_some_iff.mp htype
      obtain ⟨types, htypes, -⟩ := Option.bind_eq_some_iff.mp htype
      obtain ⟨vs, hvs, hformed'⟩ := ih hts.2.2.1 hcalls.tail.right types htypes
      refine .inl ⟨_, .call hus hleft hvs hright trivial, ?_⟩
      rw [List.append_assoc, List.cons_append, List.forall_mem_append, List.forall_mem_cons,
        List.forall_mem_append]
      exact ⟨hformed, hts.2.1, hformed', hts.2.2.2⟩
  | stepAfter _ hop _ ih =>
      intro hcalls s htype
      rw [List.forall_mem_append] at hts
      obtain ⟨t, ht, htype⟩ := Option.bind_eq_some_iff.mp htype
      rcases ih hts.1 hcalls.tail t ht with ⟨us, hus, hformed⟩ | ⟨⟨n, rfl⟩, -⟩
      · refine .inl ⟨_, .stepAfter hus hop trivial, ?_⟩
        exact List.forall_mem_append.mpr ⟨hformed, hts.2⟩
      · rw [stepped?] at htype
        split at htype
        next hsteps => cases (Bool.and_eq_true_iff.mp hsteps).2
        next => cases htype
  | lastArgument _ ih =>
      intro hcalls ss htypes
      obtain ⟨t, ht, -⟩ := Option.bind_eq_some_iff.mp htypes
      obtain ⟨us, hus, hformed⟩ := ih hts hcalls.left t ht
      exact ⟨us, .lastArgument hus, hformed⟩
  | moreArguments _ hcomma _ ihe ihs =>
      intro hcalls ss htypes
      rw [List.forall_mem_append, List.forall_mem_cons] at hts
      obtain ⟨t, ht, htypes⟩ := Option.bind_eq_some_iff.mp htypes
      obtain ⟨ts, hts', -⟩ := Option.map_eq_some_iff.mp htypes
      obtain ⟨us, hus, hformed⟩ := ihe hts.1 hcalls.left t ht
      obtain ⟨vs, hvs, hformed'⟩ := ihs hts.2.2 hcalls.right ts hts'
      refine ⟨_, .moreArguments hus hcomma hvs, ?_⟩
      rw [List.forall_mem_append, List.forall_mem_cons]
      exact ⟨hformed, hts.2.1, hformed'⟩
  | ofSuffixed _ ih =>
      intro hcalls s htype
      rcases ih hts hcalls s htype with ⟨us, hus, hformed⟩ | ⟨-, hspelled⟩
      · exact ⟨us, .ofSuffixed hus, hformed⟩
      · exact hspelled
  | stepBefore hop _ _ ih =>
      intro hcalls s htype
      rw [List.forall_mem_cons] at hts
      obtain ⟨t, ht, -⟩ := Option.bind_eq_some_iff.mp htype
      obtain ⟨us, hus, hformed⟩ := ih hts.2 hcalls.tail t ht
      exact ⟨_, .stepBefore hop hus trivial, List.forall_mem_cons.mpr ⟨hts.1, hformed⟩⟩
  | unary hop _ _ ih =>
      intro hcalls s htype
      rw [List.forall_mem_cons] at hts
      obtain ⟨t, ht, -⟩ := Option.bind_eq_some_iff.mp htype
      obtain ⟨us, hus, hformed⟩ := ih hts.2 hcalls.tail t ht
      exact ⟨_, .unary hop hus trivial, List.forall_mem_cons.mpr ⟨hts.1, hformed⟩⟩
  | cast hleft hspecifiers hpointer _ hright _ _ ih =>
      intro hcalls s htype
      rw [List.cons_append, List.forall_mem_cons, List.forall_mem_append,
        List.forall_mem_cons] at hts
      obtain ⟨_, -, htype⟩ := Option.bind_eq_some_iff.mp htype
      obtain ⟨t, ht, -⟩ := Option.bind_eq_some_iff.mp htype
      obtain ⟨us, hus, hformed⟩ := ih hts.2.2.2 hcalls.tail t ht
      refine ⟨_, .cast hleft hspecifiers hpointer trivial hright hus trivial, ?_⟩
      rw [List.cons_append, List.forall_mem_cons, List.forall_mem_append, List.forall_mem_cons]
      exact ⟨hts.1, hts.2.1, hts.2.2.1, hformed⟩
  | ofUnary _ ih =>
      intro hcalls s htype
      obtain ⟨us, hus, hformed⟩ := ih hts hcalls s htype
      exact ⟨us, .ofUnary hus, hformed⟩
  | binary hle _ hop _ _ ihl ihr =>
      intro hcalls s htype
      rw [List.forall_mem_append, List.forall_mem_cons] at hts
      obtain ⟨a, ha, htype⟩ := Option.bind_eq_some_iff.mp htype
      obtain ⟨b, hb, -⟩ := Option.bind_eq_some_iff.mp htype
      obtain ⟨us, hus, hformed⟩ := ihl hts.1 hcalls.tail.left a ha
      obtain ⟨vs, hvs, hformed'⟩ := ihr hts.2.2 hcalls.tail.right b hb
      refine ⟨_, .binary hle hus hop hvs trivial, ?_⟩
      rw [List.forall_mem_append, List.forall_mem_cons]
      exact ⟨hformed, hts.2.1, hformed'⟩
  | ofBinary _ ih =>
      intro hcalls s htype
      obtain ⟨us, hus, hformed⟩ := ih hts hcalls s htype
      exact ⟨us, .ofBinary hus, hformed⟩
  | conditional _ hquestion _ hcolon _ _ ihc ihy ihn =>
      intro hcalls s htype
      rw [List.append_assoc, List.cons_append, List.forall_mem_append, List.forall_mem_cons,
        List.forall_mem_append, List.forall_mem_cons] at hts
      obtain ⟨c, hc, htype⟩ := Option.bind_eq_some_iff.mp htype
      obtain ⟨_, -, htype⟩ := Option.bind_eq_some_iff.mp htype
      obtain ⟨a, ha, htype⟩ := Option.bind_eq_some_iff.mp htype
      obtain ⟨b, hb, -⟩ := Option.bind_eq_some_iff.mp htype
      obtain ⟨us, hus, hformed⟩ := ihc hts.1 hcalls.tail.left.left c hc
      obtain ⟨vs, hvs, hformed'⟩ := ihy hts.2.2.1 hcalls.tail.left.right a ha
      obtain ⟨ws, hws, hformed''⟩ := ihn hts.2.2.2.2 hcalls.tail.right b hb
      refine ⟨_, .conditional hus hquestion hvs hcolon hws trivial, ?_⟩
      rw [List.append_assoc, List.cons_append, List.forall_mem_append, List.forall_mem_cons,
        List.forall_mem_append, List.forall_mem_cons]
      exact ⟨hformed, hts.2.1, hformed', hts.2.2.2.1, hformed''⟩
  | ofConditional _ ih =>
      intro hcalls s htype
      obtain ⟨us, hus, hformed⟩ := ih hts hcalls s htype
      exact ⟨us, .ofConditional hus, hformed⟩
  | assign _ hassignable hop _ _ iht ihv =>
      intro hcalls s htype
      rw [List.forall_mem_append, List.forall_mem_cons] at hts
      obtain ⟨t, ht, htype⟩ := Option.bind_eq_some_iff.mp htype
      obtain ⟨v, hv, htype⟩ := Option.bind_eq_some_iff.mp htype
      obtain ⟨us, hus, hformed⟩ := iht hts.1 hcalls.tail.left t ht
      obtain ⟨vs, hvs, hformed'⟩ := ihv hts.2.2 hcalls.tail.right v hv
      have hconst : t.isConst = false := by
        unfold assigned? at htype
        split at htype
        next => cases htype
        next hconst => exact Bool.eq_false_iff.mpr hconst
      refine ⟨_, .assign hus (isAssignable_expand hstands _ hassignable ht hconst) hop hvs trivial,
        ?_⟩
      rw [List.forall_mem_append, List.forall_mem_cons]
      exact ⟨hformed, hts.2.1, hformed'⟩

end KernelWeaver.Printing
