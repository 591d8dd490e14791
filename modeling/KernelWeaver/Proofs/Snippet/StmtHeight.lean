import KernelWeaver.Proofs.Snippet.Height
import KernelWeaver.Proofs.Snippet.StmtReading

/-!
# The height of trees in statements

Every expression in a statement is one that was read by itself. So what holds of each expression that
is read holds of all that a list of items has in it, whatever was wrong with the other items.
-/

namespace KernelWeaver.Snippet

open KernelWeaver.Snippet.Parser

namespace Stmt

variable (P : Expr → Prop)

mutual

/-- The property holds of each whole expression in the statement. -/
def Each : Stmt → Prop
  | .expr _ value => ∀ e ∈ value, P e
  | block _ items => EachOfItems items
  | declare _ _ names => ∀ d ∈ names, ∀ e ∈ d.init, P e
  | ifElse _ test yes no => P test ∧ yes.Each ∧ EachOfOption no
  | whileLoop _ test body | switch _ test body | doLoop _ body test => P test ∧ body.Each
  | forLoop _ init test step body =>
    EachOfOption init ∧ (∀ e ∈ test, P e) ∧ (∀ e ∈ step, P e) ∧ body.Each
  | caseLabel _ value body => P value ∧ body.Each
  | defaultLabel _ body | eachSynapse _ body => body.Each
  | breakLoop _ | continueLoop _ => True
  | print _ value => P value

/-- The property holds of each whole expression in a statement that may be left out. -/
def EachOfOption : Option Stmt → Prop
  | none => True
  | some s => s.Each

/-- The property holds of each whole expression in several statements. -/
def EachOfItems : List Stmt → Prop
  | [] => True
  | s :: ss => s.Each ∧ EachOfItems ss

end

end Stmt

namespace Parser

variable {α β : Type} {Q : α → Prop} {R : β → Prop} {P : Expr → Prop}

/-- The property holds of whatever is read. -/
def Gives (p : Parser α) (Q : α → Prop) : Prop :=
  ∀ c a c', c.Closed → p c = .done a c' → Q a

namespace Gives

theorem pure {a : α} (h : Q a) : Gives (Pure.pure a) Q := by
  rintro c _ _ - ⟨⟩
  exact h

theorem fail (message : String) : Gives (Parser.fail message) Q := by
  rintro c a c' - ⟨⟩

theorem stop : Gives Parser.stop Q := by
  rintro c a c' - ⟨⟩

/-- One thing is read after another. -/
theorem bind {p : Parser α} {f : α → Parser β} [KeepsReport p] (hp : Gives p Q)
    (hf : ∀ a, Q a → Gives (f a) R) : Gives (p >>= f) R := by
  intro c b c'' hc h
  have hclosed := KeepsReport.closed (p := p) hc
  cases hrun : p c with
  | done a c' =>
      rw [hrun] at hclosed
      rw [bind_of_done hrun] at h
      exact hf a (hp c a c' hc hrun) c' b c'' hclosed h
  | failed c' =>
      rw [bind_of_failed hrun] at h
      cases h

/-- Nothing needs to be known of what is read first. -/
theorem skip {p : Parser α} {f : α → Parser β} [KeepsReport p] (hf : ∀ a, Gives (f a) R) :
    Gives (p >>= f) R :=
  .bind (Q := fun _ => True) (fun _ _ _ _ _ => trivial) fun a _ => hf a

theorem map {p : Parser α} {f : α → β} [KeepsReport p] (hp : Gives p Q)
    (hf : ∀ a, Q a → R (f a)) : Gives (f <$> p) R :=
  .bind hp fun a ha => .pure (hf a ha)

theorem nested {p : Parser α} (hp : Gives p Q) : Gives (nested p) Q := by
  intro c a c' hc h
  rw [Parser.nested] at h
  dsimp only at h
  split at h
  next => cases h
  next =>
    split at h
    next hrun =>
      cases h
      exact hp c.deeper _ _ hc hrun
    next => cases h

end Gives

section Statements

variable (hP : Gives expression P)
include hP

theorem gives_value : Gives (some <$> expression) fun value => ∀ e ∈ value, P e :=
  hP.map fun e he => by simpa using he

theorem gives_declarators (n : Nat) :
    Gives (declarators n) fun names => ∀ d ∈ names, ∀ e ∈ d.init, P e := by
  induction n with
  | zero => exact .stop
  | succ n ih =>
      rw [declarators]
      refine .skip fun start => .skip fun pointer => .skip fun name => .skip fun equal => ?_
      have hmore : ∀ init : Option Expr, (∀ e ∈ init, P e) → Gives (do
          let span ← spanFrom start
          let declarator : Declarator := { id := ← freshId, name, pointer, init, span }
          if ← accept .comma then return declarator :: (← declarators n)
          else return [declarator] : Parser (List Declarator))
          fun names => ∀ d ∈ names, ∀ e ∈ d.init, P e := by
        intro init hinit
        refine .skip fun span => .skip fun id => .skip fun comma => ?_
        cases comma with
        | false => exact .pure (by simpa using hinit)
        | true => exact .bind ih fun names hnames => .pure (List.forall_mem_cons.mpr ⟨hinit, hnames⟩)
      cases equal with
      | false => exact hmore none (by simp)
      | true => exact .bind (gives_value hP) hmore

theorem gives_declaration : Gives declaration (Stmt.Each P) := by
  rw [declaration]
  refine .skip fun start => .skip fun type => .skip fun next => ?_
  exact .bind (gives_declarators hP _) fun names hnames => .skip fun _ => .skip fun span =>
    .pure hnames

theorem gives_exprStatement : Gives exprStatement (Stmt.Each P) := by
  rw [exprStatement]
  refine .skip fun start => .skip fun semicolon => ?_
  cases semicolon with
  | true => exact .pure (by simp [Stmt.Each])
  | false =>
      refine .bind hP fun value hvalue => .skip fun _ => .skip fun span => .pure ?_
      simpa [Stmt.Each] using hvalue

theorem gives_condition (keyword : String) : Gives (condition keyword) P := by
  rw [condition]
  exact .skip fun _ => .bind hP fun value hvalue => .skip fun _ => .pure hvalue

theorem gives_forInit : Gives forInit (Stmt.EachOfOption P) := by
  rw [forInit]
  refine .skip fun next => ?_
  dsimp only
  split
  next => exact .skip fun _ => .pure trivial
  next =>
    split
    next => exact (gives_declaration hP).map fun s hs => hs
    next => exact (gives_exprStatement hP).map fun s hs => hs

theorem gives_optionalBefore (kind : TokenKind) :
    Gives (optionalBefore kind) fun value => ∀ e ∈ value, P e := by
  rw [optionalBefore]
  refine .skip fun next => ?_
  split
  next => exact .pure (by simp)
  next => exact gives_value hP

/-- The property holds of each expression in statements that are read with `n` steps at most. -/
structure GivesWithin (P : Expr → Prop) (n : Nat) : Prop where
  blockItem : Gives (blockItem n) (Stmt.Each P)
  statement : Gives (statement n) (Stmt.Each P)
  bareStatement : Gives (bareStatement n) (Stmt.Each P)
  items (inBlock : Bool) (c : Cursor) : c.Closed → Stmt.EachOfItems P (items n inBlock c).1

namespace GivesWithin

variable {n : Nat} (ih : GivesWithin P n)
include ih

omit hP in
theorem items_succ (inBlock : Bool) {c : Cursor} (hc : c.Closed) :
    Stmt.EachOfItems P (Parser.items (n + 1) inBlock c).1 := by
  have hclosed := KeepsReport.closed (p := Parser.blockItem n) hc
  rw [Parser.items]
  split
  next => exact trivial
  next =>
    cases hrun : Parser.blockItem n c with
    | done s c' =>
        rw [hrun] at hclosed
        exact ⟨ih.blockItem c s c' hc hrun, ih.items inBlock c' hclosed⟩
    | failed c' =>
        rw [hrun] at hclosed
        exact ih.items inBlock c'.resume (closed_resume hclosed)

theorem bareStatement_succ : Gives (Parser.bareStatement (n + 1)) (Stmt.Each P) := by
  have hbody : Gives (fun c => .done (Parser.items n true c).1 (Parser.items n true c).2)
      (Stmt.EachOfItems P) := by
    rintro c _ _ hc ⟨⟩
    exact ih.items true c hc
  -- items are read with nothing to give up, so reading them is no reader that has an instance
  have hkeeps : KeepsReport fun c =>
      .done (Parser.items n true c).1 (Parser.items n true c).2 :=
    ⟨fun {c} hc => ((keepsReportWithin n).items true c hc).1,
      fun {c} hc => ((keepsReportWithin n).items true c hc).2⟩
  rw [Parser.bareStatement]
  refine .skip fun start => .skip fun next => ?_
  cases next.kind with
  | leftBrace =>
      exact .skip fun _ => .bind hbody fun items hitems => .skip fun _ => .skip fun span =>
        .pure hitems
  | ifWord =>
      refine .skip fun _ => .bind (gives_condition hP _) fun test htest => ?_
      refine .bind ih.statement fun yes hyes => .skip fun elseWord => ?_
      cases elseWord with
      | false =>
          refine .bind (Q := Stmt.EachOfOption P) (.pure trivial) fun no hno => ?_
          exact .skip fun span => .pure ⟨htest, hyes, hno⟩
      | true =>
          refine .bind (ih.statement.map (R := Stmt.EachOfOption P) fun s hs => hs) fun no hno => ?_
          exact .skip fun span => .pure ⟨htest, hyes, hno⟩
  | whileWord | switchWord =>
      refine .skip fun _ => .bind (gives_condition hP _) fun test htest => ?_
      exact .bind ih.statement fun body hbody => .skip fun span => .pure ⟨htest, hbody⟩
  | doWord =>
      refine .skip fun _ => .bind ih.statement fun body hbody => .skip fun _ => ?_
      refine .bind (gives_condition hP _) fun test htest => .skip fun _ => ?_
      exact .skip fun span => .pure ⟨htest, hbody⟩
  | forWord =>
      refine .skip fun _ => .skip fun _ => .bind (gives_forInit hP) fun init hinit => ?_
      refine .bind (gives_optionalBefore hP _) fun test htest => .skip fun _ => ?_
      refine .bind (gives_optionalBefore hP _) fun step hstep => .skip fun _ => ?_
      refine .bind ih.statement fun body hbody => .skip fun span => .pure ?_
      exact ⟨hinit, htest, hstep, hbody⟩
  | caseWord =>
      refine .skip fun _ => .bind hP fun value hvalue => .skip fun _ => ?_
      exact .bind ih.statement fun body hbody => .skip fun span => .pure ⟨hvalue, hbody⟩
  | defaultWord =>
      refine .skip fun _ => .skip fun _ => .bind ih.statement fun body hbody => ?_
      exact .skip fun span => .pure hbody
  | breakWord | continueWord =>
      exact .skip fun _ => .skip fun _ => .skip fun span => .pure trivial
  | printWord =>
      refine .skip fun _ => .bind hP fun value hvalue => .skip fun _ => ?_
      exact .skip fun span => .pure hvalue
  | forEachSynapse =>
      refine .skip fun _ => .bind ih.statement fun body hbody => .skip fun span => .pure hbody
  | typeSpecifier | typeQualifier => exact .fail _
  | _ => exact gives_exprStatement hP

theorem succ : GivesWithin P (n + 1) where
  blockItem := by
    rw [Parser.blockItem]
    refine .skip fun next => ?_
    split
    next => exact gives_declaration hP
    next => exact ih.statement
  statement := by
    rw [Parser.statement]
    exact ih.bareStatement.nested
  bareStatement := ih.bareStatement_succ hP
  items inBlock _ hc := ih.items_succ inBlock hc

end GivesWithin

/-- What holds of each expression that is read holds of each expression in statements. -/
theorem givesWithin (n : Nat) : GivesWithin P n := by
  induction n with
  | zero =>
      exact {
        blockItem := .stop
        statement := .stop
        bareStatement := .stop
        items := fun _ _ _ => trivial }
  | succ n ih => exact ih.succ hP

end Statements

end Parser

/-- Every tree in the items that are read is no higher than the limit on nesting allows for, but for
its chains, whatever errors there are. -/
theorem height_le_of_parseItems (tokens : List Token) :
    Stmt.EachOfItems (fun e => e.height ≤ e.chain + accountedHeight) (parseItems tokens).1 := by
  have hexpression : Gives expression fun e => e.height ≤ e.chain + accountedHeight :=
    fun _ _ _ hc h => height_le_of_expression hc h
  exact (givesWithin hexpression (itemSteps (Cursor.ofTokens tokens).rest.length)).items false
    (.ofTokens tokens) (Cursor.closed_ofTokens tokens)

end KernelWeaver.Snippet
