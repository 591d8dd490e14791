import KernelWeaver.Printing.Stmt
import KernelWeaver.Proofs.Code.Ensures
import KernelWeaver.Proofs.Snippet.Occurrences
import KernelWeaver.Proofs.Snippet.Views

/-!
# Where names are printed

An expression is printed by printing its names, one after the other, and putting their texts in
their places. While statements are printed, the names that the snippet has declared are kept track
of: every expression is printed with those that are declared in its context. It is printed on what
became of the scopes around the snippet, and inside a loop over synapses with the scope of the loop
inside of these.
-/

namespace KernelWeaver.Printing

open Code Code.Emit Snippet Typing

/-- Prints a name that stands in an expression. One that is called is told from others of its name
by its type. -/
def printOccurrence (types : NodeTypes) (locals : List String) (o : Occurrence) : Emit String :=
  match o.args with
  | none => printName locals o.name none
  | some _ => calleeName types locals o.node.id o.name

section

variable (types : NodeTypes)

mutual

/-- The text of an expression in which the names have these texts, from left to right. -/
def fill : Expr → List String → String
  | .number _ lexeme _, _ | .string _ lexeme, _ => lexeme
  | .bool _ value, _ => if value then "true" else "false"
  | .name .., texts => texts.headD ""
  | .unary _ op operand, texts => op.spelling ++ fill operand texts
  | .binary _ op left right, texts =>
    let n := left.occurrences.length
    fill left (texts.take n) ++ " " ++ op.spelling ++ " " ++ fill right (texts.drop n)
  | .call _ (.name ..) args, texts => callText (texts.headD "") (fillAll args texts.tail)
  | .call _ callee args, texts =>
    let n := callee.occurrences.length
    callText (fill callee (texts.take n)) (fillAll args (texts.drop n))
  | .cast node _ operand, texts =>
    "(" ++ ((types.find? node.id).map CType.name).getD "" ++ ")" ++ fill operand texts
  | .assign _ op target value, texts =>
    let n := target.occurrences.length
    fill target (texts.take n) ++ " " ++ op.spelling ++ " " ++ fill value (texts.drop n)
  | .conditional _ condition yes no, texts =>
    let n := (condition.occurrences ++ yes.occurrences).length
    let front := texts.take n
    let k := condition.occurrences.length
    fill condition (front.take k) ++ " ? " ++ fill yes (front.drop k) ++ " : " ++
      fill no (texts.drop n)
  | .subscript _ array index, texts =>
    let n := array.occurrences.length
    fill array (texts.take n) ++ "[" ++ fill index (texts.drop n) ++ "]"
  | .group _ inner, texts => "(" ++ fill inner texts ++ ")"
  | .stepBefore _ op target, texts => op.spelling ++ fill target texts
  | .stepAfter _ op target, texts => fill target texts ++ op.spelling

/-- The texts of several expressions. -/
def fillAll : List Expr → List String → List String
  | [], _ => []
  | e :: es, texts =>
    let n := e.occurrences.length
    fill e (texts.take n) :: fillAll es (texts.drop n)

end

end

variable {types : NodeTypes} {scopes : List Scope} {locals : List String}

/-- The names have been printed with these texts. -/
def OccurrencesGiven (scopes : List Scope) (types : NodeTypes) (locals : List String)
    (os : List Occurrence) (texts : List String) : Prop :=
  List.Forall₂ (fun o text => HasGiven scopes (printOccurrence types locals o) text) os texts

theorem OccurrencesGiven.append {os more : List Occurrence} {texts rest : List String}
    (h : OccurrencesGiven scopes types locals os texts)
    (h' : OccurrencesGiven scopes types locals more rest) :
    OccurrencesGiven scopes types locals (os ++ more) (texts ++ rest) :=
  List.rel_append h h'

/-- The texts of the names on the left and on the right are told apart by their number. -/
theorem OccurrencesGiven.split {os : List Occurrence} {texts : List String}
    (h : OccurrencesGiven scopes types locals os texts) (rest : List String) :
    (texts ++ rest).take os.length = texts ∧ (texts ++ rest).drop os.length = rest :=
  ⟨List.take_left' h.length_eq.symm, List.drop_left' h.length_eq.symm⟩

/-- The expression has been printed by printing its names. -/
def Fills (scopes : List Scope) (types : NodeTypes) (locals : List String) (e : Expr)
    (text : String) : Prop :=
  ∃ texts, OccurrencesGiven scopes types locals e.occurrences texts ∧ text = fill types e texts

theorem printName_ensures (name : String) (wanted : Option CType) :
    Ensures scopes (printName locals name wanted) fun _ => True := by
  rw [printName]
  split
  next => exact .pure trivial
  next => exact resolve_ensures name wanted

theorem typeOf_ensures (id : NodeId) :
    Ensures scopes (typeOf types id) fun t => types.find? id = some t := by
  rw [typeOf]
  split
  next t ht => exact .pure ht
  next => exact .fail _

theorem printOccurrence_ensures (o : Occurrence) :
    Ensures scopes (printOccurrence types locals o) fun text =>
      HasGiven scopes (printOccurrence types locals o) text := by
  have h : Ensures scopes (printOccurrence types locals o) fun _ => True := by
    rw [printOccurrence]
    split
    next => exact printName_ensures _ _
    next => exact .next (typeOf_ensures _) fun t => printName_ensures _ _
  exact h.given.imp fun _ => And.left

mutual

/-- An expression is printed by printing its names. -/
theorem printExpr_ensures (e : Expr) :
    Ensures scopes (printExpr types locals e) (Fills scopes types locals e) := by
  cases e with
  | number node lexeme n => exact .pure ⟨[], .nil, rfl⟩
  | bool node value => exact .pure ⟨[], .nil, rfl⟩
  | string node lexeme => exact .pure ⟨[], .nil, rfl⟩
  | name node name =>
      exact (printOccurrence_ensures ⟨node, name, none⟩).imp fun text h =>
        ⟨[text], .cons h .nil, rfl⟩
  | unary node op operand =>
      refine .bind (printExpr_ensures operand) ?_
      rintro _ ⟨texts, hos, rfl⟩
      exact .pure ⟨texts, hos, rfl⟩
  | group node inner =>
      refine .bind (printExpr_ensures inner) ?_
      rintro _ ⟨texts, hos, rfl⟩
      exact .pure ⟨texts, hos, rfl⟩
  | stepBefore node op target | stepAfter node op target =>
      refine .bind (printExpr_ensures target) ?_
      rintro _ ⟨texts, hos, rfl⟩
      exact .pure ⟨texts, hos, rfl⟩
  | cast node type operand =>
      refine .bind (typeOf_ensures node.id) fun t ht => .bind (printExpr_ensures operand) ?_
      rintro _ ⟨texts, hos, rfl⟩
      refine .pure ⟨texts, hos, ?_⟩
      rw [fill, ht]
      rfl
  | binary node op left right | assign node op left right | subscript node left right =>
      refine .bind (printExpr_ensures left) ?_
      rintro _ ⟨texts, hleft, rfl⟩
      refine .bind (printExpr_ensures right) ?_
      rintro _ ⟨rest, hright, rfl⟩
      obtain ⟨htake, hdrop⟩ := hleft.split rest
      refine .pure ⟨texts ++ rest, hleft.append hright, ?_⟩
      rw [fill, htake, hdrop]
  | conditional node condition yes no =>
      refine .bind (printExpr_ensures condition) ?_
      rintro _ ⟨texts, hcondition, rfl⟩
      refine .bind (printExpr_ensures yes) ?_
      rintro _ ⟨more, hyes, rfl⟩
      refine .bind (printExpr_ensures no) ?_
      rintro _ ⟨rest, hno, rfl⟩
      obtain ⟨htake, hdrop⟩ := hcondition.split more
      obtain ⟨hfront, hback⟩ := (hcondition.append hyes).split rest
      refine .pure ⟨texts ++ more ++ rest, (hcondition.append hyes).append hno, ?_⟩
      rw [fill, hfront, hback, htake, hdrop]
  | call node callee args =>
      by_cases hname : ∃ calleeNode name, callee = .name calleeNode name
      · obtain ⟨calleeNode, name, rfl⟩ := hname
        rw [printExpr]
        refine .bind (printOccurrence_ensures ⟨calleeNode, name, some args⟩) fun text htext => ?_
        refine .bind (printAll_ensures args) ?_
        rintro _ ⟨texts, hargs, rfl⟩
        exact .pure ⟨text :: texts, .cons htext hargs, rfl⟩
      · have hother : ∀ calleeNode name, callee ≠ .name calleeNode name :=
          fun calleeNode name heq => hname ⟨calleeNode, name, heq⟩
        rw [printExpr]
        · refine .bind (printExpr_ensures callee) ?_
          rintro _ ⟨texts, hcallee, rfl⟩
          refine .bind (printAll_ensures args) ?_
          rintro _ ⟨rest, hargs, rfl⟩
          obtain ⟨htake, hdrop⟩ := hcallee.split rest
          refine .pure ⟨texts ++ rest, ?_, ?_⟩
          · rw [Expr.occurrences_call node args hother]
            exact hcallee.append hargs
          · rw [fill, htake, hdrop]
            exact hother
        · exact hother

theorem printAll_ensures (es : List Expr) :
    Ensures scopes (printAll types locals es) fun found =>
      ∃ texts, OccurrencesGiven scopes types locals (Expr.occurrencesOfAll es) texts ∧
        found = fillAll types es texts := by
  cases es with
  | nil => exact .pure ⟨[], .nil, rfl⟩
  | cons e es =>
      refine .bind (printExpr_ensures e) ?_
      rintro _ ⟨texts, he, rfl⟩
      refine .bind (printAll_ensures es) ?_
      rintro _ ⟨rest, hes, rfl⟩
      obtain ⟨htake, hdrop⟩ := he.split rest
      refine .pure ⟨texts ++ rest, he.append hes, ?_⟩
      rw [fillAll, htake, hdrop]

end

/-! ### Statements -/

/-- The expressions have been printed, each with the names that are declared where it stands. The
scopes may be others inside of a loop over synapses. -/
def ViewsPrinted (around : Bool → List Scope) (types : NodeTypes)
    (views : List (View × Expr)) : Prop :=
  ∀ v e, (v, e) ∈ views →
    ∃ text, HasGiven (around v.context.inLoop) (printExpr types v.context.declared e) text

variable {around : Bool → List Scope} {v : View} {loop : Option RowLoop}

namespace ViewsPrinted

variable {views more : List (View × Expr)}

theorem nil : ViewsPrinted around types [] := fun _ _ h => absurd h List.not_mem_nil

theorem append (h : ViewsPrinted around types views) (h' : ViewsPrinted around types more) :
    ViewsPrinted around types (views ++ more) :=
  fun v e hmem => (List.mem_append.mp hmem).elim (h v e) (h' v e)

end ViewsPrinted

theorem printView_ensures (v : View) (e : Expr) :
    Ensures (around v.context.inLoop) (printExpr types v.context.declared e) fun _ =>
      ViewsPrinted around types [(v, e)] := by
  refine (printExpr_ensures e).given.imp fun text h v' a hmem => ?_
  cases List.mem_singleton.mp hmem
  exact ⟨text, h.1⟩

theorem printOptional_ensures (v : View) (e : Option Expr) :
    Ensures (around v.context.inLoop) (printOptional types v.context.declared e) fun _ =>
      ViewsPrinted around types (Expr.viewsOfOption v e) := by
  cases e with
  | none => exact .pure .nil
  | some e => exact printView_ensures v e

theorem printDeclarator_ensures (v : View) (withBase : Bool) (d : Declarator) :
    Ensures (around v.context.inLoop) (printDeclarator types v.context.declared withBase d)
      fun found => found.2 = (v.declare d).context.declared ∧
        ViewsPrinted around types (Expr.viewsOfOption (v.declare d) d.init) := by
  rw [printDeclarator]
  split
  next => exact .fail _
  next =>
    dsimp only
    cases d.init with
    | none =>
        refine .bind (P := fun _ => True) (.pure trivial) fun init _ => ?_
        split
        next => exact .pure ⟨rfl, .nil⟩
        next => exact .pure ⟨rfl, .nil⟩
    | some e =>
        refine .bind (printView_ensures (v.declare d) e) fun text he => ?_
        refine .bind (P := fun _ => True) (.pure trivial) fun init _ => ?_
        split
        next => exact .pure ⟨rfl, he⟩
        next => exact .pure ⟨rfl, he⟩

theorem printDeclarations_ensures (v : View) (ds : List Declarator) :
    Ensures (around v.context.inLoop) (printDeclarations types v.context.declared ds) fun found =>
      found = (v.declareAll ds).context.declared ∧
        ViewsPrinted around types (Declarator.viewsOfAll v ds) := by
  induction ds generalizing v with
  | nil => exact .pure ⟨rfl, .nil⟩
  | cons d ds ih =>
      refine .bind (printDeclarator_ensures v true d) ?_
      rintro ⟨text, known⟩ ⟨rfl, hd⟩
      refine .next (.line _) fun _ => ?_
      exact (ih (v.declare d)).imp fun _ h => ⟨h.1, hd.append h.2⟩

theorem declaratorTexts_ensures (v : View) (withBase : Bool) (ds : List Declarator) :
    Ensures (around v.context.inLoop) (declaratorTexts types withBase v.context.declared ds)
      fun found => found.2 = (v.declareAll ds).context.declared ∧
        ViewsPrinted around types (Declarator.viewsOfAll v ds) := by
  induction ds generalizing v withBase with
  | nil => exact .pure ⟨rfl, .nil⟩
  | cons d ds ih =>
      refine .bind (printDeclarator_ensures v withBase d) ?_
      rintro ⟨text, known⟩ ⟨rfl, hd⟩
      refine .bind (ih (v.declare d) false) ?_
      rintro ⟨more, known⟩ ⟨rfl, hds⟩
      exact .pure ⟨rfl, hd.append hds⟩

theorem inLoop_declareAll (v : View) (ds : List Declarator) :
    (v.declareAll ds).context.inLoop = v.context.inLoop := by
  induction ds generalizing v with
  | nil => rfl
  | cons d ds ih => exact ih (v.declare d)

section

variable {Place : Span → List Token → Prop} {ts : List Token} {s body : Stmt}

/-- In the rest of a `for` the names are known that its first clause declares. -/
theorem printForInit_ensures {init : Option Stmt} (h : SpellsForInit Place init ts) (v : View) :
    Ensures (around v.context.inLoop) (printForInit types v.context.declared init) fun found =>
      (found.2 = (Stmt.viewBehindInit v init).context.declared ∧
        (Stmt.viewBehindInit v init).context.inLoop = v.context.inLoop) ∧
        ViewsPrinted around types (Stmt.viewsOfOption v init) := by
  cases h with
  | none => exact .pure ⟨⟨rfl, rfl⟩, .nil⟩
  | declaration h =>
      cases h with
      | intro =>
          refine .bind (declaratorTexts_ensures v true _) ?_
          rintro ⟨texts, known⟩ ⟨rfl, hds⟩
          exact .pure ⟨⟨rfl, inLoop_declareAll v _⟩, hds⟩
  | evaluation h =>
      cases h with
      | intro => exact .bind (printView_ensures v _) fun text he => .pure ⟨⟨rfl, rfl⟩, he⟩

theorem braced_ensures {α : Type} {scopes : List Scope} {m : Emit α} {T : Prop}
    (h : Ensures scopes m fun _ => T) : Ensures scopes (braced m) fun _ => T :=
  .next (.line _) fun _ => .bind h fun _ hT => (Ensures.line _).imp fun _ _ => hT

/-- What is ensured where a statement or items are printed. Outside of loops over synapses there may
be one, which has a scope inside of those outside. -/
def PrintedPhrase (around : Bool → List Scope) (types : NodeTypes) : StmtPhrase → Prop
  | .statement s => ∀ (v : View) (loop : Option RowLoop),
    (∀ l ∈ loop, around true = l.scope :: around v.context.inLoop) →
      Ensures (around v.context.inLoop) (printStmt types loop v.context.declared s) fun found =>
        found = v.context.declared ∧ ViewsPrinted around types (s.views v)
  | .items ss => ∀ (v : View) (loop : Option RowLoop),
    (∀ l ∈ loop, around true = l.scope :: around v.context.inLoop) →
      Ensures (around v.context.inLoop) (printStmts types loop v.context.declared ss) fun _ =>
        ViewsPrinted around types (Stmt.viewsOfItems v ss)

/-- The body of a control statement is printed as it is on its own. -/
theorem printBody_ensures (h : PrintedPhrase around types (.statement s))
    (hloop : ∀ l ∈ loop, around true = l.scope :: around v.context.inLoop) :
    Ensures (around v.context.inLoop) (printBody types loop v.context.declared s) fun _ =>
      ViewsPrinted around types (s.views v) := by
  have hstmt := (h v loop hloop).imp fun _ => And.right
  cases s with
  | block span items =>
      rw [printStmt] at hstmt
      rw [printBody]
      exact hstmt.of_bind_pure
  | _ =>
      rw [printBody]
      · exact braced_ensures hstmt
      · rintro _ _ ⟨⟩

theorem forLoop_printed {init : Option Stmt} {is : List Token} {test step : Option Expr}
    (ih : PrintedPhrase around types (.statement body)) (hinit : SpellsForInit Place init is)
    (span : Span) :
    PrintedPhrase around types (.statement (.forLoop span init test step body)) := by
  intro v loop hloop
  let inside := Stmt.viewBehindInit v init
  rw [printStmt]
  refine .bind (printForInit_ensures hinit v) ?_
  rintro ⟨text, known⟩ ⟨⟨rfl, hinLoop⟩, hfirst⟩
  rw [← hinLoop] at hloop ⊢
  refine .bind (printOptional_ensures inside test) fun _ htest => ?_
  refine .bind (printOptional_ensures inside step) fun _ hstep => .next (.line _) fun _ => ?_
  refine .bind (printBody_ensures ih hloop) fun _ hbody => .pure ⟨rfl, ?_⟩
  exact ((hfirst.append htest).append hstep).append hbody

/-- The scope of the loop is around its body, in which no other loop can stand. -/
theorem eachSynapse_printed (ih : PrintedPhrase around types (.statement body)) (span : Span) :
    PrintedPhrase around types (.statement (.eachSynapse span body)) := by
  intro v loop hloop
  cases loop with
  | none =>
      rw [printStmt]
      exact .fail _
  | some l =>
      rw [printStmt]
      have hbody := ih v.looped none fun _ h => absurd h (Option.not_mem_none _)
      exact RowLoop.emit_ensures (hloop l rfl ▸ hbody)

theorem printedPhrase {phrase : StmtPhrase} (h : DerivesStmt Place phrase ts) :
    PrintedPhrase around types phrase := by
  induction h with
  | empty hk hp =>
      intro v loop hloop
      rw [printStmt]
      exact .next (.line _) fun _ => .pure ⟨rfl, .nil⟩
  | evaluation h =>
      intro v loop hloop
      cases h with
      | intro he hk hp =>
          rw [printStmt]
          refine .bind (printView_ensures v _) fun text he => ?_
          exact .next (.line _) fun _ => .pure ⟨rfl, he⟩
  | block hl _ hr hp ih =>
      intro v loop hloop
      rw [printStmt]
      exact .bind (braced_ensures (ih v loop hloop)) fun _ hitems => .pure ⟨rfl, hitems⟩
  | ifThen hk ht _ hp ih =>
      intro v loop hloop
      rw [printStmt]
      refine .bind (printView_ensures v _) fun text htest => .next (.line _) fun _ => ?_
      refine .bind (printBody_ensures ih hloop) fun _ hyes => .pure ⟨rfl, ?_⟩
      exact (htest.append hyes).append .nil
  | ifElse hk ht _ ho he _ hp ihy ihn =>
      intro v loop hloop
      rw [printStmt]
      refine .bind (printView_ensures v _) fun text htest => .next (.line _) fun _ => ?_
      refine .bind (printBody_ensures ihy hloop) fun _ hyes => .next (.line _) fun _ => ?_
      refine .bind (printBody_ensures ihn hloop) fun _ hno => .pure ⟨rfl, ?_⟩
      exact htest.append (hyes.append hno)
  | whileLoop hk ht _ hp ih =>
      intro v loop hloop
      rw [printStmt]
      refine .bind (printView_ensures v _) fun text htest => .next (.line _) fun _ => ?_
      exact .bind (printBody_ensures ih hloop) fun _ hbody => .pure ⟨rfl, htest.append hbody⟩
  | doLoop hk _ hw ht hs hp ih =>
      intro v loop hloop
      rw [printStmt]
      refine .next (.line _) fun _ => .bind (printBody_ensures ih hloop) fun _ hbody => ?_
      refine .bind (printView_ensures v _) fun text htest => .next (.line _) fun _ => ?_
      exact .pure ⟨rfl, hbody.append htest⟩
  | forLoop hk hl hi ht hs hu hr _ hp ih => exact forLoop_printed ih hi _
  | switch hk ht _ hp ih =>
      intro v loop hloop
      rw [printStmt]
      refine .bind (printView_ensures v _) fun text htest => .next (.line _) fun _ => ?_
      exact .bind (printBody_ensures ih hloop) fun _ hbody => .pure ⟨rfl, htest.append hbody⟩
  | caseLabel hk he hcolon _ hp ih =>
      intro v loop hloop
      rw [printStmt]
      refine .bind (printView_ensures v _) fun text hvalue => .next (.line _) fun _ => ?_
      exact (ih v loop hloop).imp fun _ hbody => ⟨hbody.1, hvalue.append hbody.2⟩
  | defaultLabel hk hcolon _ hp ih =>
      intro v loop hloop
      rw [printStmt]
      exact .next (.line _) fun _ => ih v loop hloop
  | breakLoop hk hs hp | continueLoop hk hs hp =>
      intro v loop hloop
      rw [printStmt]
      exact .next (.line _) fun _ => .pure ⟨rfl, .nil⟩
  | print hk he hs hp =>
      intro v loop hloop
      rw [printStmt]
      refine .next (typeOf_ensures _) fun t => .bind (printView_ensures v _) fun text he => ?_
      exact .next (.line _) fun _ => .pure ⟨rfl, he⟩
  | eachSynapse hk _ hp ih => exact eachSynapse_printed ih _
  | nil =>
      intro v loop hloop
      rw [printStmts]
      exact .pure .nil
  | declaration h _ ih =>
      intro v loop hloop
      cases h with
      | intro =>
          rw [printStmts, printStmt]
          refine .bind (printDeclarations_ensures v _) ?_
          rintro _ ⟨rfl, hds⟩
          rw [← inLoop_declareAll v] at hloop ⊢
          exact (ih _ loop hloop).imp fun _ hss => hds.append hss
  | statement h _ ihs ihss =>
      intro v loop hloop
      rw [printStmts, Stmt.viewsOfItems, h.viewBehind_eq v _ rfl]
      refine .bind (ihs v loop hloop) ?_
      rintro _ ⟨rfl, hs⟩
      exact (ihss v loop hloop).imp fun _ hss => hs.append hss

end

end KernelWeaver.Printing
