import KernelWeaver.Proofs.Snippet.Grammar
import KernelWeaver.Snippet.StmtParser

/-!
# The grammar of statements

Which tokens spell which list of declarations and statements. Declarations stand only among the
items of a snippet or a block and as the first clause of a `for`. An `else` belongs to the nearest
`if` that is still open, so nothing before an `else` ends with an `if` that could take it.
-/

namespace KernelWeaver.Snippet

variable (Place : Span → List Token → Prop)

/-- Tokens that spell the value of a declared name, or nothing. -/
inductive SpellsValue : Option Expr → List Token → Prop where
  | none : SpellsValue none []
  | some {equal : Token} {ts : List Token} {e : Expr} : equal.kind = .equal →
      Derives Place (.expr .assignment e) ts → SpellsValue (some e) (equal :: ts)

/-- Tokens that spell a declared name with the star before it and the value behind it. -/
inductive SpellsDeclarator : Declarator → List Token → Prop where
  | intro {id : NodeId} {pointer : Option PointerMark} {init : Option Expr} {span : Span}
      {ps us : List Token} {t : Token} : SpellsPointer pointer ps → t.kind = .identifier →
      SpellsValue Place init us → Place span (ps ++ t :: us) →
      SpellsDeclarator ⟨id, t.lexeme, pointer, init, span⟩ (ps ++ t :: us)

/-- Tokens that spell declared names between commas, at least one. -/
inductive SpellsDeclarators : List Declarator → List Token → Prop where
  | last {d : Declarator} {ts : List Token} : SpellsDeclarator Place d ts →
      SpellsDeclarators [d] ts
  | more {d : Declarator} {ds : List Declarator} {comma : Token} {ts us : List Token} :
      SpellsDeclarator Place d ts → comma.kind = .comma → SpellsDeclarators ds us →
      SpellsDeclarators (d :: ds) (ts ++ comma :: us)

/-- Tokens that spell a declaration. -/
inductive SpellsDeclaration : Stmt → List Token → Prop where
  | intro {span : Span} {type : TypeSpec} {names : List Declarator} {ss ts : List Token}
      {semicolon : Token} : SpellsSpecifiers type ss → type.pointer = none → Place type.span ss →
      SpellsDeclarators Place names ts → semicolon.kind = .semicolon →
      Place span (ss ++ ts ++ [semicolon]) →
      SpellsDeclaration (.declare span type names) (ss ++ ts ++ [semicolon])

/-- Tokens that spell an expression before a semicolon. -/
inductive SpellsEvaluation : Stmt → List Token → Prop where
  | intro {span : Span} {e : Expr} {ts : List Token} {semicolon : Token} :
      Derives Place (.expr .assignment e) ts → semicolon.kind = .semicolon →
      Place span (ts ++ [semicolon]) →
      SpellsEvaluation (.expr span (some e)) (ts ++ [semicolon])

/-- Tokens that spell an expression in parentheses behind a keyword. -/
inductive SpellsCondition : Expr → List Token → Prop where
  | intro {e : Expr} {left right : Token} {ts : List Token} : left.kind = .leftParen →
      Derives Place (.expr .assignment e) ts → right.kind = .rightParen →
      SpellsCondition e (left :: ts ++ [right])

/-- Tokens that spell an expression, or nothing. -/
inductive SpellsClause : Option Expr → List Token → Prop where
  | none : SpellsClause none []
  | some {e : Expr} {ts : List Token} : Derives Place (.expr .assignment e) ts →
      SpellsClause (some e) ts

/-- Tokens that spell the first clause of a `for` with its semicolon. -/
inductive SpellsForInit : Option Stmt → List Token → Prop where
  | none {semicolon : Token} : semicolon.kind = .semicolon → SpellsForInit none [semicolon]
  | declaration {s : Stmt} {ts : List Token} : SpellsDeclaration Place s ts →
      SpellsForInit (some s) ts
  | evaluation {s : Stmt} {ts : List Token} : SpellsEvaluation Place s ts →
      SpellsForInit (some s) ts

namespace Stmt

/-- Whether the statement ends with an `if` that an `else` behind it would belong to. -/
def isOpen : Stmt → Bool
  | ifElse _ _ _ none => true
  | ifElse _ _ _ (some no) => no.isOpen
  | whileLoop _ _ body | forLoop _ _ _ _ body | switch _ _ body | caseLabel _ _ body
  | defaultLabel _ body | eachSynapse _ body => body.isOpen
  | expr .. | block .. | declare .. | doLoop .. | breakLoop .. | continueLoop .. | print .. => false

/-- Whether the statement is a level of nesting of its own. -/
def isLevel : Stmt → Bool
  | declare .. => false
  | _ => true

end Stmt

/-- What tokens of a snippet can spell. -/
inductive StmtPhrase where
  | statement (s : Stmt)
  | items (ss : List Stmt)

/-- The tokens that statements and lists of items are spelled with. -/
inductive DerivesStmt : StmtPhrase → List Token → Prop where
  | empty {span : Span} {t : Token} : t.kind = .semicolon → Place span [t] →
      DerivesStmt (.statement (.expr span none)) [t]
  | evaluation {s : Stmt} {ts : List Token} : SpellsEvaluation Place s ts →
      DerivesStmt (.statement s) ts
  | block {span : Span} {left right : Token} {ss : List Stmt} {ts : List Token} :
      left.kind = .leftBrace → DerivesStmt (.items ss) ts → right.kind = .rightBrace →
      Place span (left :: ts ++ [right]) →
      DerivesStmt (.statement (.block span ss)) (left :: ts ++ [right])
  | ifThen {span : Span} {word : Token} {test : Expr} {yes : Stmt} {ts us : List Token} :
      word.kind = .ifWord → SpellsCondition Place test ts → DerivesStmt (.statement yes) us →
      Place span (word :: ts ++ us) →
      DerivesStmt (.statement (.ifElse span test yes none)) (word :: ts ++ us)
  | ifElse {span : Span} {word elseWord : Token} {test : Expr} {yes no : Stmt}
      {ts us vs : List Token} :
      word.kind = .ifWord → SpellsCondition Place test ts → DerivesStmt (.statement yes) us →
      yes.isOpen = false → elseWord.kind = .elseWord → DerivesStmt (.statement no) vs →
      Place span (word :: ts ++ us ++ elseWord :: vs) →
      DerivesStmt (.statement (.ifElse span test yes (some no)))
        (word :: ts ++ us ++ elseWord :: vs)
  | whileLoop {span : Span} {word : Token} {test : Expr} {body : Stmt} {ts us : List Token} :
      word.kind = .whileWord → SpellsCondition Place test ts → DerivesStmt (.statement body) us →
      Place span (word :: ts ++ us) →
      DerivesStmt (.statement (.whileLoop span test body)) (word :: ts ++ us)
  | doLoop {span : Span} {word whileWord semicolon : Token} {test : Expr} {body : Stmt}
      {ts us : List Token} :
      word.kind = .doWord → DerivesStmt (.statement body) ts → whileWord.kind = .whileWord →
      SpellsCondition Place test us → semicolon.kind = .semicolon →
      Place span (word :: ts ++ whileWord :: us ++ [semicolon]) →
      DerivesStmt (.statement (.doLoop span body test))
        (word :: ts ++ whileWord :: us ++ [semicolon])
  | forLoop {span : Span} {word left semicolon right : Token} {init : Option Stmt}
      {test step : Option Expr} {body : Stmt} {is ts us vs : List Token} :
      word.kind = .forWord → left.kind = .leftParen → SpellsForInit Place init is →
      SpellsClause Place test ts → semicolon.kind = .semicolon → SpellsClause Place step us →
      right.kind = .rightParen → DerivesStmt (.statement body) vs →
      Place span (word :: left :: is ++ ts ++ semicolon :: us ++ right :: vs) →
      DerivesStmt (.statement (.forLoop span init test step body))
        (word :: left :: is ++ ts ++ semicolon :: us ++ right :: vs)
  | switch {span : Span} {word : Token} {test : Expr} {body : Stmt} {ts us : List Token} :
      word.kind = .switchWord → SpellsCondition Place test ts → DerivesStmt (.statement body) us →
      Place span (word :: ts ++ us) →
      DerivesStmt (.statement (.switch span test body)) (word :: ts ++ us)
  | caseLabel {span : Span} {word colon : Token} {value : Expr} {body : Stmt}
      {ts us : List Token} :
      word.kind = .caseWord → Derives Place (.expr .assignment value) ts → colon.kind = .colon →
      DerivesStmt (.statement body) us → Place span (word :: ts ++ colon :: us) →
      DerivesStmt (.statement (.caseLabel span value body)) (word :: ts ++ colon :: us)
  | defaultLabel {span : Span} {word colon : Token} {body : Stmt} {ts : List Token} :
      word.kind = .defaultWord → colon.kind = .colon → DerivesStmt (.statement body) ts →
      Place span (word :: colon :: ts) →
      DerivesStmt (.statement (.defaultLabel span body)) (word :: colon :: ts)
  | breakLoop {span : Span} {word semicolon : Token} :
      word.kind = .breakWord → semicolon.kind = .semicolon → Place span [word, semicolon] →
      DerivesStmt (.statement (.breakLoop span)) [word, semicolon]
  | continueLoop {span : Span} {word semicolon : Token} :
      word.kind = .continueWord → semicolon.kind = .semicolon → Place span [word, semicolon] →
      DerivesStmt (.statement (.continueLoop span)) [word, semicolon]
  | print {span : Span} {word semicolon : Token} {value : Expr} {ts : List Token} :
      word.kind = .printWord → Derives Place (.expr .assignment value) ts →
      semicolon.kind = .semicolon → Place span (word :: ts ++ [semicolon]) →
      DerivesStmt (.statement (.print span value)) (word :: ts ++ [semicolon])
  | eachSynapse {span : Span} {word : Token} {body : Stmt} {ts : List Token} :
      word.kind = .forEachSynapse → DerivesStmt (.statement body) ts → Place span (word :: ts) →
      DerivesStmt (.statement (.eachSynapse span body)) (word :: ts)
  | nil : DerivesStmt (.items []) []
  | declaration {s : Stmt} {ss : List Stmt} {ts us : List Token} :
      SpellsDeclaration Place s ts → DerivesStmt (.items ss) us →
      DerivesStmt (.items (s :: ss)) (ts ++ us)
  | statement {s : Stmt} {ss : List Stmt} {ts us : List Token} :
      DerivesStmt (.statement s) ts → DerivesStmt (.items ss) us →
      DerivesStmt (.items (s :: ss)) (ts ++ us)

/-- The levels of nesting of an expression that may be left out. -/
def Expr.nestingOfOption (e : Option Expr) : Nat := e.elim 0 Expr.nesting

/-- An expression that may be left out, without the numbers and places of its nodes. -/
def Expr.shapeOfOption (e : Option Expr) : Option Expr := e.map Expr.shape

namespace Declarator

/-- The levels of nesting of the values of declared names. -/
def nestingOfAll : List Declarator → Nat
  | [] => 0
  | d :: ds => max (Expr.nestingOfOption d.init) (nestingOfAll ds)

/-- The declared name without the numbers and places of its nodes. -/
def shape (d : Declarator) : Declarator :=
  ⟨default, d.name, d.pointer, Expr.shapeOfOption d.init, default⟩

end Declarator

namespace Stmt

mutual

/-- The levels of nesting inside a statement, its own level left out. -/
def innerNesting : Stmt → Nat
  | .expr _ value => Expr.nestingOfOption value
  | block _ items => nestingOfItems items
  | declare _ _ names => Declarator.nestingOfAll names
  | ifElse _ test yes no => max test.nesting (max (yes.innerNesting + 1) (nestingOfElse no))
  | whileLoop _ test body | switch _ test body => max test.nesting (body.innerNesting + 1)
  | doLoop _ body test => max (body.innerNesting + 1) test.nesting
  | forLoop _ init test step body =>
    max (nestingOfInit init) (max (Expr.nestingOfOption test)
      (max (Expr.nestingOfOption step) (body.innerNesting + 1)))
  | caseLabel _ value body => max value.nesting (body.innerNesting + 1)
  | defaultLabel _ body | eachSynapse _ body => body.innerNesting + 1
  | breakLoop _ | continueLoop _ => 0
  | print _ value => value.nesting

/-- The levels of nesting of an `else`. -/
def nestingOfElse : Option Stmt → Nat
  | none => 0
  | some s => s.innerNesting + 1

/-- The levels of nesting of the first clause of a `for`, which is no level of its own. -/
def nestingOfInit : Option Stmt → Nat
  | none => 0
  | some s => s.innerNesting

/-- The levels of nesting of the items of a block. A declaration is no level of its own. -/
def nestingOfItems : List Stmt → Nat
  | [] => 0
  | s :: ss => max (s.innerNesting + s.isLevel.toNat) (nestingOfItems ss)

end

mutual

/-- The statement without the numbers and places of its nodes. -/
def shape : Stmt → Stmt
  | .expr _ value => .expr default (Expr.shapeOfOption value)
  | block _ items => block default (shapes items)
  | declare _ type names =>
    declare default { type with span := default } (names.map Declarator.shape)
  | ifElse _ test yes no => ifElse default test.shape yes.shape (shapeOfOption no)
  | whileLoop _ test body => whileLoop default test.shape body.shape
  | doLoop _ body test => doLoop default body.shape test.shape
  | forLoop _ init test step body =>
    forLoop default (shapeOfOption init) (Expr.shapeOfOption test) (Expr.shapeOfOption step)
      body.shape
  | switch _ test body => switch default test.shape body.shape
  | caseLabel _ value body => caseLabel default value.shape body.shape
  | defaultLabel _ body => defaultLabel default body.shape
  | breakLoop _ => breakLoop default
  | continueLoop _ => continueLoop default
  | print _ value => print default value.shape
  | eachSynapse _ body => eachSynapse default body.shape

/-- A statement that may be left out, without the numbers and places of its nodes. -/
def shapeOfOption : Option Stmt → Option Stmt
  | none => none
  | some s => some s.shape

/-- Several statements without the numbers and places of their nodes. -/
def shapes : List Stmt → List Stmt
  | [] => []
  | s :: ss => s.shape :: shapes ss

end

end Stmt

section Imp

variable {P Q : Span → List Token → Prop} {C : List Token → Prop} {ts : List Token}
  (hC : OfParts C) (hPQ : ∀ {span us}, C us → P span us → Q span us)
include hC hPQ

theorem SpellsValue.imp {value : Option Expr} (h : SpellsValue P value ts) (hts : C ts) :
    SpellsValue Q value ts := by
  cases h with
  | none => exact .none
  | some hk he => exact .some hk (he.imp hC hPQ (hC.tail hts))

theorem SpellsDeclarator.imp {d : Declarator} (h : SpellsDeclarator P d ts) (hts : C ts) :
    SpellsDeclarator Q d ts := by
  cases h with
  | intro hp hk hv hplace =>
      exact .intro hp hk (hv.imp hC hPQ (hC.tail (hC.right hts))) (hPQ hts hplace)

theorem SpellsDeclarators.imp {ds : List Declarator} (h : SpellsDeclarators P ds ts)
    (hts : C ts) : SpellsDeclarators Q ds ts := by
  induction h with
  | last h => exact .last (h.imp hC hPQ hts)
  | more h hk _ ih => exact .more (h.imp hC hPQ (hC.left hts)) hk (ih (hC.tail (hC.right hts)))

theorem SpellsDeclaration.imp {s : Stmt} (h : SpellsDeclaration P s ts) (hts : C ts) :
    SpellsDeclaration Q s ts := by
  cases h with
  | intro hs hp htype hnames hk hplace =>
      have hfront := hC.left hts
      exact .intro hs hp (hPQ (hC.left hfront) htype) (hnames.imp hC hPQ (hC.right hfront)) hk
        (hPQ hts hplace)

theorem SpellsEvaluation.imp {s : Stmt} (h : SpellsEvaluation P s ts) (hts : C ts) :
    SpellsEvaluation Q s ts := by
  cases h with
  | intro he hk hplace => exact .intro (he.imp hC hPQ (hC.left hts)) hk (hPQ hts hplace)

theorem SpellsCondition.imp {e : Expr} (h : SpellsCondition P e ts) (hts : C ts) :
    SpellsCondition Q e ts := by
  cases h with
  | intro hl he hr => exact .intro hl (he.imp hC hPQ (hC.tail (hC.left hts))) hr

theorem SpellsClause.imp {e : Option Expr} (h : SpellsClause P e ts) (hts : C ts) :
    SpellsClause Q e ts := by
  cases h with
  | none => exact .none
  | some h => exact .some (h.imp hC hPQ hts)

theorem SpellsForInit.imp {s : Option Stmt} (h : SpellsForInit P s ts) (hts : C ts) :
    SpellsForInit Q s ts := by
  cases h with
  | none hk => exact .none hk
  | declaration h => exact .declaration (h.imp hC hPQ hts)
  | evaluation h => exact .evaluation (h.imp hC hPQ hts)

/-- What is said of places may be replaced by what follows from it for parts of the tokens. -/
theorem DerivesStmt.imp {phrase : StmtPhrase} (h : DerivesStmt P phrase ts) (hts : C ts) :
    DerivesStmt Q phrase ts := by
  induction h with
  | empty hk hp => exact .empty hk (hPQ hts hp)
  | evaluation h => exact .evaluation (h.imp hC hPQ hts)
  | block hl _ hr hp ih => exact .block hl (ih (hC.tail (hC.left hts))) hr (hPQ hts hp)
  | ifThen hk hc _ hp ih =>
      exact .ifThen hk (hc.imp hC hPQ (hC.tail (hC.left hts))) (ih (hC.right hts)) (hPQ hts hp)
  | ifElse hk hc _ ho he _ hp ihy ihn =>
      have hfront := hC.left hts
      exact .ifElse hk (hc.imp hC hPQ (hC.tail (hC.left hfront))) (ihy (hC.right hfront)) ho he
        (ihn (hC.tail (hC.right hts))) (hPQ hts hp)
  | whileLoop hk hc _ hp ih =>
      exact .whileLoop hk (hc.imp hC hPQ (hC.tail (hC.left hts))) (ih (hC.right hts)) (hPQ hts hp)
  | doLoop hk _ hw hc hs hp ih =>
      have hfront := hC.left hts
      exact .doLoop hk (ih (hC.tail (hC.left hfront))) hw
        (hc.imp hC hPQ (hC.tail (hC.right hfront))) hs (hPQ hts hp)
  | forLoop hk hl hi ht hs hu hr _ hp ih =>
      have hclauses := hC.left hts
      have hfront := hC.left hclauses
      exact .forLoop hk hl (hi.imp hC hPQ (hC.tail (hC.tail (hC.left hfront))))
        (ht.imp hC hPQ (hC.right hfront)) hs (hu.imp hC hPQ (hC.tail (hC.right hclauses))) hr
        (ih (hC.tail (hC.right hts))) (hPQ hts hp)
  | switch hk hc _ hp ih =>
      exact .switch hk (hc.imp hC hPQ (hC.tail (hC.left hts))) (ih (hC.right hts)) (hPQ hts hp)
  | caseLabel hk he hc _ hp ih =>
      exact .caseLabel hk (he.imp hC hPQ (hC.tail (hC.left hts))) hc
        (ih (hC.tail (hC.right hts))) (hPQ hts hp)
  | defaultLabel hk hc _ hp ih =>
      exact .defaultLabel hk hc (ih (hC.tail (hC.tail hts))) (hPQ hts hp)
  | breakLoop hk hs hp => exact .breakLoop hk hs (hPQ hts hp)
  | continueLoop hk hs hp => exact .continueLoop hk hs (hPQ hts hp)
  | print hk he hs hp =>
      exact .print hk (he.imp hC hPQ (hC.tail (hC.left hts))) hs (hPQ hts hp)
  | eachSynapse hk _ hp ih => exact .eachSynapse hk (ih (hC.tail hts)) (hPQ hts hp)
  | nil => exact .nil
  | declaration h _ ih => exact .declaration (h.imp hC hPQ (hC.left hts)) (ih (hC.right hts))
  | statement _ _ ihs ihss => exact .statement (ihs (hC.left hts)) (ihss (hC.right hts))

end Imp

end KernelWeaver.Snippet
