import KernelWeaver.Printing.Stmt
import KernelWeaver.Proofs.Printing.ReadBack
import KernelWeaver.Proofs.Snippet.ParseItems
import KernelWeaver.Proofs.Typing.StmtDerivation

/-!
# The heads of `for` loops

In the head of a loop the declared names share one base type, which is printed before the first of
them. Each has its own star behind it, and the names behind the first come right after their stars.
The text is read as a declaration of as many names. After `* const` a name needs a blank before it,
and only the first has one: of the others, `const` becomes a part of the name.
-/

namespace KernelWeaver.Printing

open Code Code.Emit Snippet Snippet.Lexer Typing

variable {aliases : Aliases} {types : NodeTypes} {locals : List String}

/-! ### Names -/

/-- No alias is what a local is called in the text, with `const` in front or without. -/
def LeavesLocals (aliases : Aliases) : Prop :=
  ∀ name, Table.has aliases (localName name) = false ∧
    Table.has aliases ("const" ++ localName name) = false

theorem ofWord?_eq_none {word : String}
    (h : word ∉ "const" :: TokenKind.specifiers ++ TokenKind.keywords.map Prod.fst) :
    TokenKind.ofWord? word = none := by
  rw [List.mem_append, List.mem_cons, not_or, not_or] at h
  rw [TokenKind.ofWord?, if_neg h.1.1, if_neg (by simpa using h.1.2), List.lookup_eq_none_iff]
  intro entry hentry
  rw [bne_iff_ne]
  rintro rfl
  exact h.2 (List.mem_map_of_mem hentry)

theorem isText_identifier {word : String} (h : IsWord word.toList)
    (hword : word ∉ "const" :: TokenKind.specifiers ++ TokenKind.keywords.map Prod.fst)
    (halias : Table.has aliases word = false) : IsText aliases .identifier word.toList := by
  have htext : IsText aliases (wordKind aliases (String.ofList word.toList)) word.toList := .word h
  rwa [String.ofList_toList, wordKind, ofWord?_eq_none hword, halias] at htext

variable {name : String}

theorem isText_localName (haliases : LeavesLocals aliases) (h : IsWord name.toList) :
    IsText aliases .identifier (localName name).toList := by
  have htext : (localName name).toList = '_' :: name.toList := by simp [localName]
  refine isText_identifier ?_ (fun hmem => ?_) (haliases name).1
  · rw [htext]
    exact ⟨⟨'_', _, rfl, rfl⟩, List.forall_mem_cons.mpr ⟨rfl, h.chars⟩⟩
  · have hwords : ∀ w ∈ "const" :: TokenKind.specifiers ++ TokenKind.keywords.map Prod.fst,
        w.toList.head? ≠ some '_' := by decide +kernel
    exact hwords _ hmem (by rw [htext, List.head?_cons])

theorem isText_const_localName (haliases : LeavesLocals aliases) (h : IsWord name.toList) :
    IsText aliases .identifier ("const" ++ localName name).toList := by
  have htext : ("const" ++ localName name).toList = "const".toList ++ '_' :: name.toList := by
    simp [localName]
  have hconst : IsWord "const".toList := isWord_of_all (by decide) (by decide)
  refine isText_identifier ?_ (fun hmem => ?_) (haliases name).2
  · rw [htext]
    refine ⟨⟨'c', _, rfl, rfl⟩, List.forall_mem_append.mpr ⟨hconst.chars, ?_⟩⟩
    exact List.forall_mem_cons.mpr ⟨rfl, h.chars⟩
  · have hwords : ∀ w ∈ "const" :: TokenKind.specifiers ++ TokenKind.keywords.map Prod.fst,
        (w.toList.drop 5).head? ≠ some '_' := by decide +kernel
    exact hwords _ hmem (by rw [htext]; rfl)

/-! ### Values -/

/-- The text is read as an expression below the limit of nesting. -/
def ReadsAsExpr (aliases : Aliases) (text : String) : Prop :=
  ReadsAs aliases text.toList fun ts =>
    ∃ e, Derives Anywhere (.expr .assignment e) ts ∧ e.nesting < Parser.maxDepth

/-- The text behind a name is read as its value, or is empty. -/
def ReadsAsValue (aliases : Aliases) (text : String) : Prop :=
  Ends text.toList ∧ ReadsAs aliases text.toList fun ts =>
    ∃ value, SpellsValue Anywhere value ts ∧ Expr.nestingOfOption value < Parser.maxDepth

theorem readsAsValue_empty : ReadsAsValue aliases "" :=
  ⟨.nil, .nil ⟨none, .none, by decide⟩⟩

theorem ReadsAsExpr.value {text : String} (h : ReadsAsExpr aliases text) :
    ReadsAsValue aliases (" = " ++ text) := by
  have hequal : ("=", TokenKind.equal) ∈ TokenKind.symbols := by decide
  have htext : (" = " ++ text).toList = ' ' :: ("=".toList ++ ' ' :: text.toList) := by
    simp
  rw [ReadsAsValue, htext]
  refine ⟨lacks_cons.mpr rfl, ReadsAs.blank ?_⟩
  refine (h.blank.behind_symbol hequal (List.cons_ne_nil _ _) (lacks_cons.mpr (by decide))).imp ?_
  rintro _ ⟨equal, ts, rfl, hk, e, he, hnesting⟩
  exact ⟨some e, .some hk he, hnesting⟩

/-! ### Declared names -/

/-- The star with the `const` behind it. -/
def starText : Option PointerMark → String
  | none => ""
  | some star => if star.isConst then "* const" else "*"

/-- How a declared name is read from the head of a loop: the star before it, and the name. Where it
does not stand behind the base type, nothing stands between its `const` and itself. -/
def headMark (behindBase : Bool) (d : Declarator) : Option PointerMark × String :=
  if behindBase = false ∧ d.pointer = some ⟨true⟩ then (some ⟨false⟩, "const" ++ localName d.name)
  else (d.pointer, localName d.name)

/-- How the declared names are read, the first of them behind the base type. -/
def headMarks (behindBase : Bool) : List Declarator → List (Option PointerMark × String)
  | [] => []
  | d :: ds => headMark behindBase d :: headMarks false ds

theorem headMarks_false (ds : List Declarator) : headMarks false ds = ds.map (headMark false) := by
  induction ds with
  | nil => rfl
  | cons d ds ih => rw [headMarks, ih, List.map_cons]

/-- The star before a declared name, and the name. -/
def markOf (d : Declarator) : Option PointerMark × String := (d.pointer, d.name)

/-- Tokens that spell a declared name with this star, its value below the limit of nesting. -/
def SpellsMark (mark : Option PointerMark × String) (ts : List Token) : Prop :=
  ∃ d, SpellsDeclarator Anywhere d ts ∧ markOf d = mark ∧
    Expr.nestingOfOption d.init < Parser.maxDepth

variable {word value : String}

theorem readsAs_declared (hword : IsText aliases .identifier word.toList)
    (hvalue : ReadsAsValue aliases value) :
    ReadsAs aliases (word ++ value).toList (SpellsMark (none, word)) := by
  have hname : ReadsAs aliases word.toList fun ts =>
      ∃ t, ts = [t] ∧ t.kind = .identifier ∧ t.lexeme = word :=
    readsAs_text hword fun t hk hlexeme => ⟨t, rfl, hk, by rw [hlexeme, String.ofList_toList]⟩
  rw [String.toList_append]
  refine (hname.append hvalue.2 hvalue.1).imp ?_
  rintro _ ⟨_, us, rfl, ⟨t, rfl, hk, rfl⟩, value, hus, hnesting⟩
  have hdeclared : SpellsDeclarator Anywhere ⟨default, t.lexeme, none, value, default⟩
      ([] ++ t :: us) := .intro .none hk hus trivial
  exact ⟨_, hdeclared, rfl, hnesting⟩

theorem SpellsMark.behind {pointer : Option PointerMark} {ps ts : List Token}
    (h : SpellsMark (none, word) ts) (hp : SpellsPointer pointer ps) :
    SpellsMark (pointer, word) (ps ++ ts) := by
  obtain ⟨_, hd, hmark, hnesting⟩ := h
  cases hd with
  | intro hnone hk hvalue _ =>
      cases hmark
      cases hnone
      exact ⟨⟨default, _, _, _, default⟩, .intro hp hk hvalue trivial, rfl, hnesting⟩

theorem readsAs_starred {text : List Char} (h : ReadsAs aliases text (SpellsMark (none, word)))
    (hne : text ≠ []) (hjoins : Lacks (joins "*") text) :
    ReadsAs aliases ('*' :: text) (SpellsMark (some ⟨false⟩, word)) := by
  have hstar : ("*", TokenKind.star) ∈ TokenKind.symbols := by decide
  refine (h.behind_symbol hstar hne hjoins).imp ?_
  rintro _ ⟨star, ts, rfl, hk, hts⟩
  exact hts.behind (.plain hk)

theorem readsAs_const_starred {text : List Char}
    (h : ReadsAs aliases text (SpellsMark (none, word))) :
    ReadsAs aliases ("* const ".toList ++ text) (SpellsMark (some ⟨true⟩, word)) := by
  have hstar : ("*", TokenKind.star) ∈ TokenKind.symbols := by decide
  refine ((readsAs_const.append h.blank (lacks_cons.mpr rfl)).blank.behind_symbol hstar
    (List.cons_ne_nil _ _) (lacks_cons.mpr (by decide))).imp ?_
  rintro _ ⟨star, _, rfl, hstar, _, ts, rfl, ⟨qualifier, rfl, hconst⟩, hts⟩
  exact hts.behind (.const hstar hconst)

/-- What stands between the base type and a declared name in the head of a loop, or between the
comma before the name and the name. -/
def headLead (behindBase : Bool) (star : Option PointerMark) : String :=
  starText star ++ if behindBase then " " else ""

theorem ends_headLead (star : Option PointerMark) (more : String) :
    Ends (headLead true star ++ more).toList := by
  rw [String.toList_append]
  match star with
  | none | some ⟨false⟩ | some ⟨true⟩ => exact lacks_cons.mpr rfl

theorem lacks_joins_star (hword : IsText aliases .identifier word.toList) (value : String) :
    (word ++ value).toList ≠ [] ∧ Lacks (joins "*") (word ++ value).toList := by
  obtain ⟨c, more, htext, hc, -⟩ := hword.starts
  rw [String.toList_append, htext]
  refine ⟨List.cons_ne_nil _ _, lacks_cons.mpr (Bool.eq_false_iff.mpr fun hjoin => ?_)⟩
  have hcases : c = '=' ∨ (doubles .deref = true ∧ UnaryOp.deref.spelling.toList = [c]) :=
    joins_unary hjoin
  rcases hcases with heq | ⟨hdouble, -⟩
  · exact hc heq
  · cases hdouble

/-- The text of a declared name in the head of a loop is read with the star and the name that
`headMark` tells. -/
theorem readsAs_headMark (haliases : LeavesLocals aliases) (behindBase : Bool) (d : Declarator)
    (hname : IsWord d.name.toList) (hvalue : ReadsAsValue aliases value) :
    ReadsAs aliases (headLead behindBase d.pointer ++ (localName d.name ++ value)).toList
      (SpellsMark (headMark behindBase d)) := by
  have hlocal := isText_localName haliases hname
  have hplain := readsAs_declared hlocal hvalue
  obtain ⟨hne, hjoins⟩ := lacks_joins_star hlocal value
  have hblank : Lacks (joins "*") (' ' :: (localName d.name ++ value).toList) :=
    lacks_cons.mpr (by decide)
  rw [String.toList_append]
  by_cases hglued : behindBase = false ∧ d.pointer = some ⟨true⟩
  · -- the word goes on behind `const`
    have hword := readsAs_declared (isText_const_localName haliases hname) hvalue
    have htext : (headLead behindBase d.pointer).toList ++ (localName d.name ++ value).toList =
        '*' :: ' ' :: (("const" ++ localName d.name) ++ value).toList := by
      simp [hglued, headLead, starText]
    rw [headMark, if_pos hglued, htext]
    exact readsAs_starred hword.blank (List.cons_ne_nil _ _) (lacks_cons.mpr (by decide))
  · rw [headMark, if_neg hglued]
    match hpointer : d.pointer, behindBase with
    | none, true => exact hplain.blank
    | none, false => exact hplain
    | some ⟨false⟩, true => exact readsAs_starred hplain.blank (List.cons_ne_nil _ _) hblank
    | some ⟨false⟩, false => exact readsAs_starred hplain hne hjoins
    | some ⟨true⟩, true => exact readsAs_const_starred hplain
    | some ⟨true⟩, false => exact absurd ⟨rfl, hpointer⟩ hglued

/-- Tokens that spell declared names with these stars, their values below the limit of nesting. -/
def SpellsMarks (marks : List (Option PointerMark × String)) (ts : List Token) : Prop :=
  ∃ names, SpellsDeclarators Anywhere names ts ∧ names.map markOf = marks ∧
    Declarator.nestingOfAll names < Parser.maxDepth

variable {mark : Option PointerMark × String} {marks : List (Option PointerMark × String)}

theorem SpellsMark.last {ts : List Token} (h : SpellsMark mark ts) : SpellsMarks [mark] ts := by
  obtain ⟨d, hd, rfl, hnesting⟩ := h
  exact ⟨[d], .last hd, rfl, max_lt hnesting (by decide)⟩

/-- A declared name in front of others. -/
theorem readsAs_more {text more : List Char} (h : ReadsAs aliases text (SpellsMark mark))
    (hmore : ReadsAs aliases more (SpellsMarks marks)) :
    ReadsAs aliases (text ++ (", ".toList ++ more)) (SpellsMarks (mark :: marks)) := by
  have hcomma : (",", TokenKind.comma) ∈ TokenKind.symbols := by decide
  have hright := hmore.blank.behind_symbol hcomma (List.cons_ne_nil _ _)
    (lacks_cons.mpr (joins_blank hcomma))
  refine (h.append hright (lacks_cons.mpr rfl)).imp ?_
  rintro _ ⟨ts, _, rfl, ⟨d, hd, rfl, hfirst⟩, comma, us, rfl, hk, names, hnames, rfl, hrest⟩
  exact ⟨d :: names, .more hd hk hnames, rfl, max_lt hfirst hrest⟩

/-- The text is read as tokens of the property, from behind the base type on where that is in
front. -/
def ReadsBehind (aliases : Aliases) (base : String) (behindBase : Bool) (P : List Token → Prop)
    (text : String) : Prop :=
  ∃ rest, text = (if behindBase then base else "") ++ rest ∧
    (behindBase = true → Ends rest.toList) ∧ ReadsAs aliases rest.toList P

/-! ### Printing declared names -/

variable {I : Chain → Prop} {type : TypeSpec} {d : Declarator} {ds : List Declarator}
  {P : Span → List Token → Prop} {ts : List Token}

/-- The value of each declared name is printed as an expression that can be read, where the names
up to it are locals. -/
def ValuesRead (aliases : Aliases) (types : NodeTypes) (I : Chain → Prop) :
    List String → List Declarator → Prop
  | _, [] => True
  | locals, d :: ds =>
    (∀ e ∈ d.init, Yields I (printExpr types (d.name :: locals) e) (ReadsAsExpr aliases)) ∧
      ValuesRead aliases types I (d.name :: locals) ds

/-- The base type and the star of a name are printed as they were resolved. -/
theorem declaredType_eq {star : Option PointerMark} {n : Numeric} {t : CType}
    (hbase : type.pointer = none) (hresolve : aliases.resolve? type.words = some n)
    (ht : declaredType? aliases type star = some t) :
    declaredType t star = ((CType.value n type.isConst).name, starText star) := by
  rw [declaredType?, castTarget?, hresolve, hbase, Option.none_or] at ht
  cases ht
  cases star with
  | none => rfl
  | some star => rfl

/-- A declared name is printed, and its text is read as `headMark` tells. -/
theorem printDeclarator_yields (haliases : LeavesLocals aliases) (behindBase : Bool)
    {n : Numeric} (hbase : type.pointer = none) (hresolve : aliases.resolve? type.words = some n)
    (htyped : (Clause.declared type d).Typed aliases types) (hname : IsWord d.name.toList)
    (hvalue : ∀ e ∈ d.init,
      Yields I (printExpr types (d.name :: locals) e) (ReadsAsExpr aliases)) :
    Yields I (printDeclarator types locals behindBase d) fun found =>
      found.2 = d.name :: locals ∧ ReadsBehind aliases (CType.value n type.isConst).name behindBase
        (SpellsMark (headMark behindBase d)) found.1 := by
  obtain ⟨t, hfind, ht, -⟩ := htyped
  have hrest : ∀ value, ReadsAsValue aliases value → Yields I
      (if behindBase then Pure.pure ((CType.value n type.isConst).name ++ starText d.pointer ++
          " " ++ (localName d.name ++ value), d.name :: locals)
        else Pure.pure (starText d.pointer ++ (localName d.name ++ value), d.name :: locals))
      fun found => found.2 = d.name :: locals ∧ ReadsBehind aliases
        (CType.value n type.isConst).name behindBase (SpellsMark (headMark behindBase d))
        found.1 := by
    intro value hvalue
    have hreads := readsAs_headMark haliases behindBase d hname hvalue
    cases behindBase with
    | true =>
        have hends := ends_headLead d.pointer (localName d.name ++ value)
        exact .pure ⟨rfl, _, by simp [headLead, String.append_assoc], fun _ => hends, hreads⟩
    | false => exact .pure ⟨rfl, _, by simp [headLead], nofun, hreads⟩
  rw [printDeclarator, hfind]
  dsimp only
  rw [declaredType_eq hbase hresolve ht]
  cases hd : d.init with
  | none => exact .bind (.pure readsAsValue_empty) hrest
  | some e =>
      refine .bind (hvalue e hd) fun a ha => ?_
      exact .bind (.pure ha.value) hrest

theorem isWord_of_spellsDeclarator (h : SpellsDeclarator P d ts)
    (hts : ∀ t ∈ ts, t.Formed aliases) : IsWord d.name.toList := by
  cases h with
  | intro _ hk _ _ => exact isWord_of_identifier (hts _ (by simp)) hk

/-- The locals behind declared names. -/
def localsBehind : List String → List Declarator → List String
  | locals, [] => locals
  | locals, d :: ds => localsBehind (d.name :: locals) ds

theorem join_cons {first : String} {texts : List String} (h : texts ≠ []) :
    Text.join ", " (first :: texts) = first ++ (", " ++ Text.join ", " texts) := by
  cases texts with
  | nil => exact absurd rfl h
  | cons second texts => simp [Text.join, String.append_assoc]

/-- Declared names are printed, and what stands behind the base type is read as `headMarks`
tells. -/
theorem declaratorTexts_yields (haliases : LeavesLocals aliases) {n : Numeric}
    (hbase : type.pointer = none) (hresolve : aliases.resolve? type.words = some n)
    (h : SpellsDeclarators P ds ts) (hts : ∀ t ∈ ts, t.Formed aliases)
    (htyped : ClausesTyped aliases (ds.map (Clause.declared type)) types)
    (hvalues : ValuesRead aliases types I locals ds) (behindBase : Bool) :
    Yields I (declaratorTexts types behindBase locals ds) fun found =>
      found.2 = localsBehind locals ds ∧ found.1 ≠ [] ∧ ReadsBehind aliases
        (CType.value n type.isConst).name behindBase (SpellsMarks (headMarks behindBase ds))
        (Text.join ", " found.1) := by
  induction h generalizing locals behindBase with
  | last hd =>
      rw [List.map_singleton, ClausesTyped, List.forall_mem_singleton] at htyped
      refine .bind (printDeclarator_yields haliases behindBase hbase hresolve htyped
        (isWord_of_spellsDeclarator hd hts) hvalues.1) ?_
      rintro ⟨first, _⟩ ⟨rfl, text, rfl, hends, hreads⟩
      refine .bind (P := fun more => more = ([], _)) (.pure rfl) ?_
      rintro _ rfl
      exact .pure ⟨rfl, List.cons_ne_nil _ _, text, by simp [Text.join], hends,
        hreads.imp fun _ => SpellsMark.last⟩
  | more hd _ hds ih =>
      rw [List.map_cons, ClausesTyped, List.forall_mem_cons] at htyped
      rw [List.forall_mem_append, List.forall_mem_cons] at hts
      refine .bind (printDeclarator_yields haliases behindBase hbase hresolve htyped.1
        (isWord_of_spellsDeclarator hd hts.1) hvalues.1) ?_
      rintro ⟨first, _⟩ ⟨rfl, text, rfl, hends, hreads⟩
      refine .bind (ih hts.2.2 htyped.2 hvalues.2 false) ?_
      rintro ⟨texts, _⟩ ⟨rfl, hne, more, hmore, -, hreads'⟩
      refine .pure ⟨rfl, List.cons_ne_nil _ _, text ++ (", " ++ more), ?_, fun hfirst => ?_, ?_⟩
      · dsimp only at hne hmore ⊢
        rw [join_cons hne, hmore, String.append_assoc]
        simp
      · rw [String.toList_append, String.toList_append]
        exact (hends hfirst).append (lacks_cons.mpr rfl)
      · rw [String.toList_append, String.toList_append]
        exact readsAs_more hreads hreads'

/-! ### Heads -/

/-- The head of a loop, and the names known in the rest of it. -/
def printHead (types : NodeTypes) (locals : List String) (init : Option Stmt)
    (test step : Option Expr) : Emit (String × List String) := do
  let (i, known) ← printForInit types locals init
  let c ← printOptional types known test
  let s ← printOptional types known step
  return ("for(" ++ i ++ "; " ++ c ++ "; " ++ s ++ ")", known)

/-- A loop is printed as its head and its body. -/
theorem printStmt_forLoop (loop : Option RowLoop) (span : Span) (init : Option Stmt)
    (test step : Option Expr) (body : Stmt) :
    printStmt types loop locals (.forLoop span init test step body) = (do
      let (head, known) ← printHead types locals init test step
      Emit.line head
      printBody types loop known body
      return locals) := by
  rw [printStmt, printHead]
  simp only [bind_assoc, pure_bind]

/-- The text is read as an expression, or is empty. -/
def ReadsAsClause (aliases : Aliases) (text : String) : Prop :=
  ReadsAs aliases text.toList fun ts =>
    ∃ e, SpellsClause Anywhere e ts ∧ Expr.nestingOfOption e < Parser.maxDepth

theorem printOptional_yields {e : Option Expr}
    (h : ∀ value ∈ e, Yields I (printExpr types locals value) (ReadsAsExpr aliases)) :
    Yields I (printOptional types locals e) (ReadsAsClause aliases) := by
  cases e with
  | none => exact .pure (.nil ⟨none, .none, by decide⟩)
  | some e =>
      refine (h e rfl).imp fun text htext => htext.imp ?_
      rintro ts ⟨e, he, hnesting⟩
      exact ⟨some e, .some he, hnesting⟩

/-- The statement is a loop whose head declares names with these stars behind a base type that is
spelled so. -/
def HeadDeclares (type : TypeSpec) (marks : List (Option PointerMark × String)) : Stmt → Prop
  | .forLoop _ (some (.declare _ spelled names)) _ _ _ =>
    { spelled with span := default } = type ∧ names.map markOf = marks
  | _ => False

/-- What a head declares can be told from its shape. -/
theorem headDeclares_shape (s : Stmt) :
    HeadDeclares type marks s.shape ↔ HeadDeclares type marks s := by
  cases s with
  | forLoop span init test step body =>
      cases init with
      | none => exact Iff.rfl
      | some init =>
          cases init with
          | declare span spelled names =>
              have hmarks : (names.map Declarator.shape).map markOf = names.map markOf :=
                List.map_map
              rw [Stmt.shape, Stmt.shapeOfOption, Stmt.shape, HeadDeclares, HeadDeclares, hmarks]
          | _ => exact Iff.rfl
  | _ => exact Iff.rfl

/-- The head of a loop, with a semicolon for the body, is read as a loop that declares the names in
front of which the base type stands. -/
theorem readsAs_head {n : Numeric} {c : Bool} {names test step : String}
    (hends : Ends names.toList) (hnames : ReadsAs aliases names.toList (SpellsMarks marks))
    (htest : ReadsAsClause aliases test) (hstep : ReadsAsClause aliases step) :
    ReadsAs aliases
      ("for(" ++ ((CType.value n c).name ++ names) ++ "; " ++ test ++ "; " ++ step ++ ")" ++
        ";").toList
      fun ts => ∃ loop, SpellsItems ts [loop] ∧
        HeadDeclares (typeSpec (.value n c)) marks loop := by
  have hsemicolon : (";", TokenKind.semicolon) ∈ TokenKind.symbols := by decide
  have hleft : ("(", TokenKind.leftParen) ∈ TokenKind.symbols := by decide
  have hright : (")", TokenKind.rightParen) ∈ TokenKind.symbols := by decide
  have hword : ReadsAs aliases "for".toList fun ts => ∃ t, ts = [t] ∧ t.kind = .forWord :=
    readsAs_keyword (isWord_of_all (by decide) (by decide)) rfl
  have hempty : ReadsAs aliases ";".toList fun ts => ∃ t, ts = [t] ∧ t.kind = .semicolon :=
    readsAs_symbol hsemicolon fun _ => rfl
  have hbody := hempty.behind_symbol hright (by decide) fun _ _ => rfl
  have hlast := (hstep.append hbody (lacks_cons.mpr rfl)).blank.behind_symbol hsemicolon
    (List.cons_ne_nil _ _) fun _ _ => rfl
  have hmiddle := (htest.append hlast (lacks_cons.mpr rfl)).blank.behind_symbol hsemicolon
    (List.cons_ne_nil _ _) fun _ _ => rfl
  have hinit := (readsAs_name_value n c).append hnames hends
  have hclauses := (hinit.append hmiddle (lacks_cons.mpr rfl)).behind_symbol hleft (by simp)
    fun _ _ => rfl
  have htext : ("for(" ++ ((CType.value n c).name ++ names) ++ "; " ++ test ++ "; " ++ step ++
      ")" ++ ";").toList = "for".toList ++ ("(".toList ++ ((CType.value n c).name.toList ++
        names.toList ++ (";".toList ++ ' ' :: (test.toList ++ (";".toList ++
          ' ' :: (step.toList ++ (")".toList ++ ";".toList))))))) := by
    simp
  rw [htext]
  refine (hword.append hclauses (lacks_cons.mpr rfl)).imp ?_
  rintro _ ⟨_, _, rfl, ⟨word, rfl, hfor⟩, left, _, rfl, hleft, _, _, rfl,
    ⟨ss, ds, rfl, hss, declared, hdeclared, hmarks, hnested⟩, first, _, rfl, hfirst, ts, _, rfl,
    ⟨test, htest, htested⟩, second, _, rfl, hsecond, us, _, rfl, ⟨step, hstep, hstepped⟩, right, _,
    rfl, hright, last, rfl, hlast⟩
  have hdeclaration : SpellsDeclaration Anywhere (.declare default (typeSpec (.value n c)) declared)
      (ss ++ ds ++ [first]) :=
    .intro (hss.spellsSpecifiers rfl rfl) rfl trivial hdeclared hfirst trivial
  let loop : Stmt := .forLoop default
    (some (.declare default (typeSpec (.value n c)) declared)) test step (.expr default none)
  have hloop : DerivesStmt Anywhere (.statement loop)
      (word :: left :: (ss ++ ds ++ [first]) ++ ts ++ second :: us ++ right :: [last]) :=
    .forLoop hfor hleft (.declaration hdeclaration) htest hsecond hstep hright
      (.empty hlast trivial) trivial
  refine ⟨loop, ⟨?_, ?_⟩, rfl, hmarks⟩
  · have hitems := DerivesStmt.statement hloop .nil
    simpa using hitems
  · have hbody : (Stmt.expr default none).innerNesting + 1 < Parser.maxDepth := by decide
    have hinner : loop.innerNesting < Parser.maxDepth :=
      max_lt hnested (max_lt htested (max_lt hstepped hbody))
    exact max_le hinner (Nat.zero_le _)

/-- The type of a declaration that is checked is one that can be resolved. -/
theorem exists_resolve?_of_typed (h : SpellsDeclarators P ds ts)
    (htyped : ClausesTyped aliases (ds.map (Clause.declared type)) types) :
    ∃ n, aliases.resolve? type.words = some n := by
  obtain ⟨d, hd⟩ : ∃ d, d ∈ ds := by
    cases h with
    | last => exact ⟨_, List.mem_cons_self⟩
    | more => exact ⟨_, List.mem_cons_self⟩
  obtain ⟨t, -, ht, -⟩ := htyped _ (List.mem_map_of_mem hd)
  obtain ⟨n, hn, -⟩ := Option.map_eq_some_iff.mp ht
  exact ⟨n, hn⟩

variable {span : Span} {names : List Declarator} {test step : Option Expr} {n : Numeric}

/-- The declaration in the head of a loop is printed if the values in it are: the base type, and
behind it what is read as `headMarks` tells. -/
theorem printForInit_yields (haliases : LeavesLocals aliases)
    (hresolve : aliases.resolve? type.words = some n)
    (h : SpellsDeclaration P (.declare span type names) ts) (hts : ∀ t ∈ ts, t.Formed aliases)
    (htyped : ClausesTyped aliases (names.map (Clause.declared type)) types)
    (hvalues : ValuesRead aliases types I locals names) :
    Yields I (printForInit types locals (some (.declare span type names))) fun found =>
      found.2 = localsBehind locals names ∧ ∃ text,
        found.1 = (CType.value n type.isConst).name ++ text ∧ Ends text.toList ∧
        ReadsAs aliases text.toList (SpellsMarks (headMarks true names)) := by
  cases h with
  | intro _ hbase _ hnames _ _ =>
      refine .bind (declaratorTexts_yields haliases hbase hresolve hnames (fun t ht => ?_) htyped
        hvalues true) ?_
      · exact hts t (List.mem_append_left _ (List.mem_append_right _ ht))
      · rintro ⟨texts, known⟩ ⟨hknown, -, text, htext, hends, hreads⟩
        exact .pure ⟨hknown, text, htext, hends rfl, hreads⟩

/-- The head of a loop that declares names is printed if the values in it are, and it is read as one
that declares names as `headMarks` tells. -/
theorem printHead_yields (haliases : LeavesLocals aliases)
    (hresolve : aliases.resolve? type.words = some n)
    (h : SpellsDeclaration P (.declare span type names) ts) (hts : ∀ t ∈ ts, t.Formed aliases)
    (htyped : ClausesTyped aliases (names.map (Clause.declared type)) types)
    (hvalues : ValuesRead aliases types I locals names)
    (htest : ∀ e ∈ test,
      Yields I (printExpr types (localsBehind locals names) e) (ReadsAsExpr aliases))
    (hstep : ∀ e ∈ step,
      Yields I (printExpr types (localsBehind locals names) e) (ReadsAsExpr aliases)) :
    Yields I (printHead types locals (some (.declare span type names)) test step) fun found =>
      ReadsAs aliases (found.1 ++ ";").toList fun ts => ∃ loop, SpellsItems ts [loop] ∧
        HeadDeclares (typeSpec (.value n type.isConst)) (headMarks true names) loop := by
  refine .bind (printForInit_yields haliases hresolve h hts htyped hvalues) ?_
  rintro ⟨init, known⟩ ⟨rfl, text, rfl, hends, hreads⟩
  refine .bind (printOptional_yields htest) fun c hc => ?_
  refine .bind (printOptional_yields hstep) fun s hs => .pure ?_
  exact readsAs_head hends hreads hc hs

end KernelWeaver.Printing
