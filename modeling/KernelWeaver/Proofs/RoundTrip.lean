import KernelWeaver.Proofs.Compile
import KernelWeaver.Proofs.Printing.PlainText
import KernelWeaver.Proofs.Printing.ReadBack
import KernelWeaver.Proofs.Snippet.Numbering
import KernelWeaver.Proofs.Typing.Alike

/-!
# Reading printed expressions

An expression that is printed where names are their own code can be read again. What is read differs
from what was printed only in how the types of casts are spelled, and it has the same types.
-/

namespace KernelWeaver

open Code Snippet Typing Printing

/-! ### Types of casts -/

theorem mergeSort_pair {α : Type} {le : α → α → Bool} {a b : α} (h : le a b = false) :
    [a, b].mergeSort le = [b, a] := by
  simp [List.mergeSort, List.MergeSort.Internal.splitInTwo, h]

theorem ofSpecifiers?_typeWords (n : Numeric) :
    Numeric.ofSpecifiers? (typeWords n false) = some n := by
  cases n with
  | uint8 | uint16 | uint32 =>
      simp only [Numeric.ofSpecifiers?, typeWords, Bool.false_eq_true, if_false, List.nil_append]
      rw [mergeSort_pair (by decide)]
      decide +kernel
  | _ => decide +kernel

/-- No alias gives a word of the built-in types another meaning. -/
def KeepsTypeWords (aliases : Aliases) : Prop :=
  ∀ word ∈ TokenKind.specifiers, ∀ n, Table.find? aliases word = some n →
    Numeric.ofSpecifiers? [word] = some n

theorem resolve?_typeWords {aliases : Aliases} (haliases : KeepsTypeWords aliases) (n : Numeric) :
    aliases.resolve? (typeWords n false) = some n := by
  have hof := ofSpecifiers?_typeWords n
  have hwords : ∀ word ∈ typeWords n false, word ∈ TokenKind.specifiers := by
    cases n <;> decide
  unfold Aliases.resolve?
  split
  next word hword =>
    split
    next m hfind => rw [← hof, hword, haliases word (hwords word (by simp [hword])) m hfind]
    next => exact hof
  next => exact hof

/-- The spelling of a type that a cast can have names the type. -/
theorem castTarget?_typeSpec {aliases : Aliases} (haliases : KeepsTypeWords aliases) {t : CType}
    (ht : IsCastType t) : castTarget? aliases (typeSpec t) = some t := by
  have hwords (n : Numeric) (c : Bool) : (typeWords n c).filter (· ≠ "const") = typeWords n false ∧
      (typeWords n c).contains "const" = c := by
    cases n <;> cases c <;> decide
  cases ht with
  | @value n c | @pointer n c d =>
      rw [castTarget?, typeSpec, (hwords n c).1, (hwords n c).2, resolve?_typeWords haliases]
      rfl

theorem isCastType_of_castTarget? {aliases : Aliases} {type : TypeSpec} {t : CType}
    (h : castTarget? aliases type = some t) : IsCastType t := by
  rw [castTarget?, Option.map_eq_some_iff] at h
  obtain ⟨n, -, rfl⟩ := h
  cases type.pointer with
  | none => exact .value
  | some pointer => exact .pointer

/-! ### Expressions -/

/-- Where a sign stands before an operand, the printed text of the operand does not begin with the
same sign. -/
def KeepsSignsApart (types : NodeTypes) (chain : Chain) (e : Expr) : Prop :=
  ∀ node op operand, .unary node op operand ∈ e.parts → op = .plus ∨ op = .minus →
    ∀ text c', (printExpr types [] operand).runOn chain = (.ok text, c') →
      ¬ op.spelling.toList <+: text.toList

variable {aliases : Aliases} {chain : Chain} {e : Expr}

/-- The text is read as an expression of the same form, and checking it finds no flaw and the same
types, node by node. -/
def SaysAgain (aliases : Aliases) (chain : Chain) (e : Expr) (text : String) : Prop :=
  let setting := settingIn aliases chain none
  ∃ e', ReadsExpr aliases text e' ∧ e'.outline = e.outline ∧
    (checkExpr setting e').2.report = [] ∧
    (checkExpr setting e').1 = (checkExpr setting e).1 ∧
    e'.nodes.map (checkExpr setting e').2.types.find? =
      e.nodes.map (checkExpr setting e).2.types.find?

section Clean

variable (hprints : PrintsAsItself {name | BoundIn chain.scopes name} chain)
  (hclean : (checkExpr (settingIn aliases chain none) e).2.report = [])
include hprints hclean

/-- What operators are applied to is printed as its plain text. -/
theorem exists_runOn_operand {node : Node} {op : UnaryOp} {operand : Expr}
    (hmem : .unary node op operand ∈ e.parts) :
    let types := (checkExpr (settingIn aliases chain none) e).2.types
    ∃ c', (printExpr types [] operand).runOn chain = (.ok (plainText types operand), c') := by
  obtain ⟨htypes, hscoped⟩ := checkExpr_clean (fun _ h => boundIn_of_typesOf h) hclean
  obtain ⟨hnodes, hnames⟩ := Expr.subset_of_mem_parts e hmem
  obtain ⟨text, c', hrun, rfl, -⟩ := printExpr_gives operand
    (fun id hid => htypes id (hnodes (List.mem_cons_of_mem _ hid)))
    (fun name hname => hscoped name (hnames hname)) chain hprints
  exact ⟨c', hrun⟩

theorem keepsSignsApart_iff :
    KeepsSignsApart (checkExpr (settingIn aliases chain none) e).2.types chain e ↔
      ∀ node op operand, .unary node op operand ∈ e.parts → op = .plus ∨ op = .minus →
        ¬ op.spelling.toList <+:
          (plainText (checkExpr (settingIn aliases chain none) e).2.types operand).toList := by
  constructor
  · intro h node op operand hmem hop
    obtain ⟨c', hrun⟩ := exists_runOn_operand hprints hclean hmem
    exact h node op operand hmem hop _ c' hrun
  · intro h node op operand hmem hop text c' htext
    obtain ⟨c₁, hrun⟩ := exists_runOn_operand hprints hclean hmem
    rw [hrun, Prod.mk.injEq, Except.ok.injEq] at htext
    rw [← htext.1]
    exact h node op operand hmem hop

/-- An expression that is checked without a flaw has what its text needs to be read back. -/
theorem readable_of_clean (horderly : Orderly e.nodes e.parts)
    (hsigns : KeepsSignsApart (checkExpr (settingIn aliases chain none) e).2.types chain e) :
    Readable (checkExpr (settingIn aliases chain none) e).2.types e.parts where
  callees := horderly.callsNames
  signs := (keepsSignsApart_iff hprints hclean).mp hsigns
  addresses node operand hmem := by
    obtain ⟨t, -, hsuits⟩ := checkExpr_settled horderly hclean _ hmem
    exact .inl hsuits
  casts node type operand hmem := by
    obtain ⟨t, hfind, hsuits⟩ := checkExpr_settled horderly hclean _ hmem
    exact ⟨t, hfind, isCastType_of_castTarget? hsuits⟩

end Clean

/-- A text that is read as tokens that spell an expression reads as one of its shape. -/
theorem readsExpr_of_readsAs {source : String} (hnesting : e.nesting ≤ Parser.maxDepth)
    (h : ReadsAs aliases source.toList (Derives Anywhere (.expr .assignment e))) :
    ∃ e', ReadsExpr aliases source e' ∧ e'.nodes.Nodup ∧ e'.shape = e.shape := by
  obtain ⟨tokens, hscan, hend, hderives⟩ := h.sentence
  have hspells : Spells (sentence tokens) e := ⟨hderives, hnesting⟩
  obtain ⟨e', report, hparse⟩ := parseExpr_of_spells hend hspells
  obtain ⟨rfl, -⟩ := derives_of_parseExpr hend hparse
  exact ⟨e', ⟨_, hscan, rfl, hparse⟩, nodup_parseExpr hparse,
    shape_eq_of_parseExpr hend hparse hspells.derives⟩

/-- An expression is read from a source and checked without a flaw, names are their own code, no
alias changes a built-in type, only names are called, and no two signs come together. Then it is
printed to a text that reads again as the expression, up to the spelling of its casts, and every
node has the type that it had. -/
theorem printed_expression_reads_again {source : String} {scan : Scan} {parsing : Report}
    (haliases : KeepsTypeWords aliases) (hscan : Scan.ofSource aliases source = .ok scan)
    (hparse : parseExpr scan.tokens = (some e, parsing))
    (hprints : PrintsAsItself {name | BoundIn chain.scopes name} chain)
    (hclean : (checkExpr (settingIn aliases chain none) e).2.report = [])
    (hcalls : Expr.CallsNames e.parts)
    (hsigns : KeepsSignsApart (checkExpr (settingIn aliases chain none) e).2.types chain e) :
    ∃ text c', (printExpr (checkExpr (settingIn aliases chain none) e).2.types [] e).runOn chain =
      (.ok text, c') ∧ SaysAgain aliases chain e text := by
  obtain ⟨hend, hformed⟩ := Scan.sentence_of_ofSource hscan
  obtain ⟨-, hderives, hnesting, -⟩ := derives_of_parseExpr hend hparse
  have horderly : Orderly e.nodes e.parts := ⟨nodup_parseExpr hparse, hcalls⟩
  obtain ⟨htypes, hscoped⟩ := checkExpr_clean (fun _ h => boundIn_of_typesOf h) hclean
  obtain ⟨text, c', hrun, rfl, -⟩ := printExpr_gives e htypes hscoped chain hprints
  have hreadable := readable_of_clean hprints hclean horderly hsigns
  obtain ⟨e', hread, hnodup', hshape⟩ := readsExpr_of_readsAs
    ((Expr.nesting_respell e).trans_le hnesting) (readsBack hderives hformed hreadable).reads
  refine ⟨_, c', hrun, e', hread, Expr.outline_of_shape_eq hshape, ?_⟩
  refine checkExpr_follows hshape horderly.nodup hnodup' hcalls ?_ hclean
  -- a cast is spelled anew with the name of the type that its old spelling was resolved to
  intro node type operand hmem
  obtain ⟨t, hfind, hsuits⟩ := checkExpr_settled horderly hclean _ hmem
  have hspelling := congrArg (castTarget? aliases) (castSpelling_of_find? hfind)
  rw [castTarget?_typeSpec haliases (isCastType_of_castTarget? hsuits)] at hspelling
  exact hspelling.trans hsuits.symm

/-- Whether a part of an expression calls only a name and is no sign in front of the same sign. -/
def isPlainPart (types : NodeTypes) : Expr → Bool
  | .call _ (.name ..) _ => true
  | .call .. => false
  | .unary _ op operand => !((op = .plus || op = .minus) &&
    op.spelling.toList.isPrefixOf (plainText types operand).toList)
  | _ => true

theorem callsNames_of_isPlainPart {types : NodeTypes} {parts : List Expr}
    (h : ∀ part ∈ parts, isPlainPart types part = true) : Expr.CallsNames parts := by
  intro node callee args hmem
  have hcallee := h _ hmem
  cases callee with
  | name calleeNode text => exact ⟨calleeNode, text, rfl⟩
  | _ => cases hcallee

theorem not_prefix_of_isPlainPart {types : NodeTypes} {node : Node} {op : UnaryOp} {operand : Expr}
    (h : isPlainPart types (.unary node op operand) = true) (hop : op = .plus ∨ op = .minus) :
    ¬ op.spelling.toList <+: (plainText types operand).toList := by
  intro hprefix
  rw [← List.isPrefixOf_iff_prefix] at hprefix
  simp only [isPlainPart, hprefix, Bool.and_true, Bool.not_eq_true', Bool.or_eq_false_iff,
    decide_eq_false_iff_not] at h
  exact hop.elim h.1 h.2

/-- Two names that print as themselves, one of them that of a function. -/
def verbatimChain : Chain :=
  ⟨[⟨[("x", [.ofText (CType.num .float).addConst "x"]),
    ("f", [.ofText (CType.fn (CType.num .float) [CType.num .float]) "f"])],
    [], [], .empty, none⟩], .empty⟩

theorem printed_expression_reads_again_cast :
    ∃ scan e, Scan.ofSource [("scalar", .float)] "(scalar const)f(-x)" = .ok scan ∧
      parseExpr scan.tokens = (some e, []) ∧
      KeepsTypeWords [("scalar", .float)] ∧
      PrintsAsItself {name | BoundIn verbatimChain.scopes name} verbatimChain ∧
      let setting := settingIn [("scalar", .float)] verbatimChain none
      let types := (checkExpr setting e).2.types
      (checkExpr setting e).2.report = [] ∧ Expr.CallsNames e.parts ∧
      KeepsSignsApart types verbatimChain e ∧
      ∃ text c', (printExpr types [] e).runOn verbatimChain = (.ok text, c') ∧
        SaysAgain [("scalar", .float)] verbatimChain e text := by
  have haliases : KeepsTypeWords [("scalar", .float)] := by
    unfold KeepsTypeWords
    decide +kernel
  have hverbatim : ∀ s ∈ verbatimChain.scopes, Verbatim s := by
    unfold Verbatim
    decide +kernel
  obtain ⟨scan, hscan, hparsing, e, he, hclean, hplain⟩ := exists_ok_of_decide
    (x := Scan.ofSource [("scalar", .float)] "(scalar const)f(-x)")
    (P := fun scan => (parseExpr scan.tokens).2 = [] ∧ ∃ e ∈ (parseExpr scan.tokens).1,
      let setting := settingIn [("scalar", .float)] verbatimChain none
      (checkExpr setting e).2.report = [] ∧
        ∀ part ∈ e.parts, isPlainPart (checkExpr setting e).2.types part = true)
    (by decide +kernel)
  have hparse : parseExpr scan.tokens = (some e, []) := by
    rw [← hparsing, ← Option.mem_def.mp he]
  have hprints := printsAsItself_of_verbatim hverbatim
  have hcalls := callsNames_of_isPlainPart hplain
  have hsigns := (keepsSignsApart_iff hprints hclean).mpr fun _ _ _ hmem =>
    not_prefix_of_isPlainPart (hplain _ hmem)
  exact ⟨scan, e, hscan, hparse, haliases, hprints, hclean, hcalls, hsigns,
    printed_expression_reads_again haliases hscan hparse hprints hclean hcalls hsigns⟩

end KernelWeaver
