import KernelWeaver.Proofs.Code.Parameters
import KernelWeaver.Proofs.Printing.Literals
import KernelWeaver.Proofs.RoundTrip

/-!
# Reading printed expressions with constants for names

A checked expression is printed with the code of its names in their place, and constants may have a
sign. The text is read as the expression with what the names stand for, as long as no sign comes to
stand in front of the same sign.
-/

namespace KernelWeaver

open Code Snippet Typing Printing

variable {aliases : Aliases} {types : NodeTypes} {names : String → Option (List CType)}
  {replacement : Node → String → Expr} {e : Expr}

/-- What is called is a name and stands for a name. -/
def CallsReplacedNames (replacement : Node → String → Expr) (parts : List Expr) : Prop :=
  ∀ node callee args, .call node callee args ∈ parts → ∃ calleeNode name other word,
    callee = .name calleeNode name ∧ replacement calleeNode name = .name other word

/-- Where a sign stands before an operand, the text of the operand with code for its names does not
begin with the same sign. -/
def KeepsReplacedSignsApart (types : NodeTypes) (replacement : Node → String → Expr)
    (parts : List Expr) : Prop :=
  ∀ node op operand, .unary node op operand ∈ parts → op = .plus ∨ op = .minus →
    ¬ op.spelling.toList <+: (plainText types (operand.expand replacement)).toList

/-- Whatever its address is taken of does not begin with the mark of an address. -/
theorem address_expand
    (hstands : ∀ node name, (names name).isSome = true →
      StandsFor aliases types (names name) (replacement node name)) {operand : Expr}
    (hassignable : operand.isAssignable = true)
    (hnames : ∀ name ∈ operand.names, (names name).isSome = true) :
    (operand.expand replacement).isAssignable = true ∨
      ¬ ['&'] <+: (plainText types (operand.expand replacement)).toList := by
  cases operand with
  | name node name =>
      right
      cases hstands node name (hnames name List.mem_cons_self) with
      | constant _ _ _ begins => exact begins
      | operand spelled readable =>
          obtain ⟨ts, hderives, hformed⟩ := spelled
          obtain ⟨c, more, htext, -, hne⟩ := (readsBack hderives hformed readable).starts
          rw [Expr.expand, htext, List.cons_prefix_cons]
          exact fun h => hne h.1.symm
  | group node inner =>
      right
      have htext : (plainText types ((Expr.group node inner).expand replacement)).toList =
          '(' :: ((plainText types (inner.expand replacement)).toList ++ [')']) := by
        simp [Expr.expand, plainText]
      rw [htext, List.cons_prefix_cons]
      exact fun h => absurd h.1 (by decide)
  | subscript => exact .inl rfl
  | unary node op inner =>
      cases op with
      | deref => exact .inl rfl
      | _ => cases hassignable
  | _ => cases hassignable

/-- An expression with other expressions for its names has what its text needs to be read back, if
these have it and the rest of the expression keeps it. -/
theorem readable_expand_of_parts
    (hreplaced : ∀ node name, .name node name ∈ e.parts →
      Readable types (replacement node name).parts)
    (haddresses : ∀ node operand, .unary node .addressOf operand ∈ e.parts →
      (operand.expand replacement).isAssignable = true ∨
        ¬ ['&'] <+: (plainText types (operand.expand replacement)).toList)
    (hcasts : ∀ node type operand, .cast node type operand ∈ e.parts →
      ∃ t, types.find? node.id = some t ∧ IsCastType t)
    (hcalls : CallsReplacedNames replacement e.parts)
    (hsigns : KeepsReplacedSignsApart types replacement e.parts) :
    Readable types (e.expand replacement).parts := by
  constructor
  · intro node callee args hmem
    obtain ⟨q, hq, hne, heq⟩ | ⟨n, text, hname, hpart⟩ := Expr.isExpandedPart_of_mem e hmem
    · obtain ⟨f, as, rfl, rfl⟩ := Expr.eq_call_of_expand hne heq
      obtain ⟨calleeNode, name, other, word, rfl, hword⟩ := hcalls _ _ _ hq
      exact ⟨other, word, hword⟩
    · exact (hreplaced n text hname).callees node callee args hpart
  · intro node op operand hmem hop
    obtain ⟨q, hq, hne, heq⟩ | ⟨n, text, hname, hpart⟩ := Expr.isExpandedPart_of_mem e hmem
    · obtain ⟨a, rfl, rfl⟩ := Expr.eq_unary_of_expand hne heq
      exact hsigns node op a hq hop
    · exact (hreplaced n text hname).signs node op operand hpart hop
  · intro node operand hmem
    obtain ⟨q, hq, hne, heq⟩ | ⟨n, text, hname, hpart⟩ := Expr.isExpandedPart_of_mem e hmem
    · obtain ⟨a, rfl, rfl⟩ := Expr.eq_unary_of_expand hne heq
      exact haddresses node a hq
    · exact (hreplaced n text hname).addresses node operand hpart
  · intro node type operand hmem
    obtain ⟨q, hq, hne, heq⟩ | ⟨n, text, hname, hpart⟩ := Expr.isExpandedPart_of_mem e hmem
    · obtain ⟨a, rfl⟩ := Expr.eq_cast_of_expand hne heq
      exact hcasts node type a hq
    · exact (hreplaced n text hname).casts node type operand hpart

/-- The expansion of a checked expression has what its text needs to be read back. -/
theorem readable_expand
    (hstands : ∀ node name, (names name).isSome = true →
      StandsFor aliases types (names name) (replacement node name))
    (hnames : ∀ name ∈ e.names, (names name).isSome = true)
    (hsettled : ∀ part ∈ e.parts, ∃ t, types.find? part.id = some t ∧ Suits aliases t part)
    (hcalls : CallsReplacedNames replacement e.parts)
    (hsigns : KeepsReplacedSignsApart types replacement e.parts) :
    Readable types (e.expand replacement).parts := by
  refine readable_expand_of_parts (fun node name hmem => ?_) (fun node operand hmem => ?_)
    (fun node type operand hmem => ?_) hcalls hsigns
  · have hbound := hnames name ((Expr.subset_of_mem_parts e hmem).2 List.mem_cons_self)
    cases hstands node name hbound with
    | constant _ _ readable => exact readable
    | operand _ readable => exact readable
  · obtain ⟨t, -, hsuits⟩ := hsettled _ hmem
    exact address_expand hstands hsuits fun name hmem' =>
      hnames name ((Expr.subset_of_mem_parts e hmem).2 hmem')
  · obtain ⟨t, hfind, hsuits⟩ := hsettled _ hmem
    exact ⟨t, hfind, isCastType_of_castTarget? hsuits⟩

variable {chain : Chain}

/-- An expression is read from a source and checked without a flaw, the names of constants stand for
literals that may have a sign and other names for operands, only names are called, and no two signs
come together. Then it is printed to a text that is read as the expression with what the names stand
for in their place, unless that is nested too deeply. -/
theorem printed_expression_reads_as_expansion {source : String} {scan : Scan} {parsing : Report}
    {text : String → String}
    (hscan : Scan.ofSource aliases source = .ok scan)
    (hparse : parseExpr scan.tokens = (some e, parsing))
    (hclean : (checkExpr (settingIn aliases chain none) e).2.report = [])
    (htypes : types = (checkExpr (settingIn aliases chain none) e).2.types)
    (hprints : PrintsAs text {name | BoundIn chain.scopes name} chain)
    (htext : ∀ node name, plainText types (replacement node name) = text name)
    (hstands : ∀ node name, BoundIn chain.scopes name → StandsFor aliases types
      ((settingIn aliases chain none).typesOf name) (replacement node name))
    (hcalls : CallsReplacedNames replacement e.parts)
    (hsigns : KeepsReplacedSignsApart types replacement e.parts)
    (hnesting : (e.expand replacement).nesting ≤ Parser.maxDepth) :
    ∃ printed c', (printExpr types [] e).runOn chain = (.ok printed, c') ∧
      ∃ e', ReadsExpr aliases printed e' ∧
        e'.shape = ((e.expand replacement).respell (castSpelling types)).shape := by
  subst htypes
  obtain ⟨hend, hformed⟩ := Scan.sentence_of_ofSource hscan
  obtain ⟨-, hderives, -, -⟩ := derives_of_parseExpr hend hparse
  have hcallsNames : Expr.CallsNames e.parts := by
    intro node callee args hmem
    obtain ⟨calleeNode, name, -, -, hcallee, -⟩ := hcalls node callee args hmem
    exact ⟨calleeNode, name, hcallee⟩
  have horderly : Orderly e.nodes e.parts := ⟨nodup_parseExpr hparse, hcallsNames⟩
  obtain ⟨hnodes, hscoped⟩ := checkExpr_clean (fun _ h => boundIn_of_typesOf h) hclean
  have hnames : e.Scoped {name | ((settingIn aliases chain none).typesOf name).isSome = true} :=
    (checkExpr_clean (fun _ h => h) hclean).2
  obtain ⟨t, ht⟩ := (checkExpr_clean_iff (settingIn aliases chain none) e).mp hclean
  have hstands' := fun node name h => hstands node name (boundIn_of_typesOf h)
  have hcode : ∀ node name, plainText (checkExpr (settingIn aliases chain none) e).2.types
      (replacement node name) = nameCode text [] name := htext
  obtain ⟨printed, c', hrun, rfl, -⟩ := printExpr_givesWhere hcode e hnodes
    (fun name h => .inr (hscoped name h)) chain hprints
  have hreadable := readable_expand hstands' hnames (checkExpr_settled horderly hclean) hcalls
    hsigns
  obtain ⟨ts, hspelled, hts⟩ := expands hstands' hderives hformed hcallsNames t ht
  obtain ⟨e', hread, -, hshape⟩ := readsExpr_of_readsAs
    ((Expr.nesting_respell _).trans_le hnesting) (readsBack hspelled hts hreadable).reads
  exact ⟨_, c', hrun, e', hread, hshape⟩

/-! ### Parameters with one value -/

/-- What stands for a name: the literal of a parameter, and any other name for itself. -/
def inlined (literal : String → String) (params : List String) (node : Node) (name : String) :
    Expr :=
  if name ∈ params then literalExpr node (literal name) else .name node name

variable {s t : Scope} {outer : List Scope} {sink : CodeStream} {literal : String → String}
  {params : List String} {type : Numeric} {suffix : String} {members : List (Table Float)}

theorem plainText_inlined (hliterals : ∀ name ∈ params, IsLiteral (literal name).toList)
    (node : Node) (name : String) : plainText types (inlined literal params node name) =
      if name ∈ params then literal name else name := by
  rw [inlined]
  split
  next hname => exact plainText_literalExpr (hliterals name hname) node
  next => rfl

theorem typesOf_eq_of_find? {name : String} {bs : List Binding}
    (h : t.bindings.find? name = some bs) :
    (settingIn aliases ⟨t :: outer, sink⟩ none).typesOf name = some (bs.map Binding.type) := by
  change Chain.typesOf ⟨t :: outer, sink⟩ name = _
  rw [Chain.typesOf, List.findSome?_cons, h]
  rfl

/-- Parameters that have one value, and names that are their own code, have the texts of what stands
for them. -/
theorem printsAs_inlined (hliterals : ∀ name ∈ params, IsLiteral (literal name).toList)
    (hverbatim : ∀ u ∈ s :: outer, Verbatim u)
    (hfind : ∀ name, t.bindings.find? name = if name ∈ params then
      some [.ofText (CType.num type).addConst (literal name)] else s.bindings.find? name) :
    PrintsAs (fun name => if name ∈ params then literal name else name)
      {name | BoundIn (t :: outer) name} ⟨t :: outer, sink⟩ := by
  refine printsAs_of_hasCode fun name hbound => ?_
  by_cases hname : name ∈ params
  · have hbs := hfind name
    rw [if_pos hname] at hbs ⊢
    have hbinds : t.binds name = true := by simp [Scope.binds, Table.has, hbs]
    refine ⟨t, _, by rw [List.find?_cons, hbinds], hbs, List.cons_ne_nil _ _, ?_⟩
    have hliteral := hliterals name hname
    rw [List.forall_mem_singleton]
    exact isPlainCode_ofText _ hliteral.not_mem_dollar (by simpa using hliteral.ne_nil)
  · -- any other name is found where it was found before the parameters were bound
    have hbs := hfind name
    rw [if_neg hname] at hbs ⊢
    have hbinds : t.binds name = s.binds name := by simp [Scope.binds, Table.has, hbs]
    have hbound' : BoundIn (s :: outer) name := by
      rw [boundIn_cons, ← hbinds, ← boundIn_cons]
      exact hbound
    exact (hasCode_of_verbatim hverbatim hbound').of_find?_eq hbs

/-- Parameters that have one value are bound where all names are their own code, and an expression
is checked without a flaw behind them. It is printed to a text that is read as the expression with
the literals of the values for the parameters, if no two signs come together and no parameter is
called. -/
theorem printed_parameters_read_as_literals {source : String} {scan : Scan} {parsing : Report}
    (hverbatim : ∀ u ∈ s :: outer, Verbatim u)
    (hbind : (Emit.bindParameters type suffix members params).runOn ⟨s :: outer, sink⟩ =
      (.ok (), chain))
    (hsame : ∀ name ∈ params, Emit.Homogeneous members name)
    (hfinite : ∀ name ∈ params, type.IsFinite (Emit.memberValue members 0 name))
    (hidentifiers : ∀ name, BoundIn chain.scopes name →
      Lexer.IsText aliases .identifier name.toList)
    (hscan : Scan.ofSource aliases source = .ok scan)
    (hparse : parseExpr scan.tokens = (some e, parsing))
    (hclean : (checkExpr (settingIn aliases chain none) e).2.report = [])
    (htypes : types = (checkExpr (settingIn aliases chain none) e).2.types)
    (hreplacement : replacement =
      inlined (fun name => type.literal (Emit.memberValue members 0 name)) params)
    (hcalls : CallsReplacedNames replacement e.parts)
    (hsigns : KeepsReplacedSignsApart types replacement e.parts)
    (hnesting : (e.expand replacement).nesting ≤ Parser.maxDepth) :
    ∃ printed c', (printExpr types [] e).runOn chain = (.ok printed, c') ∧
      ∃ e', ReadsExpr aliases printed e' ∧
        e'.shape = ((e.expand replacement).respell (castSpelling types)).shape := by
  obtain ⟨t, rfl, hfind⟩ := Emit.find?_of_bindParameters hbind hsame
  have hliterals : ∀ name ∈ params,
      IsLiteral (type.literal (Emit.memberValue members 0 name)).toList :=
    fun name hname => Numeric.isLiteral_literal (hfinite name hname)
  subst hreplacement
  refine printed_expression_reads_as_expansion hscan hparse hclean htypes
    (printsAs_inlined hliterals hverbatim hfind) (plainText_inlined hliterals) ?_ hcalls hsigns
    hnesting
  intro node name hbound
  rw [inlined]
  split
  next hname =>
    have hbs := hfind name
    rw [if_pos hname] at hbs
    rw [typesOf_eq_of_find? hbs]
    exact standsFor_literalExpr (hliterals name hname) node
  next => exact standsFor_name node (hidentifiers name hbound)

/-- A minus in front of a parameter with a negative value becomes a step. -/
example : plainText [] ((Expr.unary default .minus (.name default "p")).expand
    (inlined (fun _ => "-1.0f") ["p"])) = "--1.0f" := by
  decide

end KernelWeaver
