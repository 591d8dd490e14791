import KernelWeaver.Printing.Expr
import KernelWeaver.Proofs.Code.Markers
import KernelWeaver.Proofs.Code.Resolution
import KernelWeaver.Proofs.Snippet.Expansion

/-!
# Expressions over names with fixed texts

Where the code of every name is a fixed text, the text of an expression does not depend on the
scopes, and printing it is no more than writing down the expression with these texts for the names.
-/

namespace KernelWeaver.Printing

open Code Code.Emit Snippet Typing

/-- However names are referred to one after the other, each of those that are known is its own
code. -/
def PrintsAsItself (known : Set String) (c : Chain) : Prop :=
  ∀ references : List (String × Option CType), (∀ r ∈ references, r.1 ∈ known) →
    ∃ c', (references.mapM fun r => resolve r.1 r.2).runOn c =
      (.ok (references.map Prod.fst), c')

mutual

/-- The text of an expression whose names are their own code. -/
def plainText (types : NodeTypes) : Expr → String
  | .number _ lexeme _ => lexeme
  | .bool _ value => if value then "true" else "false"
  | .string _ lexeme => lexeme
  | .name _ name => name
  | .unary _ op operand => op.spelling ++ plainText types operand
  | .binary _ op left right =>
    plainText types left ++ " " ++ op.spelling ++ " " ++ plainText types right
  | .call _ callee args => callText (plainText types callee) (plainTexts types args)
  | .cast node _ operand =>
    "(" ++ ((types.find? node.id).elim "" CType.name) ++ ")" ++ plainText types operand
  | .assign _ op target value =>
    plainText types target ++ " " ++ op.spelling ++ " " ++ plainText types value
  | .conditional _ condition yes no =>
    plainText types condition ++ " ? " ++ plainText types yes ++ " : " ++ plainText types no
  | .subscript _ array index => plainText types array ++ "[" ++ plainText types index ++ "]"
  | .group _ inner => "(" ++ plainText types inner ++ ")"
  | .stepBefore _ op target => op.spelling ++ plainText types target
  | .stepAfter _ op target => plainText types target ++ op.spelling

/-- The texts of several expressions whose names are their own code. -/
def plainTexts (types : NodeTypes) : List Expr → List String
  | [] => []
  | e :: es => plainText types e :: plainTexts types es

end

/-- However names are referred to one after the other, the code of each of those that are known is
the text given for it. -/
def PrintsAs (text : String → String) (known : Set String) (c : Chain) : Prop :=
  ∀ references : List (String × Option CType), (∀ r ∈ references, r.1 ∈ known) →
    ∃ c', (references.mapM fun r => resolve r.1 r.2).runOn c =
      (.ok (references.map fun r => text r.1), c')

/-- The code of a name where some names are locals and the others have these texts. -/
def nameCode (text : String → String) (locals : List String) (name : String) : String :=
  if locals.contains name then localName name else text name

/-- Wherever the known names have these texts, the computation gives the value, and the names have
the texts behind it as well. -/
def GivesWhere {α : Type} (text : String → String) (known : Set String) (m : Emit α) (a : α) :
    Prop :=
  ∀ c, PrintsAs text known c → Succeeds m c fun b c' => b = a ∧ PrintsAs text known c'

/-- Wherever the known names are their own code, the computation gives the value, and the names are
their own code behind it as well. -/
def Gives {α : Type} (known : Set String) (m : Emit α) (a : α) : Prop :=
  ∀ c, PrintsAsItself known c → Succeeds m c fun b c' => b = a ∧ PrintsAsItself known c'

variable {α β : Type} {text : String → String} {known : Set String} {types : NodeTypes}
  {locals : List String} {replacement : Node → String → Expr}

namespace GivesWhere

theorem pure (a : α) : GivesWhere text known (pure a) a := fun _ hc => .pure ⟨rfl, hc⟩

theorem bind {m : Emit α} {f : α → Emit β} {a : α} {b : β} (hm : GivesWhere text known m a)
    (hf : GivesWhere text known (f a) b) : GivesWhere text known (m >>= f) b := by
  intro c hc
  refine .bind (hm c hc) ?_
  rintro _ c' ⟨rfl, hc'⟩
  exact hf c' hc'

theorem resolve {name : String} (h : name ∈ known) (wanted : Option CType) :
    GivesWhere text known (resolve name wanted) (text name) := by
  intro c hc
  obtain ⟨c', hrun⟩ := hc [(name, wanted)] (by simpa using h)
  obtain ⟨found, _, c₁, htexts, hresolve, -⟩ := runOn_mapM_cons_eq_ok.mp hrun
  obtain rfl := (List.cons.inj htexts).1
  refine ⟨_, c₁, hresolve, rfl, fun references hknown => ?_⟩
  -- what is referred to from here on could have been referred to behind the first name
  obtain ⟨c₂, hmore⟩ := hc ((name, wanted) :: references) (List.forall_mem_cons.mpr ⟨h, hknown⟩)
  obtain ⟨again, texts, c₃, heq, hfirst, hrest⟩ := runOn_mapM_cons_eq_ok.mp hmore
  rw [hresolve, Prod.mk.injEq, Except.ok.injEq] at hfirst
  obtain ⟨rfl, rfl⟩ := hfirst
  obtain ⟨-, rfl⟩ := List.cons.inj heq
  exact ⟨c₂, hrest⟩

theorem typeOf {id : NodeId} {t : CType} (h : types.find? id = some t) :
    GivesWhere text known (typeOf types id) t := by
  rw [Printing.typeOf, h]
  exact .pure t

theorem printName {name : String} (h : name ∈ locals ∨ name ∈ known) (wanted : Option CType) :
    GivesWhere text known (printName locals name wanted) (nameCode text locals name) := by
  rw [Printing.printName, nameCode]
  split
  next => exact .pure _
  next hlocal => exact .resolve (h.resolve_left (by simpa using hlocal)) wanted

theorem calleeName {id : NodeId} {t : CType} {name : String} (h : types.find? id = some t)
    (hname : name ∈ locals ∨ name ∈ known) :
    GivesWhere text known (calleeName types locals id name) (nameCode text locals name) :=
  .bind (.typeOf h) (.printName hname (some t))

end GivesWhere

mutual

/-- Printing gives the plain text with the replacements of names if the nodes have types and the
names are known. -/
theorem printExpr_givesWhere
    (htext : ∀ node name, plainText types (replacement node name) = nameCode text locals name)
    (e : Expr) (htypes : ∀ id ∈ e.nodes, (types.find? id).isSome = true)
    (hscoped : ∀ name ∈ e.names, name ∈ locals ∨ name ∈ known) :
    GivesWhere text known (printExpr types locals e) (plainText types (e.expand replacement)) := by
  cases e with
  | number node lexeme type => exact .pure _
  | bool node value => exact .pure _
  | string node lexeme => exact .pure _
  | name node name =>
      rw [Expr.expand, htext]
      exact .printName (hscoped name List.mem_cons_self) none
  | group node inner =>
      rw [Expr.nodes, List.forall_mem_cons] at htypes
      exact .bind (printExpr_givesWhere htext inner htypes.2 hscoped) (.pure _)
  | unary node op operand =>
      rw [Expr.nodes, List.forall_mem_cons] at htypes
      exact .bind (printExpr_givesWhere htext operand htypes.2 hscoped) (.pure _)
  | binary node op left right =>
      rw [Expr.nodes, List.forall_mem_cons, List.forall_mem_append] at htypes
      rw [Expr.names, List.forall_mem_append] at hscoped
      refine .bind (printExpr_givesWhere htext left htypes.2.1 hscoped.1) ?_
      exact .bind (printExpr_givesWhere htext right htypes.2.2 hscoped.2) (.pure _)
  | call node callee args =>
      rw [Expr.nodes, List.forall_mem_cons, List.forall_mem_append] at htypes
      rw [Expr.names, List.forall_mem_append] at hscoped
      have hargs := printAll_givesWhere htext args htypes.2.2 hscoped.2
      have hcallee := printExpr_givesWhere htext callee htypes.2.1 hscoped.1
      cases callee with
      | name calleeNode name =>
          obtain ⟨t, ht⟩ := Option.isSome_iff_exists.mp (htypes.2.1 _ List.mem_cons_self)
          rw [Expr.expand, Expr.expand, plainText, htext]
          exact .bind (.calleeName ht (hscoped.1 name List.mem_cons_self)) (.bind hargs (.pure _))
      | _ => exact .bind hcallee (.bind hargs (.pure _))
  | cast node type operand =>
      rw [Expr.nodes, List.forall_mem_cons] at htypes
      obtain ⟨t, ht⟩ := Option.isSome_iff_exists.mp htypes.1
      rw [Expr.expand, plainText, ht]
      refine .bind (.typeOf ht) ?_
      exact .bind (printExpr_givesWhere htext operand htypes.2 hscoped) (.pure _)
  | assign node op target value =>
      rw [Expr.nodes, List.forall_mem_cons, List.forall_mem_append] at htypes
      rw [Expr.names, List.forall_mem_append] at hscoped
      refine .bind (printExpr_givesWhere htext target htypes.2.1 hscoped.1) ?_
      exact .bind (printExpr_givesWhere htext value htypes.2.2 hscoped.2) (.pure _)
  | conditional node condition yes no =>
      rw [Expr.nodes, List.forall_mem_cons, List.forall_mem_append,
        List.forall_mem_append] at htypes
      rw [Expr.names, List.forall_mem_append, List.forall_mem_append] at hscoped
      refine .bind (printExpr_givesWhere htext condition htypes.2.1.1 hscoped.1.1) ?_
      refine .bind (printExpr_givesWhere htext yes htypes.2.1.2 hscoped.1.2) ?_
      exact .bind (printExpr_givesWhere htext no htypes.2.2 hscoped.2) (.pure _)
  | subscript node array index =>
      rw [Expr.nodes, List.forall_mem_cons, List.forall_mem_append] at htypes
      rw [Expr.names, List.forall_mem_append] at hscoped
      refine .bind (printExpr_givesWhere htext array htypes.2.1 hscoped.1) ?_
      exact .bind (printExpr_givesWhere htext index htypes.2.2 hscoped.2) (.pure _)
  | stepBefore node op target =>
      rw [Expr.nodes, List.forall_mem_cons] at htypes
      exact .bind (printExpr_givesWhere htext target htypes.2 hscoped) (.pure _)
  | stepAfter node op target =>
      rw [Expr.nodes, List.forall_mem_cons] at htypes
      exact .bind (printExpr_givesWhere htext target htypes.2 hscoped) (.pure _)

theorem printAll_givesWhere
    (htext : ∀ node name, plainText types (replacement node name) = nameCode text locals name)
    (es : List Expr) (htypes : ∀ id ∈ Expr.nodesOfAll es, (types.find? id).isSome = true)
    (hscoped : ∀ name ∈ Expr.namesOfAll es, name ∈ locals ∨ name ∈ known) :
    GivesWhere text known (printAll types locals es)
      (plainTexts types (Expr.expandAll replacement es)) := by
  cases es with
  | nil => exact .pure _
  | cons e es =>
      rw [Expr.nodesOfAll, List.forall_mem_append] at htypes
      rw [Expr.namesOfAll, List.forall_mem_append] at hscoped
      refine .bind (printExpr_givesWhere htext e htypes.1 hscoped.1) ?_
      exact .bind (printAll_givesWhere htext es htypes.2 hscoped.2) (.pure _)

end

/-- Printing gives the plain text if the nodes have types and the names are known. -/
theorem printExpr_gives (e : Expr) (htypes : ∀ id ∈ e.nodes, (types.find? id).isSome = true)
    (hscoped : ∀ name ∈ e.names, name ∈ known) :
    Gives known (printExpr types [] e) (plainText types e) := by
  have htext : ∀ node name, plainText types (.name node name) = name := fun _ _ => rfl
  have hgives : GivesWhere (fun name => name) known (printExpr types [] e)
      (plainText types (e.expand .name)) :=
    printExpr_givesWhere htext e htypes fun name h => .inr (hscoped name h)
  rw [Expr.expand_name] at hgives
  exact hgives

/-! ### Scopes in which names have fixed texts -/

/-- The code of the binding is the text, and reading it leaves no trace. -/
structure IsPlainCode (text : String) (b : Binding) : Prop where
  template : b.template = [.text text.toList]
  initialisers : b.initialisers = []
  field : b.field = none

/-- In the innermost scope that binds the name, every binding of it has the text for code. -/
def HasCode (scopes : List Scope) (name text : String) : Prop :=
  ∃ s bs, scopes.find? (·.binds name) = some s ∧ s.bindings.find? name = some bs ∧ bs ≠ [] ∧
    ∀ b ∈ bs, IsPlainCode text b

/-- A text without markers is a template of one segment. -/
theorem ofString_of_not_mem {text : String} (h : '$' ∉ text.toList) (hne : text ≠ "") :
    Template.ofString text = [.text text.toList] := by
  have hchars : text.toList ≠ [] := by simpa using hne
  have hread := Template.readFrom_plain (Template.isPlain_of_not_mem h [])
  rw [List.append_nil] at hread
  exact hread.trans (Template.foldr_push hchars fun ds => nofun)

theorem isPlainCode_ofText {text : String} (type : CType) (h : '$' ∉ text.toList)
    (hne : text ≠ "") : IsPlainCode text (.ofText type text) :=
  ⟨ofString_of_not_mem h hne, rfl, rfl⟩

theorem expand_of_isPlainCode {lookup : String → Emit String} {name text : String} {b : Binding}
    (h : IsPlainCode text b) : expand lookup name b = pure text := by
  rw [expand, h.template, h.initialisers, h.field]
  change (pure (String.ofList text.toList ++ "") : Emit String) = _
  rw [String.ofList_toList, String.append_empty]

/-- A name with such code is resolved without a trace. -/
theorem resolve_of_hasCode {c : Chain} {name text : String} (h : HasCode c.scopes name text)
    (wanted : Option CType) : (resolve name wanted).runOn c = (.ok text, c) := by
  obtain ⟨s, bs, hfind, hbs, hne, hcode⟩ := h
  have hbinds := List.find?_some hfind
  obtain ⟨inner, owner, outer, hspan, heq, howner, hinner⟩ :=
    exists_span (p := fun s : Scope => !s.binds name) (l := c.scopes)
      ⟨s, List.mem_of_find?_eq_some hfind, by simpa using hbinds⟩
  have hsame : owner = s := by
    have hskip : inner.find? (·.binds name) = none :=
      List.find?_eq_none.mpr fun t ht => by simpa using hinner t ht
    rw [heq, List.find?_append, hskip, Option.none_or, List.find?_cons] at hfind
    rw [Bool.not_eq_false'] at howner
    rw [howner] at hfind
    exact Option.some.inj hfind
  subst hsame
  obtain ⟨b, hmem, hselect⟩ := Scope.exists_select?_of_ne_nil hbs hne wanted
  have hsucceeds : Succeeds (resolve name wanted) c fun found c' => found = text ∧ c' = c := by
    obtain ⟨fuel, hfuel⟩ : ∃ fuel, c.resolutionBound = fuel + 1 :=
      Nat.exists_eq_succ_of_ne_zero (by rw [Chain.resolutionBound]; positivity)
    refine .bind (P := fun a c' => a = c ∧ c' = c) (.get ⟨rfl, rfl⟩) fun a c' h => ?_
    rw [h.1, h.2, hfuel, resolveWithin]
    refine .bind (P := fun a c' => a = c ∧ c' = c) (.get ⟨rfl, rfl⟩) fun a c' h => ?_
    rw [h.1, h.2]
    rw [Chain.splitAt, hspan]
    dsimp only
    rw [List.head?_cons, Option.bind_some, hselect]
    refine .without heq ?_
    rw [expand_of_isPlainCode (hcode b hmem)]
    exact .pure ⟨rfl, by rw [← heq]⟩
  obtain ⟨_, _, hrun, rfl, rfl⟩ := hsucceeds
  exact hrun

/-- Names with such code have these texts however they are referred to. -/
theorem printsAs_of_hasCode {c : Chain} (h : ∀ name ∈ known, HasCode c.scopes name (text name)) :
    PrintsAs text known c := by
  intro references hknown
  refine ⟨c, ?_⟩
  induction references with
  | nil => rfl
  | cons r references ih =>
      rw [List.forall_mem_cons] at hknown
      rw [runOn_mapM_cons_eq_ok]
      exact ⟨_, _, c, rfl, resolve_of_hasCode (h r.1 hknown.1) r.2, ih hknown.2⟩

/-- A name has the same code in front of another innermost scope that binds it to the same. -/
theorem HasCode.of_find?_eq {s t : Scope} {outer : List Scope} {name text : String}
    (h : HasCode (s :: outer) name text) (heq : t.bindings.find? name = s.bindings.find? name) :
    HasCode (t :: outer) name text := by
  obtain ⟨u, bs, hfind, hbs, hcode⟩ := h
  have hbinds : t.binds name = s.binds name := by
    rw [Scope.binds, Scope.binds, Table.has, Table.has, heq]
  rw [List.find?_cons] at hfind
  split at hfind
  next hs =>
    cases hfind
    refine ⟨t, bs, ?_, heq.trans hbs, hcode⟩
    rw [List.find?_cons, hbinds, hs]
  next hs =>
    refine ⟨u, bs, ?_, hbs, hcode⟩
    rw [List.find?_cons, hbinds, hs]
    exact hfind

/-- The code of every name that the scope binds is the name. -/
def Verbatim (s : Scope) : Prop :=
  ∀ entry ∈ s.bindings, entry.2.isEmpty = false ∧ ∀ b ∈ entry.2,
    b.template = [.text entry.1.toList] ∧ b.initialisers = [] ∧ b.field.isNone = true

theorem hasCode_of_verbatim {scopes : List Scope} (hscopes : ∀ s ∈ scopes, Verbatim s)
    {name : String} (hb : BoundIn scopes name) : HasCode scopes name name := by
  obtain ⟨s, hfind⟩ : ∃ s, scopes.find? (·.binds name) = some s := by
    rw [← Option.isSome_iff_exists, List.find?_isSome]
    exact hb
  obtain ⟨bs, hbs⟩ : ∃ bs, s.bindings.find? name = some bs :=
    Option.isSome_iff_exists.mp (by simpa [Scope.binds, Table.has] using List.find?_some hfind)
  obtain ⟨hne, hcode⟩ :=
    hscopes s (List.mem_of_find?_eq_some hfind) _ (Table.mem_of_find? hbs)
  refine ⟨s, bs, hfind, hbs, by simpa using hne, fun b hmem => ?_⟩
  obtain ⟨htemplate, hinitialisers, hfield⟩ := hcode b hmem
  exact ⟨htemplate, hinitialisers, by simpa using hfield⟩

theorem printsAsItself_of_verbatim {c : Chain} (hscopes : ∀ s ∈ c.scopes, Verbatim s) :
    PrintsAsItself {name | BoundIn c.scopes name} c :=
  printsAs_of_hasCode fun _ => hasCode_of_verbatim hscopes

end KernelWeaver.Printing
