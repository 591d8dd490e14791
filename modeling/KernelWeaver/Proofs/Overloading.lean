import KernelWeaver.Proofs.Code.Overloads
import KernelWeaver.Proofs.Compile
import KernelWeaver.Proofs.Snippet.Numbering
import KernelWeaver.Proofs.Typing.StmtOccurrences

/-!
# Calls of overloaded names

A call is typed by a search through all bindings of its name, and printed by a second search for the
type that was found. Both end at the same binding: of those in the innermost scope that has the
name, the first one that takes the arguments and matches most of them exactly.
-/

namespace KernelWeaver

open Code Snippet Typing Printing

/-- The scopes in which an expression is printed. A loop over synapses has a scope of its own. -/
def scopesAt (x : Context) (loop : Option RowLoop) (scopes : List Scope) : List Scope :=
  if x.inLoop then (loop.map RowLoop.scope).toList ++ scopes else scopes

/-- The call of a name in the scopes goes to the binding: of the bindings that the name has, it is
the best for the types of the arguments, its type is noted for the callee, and its code is printed
for the callee, whatever other names the snippet declares and whatever code has been emitted into
the scopes around the call. -/
structure CallGoesTo (aliases : Aliases) (types : NodeTypes) (scopes around : List Scope)
    (node callee : Node) (name : String) (args : List Expr) (b : Binding) : Prop where
  best : ∃ ts front back most, HasTypes aliases types args ts ∧
    BoundTo scopes name (front ++ b :: back) ∧ IsBest ts Binding.type front b back most
  noted : types.find? callee.id = some b.type
  printed : ∀ (locals : List String) (c' : Chain), name ∉ locals →
    List.Forall₂ Scope.Evolves around c'.scopes →
    (printExpr types locals (.call node (.name callee name) args)).runOn c' =
      Emit.runOn (do
        let code ← Emit.codeOf name b
        let texts ← printAll types locals args
        return callText code texts) c'

variable {aliases : Aliases} {types : NodeTypes} {c : Chain}

/-- What is chosen among the types of a name is the type of one of its bindings, and the printer
finds this binding as long as no scope in between has the name. -/
theorem callGoesTo_of_calleeChosen {around : List Scope} {callee : Node} {name : String}
    {args : List Expr} (h : CalleeChosen aliases c.typesOf callee name args types) (node : Node)
    (haround : ∀ bs, BoundTo c.scopes name bs → BoundTo around name bs) :
    ∃ b, CallGoesTo aliases types c.scopes around node callee name args b := by
  obtain ⟨choices, ts, chosen, hchoices, hts, hchosen, hnoted⟩ := h
  obtain ⟨bs, hbound, rfl⟩ := BoundTo.of_typesOf hchoices
  rw [chooseCall?_map] at hchosen
  obtain ⟨b, hb, rfl⟩ := Option.map_eq_some_iff.mp hchosen
  obtain ⟨front, back, most, rfl, hbest⟩ := isBest_of_chooseCall? hb
  refine ⟨b, ⟨ts, front, back, most, hts, hbound, hbest⟩, hnoted, fun locals c' hlocal hc' => ?_⟩
  have hbinding : c'.binding? name (some b.type) = some b :=
    binding?_of_isBest ((haround _ hbound).evolves hc') hbest
  have hcallee : (Printing.calleeName types locals callee.id name).runOn c' =
      (Emit.codeOf name b).runOn c' := by
    rw [← Emit.runOn_resolve_eq hbinding, Printing.calleeName, typeOf, hnoted, pure_bind, printName,
      if_neg (by simpa using hlocal)]
  rw [printExpr]
  exact Emit.runOn_bind_congr hcallee _

/-- Outside of loops the scopes are those of the snippet, and the scope of a loop binds nothing but
the names of the loop. -/
theorem boundTo_scopesAt {loop : Option RowLoop} {x : Context} {scopes : List Scope} {name : String}
    {bs : List Binding} (hname : name ∉ x.known (loop.map fun l => l.names.map Prod.fst))
    (h : BoundTo scopes name bs) : BoundTo (scopesAt x loop scopes) name bs := by
  rw [scopesAt]
  split
  next hloop =>
    cases loop with
    | none => exact h
    | some l =>
        refine h.cons ?_
        rw [← Bool.not_eq_true, l.binds_scope]
        exact fun hmem => hname (.inr ⟨hloop, _, rfl, hmem⟩)
  next => exact h

/-- In a snippet that is read and checked without a remark, every call of a name that neither the
snippet nor the loop around the call has declared there goes to the best binding for its arguments
in the innermost scope that binds the name: the checker notes the type of this binding, and the printer
puts its code for the callee. The same holds of an expression on its own. -/
theorem calls_go_to_best_binding (aliases : Aliases) (c : Chain) :
    (∀ source ss loop, ReadsItems aliases source ss →
      let checker := checkSnippet (settingIn aliases c (loop.map RowLoop.names)) ss
      checker.report = [] → ∀ x e, (x, e) ∈ Stmt.sitesOfItems .initial ss →
        ∀ node callee name args, .call node (.name callee name) args ∈ e.parts →
          name ∉ x.known (loop.map fun l => l.names.map Prod.fst) →
            ∃ b, CallGoesTo aliases checker.types c.scopes (scopesAt x loop c.scopes) node callee
              name args b) ∧
    ∀ source e, ReadsExpr aliases source e →
      let checker := (checkExpr (settingIn aliases c none) e).2
      checker.report = [] → ∀ node callee name args, .call node (.name callee name) args ∈ e.parts →
        ∃ b, CallGoesTo aliases checker.types c.scopes c.scopes node callee name args b := by
  constructor
  · intro source ss loop hread checker hclean x e hsite node callee name args hcall hname
    obtain ⟨ts, hderives⟩ := hread.derives
    obtain ⟨scan, -, -, hparse⟩ := hread.read
    have hnodup : (Stmt.nodesOfItems ss).Nodup := by
      have hparsed := nodup_parseItems scan.tokens
      rwa [hparse] at hparsed
    have hknown : name ∉ (settingIn aliases c (loop.map RowLoop.names)).knownIn x := by
      rw [Setting.knownIn, settingIn, Option.map_map]
      exact hname
    have hchosen := checkSnippet_sites hderives hnodup hclean x e hsite node callee name args hcall
      hknown
    exact callGoesTo_of_calleeChosen hchosen node fun _ => boundTo_scopesAt hname
  · intro source e hread checker hclean node callee name args hcall
    obtain ⟨scan, -, -, hparse⟩ := hread.read
    have hchosen := checkExpr_calls (nodup_parseExpr hparse) hclean node callee name args hcall
    exact callGoesTo_of_calleeChosen hchosen node fun _ h => h

/-- The name that an expression calls. -/
def calledName? : Expr → Option String
  | .call _ (.name _ name) _ => some name
  | _ => none

theorem eq_call_of_calledName? {e : Expr} {name : String} (h : calledName? e = some name) :
    ∃ node callee args, e = .call node (.name callee name) args := by
  unfold calledName? at h
  split at h
  next node callee _ args => exact ⟨node, callee, args, by rw [Option.some.inj h]⟩
  next => cases h

/-- Scopes in which a name is bound to a value and to functions, some of them alike. The outer scope
has a function of this name that would suit some calls better. -/
def overloadedChain : Chain where
  scopes :=
    [⟨[("f", [.ofText (CType.num .float).addConst "group->f",
        .ofText (.fn (CType.num .float) [CType.num .float]) "fabsf($(0))",
        .ofText (.fn CType.int [CType.int]) "abs($(0))",
        .ofText (.fn CType.int [CType.int]) "iabs($(0))"])], [], [], .empty, none⟩,
      ⟨[("f", [.ofText (.fn CType.uint [CType.uint]) "$(0)"]),
        ("g", [.ofText (.function CType.int [CType.int] true false) "sum($(0), $(@))"])],
        [], [], .empty, none⟩]
  sink := .empty

theorem calls_go_to_best_binding_overloaded :
    (∃ ss, ReadsItems []
        "int n = f(1); \x7b int f = n; \x7d for_each_synapse \x7b n += g(f(id_syn), x); \x7d" ss ∧
      ∃ x e node callee args, (x, e) ∈ Stmt.sitesOfItems .initial ss ∧ x.inLoop = true ∧
        .call node (.name callee "f") args ∈ e.parts ∧
        ∃ b, CallGoesTo []
          (checkSnippet (settingIn [] overloadedChain (some rowUpdateLoop.names)) ss).types
          overloadedChain.scopes (rowUpdateLoop.scope :: overloadedChain.scopes) node callee "f"
          args b) ∧
    ∃ e, ReadsExpr [] "1.0f + f(2.0f)" e ∧
      ∃ node callee args, .call node (.name callee "f") args ∈ e.parts ∧
        ∃ b, CallGoesTo [] (checkExpr (settingIn [] overloadedChain none) e).2.types
          overloadedChain.scopes overloadedChain.scopes node callee "f" args b := by
  obtain ⟨scan, hscan, hreport, hparse, hcheck, ⟨x, e⟩, hsite, hloop, hdeclared, part, hpart,
      hcalled⟩ := exists_ok_of_decide
    (x := Scan.ofSource []
      "int n = f(1); \x7b int f = n; \x7d for_each_synapse \x7b n += g(f(id_syn), x); \x7d")
    (P := fun scan => scan.report = [] ∧ (parseItems scan.tokens).2 = [] ∧
      (checkSnippet (settingIn [] overloadedChain (some rowUpdateLoop.names))
        (parseItems scan.tokens).1).report = [] ∧
      ∃ site ∈ Stmt.sitesOfItems .initial (parseItems scan.tokens).1, site.1.inLoop = true ∧
        "f" ∉ site.1.declared ∧ ∃ part ∈ site.2.parts, calledName? part = some "f")
    (by decide +kernel)
  obtain ⟨node, callee, args, rfl⟩ := eq_call_of_calledName? hcalled
  have hitems : ReadsItems []
      "int n = f(1); \x7b int f = n; \x7d for_each_synapse \x7b n += g(f(id_syn), x); \x7d"
      (parseItems scan.tokens).1 := ⟨scan, hscan, hreport, by rw [← hparse]⟩
  have hname : "f" ∉ x.known ((some rowUpdateLoop).map fun l => l.names.map Prod.fst) := by
    rintro (hmem | ⟨-, names, ⟨⟩, hmem⟩)
    · exact hdeclared hmem
    · revert hmem
      decide +kernel
  obtain ⟨scan', hscan', hreport', hparse', e', he', hcheck', part', hpart', hcalled'⟩ :=
    exists_ok_of_decide (x := Scan.ofSource [] "1.0f + f(2.0f)")
    (P := fun scan => scan.report = [] ∧ (parseExpr scan.tokens).2 = [] ∧
      ∃ e ∈ (parseExpr scan.tokens).1,
        (checkExpr (settingIn [] overloadedChain none) e).2.report = [] ∧
        ∃ part ∈ e.parts, calledName? part = some "f") (by decide +kernel)
  obtain ⟨node', callee', args', rfl⟩ := eq_call_of_calledName? hcalled'
  have hexpr : ReadsExpr [] "1.0f + f(2.0f)" e' :=
    ⟨scan', hscan', hreport', by rw [← hparse', ← Option.mem_def.mp he']⟩
  refine ⟨⟨_, hitems, x, e, node, callee, args, hsite, hloop, hpart, ?_⟩,
    e', hexpr, node', callee', args', hpart', ?_⟩
  · have hgoes := (calls_go_to_best_binding [] overloadedChain).1 _ _ (some rowUpdateLoop) hitems
      hcheck x e hsite node callee "f" args hpart hname
    rwa [scopesAt, if_pos hloop] at hgoes
  · exact (calls_go_to_best_binding [] overloadedChain).2 _ e' hexpr hcheck' node' callee' "f" args'
      hpart'

end KernelWeaver
