import KernelWeaver.Printing.Expr
import KernelWeaver.Proofs.Code.Settled
import KernelWeaver.Proofs.Outcome

/-!
# Printing twice

All that the printing of an expression does to the scopes is done by the lookups of its names. Once
an expression has been printed, printing it again gives the same text and changes nothing.
-/

namespace KernelWeaver.Printing

open Code Snippet Typing

variable {types : NodeTypes} {locals : List String}

theorem settles_typeOf (types : NodeTypes) (id : NodeId) : Emit.Settles (typeOf types id) := by
  rw [typeOf]
  split
  · exact .pure _
  · exact .fail _

theorem settles_printName (locals : List String) (name : String) (wanted : Option CType) :
    Emit.Settles (printName locals name wanted) := by
  rw [printName]
  split
  · exact .pure _
  · exact Emit.settles_resolve name wanted

mutual

theorem settles_printExpr (types : NodeTypes) (locals : List String) (e : Expr) :
    Emit.Settles (printExpr types locals e) := by
  cases e with
  | number node lexeme type => exact .pure _
  | bool node value => exact .pure _
  | string node lexeme => exact .pure _
  | name node name => exact settles_printName locals name none
  | group node inner => exact (settles_printExpr types locals inner).bind fun _ => .pure _
  | unary node op operand => exact (settles_printExpr types locals operand).bind fun _ => .pure _
  | binary node op left right =>
      exact (settles_printExpr types locals left).bind fun _ =>
        (settles_printExpr types locals right).bind fun _ => .pure _
  | call node callee args =>
      have hcallee := settles_printExpr types locals callee
      have hargs := settles_printAll types locals args
      cases callee with
      | name calleeNode name =>
          exact ((settles_typeOf types calleeNode.id).bind fun t =>
            settles_printName locals name (some t)).bind fun _ => hargs.bind fun _ => .pure _
      | _ => exact hcallee.bind fun _ => hargs.bind fun _ => .pure _
  | cast node type operand =>
      exact (settles_typeOf types node.id).bind fun _ =>
        (settles_printExpr types locals operand).bind fun _ => .pure _
  | assign node op target value =>
      exact (settles_printExpr types locals target).bind fun _ =>
        (settles_printExpr types locals value).bind fun _ => .pure _
  | conditional node condition yes no =>
      exact (settles_printExpr types locals condition).bind fun _ =>
        (settles_printExpr types locals yes).bind fun _ =>
          (settles_printExpr types locals no).bind fun _ => .pure _
  | subscript node array index =>
      exact (settles_printExpr types locals array).bind fun _ =>
        (settles_printExpr types locals index).bind fun _ => .pure _
  | stepBefore node op target => exact (settles_printExpr types locals target).bind fun _ => .pure _
  | stepAfter node op target => exact (settles_printExpr types locals target).bind fun _ => .pure _

theorem settles_printAll (types : NodeTypes) (locals : List String) (es : List Expr) :
    Emit.Settles (printAll types locals es) := by
  cases es with
  | nil => exact .pure _
  | cons e es =>
      exact (settles_printExpr types locals e).bind fun _ =>
        (settles_printAll types locals es).bind fun _ => .pure _

end

/-- On whatever scopes a name, a template or an expression has been turned into code, doing so again
at once gives the same code and leaves all scopes as they are: what they bind, how far their
initialisers have got, what they emit and have been written, and the fields of their structs. -/
theorem resolving_again_changes_nothing (c c' : Chain) (code : String) :
    (∀ name wanted, (Emit.resolve name wanted).runOn c = (.ok code, c') →
      (Emit.resolve name wanted).runOn c' = (.ok code, c')) ∧
    (∀ template, (Emit.expandText template).runOn c = (.ok code, c') →
      (Emit.expandText template).runOn c' = (.ok code, c')) ∧
    ∀ types e, (printExpr types [] e).runOn c = (.ok code, c') →
      (printExpr types [] e).runOn c' = (.ok code, c') := by
  have hagain {m : Emit String} (hm : Emit.Settles m) (hrun : m.runOn c = (.ok code, c')) :
      m.runOn c' = (.ok code, c') := (hm c code c' hrun).2 c' (.refl c')
  exact ⟨fun name wanted => hagain (Emit.settles_resolve name wanted),
    fun template => hagain (Emit.settles_expandText template),
    fun types e => hagain (settles_printExpr types [] e)⟩

/-- Two scopes, of which the outer one has a struct. Both have an initialiser that is not begun, the
inner one also one whose code has been interrupted, and a function with two bindings. -/
def nestedScopes : Chain where
  scopes := [
    { bindings := [
        ("half", [{ Binding.ofText (.num .float) "half" with initialisers := [0, 1] }]),
        ("f", [.ofText (.fn (.num .float) [.num .float]) "sqrtf($(0))",
          { Binding.ofText (.fn .int [.int]) "table[$(start) + $(0)]" with initialisers := [1] }])]
      initialisers := [⟨Template.ofString "half = 0.5f * $(start);", .unused⟩,
        ⟨Template.ofString "seed();", .pending⟩]
      emitted := []
      stream := ⟨["x = 1;"], 0⟩
      fields := none },
    { bindings := [
        ("row", [{ Binding.ofText .uint "group->row" with
          field := some ⟨"row", .uint, fun _ => .ok "3"⟩ }]),
        ("start", [{ Binding.ofText .uint "start" with initialisers := [0] }])]
      initialisers := [⟨Template.ofString "start = $(row) * 4;", .unused⟩]
      emitted := []
      stream := .empty
      fields := some [] }]
  sink := .empty

/-- The expression `f(half) + row`. -/
def callOfHalf : Expr :=
  .binary ⟨4, default⟩ .add
    (.call ⟨2, default⟩ (.name ⟨0, default⟩ "f") [.name ⟨1, default⟩ "half"])
    (.name ⟨3, default⟩ "row")

/-- The type of the function that is called. -/
def typesOfCall : NodeTypes := [(0, .fn .int [.int])]

theorem resolving_again_changes_nothing_nested :
    (∃ c', (Emit.resolve "f" (some (.fn .int [.int]))).runOn nestedScopes =
        (.ok "table[start + $(0)]", c') ∧
      (Emit.resolve "f" (some (.fn .int [.int]))).runOn c' = (.ok "table[start + $(0)]", c')) ∧
    (∃ c', (Emit.expandText "$(row) < $(half)").runOn nestedScopes = (.ok "group->row < half", c') ∧
      (Emit.expandText "$(row) < $(half)").runOn c' = (.ok "group->row < half", c')) ∧
    ∃ c', (printExpr typesOfCall [] callOfHalf).runOn nestedScopes =
        (.ok "table[start + half] + group->row", c') ∧
      c'.scopes.map Scope.emitted = [["half = 0.5f * start;"], ["start = group->row * 4;"]] ∧
      (printExpr typesOfCall [] callOfHalf).runOn c' =
        (.ok "table[start + half] + group->row", c') := by
  have hname : ((Emit.resolve "f" (some (.fn .int [.int]))).runOn nestedScopes).1 =
      .ok "table[start + $(0)]" := by decide +kernel
  have htext : ((Emit.expandText "$(row) < $(half)").runOn nestedScopes).1 =
      .ok "group->row < half" := by decide +kernel
  have hexpr : ((printExpr typesOfCall [] callOfHalf).runOn nestedScopes).1 =
      .ok "table[start + half] + group->row" := by decide +kernel
  have hemitted : ((printExpr typesOfCall [] callOfHalf).runOn nestedScopes).2.scopes.map
      Scope.emitted = [["half = 0.5f * start;"], ["start = group->row * 4;"]] := by decide +kernel
  have hrun {m : Emit String} {code : String} (h : (m.runOn nestedScopes).1 = .ok code) :
      m.runOn nestedScopes = (.ok code, (m.runOn nestedScopes).2) := Prod.ext h rfl
  refine ⟨⟨_, hrun hname, ?_⟩, ⟨_, hrun htext, ?_⟩, _, hrun hexpr, hemitted, ?_⟩
  · exact (resolving_again_changes_nothing _ _ _).1 _ _ (hrun hname)
  · exact (resolving_again_changes_nothing _ _ _).2.1 _ (hrun htext)
  · exact (resolving_again_changes_nothing _ _ _).2.2 _ _ (hrun hexpr)

end KernelWeaver.Printing
