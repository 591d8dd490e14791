import KernelWeaver.Printing.Stmt
import KernelWeaver.Proofs.Code.RowLoop
import KernelWeaver.Proofs.Snippet.Scoping

/-!
# Printing goes through

A scoped snippet whose nodes have types can be printed into well-formed scopes. What is printed does
not change what the scopes bind, so the rest of the snippet can be printed as well.
-/

namespace KernelWeaver.Printing

open Code Code.Emit Snippet Typing

variable {types : NodeTypes} {known : Set String} {locals : List String} {scopes : List Scope}

/-- Printing that leaves scopes as emitting code does. -/
abbrev Prints {α : Type} (scopes : List Scope) (m : Emit α) : Prop :=
  Maintains m fun c => Evolves scopes c.scopes

/-- The scopes are well formed, and every name that is known is a local or bound in them. -/
structure Ready (known : Set String) (locals : List String) (scopes : List Scope) : Prop where
  wellFormed : WellFormed scopes
  reaches : ∀ name ∈ known, name ∈ locals ∨ BoundIn scopes name

/-- The node has a type. -/
def Typed (types : NodeTypes) (id : NodeId) : Prop := (types.find? id).isSome = true

namespace Prints

variable {α β : Type} {m : Emit α}

theorem pure (a : α) : Prints scopes (pure a : Emit α) := fun _ hc => .pure hc

theorem bind {f : α → Emit β} (hm : Prints scopes m) (hf : ∀ a, Prints scopes (f a)) :
    Prints scopes (m >>= f) :=
  fun c hc => .bind (hm c hc) fun a c' hc' => hf a c' hc'

theorem line (text : String) : Prints scopes (line text) :=
  fun c hc => (line_succeeds text c).imp fun _ _ he => hc.trans he

end Prints

theorem typeOf_prints {id : NodeId} (h : Typed types id) : Prints scopes (typeOf types id) := by
  obtain ⟨t, ht⟩ := Option.isSome_iff_exists.mp h
  rw [typeOf, ht]
  exact .pure t

theorem printName_prints (hready : Ready known locals scopes) {name : String} (h : name ∈ known)
    (wanted : Option CType) : Prints scopes (printName locals name wanted) := by
  rw [printName]
  split
  next => exact .pure _
  next hlocal =>
    intro c hc
    have hbound := (hready.reaches name h).resolve_left (by simpa using hlocal)
    exact (resolve_succeeds (hready.wellFormed.evolves hc) (hc.boundIn.mpr hbound) wanted).imp
      fun _ _ he => hc.trans he

mutual

theorem printExpr_prints (hready : Ready known locals scopes) (e : Expr)
    (htypes : ∀ id ∈ e.nodes, Typed types id) (hscoped : e.Scoped known) :
    Prints scopes (printExpr types locals e) := by
  rw [Expr.Scoped] at hscoped
  cases e with
  | number node lexeme type => exact .pure _
  | bool node value => exact .pure _
  | string node lexeme => exact .pure _
  | name node name => exact printName_prints hready (hscoped name List.mem_cons_self) none
  | group node inner =>
      rw [Expr.nodes, List.forall_mem_cons] at htypes
      exact .bind (printExpr_prints hready inner htypes.2 hscoped) fun _ => .pure _
  | unary node op operand =>
      rw [Expr.nodes, List.forall_mem_cons] at htypes
      exact .bind (printExpr_prints hready operand htypes.2 hscoped) fun _ => .pure _
  | binary node op left right =>
      rw [Expr.nodes, List.forall_mem_cons, List.forall_mem_append] at htypes
      rw [Expr.names, List.forall_mem_append] at hscoped
      refine .bind (printExpr_prints hready left htypes.2.1 hscoped.1) fun _ => ?_
      exact .bind (printExpr_prints hready right htypes.2.2 hscoped.2) fun _ => .pure _
  | call node callee args =>
      rw [Expr.nodes, List.forall_mem_cons, List.forall_mem_append] at htypes
      rw [Expr.names, List.forall_mem_append] at hscoped
      have hargs := printAll_prints hready args htypes.2.2 hscoped.2
      have hcallee := printExpr_prints hready callee htypes.2.1 hscoped.1
      cases callee with
      | name calleeNode name =>
          refine .bind (.bind (typeOf_prints (htypes.2.1 _ List.mem_cons_self)) fun t => ?_)
            fun _ => .bind hargs fun _ => .pure _
          exact printName_prints hready (hscoped.1 name List.mem_cons_self) (some t)
      | _ => exact .bind hcallee fun _ => .bind hargs fun _ => .pure _
  | cast node type operand =>
      rw [Expr.nodes, List.forall_mem_cons] at htypes
      refine .bind (typeOf_prints htypes.1) fun _ => ?_
      exact .bind (printExpr_prints hready operand htypes.2 hscoped) fun _ => .pure _
  | assign node op target value =>
      rw [Expr.nodes, List.forall_mem_cons, List.forall_mem_append] at htypes
      rw [Expr.names, List.forall_mem_append] at hscoped
      refine .bind (printExpr_prints hready target htypes.2.1 hscoped.1) fun _ => ?_
      exact .bind (printExpr_prints hready value htypes.2.2 hscoped.2) fun _ => .pure _
  | conditional node condition yes no =>
      rw [Expr.nodes, List.forall_mem_cons, List.forall_mem_append,
        List.forall_mem_append] at htypes
      rw [Expr.names, List.forall_mem_append, List.forall_mem_append] at hscoped
      refine .bind (printExpr_prints hready condition htypes.2.1.1 hscoped.1.1) fun _ => ?_
      refine .bind (printExpr_prints hready yes htypes.2.1.2 hscoped.1.2) fun _ => ?_
      exact .bind (printExpr_prints hready no htypes.2.2 hscoped.2) fun _ => .pure _
  | subscript node array index =>
      rw [Expr.nodes, List.forall_mem_cons, List.forall_mem_append] at htypes
      rw [Expr.names, List.forall_mem_append] at hscoped
      refine .bind (printExpr_prints hready array htypes.2.1 hscoped.1) fun _ => ?_
      exact .bind (printExpr_prints hready index htypes.2.2 hscoped.2) fun _ => .pure _
  | stepBefore node op target =>
      rw [Expr.nodes, List.forall_mem_cons] at htypes
      exact .bind (printExpr_prints hready target htypes.2 hscoped) fun _ => .pure _
  | stepAfter node op target =>
      rw [Expr.nodes, List.forall_mem_cons] at htypes
      exact .bind (printExpr_prints hready target htypes.2 hscoped) fun _ => .pure _

theorem printAll_prints (hready : Ready known locals scopes) (es : List Expr)
    (htypes : ∀ id ∈ Expr.nodesOfAll es, Typed types id)
    (hscoped : ∀ name ∈ Expr.namesOfAll es, name ∈ known) :
    Prints scopes (printAll types locals es) := by
  cases es with
  | nil => exact .pure _
  | cons e es =>
      rw [Expr.nodesOfAll, List.forall_mem_append] at htypes
      rw [Expr.namesOfAll, List.forall_mem_append] at hscoped
      refine .bind (printExpr_prints hready e htypes.1 hscoped.1) fun _ => ?_
      exact .bind (printAll_prints hready es htypes.2 hscoped.2) fun _ => .pure _

end

theorem printOptional_prints (hready : Ready known locals scopes) (e : Option Expr)
    (htypes : ∀ id ∈ Expr.nodesOfOption e, Typed types id)
    (hscoped : Expr.ScopedOption known e) : Prints scopes (printOptional types locals e) := by
  cases e with
  | none => exact .pure _
  | some e => exact printExpr_prints hready e htypes (hscoped e rfl)

/-- One more name is known, as a local. -/
theorem Ready.cons (h : Ready known locals scopes) (name : String) :
    Ready (insert name known) (name :: locals) scopes where
  wellFormed := h.wellFormed
  reaches other hother := by
    rcases hother with rfl | hother
    · exact .inl List.mem_cons_self
    · exact (h.reaches other hother).imp_left (List.mem_cons_of_mem _)

/-- A declared name is printed, and it is a local from its own value on. -/
theorem printDeclarator_succeeds (hready : Ready known locals scopes) (withBase : Bool)
    (d : Declarator) (htype : Typed types d.id)
    (htypes : ∀ id ∈ Expr.nodesOfOption d.init, Typed types id)
    (hscoped : Expr.ScopedOption (insert d.name known) d.init) {c : Chain}
    (hc : Evolves scopes c.scopes) :
    Succeeds (printDeclarator types locals withBase d) c fun r c' =>
      r.2 = d.name :: locals ∧ Evolves scopes c'.scopes := by
  obtain ⟨t, ht⟩ := Option.isSome_iff_exists.mp htype
  have hrest : ∀ (typed untyped : String) (c' : Chain), Evolves scopes c'.scopes →
      Succeeds (if withBase then pure (typed, d.name :: locals)
        else pure (untyped, d.name :: locals)) c' fun r c'' =>
          r.2 = d.name :: locals ∧ Evolves scopes c''.scopes := by
    intro typed untyped c' hc'
    split
    next => exact .pure ⟨rfl, hc'⟩
    next => exact .pure ⟨rfl, hc'⟩
  rw [printDeclarator, ht]
  cases hinit : d.init with
  | none => exact hrest _ _ c hc
  | some init =>
      rw [hinit] at htypes
      refine .bind (printExpr_prints (hready.cons d.name) init htypes (hscoped init hinit) c hc) ?_
      exact fun a c' hc' => hrest _ _ c' hc'

theorem printDeclarations_succeeds {behind : Set String} {ds : List Declarator}
    (h : ScopedDeclarators known ds behind) (hready : Ready known locals scopes)
    (htypes : ∀ id ∈ Declarator.nodesOfAll ds, Typed types id) {c : Chain}
    (hc : Evolves scopes c.scopes) :
    Succeeds (printDeclarations types locals ds) c fun locals' c' =>
      Ready behind locals' scopes ∧ Evolves scopes c'.scopes := by
  induction h generalizing locals c with
  | nil => exact .pure ⟨hready, hc⟩
  | cons hinit _ ih =>
      rw [Declarator.nodesOfAll, List.forall_mem_cons, List.forall_mem_append] at htypes
      refine .bind (printDeclarator_succeeds hready true _ htypes.1 htypes.2.1 hinit hc) ?_
      rintro ⟨text, _⟩ c₁ ⟨rfl, hc₁⟩
      refine .bind (Prints.line _ c₁ hc₁) fun _ c₂ hc₂ => ?_
      exact ih (hready.cons _) htypes.2.2 hc₂

theorem declaratorTexts_succeeds {behind : Set String} {ds : List Declarator}
    (h : ScopedDeclarators known ds behind) (hready : Ready known locals scopes)
    (htypes : ∀ id ∈ Declarator.nodesOfAll ds, Typed types id) (withBase : Bool) {c : Chain}
    (hc : Evolves scopes c.scopes) :
    Succeeds (declaratorTexts types withBase locals ds) c fun r c' =>
      Ready behind r.2 scopes ∧ Evolves scopes c'.scopes := by
  induction h generalizing locals c withBase with
  | nil => exact .pure ⟨hready, hc⟩
  | cons hinit _ ih =>
      rw [Declarator.nodesOfAll, List.forall_mem_cons, List.forall_mem_append] at htypes
      refine .bind (printDeclarator_succeeds hready withBase _ htypes.1 htypes.2.1 hinit hc) ?_
      rintro ⟨text, _⟩ c₁ ⟨rfl, hc₁⟩
      refine .bind (ih (hready.cons _) htypes.2.2 false hc₁) fun _ c₂ h₂ => ?_
      exact .pure h₂

theorem printForInit_succeeds {inside : Set String} {init : Option Stmt}
    (h : ScopedForInit known init inside) (hready : Ready known locals scopes)
    (htypes : ∀ id ∈ Stmt.nodesOfOption init, Typed types id) {c : Chain}
    (hc : Evolves scopes c.scopes) :
    Succeeds (printForInit types locals init) c fun r c' =>
      Ready inside r.2 scopes ∧ Evolves scopes c'.scopes := by
  cases h with
  | none => exact .pure ⟨hready, hc⟩
  | declaration hds =>
      refine .bind (declaratorTexts_succeeds hds hready htypes true hc) fun _ c₁ h₁ => ?_
      exact .pure h₁
  | evaluation he =>
      refine .bind (printExpr_prints hready _ htypes he c hc) fun _ c₁ hc₁ => ?_
      exact .pure ⟨hready, hc₁⟩

theorem braced_prints {α : Type} {m : Emit α} (h : Prints scopes m) : Prints scopes (braced m) :=
  .bind (.line _) fun _ => .bind h fun _ => .line _

/-- Where loops over synapses can stand and `present` holds, there is a loop that fits into the
scopes and binds the names that its body knows. -/
def LoopFits (loop : Option RowLoop) (scopes : List Scope) (names : Option (List String))
    (present : Bool) : Prop :=
  ∀ ns, names = some ns → present = true →
    ∃ l, loop = some l ∧ l.FitsIn scopes ∧ l.names.map Prod.fst = ns

theorem LoopFits.imp {loop : Option RowLoop} {names : Option (List String)} {p q : Bool}
    (h : LoopFits loop scopes names p) (hpq : q = true → p = true) :
    LoopFits loop scopes names q :=
  fun ns hns hq => h ns hns (hpq hq)

/-- What is printed of a statement or of items. -/
def PrintsPhrase (types : NodeTypes) (names : Option (List String)) (known : Set String) :
    StmtPhrase → Prop
  | .statement s => ∀ loop locals scopes, Ready known locals scopes →
    LoopFits loop scopes names s.hasSynapseLoop → (∀ id ∈ s.nodes, Typed types id) →
    ∀ c, Evolves scopes c.scopes → Succeeds (printStmt types loop locals s) c fun locals' c' =>
      locals' = locals ∧ Evolves scopes c'.scopes
  | .items ss => ∀ loop locals scopes, Ready known locals scopes →
    LoopFits loop scopes names (Stmt.hasSynapseLoopIn ss) →
    (∀ id ∈ Stmt.nodesOfItems ss, Typed types id) → Prints scopes (printStmts types loop locals ss)

/-- A statement that can be printed can be printed as the body of another. -/
theorem printBody_prints {loop : Option RowLoop} {s : Stmt}
    (h : Prints scopes (printStmt types loop locals s)) :
    Prints scopes (printBody types loop locals s) := by
  cases s with
  | block span items =>
      intro c hc
      obtain ⟨_, c', hrun, hc'⟩ := h c hc
      rw [printStmt] at hrun
      obtain ⟨u, c₁, hbraced, hpure⟩ := runOn_bind_eq_ok.mp hrun
      cases hpure
      rw [printBody]
      exact ⟨u, _, hbraced, hc'⟩
  | _ =>
      rw [printBody]
      · exact braced_prints h
      · rintro _ _ ⟨⟩

theorem PrintsPhrase.body {loop : Option RowLoop} {names : Option (List String)} {s : Stmt}
    {present : Bool} (h : PrintsPhrase types names known (.statement s))
    (hready : Ready known locals scopes) (hloop : LoopFits loop scopes names present)
    (hpresent : s.hasSynapseLoop = true → present = true)
    (htypes : ∀ id ∈ s.nodes, Typed types id) : Prints scopes (printBody types loop locals s) :=
  printBody_prints fun c hc =>
    (h loop locals scopes hready (hloop.imp hpresent) htypes c hc).imp fun _ _ h => h.2

/-- The names of the loop are known in its body, and no other loop can stand there. -/
theorem eachSynapse_prints {ns : List String} {body : Stmt} (hnodup : ns.Nodup)
    (ih : PrintsPhrase types none ({n | n ∈ ns} ∪ known) (.statement body)) (span : Span) :
    PrintsPhrase types (some ns) known (.statement (.eachSynapse span body)) := by
  intro loop locals scopes hready hloop htypes c hc
  obtain ⟨l, rfl, hfits, rfl⟩ := hloop ns rfl rfl
  rw [printStmt]
  refine (RowLoop.emit_succeeds (hfits.evolves hc) hnodup fun c' hc' => ?_).imp
    fun _ _ h => ⟨h.1, hc.trans h.2⟩
  have hinside := (hc.append_left [l.scope]).trans hc'
  have hbody : Ready ({n | n ∈ l.names.map Prod.fst} ∪ known) locals c'.scopes := by
    refine ⟨hfits.body.evolves hinside, fun name hname => ?_⟩
    rcases hname with hname | hname
    · exact .inr (hinside.boundIn.mpr (boundIn_cons.mpr (.inl ((l.binds_scope name).mpr hname))))
    · exact (hready.reaches name hname).imp_right fun hb =>
        hinside.boundIn.mpr (boundIn_cons.mpr (.inr hb))
  have hnoLoop : LoopFits none c'.scopes none body.hasSynapseLoop := by
    rintro _ ⟨⟩
  exact ih none locals c'.scopes hbody hnoLoop htypes c' (.refl _)

theorem printsPhrase {names : Option (List String)} {phrase : StmtPhrase}
    (h : Scoped names known phrase) : PrintsPhrase types names known phrase := by
  induction h with
  | empty =>
      intro loop locals scopes hready hloop htypes c hc
      rw [printStmt]
      exact .bind (Prints.line _ c hc) fun _ _ hc => .pure ⟨rfl, hc⟩
  | evaluation he =>
      intro loop locals scopes hready hloop htypes c hc
      rw [printStmt]
      refine .bind (printExpr_prints hready _ htypes he c hc) fun _ c hc => ?_
      exact .bind (Prints.line _ c hc) fun _ _ hc => .pure ⟨rfl, hc⟩
  | block _ ih =>
      intro loop locals scopes hready hloop htypes c hc
      rw [printStmt]
      exact .bind (braced_prints (ih loop locals scopes hready hloop htypes) c hc)
        fun _ _ hc => .pure ⟨rfl, hc⟩
  | ifThen ht _ ih =>
      intro loop locals scopes hready hloop htypes c hc
      rw [Stmt.nodes, List.forall_mem_append, List.forall_mem_append] at htypes
      have hyes := ih.body hready hloop (by simp +contextual [Stmt.hasSynapseLoop]) htypes.1.2
      rw [printStmt]
      refine .bind (printExpr_prints hready _ htypes.1.1 ht c hc) fun _ c hc => ?_
      refine .bind (Prints.line _ c hc) fun _ c hc => ?_
      exact .bind (hyes c hc) fun _ c hc => .pure ⟨rfl, hc⟩
  | ifElse ht _ _ ihy ihn =>
      intro loop locals scopes hready hloop htypes c hc
      rw [Stmt.nodes, List.forall_mem_append, List.forall_mem_append] at htypes
      have hyes := ihy.body hready hloop (by simp +contextual [Stmt.hasSynapseLoop]) htypes.1.2
      have hno := ihn.body hready hloop
        (by simp +contextual [Stmt.hasSynapseLoop, Stmt.hasSynapseLoopInOption]) htypes.2
      rw [printStmt]
      refine .bind (printExpr_prints hready _ htypes.1.1 ht c hc) fun _ c hc => ?_
      refine .bind (Prints.line _ c hc) fun _ c hc => ?_
      refine .bind (hyes c hc) fun _ c hc => ?_
      refine .bind (Prints.line _ c hc) fun _ c hc => ?_
      exact .bind (hno c hc) fun _ c hc => .pure ⟨rfl, hc⟩
  | whileLoop ht _ ih =>
      intro loop locals scopes hready hloop htypes c hc
      rw [Stmt.nodes, List.forall_mem_append] at htypes
      have hbody := ih.body hready hloop id htypes.2
      rw [printStmt]
      refine .bind (printExpr_prints hready _ htypes.1 ht c hc) fun _ c hc => ?_
      refine .bind (Prints.line _ c hc) fun _ c hc => ?_
      exact .bind (hbody c hc) fun _ c hc => .pure ⟨rfl, hc⟩
  | doLoop _ ht ih =>
      intro loop locals scopes hready hloop htypes c hc
      rw [Stmt.nodes, List.forall_mem_append] at htypes
      have hbody := ih.body hready hloop id htypes.1
      rw [printStmt]
      refine .bind (Prints.line _ c hc) fun _ c hc => ?_
      refine .bind (hbody c hc) fun _ c hc => ?_
      refine .bind (printExpr_prints hready _ htypes.2 ht c hc) fun _ c hc => ?_
      exact .bind (Prints.line _ c hc) fun _ c hc => .pure ⟨rfl, hc⟩
  | forLoop hi ht hs _ ih =>
      intro loop locals scopes hready hloop htypes c hc
      rw [Stmt.nodes, List.forall_mem_append, List.forall_mem_append,
        List.forall_mem_append] at htypes
      rw [printStmt]
      refine .bind (printForInit_succeeds hi hready htypes.1.1.1 hc) ?_
      rintro ⟨text, inside⟩ c ⟨hinside, hc⟩
      have hbody := ih.body hinside hloop (by simp +contextual [Stmt.hasSynapseLoop]) htypes.2
      refine .bind (printOptional_prints hinside _ htypes.1.1.2 ht c hc) fun _ c hc => ?_
      refine .bind (printOptional_prints hinside _ htypes.1.2 hs c hc) fun _ c hc => ?_
      refine .bind (Prints.line _ c hc) fun _ c hc => ?_
      exact .bind (hbody c hc) fun _ c hc => .pure ⟨rfl, hc⟩
  | switch ht _ ih =>
      intro loop locals scopes hready hloop htypes c hc
      rw [Stmt.nodes, List.forall_mem_append] at htypes
      have hbody := ih.body hready hloop id htypes.2
      rw [printStmt]
      refine .bind (printExpr_prints hready _ htypes.1 ht c hc) fun _ c hc => ?_
      refine .bind (Prints.line _ c hc) fun _ c hc => ?_
      exact .bind (hbody c hc) fun _ c hc => .pure ⟨rfl, hc⟩
  | caseLabel he _ ih =>
      intro loop locals scopes hready hloop htypes c hc
      rw [Stmt.nodes, List.forall_mem_append] at htypes
      rw [printStmt]
      refine .bind (printExpr_prints hready _ htypes.1 he c hc) fun _ c hc => ?_
      refine .bind (Prints.line _ c hc) fun _ c hc => ?_
      exact ih loop locals scopes hready hloop htypes.2 c hc
  | defaultLabel _ ih =>
      intro loop locals scopes hready hloop htypes c hc
      rw [printStmt]
      refine .bind (Prints.line _ c hc) fun _ c hc => ?_
      exact ih loop locals scopes hready hloop htypes c hc
  | breakLoop =>
      intro loop locals scopes hready hloop htypes c hc
      rw [printStmt]
      exact .bind (Prints.line _ c hc) fun _ _ hc => .pure ⟨rfl, hc⟩
  | continueLoop =>
      intro loop locals scopes hready hloop htypes c hc
      rw [printStmt]
      exact .bind (Prints.line _ c hc) fun _ _ hc => .pure ⟨rfl, hc⟩
  | print he =>
      intro loop locals scopes hready hloop htypes c hc
      rw [printStmt]
      refine .bind (typeOf_prints (htypes _ (Expr.id_mem_nodes _)) c hc) fun _ c hc => ?_
      refine .bind (printExpr_prints hready _ htypes he c hc) fun _ c hc => ?_
      exact .bind (Prints.line _ c hc) fun _ _ hc => .pure ⟨rfl, hc⟩
  | eachSynapse hnodup _ ih => exact eachSynapse_prints hnodup ih _
  | nil =>
      intro loop locals scopes hready hloop htypes
      rw [printStmts]
      exact .pure locals
  | declaration hds _ ih =>
      intro loop locals scopes hready hloop htypes c hc
      rw [Stmt.nodesOfItems, List.forall_mem_append] at htypes
      rw [printStmts, printStmt]
      refine .bind (printDeclarations_succeeds hds hready htypes.1 hc) ?_
      rintro locals' c ⟨hbehind, hc⟩
      exact ih loop locals' scopes hbehind
        (hloop.imp (by simp +contextual [Stmt.hasSynapseLoopIn])) htypes.2 c hc
  | statement _ _ ihs ihss =>
      intro loop locals scopes hready hloop htypes c hc
      rw [Stmt.nodesOfItems, List.forall_mem_append] at htypes
      rw [printStmts]
      refine .bind (ihs loop locals scopes hready
        (hloop.imp (by simp +contextual [Stmt.hasSynapseLoopIn])) htypes.1 c hc) ?_
      rintro _ c ⟨rfl, hc⟩
      exact ihss loop _ scopes hready
        (hloop.imp (by simp +contextual [Stmt.hasSynapseLoopIn])) htypes.2 c hc

end KernelWeaver.Printing
