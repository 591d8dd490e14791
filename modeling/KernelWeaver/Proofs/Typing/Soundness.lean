import KernelWeaver.Proofs.Snippet.Scoping
import KernelWeaver.Proofs.Table
import KernelWeaver.Typing.Stmt

/-!
# What a clean check tells

A check either succeeds and leaves the report as it is, or fails with one more remark. After a check
without a remark every node has a type, and every name is known where it stands.
-/

namespace KernelWeaver.Typing

open Snippet

variable {α β : Type}

/-- The check succeeds with nothing to remark, and `Q` holds of what it finds and leaves, or it
fails with more on the report. -/
def Check.Sound (m : Check α) (c : Checker) (Q : α → Checker → Prop) : Prop :=
  match m c with
  | (some a, c') => c'.report = c.report ∧ Q a c'
  | (none, c') => c.report.length < c'.report.length

theorem Check.bind_of_some {m : Check α} {c c' : Checker} {a : α} (h : m c = (some a, c'))
    (f : α → Check β) : (m >>= f) c = f a c' := by
  simp only [bind, h]

theorem Check.bind_of_none {m : Check α} {c c' : Checker} (h : m c = (none, c'))
    (f : α → Check β) : (m >>= f) c = (none, c') := by
  simp only [bind, h]

namespace Check.Sound

variable {m : Check α} {c : Checker} {P Q : α → Checker → Prop} {R : β → Checker → Prop}

theorem pure {a : α} (h : Q a c) : Sound (pure a) c Q := ⟨rfl, h⟩

theorem fail (span : Span) (flaw : Flaw) : Sound (fail span flaw) c Q := by
  change c.report.length < (c.report ++ [_]).length
  simp

theorem imp (h : Sound m c P) (hPQ : ∀ a c', P a c' → Q a c') : Sound m c Q := by
  rw [Sound] at h ⊢
  split at h
  next => exact ⟨h.1, hPQ _ _ h.2⟩
  next => exact h

/-- A check that has nothing on the report in the end has succeeded. -/
theorem of_clean (h : Sound m c Q) (hclean : (m c).2.report = []) :
    ∃ a, m c = (some a, (m c).2) ∧ Q a (m c).2 := by
  rw [Sound] at h
  cases hm : m c with
  | mk outcome c' =>
      rw [hm] at h hclean
      cases outcome with
      | none =>
          have hmore : c.report.length < c'.report.length := h
          rw [show c'.report = [] from hclean] at hmore
          exact absurd hmore (Nat.not_lt_zero _)
      | some a => exact ⟨a, rfl, h.2⟩

/-- A check that leaves the report as it is has succeeded. -/
theorem of_report_eq (h : Sound m c Q) (hreport : (m c).2.report = c.report) :
    ∃ a, (m c).1 = some a := by
  rw [Sound] at h
  cases hm : m c with
  | mk outcome c' =>
      rw [hm] at h hreport
      cases outcome with
      | some a => exact ⟨a, rfl⟩
      | none => exact absurd (congrArg List.length hreport) (Nat.ne_of_gt h)

/-- A check that has succeeded has nothing to remark. -/
theorem of_success {a : α} (h : Sound m c Q) (ha : (m c).1 = some a) :
    (m c).2.report = c.report ∧ Q a (m c).2 := by
  rw [Sound] at h
  cases hm : m c with
  | mk outcome c' =>
      rw [hm] at h ha
      cases (ha : outcome = some a)
      exact h

theorem and (h : Sound m c P) (h' : Sound m c Q) : Sound m c fun a c' => P a c' ∧ Q a c' := by
  rw [Sound] at h h' ⊢
  cases hm : m c with
  | mk outcome c' =>
      rw [hm] at h h'
      cases outcome with
      | none => exact h
      | some a => exact ⟨h.1, h.2, h'.2⟩

theorem bind {f : α → Check β} (h : Sound m c P)
    (hf : ∀ a c', P a c' → Sound (f a) c' R) : Sound (m >>= f) c R := by
  rw [Sound] at h ⊢
  cases hm : m c with
  | mk outcome c' =>
      rw [hm] at h
      cases outcome with
      | none =>
          rw [Check.bind_of_none hm]
          exact h
      | some a =>
          have hrest := hf a c' h.2
          rw [Sound, h.1] at hrest
          rw [Check.bind_of_some hm]
          exact hrest

theorem modify {f : Checker → Checker} {Q : Unit → Checker → Prop}
    (hreport : (f c).report = c.report) (h : Q () (f c)) : Sound (modify f) c Q :=
  ⟨hreport, h⟩

theorem state {Q : Checker → Checker → Prop} (h : Q c c) : Sound state c Q := ⟨rfl, h⟩

theorem afterwards {f : Checker → Checker} (hreport : ∀ c', (f c').report = c'.report)
    (h : Sound m c fun a c' => Q a (f c')) : Sound (afterwards m f) c Q := by
  rw [Sound] at h ⊢
  cases hm : m c with
  | mk outcome c' =>
      rw [hm] at h
      have hrun : Check.afterwards m f c = (outcome, f c') := by rw [Check.afterwards, hm]
      rw [hrun]
      cases outcome with
      | none =>
          change c.report.length < (f c').report.length
          rwa [hreport]
      | some a => exact ⟨(hreport c').trans h.1, h.2⟩

theorem rule {span : Span} {outcome : Except Flaw CType} {Q : CType → Checker → Prop}
    (h : ∀ t, Q t c) : Sound (rule span outcome) c Q := by
  cases outcome with
  | ok t => exact .pure (h t)
  | error flaw => exact .fail span flaw

end Check.Sound

/-- Every name that is declared in the scopes or bound outside is known. -/
structure Within (setting : Setting) (scopes : List (Table CType)) (known : Set String) :
    Prop where
  declared : ∀ table ∈ scopes, ∀ name ∈ table.map Prod.fst, name ∈ known
  outside : ∀ name, (setting.typesOf name).isSome = true → name ∈ known

theorem Within.univ {setting : Setting} {scopes : List (Table CType)} :
    Within setting scopes Set.univ :=
  ⟨fun _ _ _ _ => trivial, fun _ _ => trivial⟩

namespace Checker

/-- The node has a type. -/
def Types (c : Checker) (id : NodeId) : Prop := (c.types.find? id).isSome = true

/-- What a check that succeeds does to the state: no type is lost, the nodes have types, and only
the innermost scope may have changed. -/
structure Extends (c : Checker) (nodes : List NodeId) (c' : Checker) : Prop where
  keeps : ∀ id, c.Types id → c'.Types id
  types : ∀ id ∈ nodes, c'.Types id
  inSynapseLoop : c'.inSynapseLoop = c.inSynapseLoop
  outer : c'.scopes.tail = c.scopes.tail

/-- What a check that succeeds does to the state if it declares nothing for what follows. -/
structure Restores (c : Checker) (nodes : List NodeId) (c' : Checker) : Prop
    extends c.Extends nodes c' where
  scopes : c'.scopes = c.scopes

variable {c c' c'' : Checker} {xs ys : List NodeId} {setting : Setting} {known : Set String}

theorem Types.note {other : NodeId} (c : Checker) (id : NodeId) (t : CType)
    (h : other = id ∨ c.Types other) :
    Types { c with types := (id, t) :: c.types } other := by
  rw [Types, NodeTypes.find?, List.lookup_cons]
  rcases h with rfl | h
  · simp
  · cases other == id with
    | true => rfl
    | false => exact h

theorem Extends.refl (c : Checker) : c.Extends [] c :=
  ⟨fun _ h => h, fun _ h => absurd h List.not_mem_nil, rfl, rfl⟩

theorem Extends.trans (h : c.Extends xs c') (h' : c'.Extends ys c'') :
    c.Extends (xs ++ ys) c'' where
  keeps id hid := h'.keeps id (h.keeps id hid)
  types id hid := (List.mem_append.mp hid).elim (fun hx => h'.keeps id (h.types id hx)) (h'.types id)
  inSynapseLoop := h'.inSynapseLoop.trans h.inSynapseLoop
  outer := h'.outer.trans h.outer

theorem Restores.refl (c : Checker) : c.Restores [] c := ⟨.refl c, rfl⟩

theorem Restores.trans (h : c.Restores xs c') (h' : c'.Restores ys c'') :
    c.Restores (xs ++ ys) c'' :=
  ⟨h.toExtends.trans h'.toExtends, h'.scopes.trans h.scopes⟩

theorem Restores.within (h : c.Restores xs c') (hc : Within setting c.scopes known) :
    Within setting c'.scopes known :=
  ⟨by rw [h.scopes]; exact hc.declared, hc.outside⟩

end Checker

/-- What the check of expressions with these nodes and names does if it succeeds. -/
structure ExprChecked (known : Set String) (c : Checker) (nodes : List NodeId)
    (names : List String) (c' : Checker) : Prop extends c.Restores nodes c' where
  names : ∀ name ∈ names, name ∈ known

namespace ExprChecked

variable {setting : Setting} {known : Set String} {c c' c'' : Checker} {xs ys : List NodeId}
  {ns ms : List String}

theorem refl (c : Checker) : ExprChecked known c [] [] c :=
  ⟨.refl c, fun _ h => absurd h List.not_mem_nil⟩

theorem trans (h : ExprChecked known c xs ns c') (h' : ExprChecked known c' ys ms c'') :
    ExprChecked known c (xs ++ ys) (ns ++ ms) c'' :=
  ⟨h.toRestores.trans h'.toRestores, List.forall_mem_append.mpr ⟨h.names, h'.names⟩⟩

theorem note (h : ExprChecked known c xs ns c') (id : NodeId) (t : CType) :
    ExprChecked known c (id :: xs) ns { c' with types := (id, t) :: c'.types } where
  keeps other hother := .note _ id t (.inr (h.keeps other hother))
  types other hother :=
    .note _ id t ((List.mem_cons.mp hother).imp_right (h.types other))
  inSynapseLoop := h.inSynapseLoop
  outer := h.outer
  scopes := h.scopes
  names := h.names

theorem of_subset (h : ExprChecked known c xs ns c') (hsubset : ys ⊆ xs) :
    ExprChecked known c ys ns c' :=
  { h with types := fun id hid => h.types id (hsubset hid) }

end ExprChecked

namespace Check.Sound

variable {setting : Setting} {known : Set String} {c : Checker} {xs : List NodeId}
  {ns : List String} {m : Check CType}

theorem noted {node : Node} (h : Sound m c fun _ c' => ExprChecked known c xs ns c') :
    Sound (noted node m) c fun _ c' => ExprChecked known c (node.id :: xs) ns c' :=
  .bind h fun t _ hc' => .bind (P := fun _ c'' => ExprChecked known c (node.id :: xs) ns c'')
    (.modify rfl (hc'.note node.id t)) fun _ _ hc'' => .pure hc''

theorem requireCondition {span : Span} {t : CType} {Q : Unit → Checker → Prop} (h : Q () c) :
    Sound (requireCondition span t) c Q := by
  rw [Typing.requireCondition]
  split
  next => exact .pure h
  next => exact .fail _ _

theorem stepType {op : StepOp} {target : Expr} {t : CType} {Q : CType → Checker → Prop}
    (h : Q t c) : Sound (stepType op target t) c Q := by
  rw [Typing.stepType]
  split
  next => exact .fail _ _
  next =>
    split
    next => exact .fail _ _
    next =>
      split
      next => exact .fail _ _
      next => exact .pure h

theorem assignType {span targetSpan : Span} {op : AssignOp} {target value : CType}
    {Q : CType → Checker → Prop} (h : ∀ t, Q t c) :
    Sound (assignType span targetSpan op target value) c Q := by
  unfold Typing.assignType
  split
  next => exact .fail _ _
  next =>
    split
    next =>
      split
      next => exact .pure (h _)
      next => exact .fail _ _
    next =>
      split
      next => exact .fail _ _
      next =>
        refine .bind (P := fun _ c' => c' = c) (.rule fun _ => rfl) ?_
        rintro _ _ rfl
        exact .pure (h _)

end Check.Sound

/-- The outcome of a name is found in the scopes, and the state stays as it is. -/
theorem typesOf_eq (setting : Setting) (name : String) (c : Checker) :
    Check.typesOf setting name c =
      (some ((c.scopes.findSome? (Table.find? · name)).elim (setting.typesOf name)
        fun t => some [t]), c) := by
  rw [Check.typesOf, Check.bind_of_some (show Check.state c = (some c, c) from rfl)]
  cases c.scopes.findSome? (Table.find? · name) <;> rfl

theorem resolve_sound {setting : Setting} {c : Checker} (type : TypeSpec)
    (star : Option PointerMark) : (resolve setting type star).Sound c fun _ c' => c' = c := by
  rw [resolve]
  split
  next => exact .fail _ _
  next =>
    dsimp only
    split
    next => exact .pure rfl
    next => exact .pure rfl

theorem check_typesOf {setting : Setting} {known : Set String} {c : Checker}
    (hc : Within setting c.scopes known) (name : String) :
    Check.Sound (Check.typesOf setting name) c fun found c' =>
      c' = c ∧ (found.isSome = true → name ∈ known) := by
  refine .bind (P := fun a c' => a = c ∧ c' = c) (.state ⟨rfl, rfl⟩) ?_
  rintro _ c' ⟨rfl, rfl⟩
  split
  next t hfind =>
    obtain ⟨table, htable, hname⟩ := List.exists_of_findSome?_eq_some hfind
    exact .pure ⟨rfl, fun _ => hc.declared table htable name
      (Table.has_iff.mp (Option.isSome_of_eq_some hname))⟩
  next => exact .pure ⟨rfl, hc.outside name⟩

/-- What a callee can be is found before the arguments are checked: a name is looked up, and any
other callee is checked for its type. -/
theorem callee_cases {setting : Setting} {c : Checker} (callee : Expr)
    {f : List CType → Check α} {Q : α → Checker → Prop}
    (hname : ∀ node name choices, callee = .name node name →
      Check.typesOf setting name c = (some (some choices), c) → (f choices).Sound c Q)
    (hother : (∀ node name, callee ≠ .name node name) →
      (check setting callee).Sound c fun t c' => (f [t]).Sound c' Q) :
    Check.Sound (match callee with
      | .name calleeNode name => do
        match ← Check.typesOf setting name with
        | some types => do
          let choices ← pure types
          f choices
        | none => do
          let choices ← Check.fail calleeNode.span (.undefined name)
          f choices
      | _ => do
        let t ← check setting callee
        let choices ← pure [t]
        f choices) c Q := by
  cases callee with
  | name calleeNode name =>
      have hrun := typesOf_eq setting name c
      refine .bind (P := fun found c' => Check.typesOf setting name c = (some found, c) ∧ c' = c)
        (by rw [Check.Sound, hrun]; exact ⟨rfl, rfl, rfl⟩) ?_
      rintro found _ ⟨hfound, rfl⟩
      split
      next choices => exact hname calleeNode name choices rfl hfound
      next => exact .bind (P := fun _ _ => False) (.fail _ _) fun _ _ h => h.elim
  | _ => exact .bind (hother (by rintro _ _ ⟨⟩)) fun _ _ h => h

/-- The callee itself may get its type only after the arguments are checked. -/
theorem callee_sound {setting : Setting} {known : Set String} {c : Checker} (callee : Expr)
    {f : List CType → Check α} {Q : α → Checker → Prop} (hc : Within setting c.scopes known)
    (h : (check setting callee).Sound c fun _ c' =>
      ExprChecked known c callee.nodes callee.names c')
    (hf : ∀ choices c' xs, callee.nodes ⊆ callee.id :: xs →
      ExprChecked known c xs callee.names c' → (f choices).Sound c' Q) :
    Check.Sound (match callee with
      | .name calleeNode name => do
        match ← Check.typesOf setting name with
        | some types => do
          let choices ← pure types
          f choices
        | none => do
          let choices ← Check.fail calleeNode.span (.undefined name)
          f choices
      | _ => do
        let t ← check setting callee
        let choices ← pure [t]
        f choices) c Q := by
  refine callee_cases callee (fun node name choices hcallee hchoices => ?_) fun _ =>
    h.imp fun t c' h' => hf [t] c' _ (List.subset_cons_self _ _) h'
  subst hcallee
  have hknown := check_typesOf hc name
  rw [Check.Sound, hchoices] at hknown
  exact hf choices c [] (List.Subset.refl _) ⟨.refl c, by simpa [Expr.names] using hknown.2.2 rfl⟩

mutual

theorem check_sound {setting : Setting} {known : Set String} (e : Expr) {c : Checker}
    (hc : Within setting c.scopes known) :
    (check setting e).Sound c fun _ c' => ExprChecked known c e.nodes e.names c' := by
  cases e with
  | number node lexeme type => exact .noted (.pure (.refl c))
  | bool node value => exact .noted (.pure (.refl c))
  | string node lexeme => exact .noted (.pure (.refl c))
  | name node name =>
      refine .noted (.bind (check_typesOf hc name) ?_)
      rintro found _ ⟨rfl, hfound⟩
      split
      next =>
        exact .pure ⟨.refl _, by simpa [Expr.names] using hfound rfl⟩
      next => exact .fail _ _
      next => exact .fail _ _
  | group node inner => exact .noted (check_sound inner hc)
  | unary node op operand =>
      exact .noted (.bind (check_sound operand hc) fun _ _ h => .rule fun _ => h)
  | binary node op left right =>
      refine .noted (.bind (check_sound left hc) fun _ c₁ h₁ => ?_)
      refine .bind (check_sound right (h₁.toRestores.within hc)) fun _ c₂ h₂ => ?_
      exact .rule fun _ => h₁.trans h₂
  | call node callee args =>
      refine .noted (callee_sound callee hc (check_sound callee hc) fun choices c₁ xs hxs h₁ => ?_)
      refine .bind (checkAll_sound args (h₁.toRestores.within hc)) fun types c₂ h₂ => ?_
      split
      next => exact .fail _ _
      next chosen _ =>
        have h := (h₁.trans h₂).note callee.id chosen
        refine .bind (P := fun _ c₃ => ExprChecked known c (callee.nodes ++ Expr.nodesOfAll args)
          (callee.names ++ Expr.namesOfAll args) c₃) (.modify rfl (h.of_subset ?_))
          fun _ _ h => .pure h
        exact List.append_subset.mpr ⟨List.Subset.trans hxs (List.cons_subset_cons _
          (List.subset_append_left _ _)), fun id hid =>
            List.mem_cons_of_mem _ (List.mem_append_right _ hid)⟩
  | cast node type operand =>
      refine .noted (.bind (resolve_sound type none) ?_)
      rintro target _ rfl
      refine .bind (check_sound operand hc) fun _ _ h => ?_
      exact .rule fun _ => h
  | assign node op target value =>
      refine .noted (.bind (check_sound target hc) fun _ c₁ h₁ => ?_)
      refine .bind (check_sound value (h₁.toRestores.within hc)) fun _ c₂ h₂ => ?_
      exact .assignType fun _ => h₁.trans h₂
  | conditional node condition yes no =>
      refine .noted (.bind (check_sound condition hc) fun _ c₁ h₁ => ?_)
      refine .bind (P := fun _ c' => c' = c₁) (.requireCondition rfl) ?_
      rintro _ _ rfl
      refine .bind (check_sound yes (h₁.toRestores.within hc)) fun _ c₂ h₂ => ?_
      refine .bind (check_sound no ((h₁.trans h₂).toRestores.within hc)) fun _ c₃ h₃ => ?_
      exact .rule fun _ => (h₁.trans h₂).trans h₃
  | subscript node array index =>
      refine .noted (.bind (check_sound array hc) fun a c₁ h₁ => ?_)
      refine .bind (check_sound index (h₁.toRestores.within hc)) fun i c₂ h₂ => ?_
      split
      next => exact .fail _ _
      next =>
        split
        next => exact .pure (h₁.trans h₂)
        next => exact .fail _ _
  | stepBefore node op target =>
      exact .noted (.bind (check_sound target hc) fun _ _ h => .stepType h)
  | stepAfter node op target =>
      exact .noted (.bind (check_sound target hc) fun _ _ h => .stepType h)

theorem checkAll_sound {setting : Setting} {known : Set String} (es : List Expr) {c : Checker}
    (hc : Within setting c.scopes known) :
    (checkAll setting es).Sound c fun _ c' =>
      ExprChecked known c (Expr.nodesOfAll es) (Expr.namesOfAll es) c' := by
  cases es with
  | nil => exact .pure (.refl c)
  | cons e es =>
      refine .bind (check_sound e hc) fun _ c₁ h₁ => ?_
      refine .bind (checkAll_sound es (h₁.toRestores.within hc)) fun _ c₂ h₂ => ?_
      exact .pure (h₁.trans h₂)

end

/-- After an expression is checked without a remark its nodes have types, and it is scoped. -/
theorem checkExpr_clean {setting : Setting} {known : Set String} {e : Expr}
    (hknown : ∀ name, (setting.typesOf name).isSome = true → name ∈ known)
    (hclean : (checkExpr setting e).2.report = []) :
    (∀ id ∈ e.nodes, (checkExpr setting e).2.Types id) ∧ e.Scoped known := by
  have hstart : Within { setting with synapseNames := none } Checker.initial.scopes known :=
    ⟨fun _ h => absurd h List.not_mem_nil, hknown⟩
  obtain ⟨t, -, hchecked⟩ := (check_sound e hstart).of_clean hclean
  exact ⟨hchecked.types, hchecked.names⟩

end KernelWeaver.Typing
