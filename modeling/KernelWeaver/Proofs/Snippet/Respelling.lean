import KernelWeaver.Proofs.Snippet.Scoping

/-!
# Parts of expressions and other spellings of casts

An expression with its casts written in another way has the same form in all else: it nests as
deeply and the same parts of it can be assigned to.
-/

namespace KernelWeaver.Snippet.Expr

mutual

/-- The expression and all expressions in it. -/
def parts : Expr → List Expr
  | number n lexeme type => [number n lexeme type]
  | bool n value => [bool n value]
  | string n lexeme => [string n lexeme]
  | .name n text => [.name n text]
  | unary n op e => unary n op e :: e.parts
  | binary n op a b => binary n op a b :: (a.parts ++ b.parts)
  | call n callee args => call n callee args :: (callee.parts ++ partsOfAll args)
  | cast n type e => cast n type e :: e.parts
  | assign n op a b => assign n op a b :: (a.parts ++ b.parts)
  | conditional n a b c => conditional n a b c :: (a.parts ++ b.parts ++ c.parts)
  | subscript n a b => subscript n a b :: (a.parts ++ b.parts)
  | group n e => group n e :: e.parts
  | stepBefore n op e => stepBefore n op e :: e.parts
  | stepAfter n op e => stepAfter n op e :: e.parts

/-- Several expressions and all expressions in them. -/
def partsOfAll : List Expr → List Expr
  | [] => []
  | e :: es => e.parts ++ partsOfAll es

end

mutual

/-- The expression with the type of each cast written as told for the number of the cast. -/
def respell (spelling : NodeId → TypeSpec) : Expr → Expr
  | number n lexeme type => number n lexeme type
  | bool n value => bool n value
  | string n lexeme => string n lexeme
  | .name n text => .name n text
  | unary n op e => unary n op (e.respell spelling)
  | binary n op a b => binary n op (a.respell spelling) (b.respell spelling)
  | call n callee args => call n (callee.respell spelling) (respellAll spelling args)
  | cast n _ e => cast n (spelling n.id) (e.respell spelling)
  | assign n op a b => assign n op (a.respell spelling) (b.respell spelling)
  | conditional n a b c =>
    conditional n (a.respell spelling) (b.respell spelling) (c.respell spelling)
  | subscript n a b => subscript n (a.respell spelling) (b.respell spelling)
  | group n e => group n (e.respell spelling)
  | stepBefore n op e => stepBefore n op (e.respell spelling)
  | stepAfter n op e => stepAfter n op (e.respell spelling)

/-- Several expressions with the types of their casts written as told. -/
def respellAll (spelling : NodeId → TypeSpec) : List Expr → List Expr
  | [] => []
  | e :: es => e.respell spelling :: respellAll spelling es

end

/-- The form of an expression: its tree without the numbers and places of nodes and without the
types in casts. -/
def outline (e : Expr) : Expr := (e.respell fun _ => default).shape

/-- Whatever is called in the parts is a name. -/
def CallsNames (parts : List Expr) : Prop :=
  ∀ node callee args, call node callee args ∈ parts →
    ∃ calleeNode text, callee = .name calleeNode text

namespace CallsNames

variable {e : Expr} {parts more : List Expr}

theorem tail (h : CallsNames (e :: parts)) : CallsNames parts :=
  fun node callee args hmem => h node callee args (List.mem_cons_of_mem _ hmem)

theorem left (h : CallsNames (parts ++ more)) : CallsNames parts :=
  fun node callee args hmem => h node callee args (List.mem_append_left _ hmem)

theorem right (h : CallsNames (parts ++ more)) : CallsNames more :=
  fun node callee args hmem => h node callee args (List.mem_append_right _ hmem)

end CallsNames

variable {spelling : NodeId → TypeSpec}

theorem isAssignable_respell : (e : Expr) → (e.respell spelling).isAssignable = e.isAssignable
  | group _ inner => by
      rw [respell, isAssignable, isAssignable, isAssignable_respell inner]
  | unary _ op _ => by cases op <;> rfl
  | number .. | bool .. | string .. | .name .. | binary .. | call .. | cast .. | assign ..
  | conditional .. | subscript .. | stepBefore .. | stepAfter .. => rfl

theorem isOperand_respell (e : Expr) : (e.respell spelling).isOperand = e.isOperand := by
  cases e <;> rfl

mutual

theorem innerNesting_respell (e : Expr) :
    (e.respell spelling).innerNesting = e.innerNesting := by
  cases e with
  | number | bool | string | name => rfl
  | unary _ _ e | cast _ _ e | stepBefore _ _ e | group _ e =>
      simp only [respell, innerNesting, isOperand_respell, innerNesting_respell e]
  | stepAfter _ _ e => simp only [respell, innerNesting, innerNesting_respell e]
  | subscript _ a b | binary _ _ a b | assign _ _ a b =>
      simp only [respell, innerNesting, isOperand_respell, innerNesting_respell a,
        innerNesting_respell b]
  | call _ callee args =>
      simp only [respell, innerNesting, innerNesting_respell callee, nestingOfAll_respell args]
  | conditional _ a b c =>
      simp only [respell, innerNesting, isOperand_respell, innerNesting_respell a,
        innerNesting_respell b, innerNesting_respell c]

theorem nestingOfAll_respell (es : List Expr) :
    nestingOfAll (respellAll spelling es) = nestingOfAll es := by
  cases es with
  | nil => rfl
  | cons e es =>
      simp only [respellAll, nestingOfAll, isOperand_respell, innerNesting_respell e,
        nestingOfAll_respell es]

end

theorem nesting_respell (e : Expr) : (e.respell spelling).nesting = e.nesting := by
  rw [nesting, nesting, isOperand_respell, innerNesting_respell]

mutual

theorem respell_respell (spelling other : NodeId → TypeSpec) (e : Expr) :
    (e.respell spelling).respell other = e.respell other := by
  cases e with
  | number | bool | string | name => rfl
  | unary _ _ e | cast _ _ e | stepBefore _ _ e | group _ e | stepAfter _ _ e =>
      simp only [respell, respell_respell spelling other e]
  | subscript _ a b | binary _ _ a b | assign _ _ a b =>
      simp only [respell, respell_respell spelling other a, respell_respell spelling other b]
  | call _ callee args =>
      simp only [respell, respell_respell spelling other callee,
        respellAll_respellAll spelling other args]
  | conditional _ a b c =>
      simp only [respell, respell_respell spelling other a, respell_respell spelling other b,
        respell_respell spelling other c]

theorem respellAll_respellAll (spelling other : NodeId → TypeSpec) (es : List Expr) :
    respellAll other (respellAll spelling es) = respellAll other es := by
  cases es with
  | nil => rfl
  | cons e es =>
      simp only [respellAll, respell_respell spelling other e,
        respellAll_respellAll spelling other es]

end

mutual

/-- The outline of an expression can be told from its shape. -/
theorem outline_eq (e : Expr) : e.outline = e.shape.respell fun _ => default := by
  rw [outline]
  cases e with
  | number | bool | string | name => rfl
  | unary _ _ e | stepBefore _ _ e | group _ e | stepAfter _ _ e =>
      have he := outline_eq e
      rw [outline] at he
      simp only [respell, shape, he]
  | cast _ _ e =>
      have he := outline_eq e
      rw [outline] at he
      simp only [respell, shape, he]
      rfl
  | subscript _ a b | binary _ _ a b | assign _ _ a b =>
      have ha := outline_eq a
      have hb := outline_eq b
      rw [outline] at ha hb
      simp only [respell, shape, ha, hb]
  | call _ callee args =>
      have hcallee := outline_eq callee
      rw [outline] at hcallee
      simp only [respell, shape, hcallee, shapes_respellAll args]
  | conditional _ a b c =>
      have ha := outline_eq a
      have hb := outline_eq b
      have hc := outline_eq c
      rw [outline] at ha hb hc
      simp only [respell, shape, ha, hb, hc]

theorem shapes_respellAll (es : List Expr) :
    shapes (respellAll (fun _ => default) es) = respellAll (fun _ => default) (shapes es) := by
  cases es with
  | nil => rfl
  | cons e es =>
      have he := outline_eq e
      rw [outline] at he
      simp only [respellAll, shapes, he, shapes_respellAll es]

end

/-- Spelled anew, an expression shows no trace of how it was spelled before. -/
theorem outline_of_shape_eq {e e' : Expr} (h : e'.shape = (e.respell spelling).shape) :
    e'.outline = e.outline := by
  rw [outline_eq, h, ← outline_eq, outline, respell_respell, outline]

mutual

/-- The nodes and the names of a part are among those of the whole. -/
theorem subset_of_mem_parts {part : Expr} (e : Expr) (h : part ∈ e.parts) :
    part.nodes ⊆ e.nodes ∧ part.names ⊆ e.names := by
  cases e with
  | number | bool | string | name =>
      obtain rfl := List.mem_singleton.mp h
      exact ⟨List.Subset.refl _, List.Subset.refl _⟩
  | unary _ _ e | cast _ _ e | stepBefore _ _ e | stepAfter _ _ e | group _ e =>
      rcases List.mem_cons.mp h with rfl | h
      · exact ⟨List.Subset.refl _, List.Subset.refl _⟩
      · obtain ⟨hnodes, hnames⟩ := subset_of_mem_parts e h
        exact ⟨List.subset_cons_of_subset _ hnodes, hnames⟩
  | subscript _ a b | binary _ _ a b | assign _ _ a b =>
      rcases List.mem_cons.mp h with rfl | h
      · exact ⟨List.Subset.refl _, List.Subset.refl _⟩
      rcases List.mem_append.mp h with h | h
      · obtain ⟨hnodes, hnames⟩ := subset_of_mem_parts a h
        exact ⟨List.subset_cons_of_subset _ (List.subset_append_of_subset_left _ hnodes),
          List.subset_append_of_subset_left _ hnames⟩
      · obtain ⟨hnodes, hnames⟩ := subset_of_mem_parts b h
        exact ⟨List.subset_cons_of_subset _ (List.subset_append_of_subset_right _ hnodes),
          List.subset_append_of_subset_right _ hnames⟩
  | call _ callee args =>
      rcases List.mem_cons.mp h with rfl | h
      · exact ⟨List.Subset.refl _, List.Subset.refl _⟩
      rcases List.mem_append.mp h with h | h
      · obtain ⟨hnodes, hnames⟩ := subset_of_mem_parts callee h
        exact ⟨List.subset_cons_of_subset _ (List.subset_append_of_subset_left _ hnodes),
          List.subset_append_of_subset_left _ hnames⟩
      · obtain ⟨hnodes, hnames⟩ := subset_of_mem_partsOfAll args h
        exact ⟨List.subset_cons_of_subset _ (List.subset_append_of_subset_right _ hnodes),
          List.subset_append_of_subset_right _ hnames⟩
  | conditional _ a b c =>
      rcases List.mem_cons.mp h with rfl | h
      · exact ⟨List.Subset.refl _, List.Subset.refl _⟩
      rcases List.mem_append.mp h with h | h
      · rcases List.mem_append.mp h with h | h
        · obtain ⟨hnodes, hnames⟩ := subset_of_mem_parts a h
          exact ⟨List.subset_cons_of_subset _ (List.subset_append_of_subset_left _
              (List.subset_append_of_subset_left _ hnodes)),
            List.subset_append_of_subset_left _ (List.subset_append_of_subset_left _ hnames)⟩
        · obtain ⟨hnodes, hnames⟩ := subset_of_mem_parts b h
          exact ⟨List.subset_cons_of_subset _ (List.subset_append_of_subset_left _
              (List.subset_append_of_subset_right _ hnodes)),
            List.subset_append_of_subset_left _ (List.subset_append_of_subset_right _ hnames)⟩
      · obtain ⟨hnodes, hnames⟩ := subset_of_mem_parts c h
        exact ⟨List.subset_cons_of_subset _ (List.subset_append_of_subset_right _ hnodes),
          List.subset_append_of_subset_right _ hnames⟩

theorem subset_of_mem_partsOfAll {part : Expr} (es : List Expr) (h : part ∈ partsOfAll es) :
    part.nodes ⊆ nodesOfAll es ∧ part.names ⊆ namesOfAll es := by
  cases es with
  | nil => cases h
  | cons e es =>
      rcases List.mem_append.mp h with h | h
      · obtain ⟨hnodes, hnames⟩ := subset_of_mem_parts e h
        exact ⟨List.subset_append_of_subset_left _ hnodes,
          List.subset_append_of_subset_left _ hnames⟩
      · obtain ⟨hnodes, hnames⟩ := subset_of_mem_partsOfAll es h
        exact ⟨List.subset_append_of_subset_right _ hnodes,
          List.subset_append_of_subset_right _ hnames⟩

end

mutual

/-- Every part of an expression has a node of its own. -/
theorem nodes_eq_map_parts (e : Expr) : e.nodes = e.parts.map id := by
  cases e with
  | number | bool | string | name => rfl
  | unary _ _ e | cast _ _ e | stepBefore _ _ e | stepAfter _ _ e | group _ e =>
      simp only [nodes, parts, List.map_cons, nodes_eq_map_parts e]
      rfl
  | subscript _ a b | binary _ _ a b | assign _ _ a b =>
      simp only [nodes, parts, List.map_cons, List.map_append, nodes_eq_map_parts a,
        nodes_eq_map_parts b]
      rfl
  | call _ callee args =>
      simp only [nodes, parts, List.map_cons, List.map_append, nodes_eq_map_parts callee,
        nodesOfAll_eq_map_parts args]
      rfl
  | conditional _ a b c =>
      simp only [nodes, parts, List.map_cons, List.map_append, nodes_eq_map_parts a,
        nodes_eq_map_parts b, nodes_eq_map_parts c]
      rfl

theorem nodesOfAll_eq_map_parts (es : List Expr) : nodesOfAll es = (partsOfAll es).map id := by
  cases es with
  | nil => rfl
  | cons e es =>
      simp only [nodesOfAll, partsOfAll, List.map_append, nodes_eq_map_parts e,
        nodesOfAll_eq_map_parts es]

end

/-! ### What a form tells -/

mutual

theorem length_nodes_shape (e : Expr) : e.shape.nodes.length = e.nodes.length := by
  cases e with
  | number | bool | string | name => rfl
  | unary _ _ e | cast _ _ e | stepBefore _ _ e | stepAfter _ _ e | group _ e =>
      simp only [shape, nodes, List.length_cons, length_nodes_shape e]
  | subscript _ a b | binary _ _ a b | assign _ _ a b =>
      simp only [shape, nodes, List.length_cons, List.length_append,
        length_nodes_shape a, length_nodes_shape b]
  | call _ callee args =>
      simp only [shape, nodes, List.length_cons, List.length_append,
        length_nodes_shape callee, length_nodes_shapes args]
  | conditional _ a b c =>
      simp only [shape, nodes, List.length_cons, List.length_append,
        length_nodes_shape a, length_nodes_shape b, length_nodes_shape c]

theorem length_nodes_shapes (es : List Expr) :
    (nodesOfAll (shapes es)).length = (nodesOfAll es).length := by
  cases es with
  | nil => rfl
  | cons e es =>
      simp only [shapes, nodesOfAll, List.length_append, length_nodes_shape e,
        length_nodes_shapes es]

end

mutual

theorem nodes_respell (e : Expr) : (e.respell spelling).nodes = e.nodes := by
  cases e with
  | number | bool | string | name => rfl
  | unary _ _ e | cast _ _ e | stepBefore _ _ e | stepAfter _ _ e | group _ e =>
      simp only [respell, nodes, nodes_respell e]
  | subscript _ a b | binary _ _ a b | assign _ _ a b =>
      simp only [respell, nodes, nodes_respell a, nodes_respell b]
  | call _ callee args =>
      simp only [respell, nodes, nodes_respell callee, nodesOfAll_respell args]
  | conditional _ a b c =>
      simp only [respell, nodes, nodes_respell a, nodes_respell b, nodes_respell c]

theorem nodesOfAll_respell (es : List Expr) :
    nodesOfAll (respellAll spelling es) = nodesOfAll es := by
  cases es with
  | nil => rfl
  | cons e es =>
      simp only [respellAll, nodesOfAll, nodes_respell e, nodesOfAll_respell es]

end

theorem isAssignable_eq_of_shape_eq {e e' : Expr} (h : e'.shape = (e.respell spelling).shape) :
    e'.isAssignable = e.isAssignable := by
  rw [← isAssignable_shape, h, isAssignable_shape, isAssignable_respell]

theorem length_nodes_eq_of_shape_eq {e e' : Expr} (h : e'.shape = (e.respell spelling).shape) :
    e.nodes.length = e'.nodes.length := by
  rw [← length_nodes_shape e', h, length_nodes_shape, nodes_respell]

end KernelWeaver.Snippet.Expr
