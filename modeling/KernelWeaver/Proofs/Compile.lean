import KernelWeaver.Compile
import KernelWeaver.Proofs.Outcome
import KernelWeaver.Proofs.Printing.Progress
import KernelWeaver.Proofs.Snippet.ParseItems
import KernelWeaver.Proofs.Typing.StmtSoundness

/-!
# Compiling into well-formed scopes

A snippet in which nothing is found wrong before it is printed is printed without an error, whatever
the scopes bind, as long as they are well formed.
-/

namespace KernelWeaver

open Code Snippet Typing Printing

/-- The text is read as these statements, and nothing is remarked on it. -/
structure ReadsItems (aliases : Aliases) (source : String) (ss : List Stmt) : Prop where
  read : ∃ scan, Scan.ofSource aliases source = .ok scan ∧ scan.report = [] ∧
    parseItems scan.tokens = (ss, [])

/-- The text is read as this expression, and nothing is remarked on it. -/
structure ReadsExpr (aliases : Aliases) (source : String) (e : Expr) : Prop where
  read : ∃ scan, Scan.ofSource aliases source = .ok scan ∧ scan.report = [] ∧
    parseExpr scan.tokens = (some e, [])

variable {aliases : Aliases} {source : String} {c : Chain}

/-- Declarations stand only where the grammar lets them. -/
theorem derives_of_clean {tokens : List Token} (h : (parseItems tokens).2 = []) :
    ∃ ts, DerivesStmt CoversOrdered (.items (parseItems tokens).1) ts := by
  have hreport : (Parser.items (Parser.itemSteps (Cursor.ofTokens tokens).rest.length) false
    (.ofTokens tokens)).2.report = [] := h
  obtain ⟨ts, -, hitems⟩ := (Parser.soundStmtWithin (Parser.itemSteps
    (Cursor.ofTokens tokens).rest.length)).items false (.ofTokens tokens)
    (Cursor.closed_ofTokens tokens) (by rw [Parser.itemSteps]; omega) (Nat.zero_le _)
    (by rw [hreport]; exact Nat.zero_le _)
  exact ⟨ts, hitems.derives⟩

theorem ReadsItems.derives {ss : List Stmt} (h : ReadsItems aliases source ss) :
    ∃ ts, DerivesStmt CoversOrdered (.items ss) ts := by
  obtain ⟨scan, -, -, hparse⟩ := h.read
  have hderives := derives_of_clean (congrArg Prod.snd hparse)
  rwa [hparse] at hderives

theorem boundIn_of_typesOf {name : String} (h : (c.typesOf name).isSome = true) :
    BoundIn c.scopes name := by
  obtain ⟨types, htypes⟩ := Option.isSome_iff_exists.mp h
  obtain ⟨s, hs, hname⟩ := List.exists_of_findSome?_eq_some htypes
  refine ⟨s, hs, ?_⟩
  rw [Scope.binds, Table.has]
  cases hfind : s.bindings.find? name with
  | none => rw [hfind] at hname; cases hname
  | some bs => rfl

/-- The names that are bound in scopes can be printed into them, before a snippet declares any. -/
theorem ready_of_wellFormed (hwf : WellFormed c.scopes) :
    Ready {name | BoundIn c.scopes name} [] c.scopes :=
  ⟨hwf, fun _ h => .inr h⟩

/-- A snippet that is read and checked without a remark has all its types and is printed. -/
theorem ReadsItems.prints {ss : List Stmt} {names : Option (Table CType)} {loop : Option RowLoop}
    (h : ReadsItems aliases source ss) (hwf : WellFormed c.scopes)
    (hloop : Stmt.hasSynapseLoopIn ss = true →
      ∃ l, loop = some l ∧ names = some l.names ∧ l.FitsIn c.scopes)
    (hclean : (checkSnippet (settingIn aliases c names) ss).report = []) :
    let types := (checkSnippet (settingIn aliases c names) ss).types
    (∀ id ∈ Stmt.nodesOfItems ss, (types.find? id).isSome = true) ∧
      ∃ locals c', (printStmts types loop [] ss).runOn c = (.ok locals, c') := by
  obtain ⟨ts, hderives⟩ := h.derives
  have hknown : ∀ name, ((settingIn aliases c names).typesOf name).isSome = true →
      name ∈ {name | BoundIn c.scopes name} := fun _ h => boundIn_of_typesOf h
  obtain ⟨htypes, hscoped⟩ := checkSnippet_clean hderives hknown hclean
  have hfits : LoopFits loop c.scopes (names.map (·.map Prod.fst)) (Stmt.hasSynapseLoopIn ss) := by
    intro ns hns hpresent
    obtain ⟨l, rfl, rfl, hl⟩ := hloop hpresent
    exact ⟨l, rfl, hl, Option.some.inj hns⟩
  obtain ⟨locals, c', hrun, -⟩ := printsPhrase hscoped loop [] c.scopes
    (ready_of_wellFormed hwf) hfits htypes c (.refl _)
  exact ⟨htypes, locals, c', hrun⟩

/-- A snippet that is read and checked without a remark is printed into well-formed scopes, and
every expression and every declared name in it has a type. Where a loop over synapses occurs, it has
to be one that fits into the scopes and whose names the snippet was checked with. The same holds of
an expression on its own. -/
theorem clean_snippet_prints (hwf : WellFormed c.scopes) :
    (∀ source ss names loop, ReadsItems aliases source ss →
      (Stmt.hasSynapseLoopIn ss = true →
        ∃ l, loop = some l ∧ names = some l.names ∧ l.FitsIn c.scopes) →
      (checkSnippet (settingIn aliases c names) ss).report = [] →
      let types := (checkSnippet (settingIn aliases c names) ss).types
      (∀ id ∈ Stmt.nodesOfItems ss, (types.find? id).isSome = true) ∧
        ∃ locals c', (printStmts types loop [] ss).runOn c = (.ok locals, c')) ∧
    ∀ source e, ReadsExpr aliases source e →
      (checkExpr (settingIn aliases c none) e).2.report = [] →
      let types := (checkExpr (settingIn aliases c none) e).2.types
      (∀ id ∈ e.nodes, (types.find? id).isSome = true) ∧
        ∃ text c', (printExpr types [] e).runOn c = (.ok text, c') := by
  refine ⟨fun source ss names loop hread hloop hclean => ?_, fun source e _ hclean => ?_⟩
  · exact hread.prints hwf hloop hclean
  · have hknown : ∀ name, ((settingIn aliases c none).typesOf name).isSome = true →
        name ∈ {name | BoundIn c.scopes name} := fun _ h => boundIn_of_typesOf h
    obtain ⟨htypes, hscoped⟩ := checkExpr_clean hknown hclean
    obtain ⟨text, c', hrun, -⟩ := printExpr_prints (ready_of_wellFormed hwf) e htypes hscoped
      c (.refl _)
    exact ⟨htypes, text, c', hrun⟩

/-- The scopes of a row update. The inner one gives `g` another meaning, made from the outer one. -/
def rowUpdateScopes : List Scope :=
  [⟨[("g", [.ofText (CType.num .float).addConst "(2.0f * $(g))"])], [], [], .empty, none⟩,
    ⟨[("id_pre", [.ofText CType.uint.addConst "lid"]),
      ("_row_length", [.ofText CType.uint.toPointer "group->rowLength"]),
      ("_ind", [.ofText CType.uint.toPointer "group->ind"]),
      ("_row_start_idx", [.ofText CType.uint.addConst "($(id_pre) * 4)"]),
      ("g", [{ Binding.ofText (CType.num .float).addConst "group->g" with
        field := some ⟨"g", CType.num .float, fun _ => .ok "1.0f"⟩ }])],
      [], [], .empty, some []⟩]

/-- A loop whose body can name one value that is stored with the synapse. -/
def rowUpdateLoop : RowLoop := ⟨[⟨"x", CType.num .float, "group->x[$(id_syn)]"⟩], "j--;"⟩

/-- Where the templates of `rowUpdateScopes` and of the loop refer to names of their own scope, the
height falls. -/
def rowUpdateHeight (name : String) : Nat :=
  if name = "x" then 2 else if name = "_row_start_idx" then 1 else 0

theorem wellFormed_rowUpdateScopes : WellFormed (rowUpdateLoop.scope :: rowUpdateScopes) := by
  refine .of_fieldsOf ⟨?_, ?_, ?_, trivial⟩ ?_
  · exact .of_entries rowUpdateHeight (by decide +kernel) (by decide +kernel)
  · exact .of_entries rowUpdateHeight (by decide +kernel) (by decide +kernel)
  · exact .of_entries rowUpdateHeight (by decide +kernel) (by decide +kernel)
  · decide +kernel

/-- The chain of `rowUpdateScopes`, before anything is emitted. -/
def rowUpdateChain : Chain := ⟨rowUpdateScopes, .empty⟩

theorem clean_snippet_prints_rowUpdate :
    WellFormed rowUpdateChain.scopes ∧
    (∃ ss, ReadsItems [] "int n = 0; for_each_synapse \x7b n += id_syn; x = g; \x7d" ss ∧
      Stmt.hasSynapseLoopIn ss = true ∧ rowUpdateLoop.FitsIn rowUpdateChain.scopes ∧
      (checkSnippet (settingIn [] rowUpdateChain (some rowUpdateLoop.names)) ss).report = [] ∧
      ∃ locals c', (printStmts
        (checkSnippet (settingIn [] rowUpdateChain (some rowUpdateLoop.names)) ss).types
        (some rowUpdateLoop) [] ss).runOn rowUpdateChain = (.ok locals, c')) ∧
    ∃ e, ReadsExpr [] "2 * g" e ∧
      (checkExpr (settingIn [] rowUpdateChain none) e).2.report = [] ∧
      ∃ text c', (printExpr (checkExpr (settingIn [] rowUpdateChain none) e).2.types [] e).runOn
        rowUpdateChain = (.ok text, c') := by
  have hwf : WellFormed rowUpdateChain.scopes := wellFormed_rowUpdateScopes.tail
  have hfits : rowUpdateLoop.FitsIn rowUpdateChain.scopes :=
    ⟨by decide +kernel, wellFormed_rowUpdateScopes⟩
  obtain ⟨scan, hscan, hreport, hparse, hloop, hcheck⟩ := exists_ok_of_decide
    (x := Scan.ofSource [] "int n = 0; for_each_synapse \x7b n += id_syn; x = g; \x7d")
    (P := fun scan => scan.report = [] ∧ (parseItems scan.tokens).2 = [] ∧
      Stmt.hasSynapseLoopIn (parseItems scan.tokens).1 = true ∧
      (checkSnippet (settingIn [] rowUpdateChain (some rowUpdateLoop.names))
        (parseItems scan.tokens).1).report = []) (by decide +kernel)
  have hitems : ReadsItems [] "int n = 0; for_each_synapse \x7b n += id_syn; x = g; \x7d"
      (parseItems scan.tokens).1 := ⟨scan, hscan, hreport, by rw [← hparse]⟩
  obtain ⟨scan', hscan', hreport', hparse', hcheck'⟩ := exists_ok_of_decide
    (x := Scan.ofSource [] "2 * g")
    (P := fun scan => scan.report = [] ∧ (parseExpr scan.tokens).2 = [] ∧
      ∃ e ∈ (parseExpr scan.tokens).1,
        (checkExpr (settingIn [] rowUpdateChain none) e).2.report = []) (by decide +kernel)
  obtain ⟨e, he, hcheck'⟩ := hcheck'
  have hexpr : ReadsExpr [] "2 * g" e :=
    ⟨scan', hscan', hreport', by rw [← hparse', ← Option.mem_def.mp he]⟩
  refine ⟨hwf, ⟨_, hitems, hloop, hfits, hcheck, ?_⟩, e, hexpr, hcheck', ?_⟩
  · exact ((clean_snippet_prints hwf).1 _ _ _ _ hitems
      (fun _ => ⟨rowUpdateLoop, rfl, rfl, hfits⟩) hcheck).2
  · exact ((clean_snippet_prints hwf).2 _ e hexpr hcheck').2

end KernelWeaver
