import KernelWeaver.Proofs.Code.Succeeds
import KernelWeaver.Proofs.Code.WellFormed
import KernelWeaver.Proofs.Table

/-!
# Resolving names

In well-formed scopes the code of every bound name can be put together. Between two initialisers
that are needed for the first time each name in progress leads only to names of a lower rank, so the
bound on the number of names in progress is never met.
-/

namespace KernelWeaver.Code

open Relation

variable {inner outer scopes old new : List Scope} {s t : Scope} {name : String} {b : Binding}

/-- The number of names that the scopes bind. -/
def boundCount (scopes : List Scope) : Nat := (scopes.map (·.bindings.length)).sum

theorem boundCount_cons : boundCount (s :: outer) = s.bindings.length + boundCount outer := by
  rw [boundCount, List.map_cons, List.sum_cons, boundCount]

theorem boundCount_append : boundCount (inner ++ outer) = boundCount inner + boundCount outer := by
  rw [boundCount, List.map_append, List.sum_append, boundCount, boundCount]

theorem boundCount_congr (h : List.Forall₂ Scope.Evolves old new) :
    boundCount new = boundCount old := by
  induction h with
  | nil => rfl
  | cons hs _ ih => rw [boundCount_cons, boundCount_cons, hs.bindings, ih]

namespace Scope

/-- The names of the scope. -/
def names (s : Scope) : Finset String := (s.bindings.map Prod.fst).toFinset

open Classical in
/-- The names of the scope that the code of a name needs. -/
noncomputable def needs (s : Scope) (name : String) : Finset String :=
  s.names.filter (TransGen s.RefersTo name)

theorem mem_names_of_binds (h : s.binds name = true) : name ∈ s.names :=
  List.mem_toFinset.mpr (Table.has_iff.mp h)

theorem mem_needs {other : String} :
    other ∈ s.needs name ↔ other ∈ s.names ∧ TransGen s.RefersTo name other := by
  classical
  rw [needs, Finset.mem_filter]

theorem WellFormed.not_mem_needs (h : s.WellFormed outer) : name ∉ s.needs name :=
  fun hmem => h.acyclic name (mem_needs.mp hmem).2

theorem WellFormed.card_needs_lt (h : s.WellFormed outer) (hb : s.binds name = true) :
    (s.needs name).card < s.bindings.length := by
  have hssub : s.needs name ⊂ s.names := by
    refine Finset.ssubset_iff_subset_ne.mpr ⟨fun m hm => (mem_needs.mp hm).1, fun heq => ?_⟩
    exact h.not_mem_needs (heq ▸ mem_names_of_binds hb)
  refine (Finset.card_lt_card hssub).trans_le ?_
  exact (List.toFinset_card_le _).trans_eq (List.length_map Prod.fst)

theorem WellFormed.card_needs_lt_of_refersTo (h : s.WellFormed outer) {other : String}
    (hr : s.RefersTo name other) : (s.needs other).card < (s.needs name).card := by
  refine Finset.card_lt_card (Finset.ssubset_iff_of_subset ?_ |>.mpr ⟨other, ?_, h.not_mem_needs⟩)
  · intro m hm
    obtain ⟨hnames, hpath⟩ := mem_needs.mp hm
    exact mem_needs.mpr ⟨hnames, .head hr hpath⟩
  · exact mem_needs.mpr ⟨mem_names_of_binds hr.2.1, .single hr⟩

theorem Evolves.needs (h : s.Evolves t) (name : String) : t.needs name = s.needs name := by
  classical
  rw [Scope.needs, Scope.needs, h.refersTo, names, names, h.bindings]

end Scope

/-- How far a name is from names that need no others: those that it needs in the scope it belongs
to, and all names of the scopes around that. -/
noncomputable def rank : (scopes : List Scope) → (name : String) → Nat
  | [], _ => 0
  | s :: outer, name =>
    if s.binds name then (s.needs name).card + boundCount outer else rank outer name

theorem rank_of_binds (h : s.binds name = true) :
    rank (s :: outer) name = (s.needs name).card + boundCount outer := by
  rw [rank, if_pos h]

theorem rank_of_not_binds (h : s.binds name = false) :
    rank (s :: outer) name = rank outer name := by
  rw [rank, if_neg (by simp [h])]

theorem rank_congr (h : List.Forall₂ Scope.Evolves old new) (name : String) :
    rank new name = rank old name := by
  induction h with
  | nil => rfl
  | cons hs hrest ih =>
      rw [rank, rank, hs.binds, hs.needs, boundCount_congr hrest, ih]

theorem EachWellFormed.rank_lt (h : EachWellFormed scopes) (hb : BoundIn scopes name) :
    rank scopes name < boundCount scopes := by
  induction scopes with
  | nil => simp [BoundIn] at hb
  | cons s outer ih =>
      rw [boundCount_cons]
      cases hs : s.binds name with
      | true =>
          rw [rank_of_binds hs]
          exact Nat.add_lt_add_right (h.1.card_needs_lt hs) _
      | false =>
          rw [rank_of_not_binds hs]
          have hlt := ih h.2 ((boundIn_cons.mp hb).resolve_left (by simp [hs]))
          omega

theorem EachWellFormed.rank_seenFrom_lt (h : EachWellFormed (s :: outer)) {m : String}
    (hb : BoundIn (s.seenFrom outer name m) m) :
    rank (s.seenFrom outer name m) m < boundCount (s :: outer) := by
  rw [Scope.seenFrom] at hb ⊢
  by_cases hself : m = name
  · rw [if_pos hself] at hb ⊢
    rw [boundCount_cons]
    exact (h.2.rank_lt hb).trans_le (Nat.le_add_left _ _)
  · rw [if_neg hself] at hb ⊢
    exact h.rank_lt hb

/-- The names that stand in the first binding of a name are of lower rank. -/
theorem EachWellFormed.rank_marker_lt (h : EachWellFormed (s :: outer))
    (hb : s.select? name none = some b) {m : String} (hm : m ∈ b.template.markerNames) :
    rank (s.seenFrom outer name m) m < rank (s :: outer) name := by
  have hbound := h.1.markers name b (Scope.offers_of_select? hb) m hm
  rw [rank_of_binds (Scope.binds_of_select? hb)]
  rw [Scope.seenFrom] at hbound ⊢
  by_cases hself : m = name
  · rw [if_pos hself] at hbound ⊢
    exact (h.2.rank_lt hbound).trans_le (Nat.le_add_left _ _)
  · rw [if_neg hself] at hbound ⊢
    cases hs : s.binds m with
    | true =>
        rw [rank_of_binds hs]
        exact Nat.add_lt_add_right (h.1.card_needs_lt_of_refersTo ⟨hself, hs, b, hb, hm⟩) _
    | false =>
        rw [rank_of_not_binds hs]
        have houter := (boundIn_cons.mp hbound).resolve_left (by simp [hs])
        exact (h.2.rank_lt houter).trans_le (Nat.le_add_left _ _)

theorem rank_append_of_not_binds (h : ∀ u ∈ inner, u.binds name = false) :
    rank (inner ++ outer) name = rank outer name := by
  induction inner with
  | nil => rfl
  | cons u inner ih =>
      rw [List.cons_append, rank_of_not_binds (h u List.mem_cons_self)]
      exact ih fun v hv => h v (List.mem_cons_of_mem u hv)

/-- The list is cut before its first element of which the condition fails. -/
theorem exists_span {α : Type} {p : α → Bool} {l : List α} (h : ∃ x ∈ l, p x = false) :
    ∃ front x rest, l.span p = (front, x :: rest) ∧ l = front ++ x :: rest ∧ p x = false ∧
      ∀ y ∈ front, p y = true := by
  rw [List.span_eq_takeWhile_dropWhile]
  cases hdrop : l.dropWhile p with
  | nil =>
      obtain ⟨x, hx, hp⟩ := h
      rw [List.dropWhile_eq_nil_iff.mp hdrop x hx] at hp
      cases hp
  | cons x rest =>
      have happend := List.takeWhile_append_dropWhile (p := p) (l := l)
      have hhead := List.head?_dropWhile_not p l
      rw [hdrop] at happend hhead
      exact ⟨_, x, rest, rfl, happend.symm, by simpa using hhead,
        fun y hy => List.mem_takeWhile_imp hy⟩

/-- A field is registered if those of its name agree with it. -/
theorem StructFields.register_eq_ok (fields : StructFields) {f : StructField}
    (h : ∀ g ∈ fields, g.name = f.name → g.type.sameKind f.type = true) :
    ∃ fields', fields.register f = .ok fields' ∧ ∀ g ∈ fields', g ∈ fields ∨ g = f := by
  rw [register]
  cases hfind : fields.find? f.name with
  | none => exact ⟨_, rfl, by simp⟩
  | some old =>
      have hname : old.name = f.name := by simpa using List.find?_some hfind
      dsimp only
      rw [if_pos (h old (List.mem_of_find?_eq_some hfind) hname)]
      exact ⟨_, rfl, fun g hg => .inl hg⟩

namespace Scope

variable {state : InitState} {i : Nat}

/-- An initialiser that is needed is not unused any more. -/
theorem evolves_setState (s : Scope) (i : Nat) (h : state ≠ .unused) :
    s.Evolves (s.setState i state) where
  bindings := rfl
  templates := by
    rw [setState]
    induction s.initialisers generalizing i with
    | nil => simp
    | cons x xs ih =>
        cases i with
        | zero => simp
        | succ i => simpa using ih i
  unused := by
    rw [unused, unused, setState]
    induction s.initialisers generalizing i with
    | nil => simp
    | cons x xs ih =>
        cases i with
        | zero => simp [List.countP_cons, h]
        | succ i => simpa [List.countP_cons] using ih i
  fields := rfl

theorem unused_setState_lt {template : Template} (hstate : state ≠ .unused)
    (h : s.initialisers[i]? = some ⟨template, .unused⟩) :
    (s.setState i state).unused < s.unused := by
  rw [unused, unused, setState]
  generalize s.initialisers = xs at h
  induction xs generalizing i with
  | nil => cases h
  | cons x xs ih =>
      cases i with
      | zero =>
          cases h
          simp [hstate]
      | succ i => simpa [List.countP_cons] using ih h

end Scope

namespace Emit

theorem registerField_succeeds {c : Chain} {f : StructField} (hwf : WellFormed c.scopes)
    (huse : UsesField c.scopes f) (hstruct : ∃ s ∈ c.scopes, s.fields.isSome = true) :
    Succeeds (registerField f) c fun _ c' => Evolves c.scopes c'.scopes := by
  obtain ⟨inner, s, outer, hspan, hscopes, hs, -⟩ :=
    exists_span (p := fun s : Scope => s.fields.isNone) (l := c.scopes) (by
      obtain ⟨s, hs, hf⟩ := hstruct
      exact ⟨s, hs, by cases hfields : s.fields <;> simp_all⟩)
  have hregistered : ∀ g ∈ s.fields.getD [], UsesField c.scopes g := by
    intro g hg
    refine ⟨s, by simp [hscopes], .inr ?_⟩
    cases hfields : s.fields with
    | none => simp [hfields] at hs
    | some fields =>
        rw [hfields] at hg
        exact ⟨fields, rfl, hg⟩
  obtain ⟨fields, hregister, hmem⟩ := StructFields.register_eq_ok (s.fields.getD [])
    fun g hg hname => hwf.agree g f (hregistered g hg) huse hname
  refine .bind (P := fun a c' => a = c ∧ c' = c) (.get ⟨rfl, rfl⟩) ?_
  rintro _ _ ⟨rfl, rfl⟩
  rw [hspan]
  dsimp only
  rw [hregister]
  refine .set ?_
  rw [hscopes] at hregistered huse ⊢
  refine .of_scope ⟨rfl, rfl, le_rfl, ?_⟩ ?_
  · simpa using hs
  · rintro _ ⟨⟩ g hg
    exact (hmem g hg).elim (hregistered g) (· ▸ huse)

/-- The scopes have evolved from those of `c`, and at most `n` initialisers are unused. -/
def Reached (c : Chain) (n : Nat) (c' : Chain) : Prop :=
  Evolves c.scopes c'.scopes ∧ unusedIn c'.scopes ≤ n

/-- Scopes that are set aside stay as they are. -/
theorem Succeeds.without_evolves {α : Type} {m : Emit α} {c : Chain}
    (hc : c.scopes = inner ++ outer)
    (h : Succeeds m { c with scopes := outer } fun _ c' => Evolves outer c'.scopes) :
    Succeeds (Emit.without inner m) c fun _ c' => Evolves c.scopes c'.scopes := by
  refine .without hc (h.imp fun _ c' he => ?_)
  rw [hc]
  exact he.append_left inner

variable {c c' : Chain} {lookup : String → Emit String} {n : Nat}

theorem Reached.of_succeeds {α : Type} {m : Emit α} (hc : Reached c n c')
    (h : Succeeds m c' fun _ c'' => Evolves c'.scopes c''.scopes) :
    Succeeds m c' fun _ c'' => Reached c n c'' :=
  h.imp fun _ _ he => ⟨hc.1.trans he, he.unusedIn_le.trans hc.2⟩

theorem require_maintains {i : Nat} (hc : c.scopes = s :: outer) (hwf : s.WellFormed outer)
    (hi : i < s.initialisers.length)
    (hlookup : ∀ k < n, ∀ m, BoundIn c.scopes m → Maintains (lookup m) (Reached c k)) :
    Maintains (require lookup i) (Reached c n) := by
  intro c' hreached
  have hscopes := hreached.1.scopes
  rw [hc] at hscopes
  obtain ⟨t, outer', ht, houter, hc'⟩ := List.forall₂_cons_left_iff.mp hscopes
  rw [← ht.length_initialisers] at hi
  refine .bind (P := fun a c'' => a = c' ∧ c'' = c') (.get ⟨rfl, rfl⟩) ?_
  rintro _ _ ⟨rfl, rfl⟩
  have hget := List.getElem?_eq_getElem hi
  rw [hc', List.head?_cons, Option.bind_some, hget]
  obtain ⟨j, hj, htemplate⟩ := ht.exists_initialiser (List.getElem_mem hi)
  have hmarkers := hwf.initialiserMarkers j hj
  rw [htemplate, ← hc] at hmarkers
  cases hinit : t.initialisers[i] with
  | mk template state =>
      rw [hinit] at hget hmarkers
      cases state with
      | pending => exact .pure hreached
      | emitted => exact .pure hreached
      | unused =>
          have hpending : t.unused ≠ 0 ∧ (t.setState i .pending).unused < t.unused :=
            have hlt := Scope.unused_setState_lt (by decide) hget
            ⟨Nat.ne_zero_of_lt hlt, hlt⟩
          have hunused := hreached.2
          rw [hc', unusedIn_cons] at hunused
          refine .bind (P := fun _ c'' => Reached c (n - 1) c'') (.changeScope hc' rfl ⟨?_, ?_⟩) ?_
          · exact hreached.1.trans (hc' ▸ .head (t.evolves_setState i (by decide)) rfl)
          · change unusedIn (t.setState i .pending :: outer') ≤ n - 1
            rw [unusedIn_cons]
            omega
          intro _ c₂ hc₂
          refine .bind (Maintains.render (fun m hm =>
            hlookup (n - 1) (by omega) m (hmarkers m hm)) c₂ hc₂) fun text c₃ hc₃ => ?_
          have hscopes₃ := hc₃.1.scopes
          rw [hc] at hscopes₃
          obtain ⟨u, outer₃, -, -, hc₃'⟩ := List.forall₂_cons_left_iff.mp hscopes₃
          have hdone : u.Evolves { u.setState i .emitted with emitted := u.emitted ++ [text] } :=
            (u.evolves_setState i (by decide)).trans ⟨rfl, rfl, le_rfl, rfl⟩
          have hlast : Evolves (u :: outer₃) (_ :: outer₃) := .head hdone rfl
          rw [← hc₃'] at hlast
          exact .changeScope hc₃' rfl
            ⟨hc₃.1.trans hlast, hlast.unusedIn_le.trans (hc₃.2.trans (Nat.sub_le n 1))⟩

/-- Every bound name can be resolved if so many names may be in progress: for each initialiser that
is still unused as many as there are names, and as many as the rank of the name. -/
def ResolvesWithin (most fuel : Nat) : Prop :=
  ∀ c name, WellFormed c.scopes → BoundIn c.scopes name → boundCount c.scopes ≤ most →
    unusedIn c.scopes * (most + 2) + rank c.scopes name + 1 ≤ fuel →
    Succeeds (resolveWithin fuel name none) c fun _ c' => Evolves c.scopes c'.scopes

variable {most fuel r : Nat}

theorem ResolvesWithin.maintains (h : ResolvesWithin most fuel) (hwf : WellFormed c.scopes)
    (hb : BoundIn c.scopes name) (hmost : boundCount c.scopes ≤ most)
    (hfuel : n * (most + 2) + rank c.scopes name + 1 ≤ fuel) :
    Maintains (resolveWithin fuel name none) (Reached c n) := by
  intro c' hc'
  refine hc'.of_succeeds (h c' name (hwf.evolves hc'.1) (hc'.1.boundIn.mpr hb) ?_ ?_)
  · rwa [boundCount_congr hc'.1.scopes]
  · rw [rank_congr hc'.1.scopes]
    have hle := Nat.mul_le_mul_right (most + 2) hc'.2
    omega

section Expand

variable (h : ResolvesWithin most fuel) (hc : c.scopes = s :: outer) (hwf : WellFormed c.scopes)
  (hmost : boundCount c.scopes ≤ most)
include h hc hwf hmost

/-- A marker for the name itself is resolved with the innermost scope set aside. -/
theorem ResolvesWithin.marker {m : String} (hb : BoundIn (s.seenFrom outer name m) m)
    (hfuel : n * (most + 2) + rank (s.seenFrom outer name m) m + 1 ≤ fuel) :
    Maintains (if m = name then do
        let inner := (← get).scopes.take 1
        without inner (resolveWithin fuel m none)
      else resolveWithin fuel m none) (Reached c n) := by
  rw [Scope.seenFrom] at hb hfuel
  by_cases hself : m = name
  · rw [if_pos hself] at hb hfuel ⊢
    intro c' hc'
    have hscopes := hc'.1.scopes
    rw [hc] at hscopes
    obtain ⟨t, outer', ht, houter, hcons⟩ := List.forall₂_cons_left_iff.mp hscopes
    have hwf' := hwf.evolves hc'.1
    have hmost' := boundCount_congr hc'.1.scopes
    have hunused := hc'.2
    rw [hcons] at hwf' hmost' hunused
    rw [boundCount_cons] at hmost'
    rw [unusedIn_cons] at hunused
    refine .bind (P := fun a c'' => a = c' ∧ c'' = c') (.get ⟨rfl, rfl⟩) ?_
    rintro _ _ ⟨rfl, rfl⟩
    rw [hcons]
    refine hc'.of_succeeds (.without_evolves hcons (h _ m hwf'.tail ?_ ?_ ?_))
    · exact (boundIn_congr houter).mpr hb
    · dsimp only
      omega
    · dsimp only
      rw [rank_congr houter]
      have hle : unusedIn outer' * (most + 2) ≤ n * (most + 2) :=
        Nat.mul_le_mul_right _ (by omega)
      omega
  · rw [if_neg hself, ← hc] at hb hfuel
    rw [if_neg hself]
    exact h.maintains hwf hb hmost hfuel

/-- The code of a binding whose markers are of lower rank than `r`. -/
theorem ResolvesWithin.expand (hb : s.Offers name b)
    (hr : ∀ m ∈ b.template.markerNames, rank (s.seenFrom outer name m) m < r)
    (hfuel : unusedIn c.scopes * (most + 2) + r ≤ fuel) :
    Succeeds (expand (resolveWithin fuel · none) name b) c fun _ c' =>
      Evolves c.scopes c'.scopes := by
  have hscope : s.WellFormed outer := (hc ▸ hwf.each).1
  have hrest : Maintains (do
      b.initialisers.forM (require (resolveWithin fuel · none))
      b.template.render fun marker =>
        if marker = name then do
          let inner := (← get).scopes.take 1
          without inner (resolveWithin fuel marker none)
        else resolveWithin fuel marker none) (Reached c (unusedIn c.scopes)) := by
    intro c' hc'
    refine .bind (Maintains.forM (fun i hi => ?_) c' hc') fun _ c'' hc'' => ?_
    · refine require_maintains hc hscope (hscope.initialisers name b hb i hi) fun k hk m hm => ?_
      have hrank := hwf.each.rank_lt hm
      have hle : (k + 1) * (most + 2) ≤ unusedIn c.scopes * (most + 2) :=
        Nat.mul_le_mul_right _ hk
      rw [Nat.add_mul, Nat.one_mul] at hle
      exact h.maintains hwf hm hmost (by omega)
    · refine Maintains.render (fun m hm => ?_) c'' hc''
      have hlt := hr m hm
      exact h.marker hc hwf hmost (hscope.markers name b hb m hm) (by omega)
  rw [Emit.expand]
  cases hf : b.field with
  | none => exact (hrest c ⟨.refl _, le_rfl⟩).imp fun _ _ hc' => hc'.1
  | some field =>
      have huse : UsesField c.scopes field := ⟨s, by simp [hc], .inl ⟨name, b, hb, hf⟩⟩
      have hstruct := hscope.fields name b hb (by simp [hf])
      rw [← hc] at hstruct
      refine .bind (registerField_succeeds hwf huse hstruct) fun _ c' hc' => ?_
      exact (hrest c' ⟨hc', hc'.unusedIn_le⟩).imp fun _ _ hc'' => hc''.1

end Expand

/-- A name is resolved with one more name in progress than its markers. Those of its first binding
are of lower rank; those of any binding are among the names that are bound. -/
theorem ResolvesWithin.resolveWithin_succ (h : ResolvesWithin most fuel)
    (hwf : WellFormed c.scopes) (hb : BoundIn c.scopes name) (hmost : boundCount c.scopes ≤ most)
    {wanted : Option CType} (hr : wanted = none ∧ rank c.scopes name ≤ r ∨ most ≤ r)
    (hfuel : unusedIn c.scopes * (most + 2) + r ≤ fuel) :
    Succeeds (resolveWithin (fuel + 1) name wanted) c fun _ c' => Evolves c.scopes c'.scopes := by
  obtain ⟨inner, s, outer, hspan, hscopes, hs, hinner⟩ :=
    exists_span (p := fun s : Scope => !s.binds name) (l := c.scopes) (by simpa [BoundIn] using hb)
  have howner : WellFormed (s :: outer) := (hscopes ▸ hwf).of_append
  obtain ⟨b, hselect⟩ := howner.each.1.exists_select? (by simpa using hs) wanted
  rw [hscopes, boundCount_append] at hmost
  rw [hscopes, unusedIn_append] at hfuel
  rw [resolveWithin]
  refine .bind (P := fun a c' => a = c ∧ c' = c) (.get ⟨rfl, rfl⟩) ?_
  rintro _ c ⟨rfl, rfl⟩
  rw [Chain.splitAt, hspan]
  dsimp only
  rw [List.head?_cons, Option.bind_some, hselect]
  have hoffers := Scope.offers_of_select? hselect
  refine .without_evolves hscopes (h.expand (c := { c with scopes := s :: outer }) (r := r) rfl
    howner ?_ hoffers (fun m hm => ?_) ?_)
  · dsimp only
    omega
  · rcases hr with ⟨rfl, hrank⟩ | hr
    · rw [hscopes, rank_append_of_not_binds (by simpa using hinner)] at hrank
      exact (howner.each.rank_marker_lt hselect hm).trans_le hrank
    · have hbound := howner.each.1.markers name b hoffers m hm
      have hlt := howner.each.rank_seenFrom_lt hbound
      omega
  · dsimp only
    have hle : unusedIn (s :: outer) * (most + 2) ≤
      (unusedIn inner + unusedIn (s :: outer)) * (most + 2) := Nat.mul_le_mul_right _ (by omega)
    omega

theorem resolvesWithin (most fuel : Nat) : ResolvesWithin most fuel := by
  induction fuel with
  | zero =>
      intro c name _ _ _ hfuel
      omega
  | succ fuel ih =>
      intro c name hwf hb hmost hfuel
      exact ih.resolveWithin_succ hwf hb hmost (.inl ⟨rfl, le_rfl⟩) (by omega)

theorem total_eq_sum (c : Chain) (count : Scope → Nat) :
    Chain.resolutionBound.total c count = (c.scopes.map count).sum := by
  rw [Chain.resolutionBound.total, List.sum_eq_foldl_nat, List.foldl_map]

theorem unusedIn_le_total (scopes : List Scope) :
    unusedIn scopes ≤ (scopes.map (·.initialisers.length)).sum := by
  induction scopes with
  | nil => exact le_rfl
  | cons s outer ih =>
      rw [unusedIn_cons, List.map_cons, List.sum_cons]
      exact Nat.add_le_add List.countP_le_length ih

/-- In well-formed scopes every bound name can be resolved. -/
theorem resolve_succeeds (hwf : WellFormed c.scopes) (hb : BoundIn c.scopes name)
    (wanted : Option CType) :
    Succeeds (resolve name wanted) c fun _ c' => Evolves c.scopes c'.scopes := by
  have hbound : c.resolutionBound =
      ((c.scopes.map (·.initialisers.length)).sum + 1) * (boundCount c.scopes + 2) := by
    rw [Chain.resolutionBound, total_eq_sum, total_eq_sum, boundCount]
  have hle : (unusedIn c.scopes + 1) * (boundCount c.scopes + 2) ≤ c.resolutionBound := by
    rw [hbound]
    exact Nat.mul_le_mul_right _ (Nat.succ_le_succ (unusedIn_le_total c.scopes))
  rw [Nat.add_mul, Nat.one_mul] at hle
  obtain ⟨fuel, hfuel⟩ := Nat.exists_eq_succ_of_ne_zero (n := c.resolutionBound) (by omega)
  refine .bind (P := fun a c' => a = c ∧ c' = c) (.get ⟨rfl, rfl⟩) ?_
  rintro _ _ ⟨rfl, rfl⟩
  rw [hfuel] at hle ⊢
  exact (resolvesWithin _ fuel).resolveWithin_succ hwf hb le_rfl (.inr le_rfl) (by omega)

/-- The text of a template all of whose markers are bound. -/
theorem expandText_succeeds {template : String} (hwf : WellFormed c.scopes)
    (hb : ∀ m ∈ (Template.ofString template).markerNames, BoundIn c.scopes m) :
    Succeeds (expandText template) c fun _ c' => Evolves c.scopes c'.scopes := by
  refine Maintains.render (fun m hm c' hc' => ?_) c (.refl c.scopes)
  have hsucceeds := resolve_succeeds (hwf.evolves hc') (hc'.boundIn.mpr (hb m hm)) none
  exact hsucceeds.imp fun _ _ he => hc'.trans he

end Emit

end KernelWeaver.Code
