import KernelWeaver.Generate.Bindings
import KernelWeaver.Proofs.Code.Run
import KernelWeaver.Proofs.Table

/-!
# Values of parameters

The name of a parameter is bound to a field or to a literal. A field is set to the literal of each
member's own value. A literal is that of the value of the first member, to which the values of all
members compare equal.
-/

namespace KernelWeaver

namespace Code

/-- What the code of a name comes to for the member with the given number. -/
inductive Binding.Gives (b : Binding) (i : Nat) (text : String) : Prop
  | inlined (field : b.field = none) (template : b.template = .ofString text)
  | pushed (f : StructField) (field : b.field = some f)
      (template : b.template = .ofString ("group->" ++ f.name)) (value : f.value i = .ok text)

/-- A member gets the literal of its own value, or of one that compares equal to it. -/
def Binding.GivesValue (b : Binding) (type : Numeric) (i : Nat) (own : Float) : Prop :=
  ∃ v, (own = v ∨ own == v) ∧ b.Gives i (type.literal v)

/-- The scope has kept its bindings. -/
def Scope.Keeps (s t : Scope) : Prop :=
  ∀ name bs, s.bindings.find? name = some bs → t.bindings.find? name = some bs

theorem Scope.Keeps.trans {s t u : Scope} (h : s.Keeps t) (h' : t.Keeps u) : s.Keeps u :=
  fun name bs hfind => h' name bs (h name bs hfind)

theorem Scope.find?_bind {s t : Scope} {name : String} {b : Binding} (h : s.bind name b = .ok t)
    (other : String) : t.bindings.find? other =
      if other = name then some [b] else s.bindings.find? other := by
  unfold Scope.bind at h
  split at h
  next => cases h
  next =>
    cases h
    rw [Table.find?_insert]

theorem Scope.keeps_bind {s t : Scope} {name : String} {b : Binding} (h : s.bind name b = .ok t) :
    s.Keeps t ∧ s.bindings.find? name = none ∧ t.bindings.find? name = some [b] := by
  have hnone : s.bindings.find? name = none := by
    unfold Scope.bind at h
    split at h
    next => cases h
    next hnew => simpa [binds, Table.has] using hnew
  refine ⟨?_, hnone, by rw [find?_bind h, if_pos rfl]⟩
  intro other bs hfind
  rw [find?_bind h, if_neg]
  · exact hfind
  · rintro rfl
    rw [hnone] at hfind
    cases hfind

namespace Emit

/-- The value of a parameter for a member, which is zero if it has none. -/
def memberValue (members : List (Table Float)) (i : Nat) (name : String) : Float :=
  ((members[i]?).bind (·.find? name)).getD 0.0

section Runs

variable {s : Scope} {outer : List Scope} {sink : CodeStream} {c : Chain} {type : Numeric}
  {suffix : String} {members : List (Table Float)}

theorem mem_tail_range {i n : Nat} : i ∈ (List.range n).tail ↔ 0 < i ∧ i < n := by
  cases n with
  | zero => simp
  | succ n =>
      rw [List.range_succ_eq_map, List.tail_cons, List.mem_map]
      simp only [List.mem_range]
      constructor
      · rintro ⟨j, hj, rfl⟩
        omega
      · intro ⟨hpos, hi⟩
        exact ⟨i - 1, by omega, by omega⟩

/-- One parameter is bound, to a literal if the values compare equal. -/
theorem gives_of_bindParameters_cons {name : String} {names : List String}
    (h : (bindParameters type suffix members (name :: names)).runOn ⟨s :: outer, sink⟩ =
      (.ok (), c)) :
    ∃ b t, s.bind name b = .ok t ∧
      (∀ i < members.length, b.GivesValue type i (memberValue members i name)) ∧
      (bindParameters type suffix members names).runOn ⟨t :: outer, sink⟩ = (.ok (), c) := by
  rw [bindParameters] at h
  dsimp only at h
  split at h
  next hsame =>
    obtain ⟨_, c', hbind, hrest⟩ := runOn_bind_eq_ok.mp h
    obtain ⟨t, ht, rfl⟩ := runOn_changeScope_eq_ok.mp hbind
    refine ⟨_, t, ht, ?_, hrest⟩
    intro i hi
    refine ⟨_, ?_, .inlined rfl rfl⟩
    rcases Nat.eq_zero_or_pos i with rfl | hpos
    · exact Or.inl rfl
    · exact Or.inr (List.all_eq_true.mp hsame i (mem_tail_range.mpr ⟨hpos, hi⟩))
  next =>
    obtain ⟨_, c', hbind, hrest⟩ := runOn_bind_eq_ok.mp h
    obtain ⟨t, ht, rfl⟩ := runOn_changeScope_eq_ok.mp hbind
    refine ⟨_, t, ht, ?_, hrest⟩
    intro i _
    exact ⟨_, Or.inl rfl, .pushed _ rfl rfl rfl⟩

/-- All parameters are bound, each to one thing, and what was bound before still is. -/
theorem gives_of_bindParameters {names : List String}
    (h : (bindParameters type suffix members names).runOn ⟨s :: outer, sink⟩ = (.ok (), c)) :
    ∃ t, c = ⟨t :: outer, sink⟩ ∧ s.Keeps t ∧ names.Nodup ∧
      ∀ name ∈ names, s.bindings.find? name = none ∧ ∃ b, t.bindings.find? name = some [b] ∧
        ∀ i < members.length, b.GivesValue type i (memberValue members i name) := by
  induction names generalizing s with
  | nil =>
      obtain ⟨-, rfl⟩ := runOn_pure_eq_ok.mp h
      exact ⟨s, rfl, fun _ _ h => h, .nil, fun _ hname => by cases hname⟩
  | cons name names ih =>
      obtain ⟨b, s', hbind, hgives, hrest⟩ := gives_of_bindParameters_cons h
      obtain ⟨hkeeps, hnew, hbound⟩ := Scope.keeps_bind hbind
      obtain ⟨t, rfl, hkeeps', hnodup, hnames⟩ := ih hrest
      refine ⟨t, rfl, hkeeps.trans hkeeps', List.nodup_cons.mpr ⟨?_, hnodup⟩, ?_⟩
      -- a name that comes again would have been refused
      · intro hmem
        rw [(hnames name hmem).1] at hbound
        cases hbound
      · intro other hother
        rcases List.mem_cons.mp hother with rfl | hother
        · exact ⟨hnew, b, hkeeps' _ _ hbound, hgives⟩
        · obtain ⟨hnone, hfound⟩ := hnames other hother
          refine ⟨?_, hfound⟩
          cases hs : s.bindings.find? other with
          | none => rfl
          | some bs =>
              rw [hkeeps other bs hs] at hnone
              cases hnone

/-- The values of all members compare equal to that of the first. -/
def Homogeneous (members : List (Table Float)) (name : String) : Prop :=
  ∀ i < members.length, 0 < i → memberValue members i name == memberValue members 0 name

/-- Parameters that have one value are bound to its literal, and nothing else changes. -/
theorem find?_of_bindParameters {names : List String}
    (h : (bindParameters type suffix members names).runOn ⟨s :: outer, sink⟩ = (.ok (), c))
    (hsame : ∀ name ∈ names, Homogeneous members name) :
    ∃ t, c = ⟨t :: outer, sink⟩ ∧ ∀ name, t.bindings.find? name =
      if name ∈ names then
        some [.ofText (CType.num type).addConst (type.literal (memberValue members 0 name))]
      else s.bindings.find? name := by
  induction names generalizing s with
  | nil =>
      obtain ⟨-, rfl⟩ := runOn_pure_eq_ok.mp h
      exact ⟨s, rfl, fun _ => by simp⟩
  | cons first names ih =>
      rw [List.forall_mem_cons] at hsame
      have hall : (List.range members.length).tail.all
          (fun i => memberValue members i first == memberValue members 0 first) = true :=
        List.all_eq_true.mpr fun i hi => hsame.1 i (mem_tail_range.mp hi).2 (mem_tail_range.mp hi).1
      rw [bindParameters] at h
      dsimp only at h
      split at h
      next =>
        obtain ⟨_, c', hbind, hrest⟩ := runOn_bind_eq_ok.mp h
        obtain ⟨s', hs', rfl⟩ := runOn_changeScope_eq_ok.mp hbind
        obtain ⟨t, rfl, hfind⟩ := ih hrest hsame.2
        refine ⟨t, rfl, fun name => ?_⟩
        rw [hfind]
        by_cases hname : name ∈ names
        · rw [if_pos hname, if_pos (List.mem_cons_of_mem _ hname)]
        · rw [if_neg hname, Scope.find?_bind hs']
          by_cases hfirst : name = first
          · rw [if_pos hfirst, if_pos (by simp [hfirst]), hfirst]
            rfl
          · rw [if_neg hfirst, if_neg (by simp [hfirst, hname])]
      next hnot => exact absurd hall hnot

end Runs

end Emit

end Code

namespace Generate

open Code

variable {model : Model} {params : List String} {derived : List DerivedParam}
  {members : List (String × Table Float)}

theorem exists_find?_of_checkParams {owner : String} {values : Table Float}
    (h : checkParams params owner values = .ok ()) :
    ∀ name ∈ params, ∃ own, values.find? name = some own := by
  unfold checkParams at h
  split at h
  next => cases h
  next hall =>
    intro name hname
    have hhas := List.find?_eq_none.mp hall name hname
    simpa [Table.has, Option.ne_none_iff_exists'] using hhas

/-- For each member the code of a parameter comes to the literal of the member's own value, or of
one that compares equal to it; the own value of a derived parameter is what the function given for
it makes of the member's own values. -/
theorem gives_of_bindParams {s : Scope} {outer : List Scope} {sink : CodeStream} {c : Chain}
    (h : (bindParams model params derived members).runOn ⟨s :: outer, sink⟩ = (.ok (), c)) :
    ∃ t, c = ⟨t :: outer, sink⟩ ∧ s.Keeps t ∧
      (∀ name ∈ params, ∃ b, t.bindings.find? name = some [b] ∧
        ∀ i owner values, members[i]? = some (owner, values) →
          ∃ own, values.find? name = some own ∧ b.GivesValue model.precision i own) ∧
      ∀ d ∈ derived, ∃ b, t.bindings.find? d.name = some [b] ∧
        ∀ i owner values, members[i]? = some (owner, values) →
          b.GivesValue model.precision i (d.value values model.dt) := by
  unfold bindParams at h
  obtain ⟨_, _, hrun, h⟩ := Emit.runOn_bind_eq_ok.mp h
  obtain ⟨hchecks, rfl⟩ := Emit.runOn_forM_ofError_eq_ok
    (f := fun m : String × Table Float => checkParams params m.1 m.2) |>.mp hrun
  obtain ⟨_, _, hparams, hderived⟩ := Emit.runOn_bind_eq_ok.mp h
  obtain ⟨s', rfl, hkeeps, -, hparams⟩ := Emit.gives_of_bindParameters hparams
  obtain ⟨t, rfl, hkeeps', hnodup, hderived⟩ := Emit.gives_of_bindParameters hderived
  refine ⟨t, rfl, hkeeps.trans hkeeps', ?_, ?_⟩
  · intro name hname
    obtain ⟨-, b, hb, hgives⟩ := hparams name hname
    refine ⟨b, hkeeps' _ _ hb, ?_⟩
    intro i owner values hi
    have hcheck := hchecks _ (List.mem_of_getElem? hi)
    obtain ⟨own, hown⟩ := exists_find?_of_checkParams hcheck name hname
    have hgives := hgives i (by simpa using (List.getElem?_eq_some_iff.mp hi).1)
    refine ⟨own, hown, ?_⟩
    simpa [Emit.memberValue, hi, hown] using hgives
  · intro d hd
    obtain ⟨-, b, hb, hgives⟩ := hderived d.name (List.mem_map_of_mem hd)
    refine ⟨b, hb, ?_⟩
    intro i owner values hi
    have hgives := hgives i (by simpa using (List.getElem?_eq_some_iff.mp hi).1)
    have hvalue : (derivedValues derived model.dt values).find? d.name =
        some (d.value values model.dt) := by
      apply Table.find?_ofList
      · simpa [Function.comp_def] using hnodup
      · exact List.mem_map_of_mem hd
    simpa [Emit.memberValue, hi, hvalue] using hgives

/-- Zeros compare equal, but their literals have different signs. -/
example : ((-0.0 : Float) == 0.0) = true ∧
    Numeric.float.literal (-0.0) ≠ Numeric.float.literal 0.0 := by
  decide +kernel

end Generate

end KernelWeaver
