import KernelWeaver.Typing.Rules
import Mathlib.Data.List.Induction

/-!
# Choosing among overloads

What the search through the choices for a call finds: of those that take the arguments the one that
matches most of them exactly, and the first of equally good ones. The search looks at the types of
the choices alone, and not at the constness of these.
-/

namespace KernelWeaver.Typing

variable {α β : Type} {args : List CType} {type : α → CType} {choices : List α}

/-- The choice takes the arguments, those before it match fewer of them exactly, and those behind it
no more. -/
structure IsBest (args : List CType) (type : α → CType) (front : List α) (best : α) (back : List α)
    (most : Nat) : Prop where
  takes : callScore? args (type best) = some most
  before : ∀ a ∈ front, ∀ score ∈ callScore? args (type a), score < most
  behind : ∀ a ∈ back, ∀ score ∈ callScore? args (type a), score ≤ most

/-- How far the search has got: none of the choices takes the arguments, or one is the best. -/
def BestOf (args : List CType) (type : α → CType) (choices : List α) : Option (Nat × α) → Prop
  | none => ∀ a ∈ choices, callScore? args (type a) = none
  | some (most, best) =>
    ∃ front back, choices = front ++ best :: back ∧ IsBest args type front best back most

theorem BestOf.next {best : Option (Nat × α)} (h : BestOf args type choices best) (a : α) :
    BestOf args type (choices ++ [a]) (betterCall args type best a) := by
  rw [betterCall]
  cases hscore : callScore? args (type a) with
  | none =>
      dsimp only
      cases best with
      | none => exact List.forall_mem_append.mpr ⟨h, List.forall_mem_singleton.mpr hscore⟩
      | some found =>
          obtain ⟨front, back, rfl, hbest⟩ := h
          refine ⟨front, back ++ [a], by simp, hbest.takes, hbest.before, ?_⟩
          refine List.forall_mem_append.mpr ⟨hbest.behind, List.forall_mem_singleton.mpr ?_⟩
          rw [hscore]
          exact nofun
  | some score =>
      cases best with
      | none =>
          refine ⟨choices, [], rfl, hscore, fun other hother => ?_, nofun⟩
          rw [h other hother]
          exact nofun
      | some found =>
          obtain ⟨most, found⟩ := found
          obtain ⟨front, back, rfl, hbest⟩ := h
          dsimp only
          split
          next hless =>
            -- whatever stands before the new choice is no better than the old one
            refine ⟨_, [], rfl, hscore, fun other hother s hs => ?_, nofun⟩
            rcases List.mem_append.mp hother with hfront | hback
            · exact Nat.lt_trans (hbest.before other hfront s hs) hless
            · rcases List.mem_cons.mp hback with rfl | hback
              · rw [hbest.takes] at hs
                cases hs
                exact hless
              · exact Nat.lt_of_le_of_lt (hbest.behind other hback s hs) hless
          next hless =>
            refine ⟨front, back ++ [a], by simp, hbest.takes, hbest.before, ?_⟩
            refine List.forall_mem_append.mpr ⟨hbest.behind, List.forall_mem_singleton.mpr ?_⟩
            rw [hscore]
            rintro _ ⟨⟩
            exact Nat.not_lt.mp hless

theorem bestOf_foldl (args : List CType) (type : α → CType) (choices : List α) :
    BestOf args type choices (choices.foldl (betterCall args type) none) := by
  induction choices using List.reverseRecOn with
  | nil => exact fun _ h => absurd h List.not_mem_nil
  | append_singleton choices a ih =>
      rw [List.foldl_append]
      exact ih.next a

/-- What is chosen for a call is the first of the best choices. -/
theorem isBest_of_chooseCall? {best : α} (h : chooseCall? args type choices = some best) :
    ∃ front back most, choices = front ++ best :: back ∧
      IsBest args type front best back most := by
  obtain ⟨⟨most, _⟩, hfold, rfl⟩ := Option.map_eq_some_iff.mp h
  have hbest := bestOf_foldl args type choices
  rw [hfold] at hbest
  obtain ⟨front, back, hchoices, hbest⟩ := hbest
  exact ⟨front, back, most, hchoices, hbest⟩

/-- What is chosen for arguments is one of the choices and takes them. -/
theorem of_chooseCall? {best : α} (h : chooseCall? args type choices = some best) :
    best ∈ choices ∧ ∃ score, callScore? args (type best) = some score := by
  obtain ⟨front, back, most, rfl, hbest⟩ := isBest_of_chooseCall? h
  exact ⟨by simp, most, hbest.takes⟩

/-- The choice for a call is made by the types of the choices. -/
theorem chooseCall?_map (f : β → α) (choices : List β) :
    chooseCall? args type (choices.map f) =
      (chooseCall? args (fun b => type (f b)) choices).map f := by
  have hstep : ∀ (rest : List β) (best : Option (Nat × β)),
      (rest.map f).foldl (betterCall args type) (best.map fun b => (b.1, f b.2)) =
        (rest.foldl (betterCall args fun b => type (f b)) best).map fun b => (b.1, f b.2) := by
    intro rest
    induction rest with
    | nil => exact fun _ => rfl
    | cons b rest ih =>
        intro best
        rw [List.map_cons, List.foldl_cons, List.foldl_cons, ← ih]
        congr 1
        rw [betterCall, betterCall]
        cases callScore? args (type (f b)) with
        | none => rfl
        | some score =>
            cases best with
            | none => rfl
            | some found =>
                rw [Option.map_some]
                dsimp only
                split <;> rfl
  have hchosen := hstep choices none
  rw [Option.map_none] at hchosen
  rw [chooseCall?, chooseCall?, hchosen, Option.map_map, Option.map_map]
  rfl

/-- Types that differ in their own constness alone are called equally well. -/
theorem callScore?_of_sameKind {s t : CType} (h : s.sameKind t = true) :
    callScore? args s = callScore? args t := by
  have hconst : ∀ u : CType, callScore? args u.removeConst = callScore? args u := by
    intro u
    cases u <;> rfl
  rw [← hconst s, ← hconst t, of_decide_eq_true h]

/-- The best choice is the first one of its kind. -/
theorem IsBest.find?_sameKind {front back : List α} {best : α} {most : Nat}
    (h : IsBest args type front best back most) :
    (front ++ best :: back).find? (fun a => (type a).sameKind (type best)) = some best := by
  rw [List.find?_append, List.find?_eq_none.mpr, Option.none_or, List.find?_cons_of_pos]
  · exact decide_eq_true rfl
  · intro a ha hkind
    have hscore := h.takes
    rw [← callScore?_of_sameKind hkind] at hscore
    exact absurd (h.before a ha most hscore) (Nat.lt_irrefl most)

end KernelWeaver.Typing
