import KernelWeaver.Proofs.Code.Run
import KernelWeaver.Proofs.Code.WellFormed
import KernelWeaver.Proofs.Typing.Choice

/-!
# Overloads in scopes

A name belongs to the innermost scope that binds it, and only the bindings of that scope compete for
a call. The one that suits a call best is found again by its type alone, whatever other bindings of
the name there are.
-/

namespace KernelWeaver.Code

open Typing (IsBest)

/-- The bindings of a name in the innermost scope that binds it. -/
def BoundTo (scopes : List Scope) (name : String) (bs : List Binding) : Prop :=
  ∃ inner s outer, scopes = inner ++ s :: outer ∧ (∀ u ∈ inner, u.binds name = false) ∧
    s.bindings.find? name = some bs

/-- The binding that stands for a name of which a certain type is wanted. -/
def Chain.binding? (c : Chain) (name : String) (wanted : Option CType) : Option Binding :=
  (c.splitAt name).2.head?.bind (·.select? name wanted)

variable {scopes scopes' : List Scope} {s : Scope} {c : Chain} {name : String} {b : Binding}
  {bs front back : List Binding} {args : List CType} {most : Nat}

namespace BoundTo

theorem cons (h : BoundTo scopes name bs) (hs : s.binds name = false) :
    BoundTo (s :: scopes) name bs := by
  obtain ⟨inner, t, outer, rfl, hinner, hfind⟩ := h
  exact ⟨s :: inner, t, outer, rfl, List.forall_mem_cons.mpr ⟨hs, hinner⟩, hfind⟩

/-- Emitting code changes no bindings. -/
theorem evolves (h : BoundTo scopes name bs) (he : List.Forall₂ Scope.Evolves scopes scopes') :
    BoundTo scopes' name bs := by
  obtain ⟨inner, s, outer, rfl, hinner, hfind⟩ := h
  induction inner generalizing scopes' with
  | nil =>
      obtain ⟨t, outer', hs, -, rfl⟩ := List.forall₂_cons_left_iff.mp he
      exact ⟨[], t, outer', rfl, nofun, by rw [hs.bindings, hfind]⟩
  | cons u inner ih =>
      obtain ⟨u', rest', hu, hrest, rfl⟩ := List.forall₂_cons_left_iff.mp he
      rw [List.forall_mem_cons] at hinner
      exact (ih hrest hinner.2).cons ((hu.binds name).trans hinner.1)

/-- The types of a name are those of the bindings it belongs to. -/
theorem of_typesOf {types : List CType} (h : c.typesOf name = some types) :
    ∃ bs, BoundTo c.scopes name bs ∧ types = bs.map Binding.type := by
  obtain ⟨inner, s, outer, hscopes, hs, hinner⟩ := List.findSome?_eq_some_iff.mp h
  obtain ⟨bs, hfind, rfl⟩ := Option.map_eq_some_iff.mp hs
  refine ⟨bs, ⟨inner, s, outer, hscopes, fun u hu => ?_, hfind⟩, rfl⟩
  rw [Scope.binds, Table.has, Option.map_eq_none_iff.mp (hinner u hu)]
  rfl

end BoundTo

/-- The best binding for a call is selected by its type. -/
theorem Scope.select?_of_isBest (hfind : s.bindings.find? name = some (front ++ b :: back))
    (h : IsBest args Binding.type front b back most) : s.select? name (some b.type) = some b := by
  have hkind := h.find?_sameKind
  rw [Scope.select?, hfind, Option.bind_eq_bind, Option.bind_some]
  split
  next t first second rest hwanted hbs =>
    cases hwanted
    rw [hkind]
    rfl
  next hfew =>
    -- a binding that is alone is taken whatever its type is
    cases front with
    | nil => rfl
    | cons first front =>
        cases front with
        | nil => exact absurd rfl (hfew b.type first b back rfl)
        | cons second front => exact absurd rfl (hfew b.type first second (front ++ b :: back) rfl)

/-- A name is looked up among the bindings that it has in the innermost scope that binds it. -/
theorem BoundTo.exists_head (h : BoundTo c.scopes name bs) :
    ∃ s : Scope, s.bindings.find? name = some bs ∧
      ∀ wanted, c.binding? name wanted = s.select? name wanted := by
  obtain ⟨inner, s, outer, hscopes, hinner, hfind⟩ := h
  have hbinds : s.binds name = true := by rw [Scope.binds, Table.has, hfind]; rfl
  have hsplit : (c.splitAt name).2 = s :: outer := by
    rw [Chain.splitAt, hscopes, List.span_eq_takeWhile_dropWhile]
    dsimp only
    rw [List.dropWhile_append_of_pos (by simpa using hinner),
      List.dropWhile_cons_of_neg (by simp [hbinds])]
  refine ⟨s, hfind, fun wanted => ?_⟩
  rw [Chain.binding?, hsplit]
  rfl

theorem binding?_of_isBest (hbound : BoundTo c.scopes name (front ++ b :: back))
    (h : IsBest args Binding.type front b back most) :
    c.binding? name (some b.type) = some b := by
  obtain ⟨s, hfind, hselect⟩ := hbound.exists_head
  rw [hselect]
  exact Scope.select?_of_isBest hfind h

/-- A name with one binding leads to it, whatever type is wanted. -/
theorem binding?_of_single {wanted : Option CType} (hbound : BoundTo c.scopes name [b]) :
    c.binding? name wanted = some b := by
  obtain ⟨s, hfind, hselect⟩ := hbound.exists_head
  rw [hselect, Scope.select?, hfind, Option.bind_eq_bind, Option.bind_some]
  cases wanted <;> rfl

namespace Emit

/-- The code of a binding in the scope that the name belongs to. -/
def codeOf (name : String) (b : Binding) : Emit String := do
  let c ← get
  without (c.splitAt name).1 (expand (resolveWithin (c.resolutionBound - 1) · none) name b)

theorem runOn_resolve_eq {wanted : Option CType} (h : c.binding? name wanted = some b) :
    (resolve name wanted).runOn c = (codeOf name b).runOn c := by
  have hget : (get : Emit Chain).runOn c = (.ok c, c) := rfl
  have hbound : c.resolutionBound = c.resolutionBound - 1 + 1 :=
    (Nat.sub_add_cancel (Nat.mul_pos (Nat.succ_pos _) (Nat.succ_pos _))).symm
  rw [resolve, codeOf, runOn_bind_of_ok hget, runOn_bind_of_ok hget, hbound, resolveWithin,
    runOn_bind_of_ok hget]
  dsimp only
  rw [Chain.binding?] at h
  rw [h, Nat.add_sub_cancel]

end Emit

end KernelWeaver.Code
