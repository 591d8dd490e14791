import KernelWeaver.Proofs.Snippet.Respelling
import KernelWeaver.Proofs.Snippet.Scoping

/-!
# Where names stand in an expression

A name in an expression stands for a value, or it is called. A name that is called goes with the
arguments of its call, which decide what it means if it has several meanings.
-/

namespace KernelWeaver.Snippet

/-- A name that stands in an expression. -/
structure Occurrence where
  node : Node
  name : String
  /-- The arguments, if the name is called. -/
  args : Option (List Expr)

namespace Expr

mutual

/-- The names in an expression, from left to right. -/
def occurrences : Expr → List Occurrence
  | number .. | bool .. | string .. => []
  | .name n text => [⟨n, text, none⟩]
  | unary _ _ e | cast _ _ e | group _ e | stepBefore _ _ e | stepAfter _ _ e => e.occurrences
  | binary _ _ a b | assign _ _ a b | subscript _ a b => a.occurrences ++ b.occurrences
  | call _ (.name n text) args => ⟨n, text, some args⟩ :: occurrencesOfAll args
  | call _ callee args => callee.occurrences ++ occurrencesOfAll args
  | conditional _ a b c => a.occurrences ++ b.occurrences ++ c.occurrences

/-- The names in several expressions. -/
def occurrencesOfAll : List Expr → List Occurrence
  | [] => []
  | e :: es => e.occurrences ++ occurrencesOfAll es

end

theorem occurrences_call (node : Node) {callee : Expr} (args : List Expr)
    (h : ∀ n text, callee ≠ .name n text) :
    (call node callee args).occurrences = callee.occurrences ++ occurrencesOfAll args := by
  rw [occurrences]
  exact h

mutual

/-- No name is left out. -/
theorem map_name_occurrences (e : Expr) : e.occurrences.map Occurrence.name = e.names := by
  cases e with
  | number | bool | string => rfl
  | name n text => rfl
  | unary _ _ e | cast _ _ e | group _ e | stepBefore _ _ e | stepAfter _ _ e =>
      rw [occurrences, names]
      exact map_name_occurrences e
  | binary _ _ a b | assign _ _ a b | subscript _ a b =>
      rw [occurrences, names, List.map_append, map_name_occurrences a, map_name_occurrences b]
  | conditional _ a b c =>
      rw [occurrences, names, List.map_append, List.map_append, map_name_occurrences a,
        map_name_occurrences b, map_name_occurrences c]
  | call node callee args =>
      rw [names, ← map_name_occurrencesOfAll args]
      cases callee with
      | name n text => rfl
      | _ =>
          rw [occurrences_call, List.map_append, map_name_occurrences]
          exact nofun

theorem map_name_occurrencesOfAll (es : List Expr) :
    (occurrencesOfAll es).map Occurrence.name = namesOfAll es := by
  cases es with
  | nil => rfl
  | cons e es =>
      rw [occurrencesOfAll, namesOfAll, List.map_append, map_name_occurrences e,
        map_name_occurrencesOfAll es]

end

mutual

theorem mem_occurrences_of_call {e : Expr} {node callee : Node} {name : String} {args : List Expr}
    (h : .call node (.name callee name) args ∈ e.parts) :
    ⟨callee, name, some args⟩ ∈ e.occurrences := by
  cases e with
  | number | bool | string | name => simp [parts] at h
  | unary _ _ e | cast _ _ e | group _ e | stepBefore _ _ e | stepAfter _ _ e =>
      rw [occurrences]
      exact mem_occurrences_of_call ((List.mem_cons.mp h).resolve_left nofun)
  | binary _ _ a b | assign _ _ a b | subscript _ a b =>
      rw [occurrences, List.mem_append]
      rcases List.mem_append.mp ((List.mem_cons.mp h).resolve_left nofun) with h | h
      · exact .inl (mem_occurrences_of_call h)
      · exact .inr (mem_occurrences_of_call h)
  | conditional _ a b c =>
      rw [occurrences, List.mem_append, List.mem_append]
      have hparts := (List.mem_cons.mp h).resolve_left nofun
      rcases List.mem_append.mp hparts with hparts | h
      · rcases List.mem_append.mp hparts with h | h
        · exact .inl (.inl (mem_occurrences_of_call h))
        · exact .inl (.inr (mem_occurrences_of_call h))
      · exact .inr (mem_occurrences_of_call h)
  | call n f es =>
      rcases List.mem_cons.mp h with heq | h
      · cases heq
        exact List.mem_cons_self
      rcases List.mem_append.mp h with h | h
      · cases f with
        | name m text => simp [parts] at h
        | _ =>
            rw [occurrences_call]
            · exact List.mem_append_left _ (mem_occurrences_of_call h)
            · exact nofun
      · have hes := mem_occurrencesOfAll_of_call h
        cases f with
        | name m text => exact List.mem_cons_of_mem _ hes
        | _ =>
            rw [occurrences_call]
            · exact List.mem_append_right _ hes
            · exact nofun

theorem mem_occurrencesOfAll_of_call {es : List Expr} {node callee : Node} {name : String}
    {args : List Expr} (h : .call node (.name callee name) args ∈ partsOfAll es) :
    ⟨callee, name, some args⟩ ∈ occurrencesOfAll es := by
  cases es with
  | nil => cases h
  | cons e es =>
      rw [occurrencesOfAll, List.mem_append]
      rcases List.mem_append.mp h with h | h
      · exact .inl (mem_occurrences_of_call h)
      · exact .inr (mem_occurrencesOfAll_of_call h)

end

end Expr

end KernelWeaver.Snippet
