import KernelWeaver.Code.Emit
import Mathlib.Data.Set.Insert
import Mathlib.Logic.Relation
import Mathlib.Tactic.Tauto

/-!
# The uses of a scope

What happens to a scope while code is emitted can be written down: which of its bindings are
resolved, which initialisers these need, and when the code of an initialiser is done. Such a list of
uses is nested like the calls that make it. From this follows that every initialiser that is needed
is emitted once, behind those that it depends on.
-/

namespace KernelWeaver.Code

/-- Something that happens to a scope when a name is looked up. -/
inductive Use where
  /-- The code of a binding of the scope is asked for. -/
  | resolved (name : String) (binding : Binding)
  /-- A binding that is resolved needs an initialiser. -/
  | needed (i : Nat)
  /-- The code of an initialiser is put together and emitted. -/
  | emitted (i : Nat) (text : String)

namespace Use

/-- The initialiser that is needed. -/
def need? : Use → Option Nat
  | needed i => some i
  | _ => none

/-- The initialiser that is emitted, with its code. -/
def emission? : Use → Option (Nat × String)
  | emitted i text => some (i, text)
  | _ => none

/-- The initialisers that a binding lists whose code is asked for. -/
def listed : Use → List Nat
  | resolved _ binding => binding.initialisers
  | _ => []

end Use

/-- The initialisers that are needed, as often as they are. -/
def fetched (uses : List Use) : List Nat := uses.filterMap Use.need?

/-- The initialisers that are emitted, in this order. -/
def order (uses : List Use) : List Nat := (uses.filterMap Use.emission?).map Prod.fst

/-- The codes of the initialisers that are emitted. -/
def texts (uses : List Use) : List String := (uses.filterMap Use.emission?).map Prod.snd

/-- Some binding that is resolved lists the initialiser. -/
def Listed (uses : List Use) (i : Nat) : Prop :=
  ∃ name b, .resolved name b ∈ uses ∧ i ∈ b.initialisers

/-- Between the first need of `i` and its emission a binding is resolved that lists `j`. -/
def DependsOn (uses : List Use) (i j : Nat) : Prop :=
  ∃ front inside text back, uses = front ++ .needed i :: (inside ++ .emitted i text :: back) ∧
    i ∉ fetched front ∧ Listed inside j

/-- No initialiser depends on itself, be it through others. -/
def Acyclic (uses : List Use) : Prop := ∀ i, ¬ Relation.TransGen (DependsOn uses) i i

/-- Each initialiser is emitted once if a binding that is resolved lists it, and never otherwise. -/
structure Once (uses : List Use) : Prop where
  nodup : (order uses).Nodup
  mem_iff : ∀ i, i ∈ order uses ↔ Listed uses i

/-- Initialisers are emitted in the order in which they are first needed, but behind those that they
depend on. -/
structure InOrder (uses : List Use) : Prop where
  dependencies : ∀ i j, DependsOn uses i j → [j, i].Sublist (order uses)
  references : ∀ i j, i ∈ fetched uses → j ∈ fetched uses →
    (fetched uses).idxOf i < (fetched uses).idxOf j → ¬ DependsOn uses i j →
    [i, j].Sublist (order uses)

/-- The uses of a scope in which some initialisers have been needed before. First the listed
initialisers are fetched; then any number of bindings are resolved. What is done for an initialiser
that is needed for the first time stands in front of its emission. -/
inductive Trail : Set Nat → List Nat → List Use → Prop where
  | nil {known : Set Nat} : Trail known [] []
  | resolved {known : Set Nat} {name : String} {b : Binding} {uses : List Use} :
      Trail known b.initialisers uses → Trail known [] (.resolved name b :: uses)
  | again {known : Set Nat} {i : Nat} {todo : List Nat} {uses : List Use} :
      i ∈ known → Trail known todo uses → Trail known (i :: todo) (.needed i :: uses)
  | first {known : Set Nat} {i : Nat} {todo : List Nat} {inside uses : List Use} {text : String} :
      i ∉ known → Trail (insert i known) [] inside →
      Trail (insert i known ∪ {j | j ∈ fetched inside}) todo uses →
      Trail known (i :: todo) (.needed i :: (inside ++ .emitted i text :: uses))

variable {known : Set Nat} {i j : Nat} {todo : List Nat} {uses us vs front inside back : List Use}
  {name text : String} {b : Binding}

section Lists

@[simp] theorem fetched_nil : fetched [] = [] := rfl

@[simp] theorem fetched_resolved : fetched (.resolved name b :: uses) = fetched uses := rfl

@[simp] theorem fetched_needed : fetched (.needed i :: uses) = i :: fetched uses := rfl

@[simp] theorem fetched_emitted : fetched (.emitted i text :: uses) = fetched uses := rfl

@[simp] theorem fetched_append : fetched (us ++ vs) = fetched us ++ fetched vs := by simp [fetched]

@[simp] theorem order_nil : order [] = [] := rfl

@[simp] theorem order_resolved : order (.resolved name b :: uses) = order uses := rfl

@[simp] theorem order_needed : order (.needed i :: uses) = order uses := rfl

@[simp] theorem order_emitted : order (.emitted i text :: uses) = i :: order uses := rfl

@[simp] theorem order_append : order (us ++ vs) = order us ++ order vs := by simp [order]

@[simp] theorem texts_nil : texts [] = [] := rfl

@[simp] theorem texts_resolved : texts (.resolved name b :: uses) = texts uses := rfl

@[simp] theorem texts_needed : texts (.needed i :: uses) = texts uses := rfl

@[simp] theorem texts_emitted : texts (.emitted i text :: uses) = text :: texts uses := rfl

@[simp] theorem texts_append : texts (us ++ vs) = texts us ++ texts vs := by simp [texts]

theorem listed_append : Listed (us ++ vs) i ↔ Listed us i ∨ Listed vs i := by
  simp only [Listed, List.mem_append, or_and_right, exists_or]

@[simp] theorem listed_nil : ¬ Listed [] i := by simp [Listed]

@[simp] theorem listed_resolved :
    Listed (.resolved name b :: uses) i ↔ i ∈ b.initialisers ∨ Listed uses i := by
  simp only [Listed, List.mem_cons, Use.resolved.injEq]
  constructor
  · rintro ⟨name', b', ⟨rfl, rfl⟩ | hmem, hi⟩
    · exact .inl hi
    · exact .inr ⟨name', b', hmem, hi⟩
  · rintro (hi | ⟨name', b', hmem, hi⟩)
    · exact ⟨name, b, .inl ⟨rfl, rfl⟩, hi⟩
    · exact ⟨name', b', .inr hmem, hi⟩

@[simp] theorem listed_needed : Listed (.needed j :: uses) i ↔ Listed uses i := by
  simp [Listed]

@[simp] theorem listed_emitted : Listed (.emitted j text :: uses) i ↔ Listed uses i := by
  simp [Listed]

theorem exists_first_need (h : i ∈ fetched uses) :
    ∃ front rest, uses = front ++ .needed i :: rest ∧ i ∉ fetched front := by
  induction uses with
  | nil => cases h
  | cons use uses ih =>
      cases use with
      | needed k =>
          by_cases hk : i = k
          · subst hk
            exact ⟨[], uses, rfl, List.not_mem_nil⟩
          · rw [fetched_needed, List.mem_cons, or_iff_right hk] at h
            obtain ⟨front, rest, rfl, hfront⟩ := ih h
            exact ⟨.needed k :: front, rest, rfl, by simp [hk, hfront]⟩
      | resolved name b =>
          obtain ⟨front, rest, rfl, hfront⟩ := ih h
          exact ⟨.resolved name b :: front, rest, rfl, hfront⟩
      | emitted k text =>
          obtain ⟨front, rest, rfl, hfront⟩ := ih h
          exact ⟨.emitted k text :: front, rest, rfl, hfront⟩

/-- Of two different uses one stands behind the other. -/
theorem append_cons_eq_of_ne {u v : Use} {us' vs' : List Use} (hne : u ≠ v)
    (h : us ++ u :: vs = us' ++ v :: vs') :
    (∃ gap, us' = us ++ u :: gap ∧ vs = gap ++ v :: vs') ∨
      ∃ gap, us = us' ++ v :: gap ∧ vs' = gap ++ u :: vs := by
  rcases List.append_eq_append_iff.mp h with ⟨gap, rfl, hgap⟩ | ⟨gap, rfl, hgap⟩
  · cases gap with
    | nil => exact absurd (List.cons.inj hgap).1 hne
    | cons use gap =>
        obtain ⟨rfl, hvs⟩ := List.cons.inj hgap
        exact .inl ⟨gap, rfl, hvs⟩
  · cases gap with
    | nil => exact absurd (List.cons.inj hgap).1.symm hne
    | cons use gap =>
        obtain ⟨rfl, hvs⟩ := List.cons.inj hgap
        exact .inr ⟨gap, rfl, hvs⟩

/-- An initialiser that is emitted once splits the uses in one way only. -/
theorem eq_inside_of_nodup {inside' back' : List Use} {text' : String}
    (hnodup : (order (inside ++ .emitted i text :: back)).Nodup)
    (heq : inside ++ .emitted i text :: back = inside' ++ .emitted i text' :: back') :
    inside = inside' := by
  rcases List.append_eq_append_iff.mp heq with ⟨gap, rfl, hgap⟩ | ⟨gap, rfl, hgap⟩
  · cases gap with
    | nil => simp
    | cons use gap =>
        obtain ⟨rfl, rfl⟩ := List.cons.inj hgap
        simp [List.nodup_append] at hnodup
  · cases gap with
    | nil => simp
    | cons use gap =>
        obtain ⟨rfl, rfl⟩ := List.cons.inj hgap
        simp [List.nodup_append] at hnodup

end Lists

namespace Trail

theorem known_union_fetched {k : Nat} (hk : k ∈ known) :
    known ∪ {j | j ∈ fetched (.needed k :: uses)} = known ∪ {j | j ∈ fetched uses} := by
  ext j
  simp only [fetched_needed, List.mem_cons, Set.mem_union, Set.mem_ofPred_eq]
  constructor
  · rintro (hj | rfl | hj)
    · exact .inl hj
    · exact .inl hk
    · exact .inr hj
  · rintro (hj | hj)
    · exact .inl hj
    · exact .inr (.inr hj)

/-- What is needed is what was to be fetched and what bindings that are resolved list. -/
theorem mem_fetched_iff (h : Trail known todo uses) :
    i ∈ fetched uses ↔ i ∈ todo ∨ Listed uses i := by
  induction h with
  | nil => simp
  | resolved _ ih => simp [ih]
  | again _ _ ih => simp [ih, or_assoc]
  | @first known k todo inside uses text _ _ _ ihinside ih =>
      simp only [fetched_needed, fetched_append, fetched_emitted, List.mem_cons, List.mem_append,
        listed_needed, listed_append, listed_emitted, ihinside, ih, List.not_mem_nil, false_or]
      tauto

/-- What is needed is emitted, unless it was needed before. -/
theorem mem_order_iff (h : Trail known todo uses) :
    i ∈ order uses ↔ i ∈ fetched uses ∧ i ∉ known := by
  induction h with
  | nil => simp
  | resolved _ ih => simpa using ih
  | @again known k todo uses hk _ ih =>
      simp only [order_needed, fetched_needed, List.mem_cons, ih]
      constructor
      · rintro ⟨hi, hknown⟩
        exact ⟨.inr hi, hknown⟩
      · rintro ⟨rfl | hi, hknown⟩
        · exact absurd hk hknown
        · exact ⟨hi, hknown⟩
  | @first known k todo inside uses text hk _ _ ihinside ih =>
      simp only [order_needed, order_append, order_emitted, fetched_needed, fetched_append,
        fetched_emitted, List.mem_cons, List.mem_append, ihinside, ih, Set.mem_insert_iff,
        Set.mem_union, Set.mem_ofPred_eq]
      by_cases heq : i = k
      · subst heq
        simp [hk]
      · simp only [heq, false_or]
        tauto

theorem nodup_order (h : Trail known todo uses) : (order uses).Nodup := by
  induction h with
  | nil => exact List.nodup_nil
  | resolved _ ih => exact ih
  | again _ _ ih => exact ih
  | @first known k todo inside uses text _ hinside huses ihinside ih =>
      have hnew {x : Nat} (hx : x ∈ order uses) : x ≠ k ∧ x ∉ fetched inside := by
        have hknown := (huses.mem_order_iff.mp hx).2
        simp only [Set.mem_union, Set.mem_insert_iff, Set.mem_ofPred_eq, not_or] at hknown
        exact ⟨hknown.1.1, hknown.2⟩
      rw [order_needed, order_append, order_emitted]
      refine List.nodup_append.mpr ⟨ihinside, List.nodup_cons.mpr ⟨fun hk => ?_, ih⟩, ?_⟩
      · exact (hnew hk).1 rfl
      · rintro x hx y hy rfl
        obtain ⟨hneeded, hxk⟩ := hinside.mem_order_iff.mp hx
        rcases List.mem_cons.mp hy with rfl | hy
        · exact hxk (Set.mem_insert _ _)
        · exact (hnew hy).2 hneeded

theorem once (h : Trail ∅ [] uses) : Once uses where
  nodup := h.nodup_order
  mem_iff i := by simp [h.mem_order_iff, h.mem_fetched_iff]

/-- Behind the first need of an initialiser stand, nested in themselves, the uses that its code
makes, and then its emission. -/
theorem exists_inside (h : Trail known todo uses) {rest : List Use}
    (huses : uses = front ++ .needed i :: rest) (hfront : i ∉ fetched front) (hi : i ∉ known) :
    ∃ inside text back, rest = inside ++ .emitted i text :: back ∧
      Trail (insert i (known ∪ {j | j ∈ fetched front})) [] inside := by
  induction h generalizing front rest with
  | nil => simp at huses
  | @resolved known name b uses _ ih =>
      cases front with
      | nil => cases huses
      | cons use front =>
          obtain ⟨rfl, hrest⟩ := List.cons.inj huses
          have hinside := ih hrest hfront hi
          exact hinside
  | @again known k todo uses hk _ ih =>
      cases front with
      | nil =>
          cases huses
          exact absurd hk hi
      | cons use front =>
          obtain ⟨rfl, hrest⟩ := List.cons.inj huses
          rw [fetched_needed, List.mem_cons, not_or] at hfront
          rw [known_union_fetched hk]
          exact ih hrest hfront.2 hi
  | @first known k todo inside uses text hk hinside _ ihinside ih =>
      cases front with
      | nil =>
          cases huses
          exact ⟨inside, text, uses, rfl, by simpa using hinside⟩
      | cons use front =>
          obtain ⟨rfl, hsplit⟩ := List.cons.inj huses
          rw [fetched_needed, List.mem_cons, not_or] at hfront
          -- the need stands in what is done for `k`, or behind the emission of `k`
          rcases append_cons_eq_of_ne (by simp) hsplit with ⟨gap, rfl, hrest⟩ | ⟨gap, rfl, rfl⟩
          · simp only [fetched_append, fetched_emitted, List.mem_append, not_or] at hfront
            obtain ⟨inside', text', back, hback, htrail⟩ := ih hrest hfront.2.2
              (by simp [hfront.1, hfront.2.1, hi])
            refine ⟨inside', text', back, hback, ?_⟩
            convert htrail using 2
            ext j
            simp only [fetched_needed, fetched_append, fetched_emitted, List.mem_cons,
              List.mem_append, Set.mem_union, Set.mem_insert_iff, Set.mem_ofPred_eq]
            tauto
          · obtain ⟨inside', text', back, rfl, htrail⟩ := ihinside rfl hfront.2
              (by simp [hfront.1, hi])
            refine ⟨inside', text', back ++ .emitted k text :: uses, by simp, ?_⟩
            convert htrail using 2
            ext j
            simp only [fetched_needed, List.mem_cons, Set.mem_union, Set.mem_insert_iff,
              Set.mem_ofPred_eq]
            tauto

/-- What has been emitted so far has been needed before. -/
theorem order_subset_fetched (h : Trail known todo uses) (hfront : front <+: uses) :
    order front ⊆ fetched front := by
  induction h generalizing front with
  | nil =>
      rw [List.prefix_nil.mp hfront]
      exact List.Subset.refl _
  | @resolved known name b uses _ ih =>
      cases front with
      | nil => exact List.Subset.refl _
      | cons use front =>
          obtain ⟨rfl, hrest⟩ := List.cons_prefix_cons.mp hfront
          simpa using ih hrest
  | @again known k todo uses _ _ ih =>
      cases front with
      | nil => exact List.Subset.refl _
      | cons use front =>
          obtain ⟨rfl, hrest⟩ := List.cons_prefix_cons.mp hfront
          exact List.subset_cons_of_subset _ (ih hrest)
  | @first known k todo inside uses text _ _ _ ihinside ih =>
      cases front with
      | nil => exact List.Subset.refl _
      | cons use front =>
          obtain ⟨rfl, hrest⟩ := List.cons_prefix_cons.mp hfront
          obtain ⟨tail, htail⟩ := hrest
          -- the front ends in what is done for `k`, or behind the emission of `k`
          rcases List.append_eq_append_iff.mp htail with ⟨gap, hfront, -⟩ | ⟨gap, rfl, hgap⟩
          · exact List.subset_cons_of_subset _ (ihinside ⟨gap, hfront.symm⟩)
          · have hinside := ihinside (List.prefix_refl inside)
            cases gap with
            | nil => simpa using List.subset_cons_of_subset k hinside
            | cons use gap =>
                obtain ⟨rfl, hmore⟩ := List.cons.inj hgap
                have hgap := ih ⟨tail, hmore.symm⟩
                intro j hj
                simp only [order_needed, order_append, order_emitted, List.mem_append,
                  List.mem_cons] at hj
                simp only [fetched_needed, fetched_append, fetched_emitted, List.mem_append,
                  List.mem_cons]
                rcases hj with hj | rfl | hj
                · exact .inr (.inl (hinside hj))
                · exact .inl rfl
                · exact .inr (.inr (hgap hj))

/-- What stands between the first need of an initialiser and its emission is nested in itself. -/
theorem between (h : Trail ∅ [] (front ++ .needed i :: (inside ++ .emitted i text :: back)))
    (hfront : i ∉ fetched front) : Trail (insert i {j | j ∈ fetched front}) [] inside := by
  obtain ⟨inside', text', back', heq, htrail⟩ := h.exists_inside rfl hfront (Set.notMem_empty i)
  rw [Set.empty_union] at htrail
  have hnodup := h.nodup_order
  rw [order_append, order_needed] at hnodup
  rwa [eq_inside_of_nodup (List.nodup_append.mp hnodup).2.1 heq]

/-- An initialiser that is needed in front of the first need of another has been emitted there, or
it depends on the other. -/
theorem emitted_or_dependsOn {rest : List Use} (h : Trail ∅ [] (front ++ .needed i :: rest))
    (hj : j ∈ fetched front) : j ∈ order front ∨ DependsOn (front ++ .needed i :: rest) j i := by
  obtain ⟨before, gap, rfl, hbefore⟩ := exists_first_need hj
  rw [List.append_assoc, List.cons_append] at h ⊢
  obtain ⟨inside, text, back, heq, htrail⟩ := h.exists_inside rfl hbefore (Set.notMem_empty j)
  rcases append_cons_eq_of_ne (by simp) heq with ⟨more, rfl, hrest⟩ | ⟨more, rfl, -⟩
  · have hi : Listed (gap ++ .needed i :: more) i := by
      simpa using htrail.mem_fetched_iff.mp (by simp)
    exact .inr ⟨before, _, text, back, by rw [heq], hbefore, hi⟩
  · exact .inl (by simp)

/-- If no initialiser depends on itself, those that one depends on are emitted before it, and apart
from that the first that is needed comes first. -/
theorem inOrder (h : Trail ∅ [] uses) (hacyclic : Acyclic uses) : InOrder uses where
  dependencies i j hdepends := by
    obtain ⟨front, inside, text, back, rfl, hfront, hlisted⟩ := id hdepends
    have htrail := h.between hfront
    have hj : j ∈ fetched inside := htrail.mem_fetched_iff.mpr (.inr hlisted)
    -- `j` was needed before `i` was, or is first needed for the code of `i`
    have hbefore : j ∈ order front ++ order inside := by
      by_cases hknown : j ∈ insert i {k | k ∈ fetched front}
      · rcases Set.mem_insert_iff.mp hknown with rfl | hneeded
        · exact absurd (.single hdepends) (hacyclic j)
        · rcases h.emitted_or_dependsOn hneeded with hemitted | hback
          · exact List.mem_append_left _ hemitted
          · exact absurd ((Relation.TransGen.single hdepends).tail hback) (hacyclic i)
      · exact List.mem_append_right _ (htrail.mem_order_iff.mpr ⟨hj, hknown⟩)
    rw [order_append, order_needed, order_append, order_emitted, ← List.append_assoc]
    exact (List.singleton_sublist.mpr hbefore).append
      (List.singleton_sublist.mpr List.mem_cons_self)
  references i j hi hj hfirst hdepends := by
    obtain ⟨front, rest, rfl, hfront⟩ := exists_first_need hi
    obtain ⟨inside, text, back, rfl, -⟩ := h.exists_inside rfl hfront (Set.notMem_empty i)
    have htrail := h.between hfront
    have hji : j ≠ i := by
      rintro rfl
      exact Nat.lt_irrefl _ hfirst
    -- `j` is first needed behind `i`, and not while the code of `i` is put together
    have hjfront : j ∉ fetched front := by
      intro hmem
      have hlt := List.idxOf_lt_length_of_mem hmem
      rw [fetched_append, fetched_needed, List.idxOf_append, if_neg hfront, List.idxOf_cons_self,
        List.idxOf_append, if_pos hmem] at hfirst
      omega
    have hjinside : j ∉ fetched inside := by
      intro hmem
      have hlisted : Listed inside j := by simpa using htrail.mem_fetched_iff.mp hmem
      exact hdepends ⟨front, inside, text, back, rfl, hfront, hlisted⟩
    -- so `j` is emitted behind `i`
    have hjorder := h.mem_order_iff.mpr ⟨hj, Set.notMem_empty j⟩
    have hjfront' : j ∉ order front := fun hmem =>
      hjfront (h.order_subset_fetched (List.prefix_append _ _) hmem)
    have hjinside' : j ∉ order inside := fun hmem => hjinside (htrail.mem_order_iff.mp hmem).1
    simp only [order_append, order_needed, order_emitted, List.mem_append, List.mem_cons, hjfront',
      hjinside', hji, false_or] at hjorder
    rw [order_append, order_needed, order_append, order_emitted]
    have hpair : [i, j].Sublist (i :: order back) :=
      (List.singleton_sublist.mpr hjorder).cons_cons i
    exact (hpair.trans (List.sublist_append_right _ _)).trans (List.sublist_append_right _ _)

end Trail

/-! ### Initialisers that depend on earlier ones -/

/-- What is listed in front of the emission of `i` comes before `i`. -/
def earlierUntil (i : Nat) : List Use → Bool
  | [] => true
  | use :: uses =>
    i ∉ order (use :: uses) || (use.listed.all (· < i) && earlierUntil i uses)

/-- Every initialiser that is needed depends on earlier ones alone. -/
def descends : List Use → Bool
  | [] => true
  | use :: uses => (use.need?.all fun i => earlierUntil i uses) && descends uses

theorem lt_of_earlierUntil (h : earlierUntil i (inside ++ .emitted i text :: back) = true)
    (hj : Listed inside j) : j < i := by
  induction inside with
  | nil => exact absurd hj listed_nil
  | cons use inside ih =>
      have hmem : i ∈ order (use :: (inside ++ .emitted i text :: back)) := by
        rw [← List.cons_append, order_append, order_emitted]
        exact List.mem_append_right _ List.mem_cons_self
      rw [List.cons_append, earlierUntil] at h
      simp only [hmem, not_true, decide_false, Bool.false_or, Bool.and_eq_true,
        List.all_eq_true, decide_eq_true_eq] at h
      cases use with
      | resolved name b =>
          rcases listed_resolved.mp hj with hj | hj
          · exact h.1 j hj
          · exact ih h.2 hj
      | needed k => exact ih h.2 (listed_needed.mp hj)
      | emitted k code => exact ih h.2 (listed_emitted.mp hj)

theorem acyclic_of_descends (h : descends uses = true) : Acyclic uses := by
  have hlt {i j : Nat} (hdepends : DependsOn uses i j) : j < i := by
    obtain ⟨front, inside, text, back, rfl, -, hj⟩ := hdepends
    induction front with
    | nil =>
        rw [List.nil_append, descends, Bool.and_eq_true] at h
        exact lt_of_earlierUntil h.1 hj
    | cons use front ih =>
        rw [List.cons_append, descends, Bool.and_eq_true] at h
        exact ih h.2
  intro i hcycle
  have hall {j : Nat} (hpath : Relation.TransGen (DependsOn uses) i j) : j < i := by
    induction hpath with
    | single hdepends => exact hlt hdepends
    | tail _ hdepends ih => exact (hlt hdepends).trans ih
  exact Nat.lt_irrefl i (hall hcycle)

end KernelWeaver.Code
