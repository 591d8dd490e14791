import KernelWeaver.Digest.Encoding

/-!
# The order of digests

Digests are ordered by their bytes. The order is total, and only equal digests are not after each
other. A sorted list of digests therefore does not depend on the order in which they were found.
-/

namespace KernelWeaver.Digest

/-- What it means that one list with a first byte is not after another. -/
theorem notAfter_cons {x y : UInt8} {xs ys : List UInt8} :
    notAfter (x :: xs) (y :: ys) = true ↔ x < y ∨ x = y ∧ notAfter xs ys = true := by
  simp [notAfter]

theorem notAfter_total (xs ys : List UInt8) : (notAfter xs ys || notAfter ys xs) = true := by
  induction xs generalizing ys with
  | nil => rfl
  | cons x xs ih =>
      cases ys with
      | nil => rfl
      | cons y ys =>
          have hrest := ih ys
          simp only [Bool.or_eq_true, notAfter_cons] at hrest ⊢
          by_cases heq : x = y
          · exact hrest.imp (fun h => Or.inr ⟨heq, h⟩) fun h => Or.inr ⟨heq.symm, h⟩
          · exact (UInt8.lt_or_lt_of_ne heq).imp Or.inl Or.inl

theorem notAfter_trans {xs ys zs : List UInt8} (hxy : notAfter xs ys = true)
    (hyz : notAfter ys zs = true) : notAfter xs zs = true := by
  induction xs generalizing ys zs with
  | nil => rfl
  | cons x xs ih =>
      cases ys with
      | nil => cases hxy
      | cons y ys =>
          cases zs with
          | nil => cases hyz
          | cons z zs =>
              rw [notAfter_cons] at hxy hyz ⊢
              rcases hxy with hlt | ⟨rfl, hxy⟩
              · rcases hyz with hlt' | ⟨rfl, -⟩
                · exact Or.inl (UInt8.lt_trans hlt hlt')
                · exact Or.inl hlt
              · exact hyz.imp_right fun h => ⟨h.1, ih hxy h.2⟩

theorem notAfter_antisymm {xs ys : List UInt8} (hxy : notAfter xs ys = true)
    (hyx : notAfter ys xs = true) : xs = ys := by
  induction xs generalizing ys with
  | nil =>
      cases ys with
      | nil => rfl
      | cons y ys => cases hyx
  | cons x xs ih =>
      cases ys with
      | nil => cases hxy
      | cons y ys =>
          rw [notAfter_cons] at hxy hyx
          rcases hxy with hlt | ⟨rfl, hxy⟩
          · rcases hyx with hlt' | ⟨rfl, -⟩
            · exact absurd hlt (UInt8.lt_asymm hlt')
            · exact absurd hlt (UInt8.lt_irrefl _)
          · rw [ih hxy (hyx.resolve_left (UInt8.lt_irrefl _)).2]

/-- Digests in order say which digests there are, and how often. -/
theorem mergeSort_eq_iff_perm {ds es : List Digest} :
    ds.mergeSort le = es.mergeSort le ↔ ds.Perm es := by
  constructor
  · intro heq
    have hperm := List.mergeSort_perm es le
    rw [← heq] at hperm
    exact (List.mergeSort_perm ds le).symm.trans hperm
  · intro hperm
    have hsorted : ∀ ds : List Digest, (ds.mergeSort le).Pairwise (fun d e => le d e) :=
      List.pairwise_mergeSort (fun _ _ _ => notAfter_trans)
        fun d e => notAfter_total d.bytes e.bytes
    refine List.Perm.eq_of_pairwise ?_ (hsorted ds) (hsorted es) ?_
    · intro d e _ _ hde hed
      cases d
      cases e
      exact congrArg mk (notAfter_antisymm hde hed)
    · exact (List.mergeSort_perm ds le).trans (hperm.trans (List.mergeSort_perm es le).symm)

end KernelWeaver.Digest
