import KernelWeaver.Merge.Group
import Mathlib.Data.List.Induction

/-!
# Members of merged groups

A group takes up an update only if the digest of its encoding is that of the group. Members of one
group therefore have the same encoding, as long as digests tell their encodings apart.
-/

namespace KernelWeaver

/-- Digests tell the encodings of the updates apart. -/
def CollisionFree {α : Type} (encode : α → Encoding) (updates : List α) : Prop :=
  ∀ u ∈ updates, ∀ v ∈ updates,
    Digest.ofEncoding (encode u) = Digest.ofEncoding (encode v) → encode u = encode v

namespace MergedGroup

variable {α : Type} {kind : String} {onHost : Bool} {index : Nat} {encode : α → Encoding}
  {updates : List α} {g : MergedGroup α} {u v : α}

theorem archetype_mem_members (g : MergedGroup α) : g.archetype ∈ g.members :=
  List.mem_cons_self

/-- A group after an update has been added is an old one, a new one with the update alone, or an
old one with the digest of the update and the update behind its members. -/
theorem mem_add {digest : Digest} {groups : List (MergedGroup α)}
    (h : g ∈ add kind onHost index u digest groups) :
    g ∈ groups ∨ (∃ i, g = ⟨⟨kind, i, onHost⟩, u, [], digest⟩) ∨
      ∃ old ∈ groups, old.digest = digest ∧ g = { old with others := old.others ++ [u] } := by
  induction groups generalizing index with
  | nil =>
      rw [add, List.mem_singleton] at h
      exact Or.inr (Or.inl ⟨index, h⟩)
  | cons group groups ih =>
      rw [add] at h
      split at h
      next hdigest =>
        rcases List.mem_cons.mp h with hg | hg
        · exact Or.inr (Or.inr ⟨group, List.mem_cons_self, hdigest, hg⟩)
        · exact Or.inl (List.mem_cons_of_mem _ hg)
      next =>
        rcases List.mem_cons.mp h with hg | hg
        · exact Or.inl (hg ▸ List.mem_cons_self)
        · apply (ih hg).imp (List.mem_cons_of_mem _)
          apply Or.imp_right
          intro ⟨old, hold, hrest⟩
          exact ⟨old, List.mem_cons_of_mem _ hold, hrest⟩

theorem digest_of_mem_add {groups : List (MergedGroup α)}
    (hgroups : ∀ group ∈ groups, ∀ v ∈ group.members, Digest.ofEncoding (encode v) = group.digest)
    (hg : g ∈ add kind onHost index u (.ofEncoding (encode u)) groups) (hv : v ∈ g.members) :
    Digest.ofEncoding (encode v) = g.digest := by
  rcases mem_add hg with hold | ⟨i, rfl⟩ | ⟨old, hold, hdigest, rfl⟩
  · exact hgroups g hold v hv
  · rw [List.mem_singleton.mp hv]
  · have hmembers : v ∈ old.members ++ [u] := hv
    rcases List.mem_append.mp hmembers with hv | hv
    · exact hgroups old hold v hv
    · rw [List.mem_singleton.mp hv]
      exact hdigest.symm

/-- Each member has the digest of its group. -/
theorem digest_of_mem_merge (hg : g ∈ merge kind onHost index encode updates)
    (hv : v ∈ g.members) : Digest.ofEncoding (encode v) = g.digest := by
  -- an update is added to the groups of those before it
  induction updates using List.reverseRecOn generalizing g v with
  | nil => cases hg
  | append_singleton updates u ih =>
      rw [merge, List.foldl_append] at hg
      exact digest_of_mem_add (fun _ hgroup _ hv => ih hgroup hv) hg hv

theorem encoding_eq_of_mem_merge (hg : g ∈ merge kind onHost index encode updates)
    (hfree : CollisionFree encode g.members) (hu : u ∈ g.members) (hv : v ∈ g.members) :
    encode u = encode v := by
  apply hfree u hu v hv
  rw [digest_of_mem_merge hg hu, digest_of_mem_merge hg hv]

end MergedGroup

end KernelWeaver
