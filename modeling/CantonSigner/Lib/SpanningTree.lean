import Mathlib.Logic.Relation
import Mathlib.Data.Set.Basic

/-!
# Spanning trees

A relation from parents to children that is a spanning tree of a set of vertices,
and a criterion: if every vertex but the root has exactly one parent, and every
child is ranked below its parent, the relation is one (`of_rank`). The rank is what
a streaming check has at hand, as the time at which a vertex was last seen.
-/

/-- `edge parent child` is a spanning tree of `s` with the given root. -/
structure IsSpanningTree {V : Type} (s : Set V) (root : V) (edge : V → V → Prop) : Prop where
  root_mem : root ∈ s
  edge_mem : ∀ p c, edge p c → p ∈ s ∧ c ∈ s
  root_no_parent : ∀ p, ¬ edge p root
  unique_parent : ∀ c ∈ s, c ≠ root → ∃! p, edge p c
  acyclic : ∀ v, ¬ Relation.TransGen edge v v
  reachable : ∀ v ∈ s, Relation.ReflTransGen edge root v

namespace IsSpanningTree

variable {V : Type} {s : Set V} {root : V} {edge : V → V → Prop} {rank : V → Nat}

/-- A descendant is ranked below its ancestor. -/
theorem rank_lt_of_transGen (hrank : ∀ p c, edge p c → rank c < rank p) {u v : V}
    (h : Relation.TransGen edge u v) : rank v < rank u := by
  induction h with
  | single h => exact hrank _ _ h
  | tail _ h ih => exact Nat.lt_trans (hrank _ _ h) ih

/-- Going up from a vertex ends at the root, because ranks are bounded. -/
theorem reachable_of_rank {n : Nat} (hmem : ∀ p c, edge p c → p ∈ s ∧ c ∈ s)
    (hparent : ∀ c ∈ s, c ≠ root → ∃ p, edge p c)
    (hrank : ∀ p c, edge p c → rank c < rank p) (hbound : ∀ v ∈ s, rank v < n) (v : V)
    (hv : v ∈ s) : Relation.ReflTransGen edge root v := by
  by_cases hroot : v = root
  · rw [hroot]
  · obtain ⟨p, hp⟩ := hparent v hv hroot
    have hlt := hrank p v hp
    have hps := (hmem p v hp).1
    have := hbound p hps
    exact (reachable_of_rank hmem hparent hrank hbound p hps).tail hp
termination_by n - rank v

/-- Unique parents above their children make a spanning tree. -/
theorem of_rank (rank : V → Nat) {n : Nat} (hroot : root ∈ s)
    (hmem : ∀ p c, edge p c → p ∈ s ∧ c ∈ s)
    (hnone : ∀ p, ¬ edge p root) (hunique : ∀ c ∈ s, c ≠ root → ∃! p, edge p c)
    (hrank : ∀ p c, edge p c → rank c < rank p) (hbound : ∀ v ∈ s, rank v < n) :
    IsSpanningTree s root edge where
  root_mem := hroot
  edge_mem := hmem
  root_no_parent := hnone
  unique_parent := hunique
  acyclic _ h := Nat.lt_irrefl _ (rank_lt_of_transGen hrank h)
  reachable := reachable_of_rank hmem (fun c hc hne => (hunique c hc hne).exists) hrank hbound

end IsSpanningTree
