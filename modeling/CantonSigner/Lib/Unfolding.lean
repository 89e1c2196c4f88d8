import Mathlib.Data.List.Perm.Basic
import Mathlib.Data.List.Perm.Lattice
import Mathlib.Logic.Relation
import CantonSigner.Lib.HashTree
import CantonSigner.Lib.SpanningTree

/-!
# Unfolding a spanning tree

A graph whose nodes are given by keys, `edge k a ks` for the node `k` with the label `a` and the
children `ks`, can be unfolded into a tree below each key (`HashTree.Unfolds`). If its edges are
a spanning tree, the unfolding of the root has each node of the graph in it exactly once
(`labels_perm`): nothing is left out, and nothing is repeated.
-/

namespace HashTree

open Relation

variable {α κ : Type}

mutual

/-- The labels of a tree, from the root down. -/
def labels : HashTree α → List α
  | .node a cs => a :: forestLabels cs

/-- The labels of a forest. -/
def forestLabels : List (HashTree α) → List α
  | [] => []
  | t :: ts => labels t ++ forestLabels ts

end

section Edges

variable (edge : κ → α → List κ → Prop)

/-- One key is a child of another. -/
def Child (p c : κ) : Prop := ∃ a ks, edge p a ks ∧ c ∈ ks

/-- A key has a label. -/
def Labelled (k : κ) (a : α) : Prop := ∃ ks, edge k a ks

/-- A key has one label and one list of children, without repetition. -/
structure Keyed : Prop where
  functional : ∀ {k a b ks ls}, edge k a ks → edge k b ls → a = b ∧ ks = ls
  nodup : ∀ {k a ks}, edge k a ks → ks.Nodup

end Edges

variable {edge : κ → α → List κ → Prop} {s : Set κ} {root p a b v : κ}

/-- Two children of one parent have no descendant in common. -/
theorem siblings_disjoint (h : IsSpanningTree s root (Child edge)) (ha : Child edge p a)
    (hb : Child edge p b) (hne : a ≠ b) (hav : ReflTransGen (Child edge) a v)
    (hbv : ReflTransGen (Child edge) b v) : False := by
  have hparent : ∀ {c q : κ}, Child edge p c → Child edge q c → q = p := by
    intro c q hp hq
    have hroot : c ≠ root := fun heq => h.root_no_parent p (heq ▸ hp)
    exact (h.unique_parent c (h.edge_mem p c hp).2 hroot).unique hq hp
  induction hav with
  | refl =>
    -- The other child is above this one, so it is above their parent.
    rcases ReflTransGen.cases_tail hbv with rfl | ⟨q, hbq, hq⟩
    · exact hne rfl
    · obtain rfl := hparent ha hq
      exact h.acyclic _ (TransGen.head' hb hbq)
  | @tail x v hax hxv ih =>
    rcases ReflTransGen.cases_tail hbv with rfl | ⟨q, hbq, hq⟩
    · obtain rfl := hparent hb hxv
      exact h.acyclic _ (TransGen.head' ha hax)
    · have hroot : v ≠ root := fun heq => h.root_no_parent x (heq ▸ hxv)
      obtain rfl := (h.unique_parent v (h.edge_mem x v hxv).2 hroot).unique hq hxv
      exact ih hbq

/-- The keys of an unfolding, in the order of its labels. -/
structure Listing (edge : κ → α → List κ → Prop) (below : κ → Prop) (vs : List κ)
    (as : List α) : Prop where
  nodup : vs.Nodup
  mem : ∀ v, v ∈ vs ↔ below v
  labelled : List.Forall₂ (Labelled edge) vs as

mutual

/-- Below a key stand its descendants, each once. -/
theorem Unfolds.listing (hk : Keyed edge) (h : IsSpanningTree s root (Child edge)) :
    ∀ {t : HashTree α} {k : κ}, Unfolds edge k t →
      ∃ vs, Listing edge (ReflTransGen (Child edge) k) vs (labels t)
  | .node a cs, k, hu => by
    rw [Unfolds] at hu
    obtain ⟨ks, hedge, hall⟩ := hu
    have hchild : ∀ c ∈ ks, Child edge k c := fun c hc => ⟨a, ks, hedge, hc⟩
    obtain ⟨vs, hvs⟩ := UnfoldsAll.listing hk h hall (hk.nodup hedge)
      fun c hc c' hc' hne v => siblings_disjoint h (hchild c hc) (hchild c' hc') hne
    refine ⟨k :: vs, List.nodup_cons.mpr ⟨fun hmem => ?_, hvs.nodup⟩, fun v => ?_, ?_⟩
    · obtain ⟨c, hc, hck⟩ := (hvs.mem k).mp hmem
      exact h.acyclic k (TransGen.head' (hchild c hc) hck)
    · rw [List.mem_cons, hvs.mem]
      constructor
      · rintro (rfl | ⟨c, hc, hcv⟩)
        · exact .refl
        · exact .head (hchild c hc) hcv
      · intro hkv
        rcases ReflTransGen.cases_head hkv with rfl | ⟨c, ⟨b, ls, hedge', hc⟩, hcv⟩
        · exact .inl rfl
        · obtain ⟨-, rfl⟩ := hk.functional hedge hedge'
          exact .inr ⟨c, hc, hcv⟩
    · rw [labels]
      exact .cons ⟨ks, hedge⟩ hvs.labelled

/-- Below a list of keys without common descendants stand their descendants, each once. -/
theorem UnfoldsAll.listing (hk : Keyed edge) (h : IsSpanningTree s root (Child edge)) :
    ∀ {ts : List (HashTree α)} {ks : List κ}, UnfoldsAll edge ks ts → ks.Nodup →
      (∀ c ∈ ks, ∀ c' ∈ ks, c ≠ c' → ∀ v, ReflTransGen (Child edge) c v →
        ReflTransGen (Child edge) c' v → False) →
      ∃ vs, Listing edge (fun v => ∃ k ∈ ks, ReflTransGen (Child edge) k v) vs (forestLabels ts)
  | [], [], _, _, _ => ⟨[], .nil, by simp, .nil⟩
  | [], _ :: _, hu, _, _ => by
    rw [UnfoldsAll] at hu
    exact hu.elim
  | _ :: _, [], hu, _, _ => by
    rw [UnfoldsAll] at hu
    exact hu.elim
  | t :: ts, k :: ks, hu, hnodup, hdisjoint => by
    rw [UnfoldsAll] at hu
    obtain ⟨hnot, hnodup⟩ := List.nodup_cons.mp hnodup
    obtain ⟨vs, hvs⟩ := Unfolds.listing hk h hu.1
    obtain ⟨ws, hws⟩ := UnfoldsAll.listing hk h hu.2 hnodup
      fun c hc c' hc' => hdisjoint c (List.mem_cons_of_mem k hc) c' (List.mem_cons_of_mem k hc')
    refine ⟨vs ++ ws, List.nodup_append'.mpr ⟨hvs.nodup, hws.nodup, ?_⟩, fun v => ?_, ?_⟩
    · intro v hv hw
      obtain ⟨c, hc, hcv⟩ := (hws.mem v).mp hw
      have hne : k ≠ c := fun heq => hnot (heq ▸ hc)
      exact hdisjoint k List.mem_cons_self c (List.mem_cons_of_mem k hc) hne v
        ((hvs.mem v).mp hv) hcv
    · rw [List.mem_append, hvs.mem, hws.mem]
      simp
    · rw [forestLabels]
      exact List.rel_append hvs.labelled hws.labelled

end

/-- **The unfolding of a spanning tree** has every node of the graph in it exactly once. -/
theorem labels_perm (hk : Keyed edge) (h : IsSpanningTree s root (Child edge)) {t : HashTree α}
    (hu : Unfolds edge root t) {ks : List κ} {as : List α} (hnodup : ks.Nodup)
    (hmem : ∀ k, k ∈ ks ↔ k ∈ s) (hlabelled : List.Forall₂ (Labelled edge) ks as) :
    (labels t).Perm as := by
  obtain ⟨vs, hvs⟩ := Unfolds.listing hk h hu
  have hdescends : ∀ v, ReflTransGen (Child edge) root v ↔ v ∈ s := by
    intro v
    constructor
    · intro hv
      rcases ReflTransGen.cases_tail hv with rfl | ⟨p, -, hp⟩
      · exact h.root_mem
      · exact (h.edge_mem p v hp).2
    · exact h.reachable v
  have hperm : vs.Perm ks := by
    refine (List.perm_ext_iff_of_nodup hvs.nodup hnodup).mpr fun v => ?_
    rw [hvs.mem, hdescends, hmem]
  have hunique : Relator.RightUnique (Labelled edge) := by
    rintro k a b ⟨ks, ha⟩ ⟨ls, hb⟩
    exact (hk.functional ha hb).1
  exact List.rel_perm_imp hunique hvs.labelled hlabelled hperm

end HashTree
