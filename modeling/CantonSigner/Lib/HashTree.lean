import Mathlib.Data.List.Basic

/-!
# Trees named by their hashes

A Merkle tree hashes a node as its label with the digests of its children. `digest_eq` says
what a digest fixes: two trees with one digest are equal, or among the texts that were hashed
for them there are two different ones with the same hash. No hash function is assumed to be
injective; the collision is exhibited.

- `Sound P`: every node of a tree meets `P`, of its label and the digests of its children;
  on such nodes the text has to be readable, so that label and digests can be told from it;
- `Unfolds edge k t`: the tree `t` is what hangs below the key `k` in a graph whose nodes are
  given by keys.
-/

/-- A tree with labelled nodes and any number of children. -/
inductive HashTree (α : Type) where
  | node (label : α) (children : List (HashTree α))

/-- Two different texts, one of each list, that hash alike. -/
def Collision {T H : Type} (hash : T → H) (xs ys : List T) : Prop :=
  ∃ x ∈ xs, ∃ y ∈ ys, x ≠ y ∧ hash x = hash y

variable {α κ T H : Type} {hash : T → H} {xs ys : List T}

theorem Collision.mono {xs' ys' : List T} (h : Collision hash xs ys) (hx : xs ⊆ xs')
    (hy : ys ⊆ ys') : Collision hash xs' ys' := by
  obtain ⟨x, hxs, y, hys, hne, heq⟩ := h
  exact ⟨x, hx hxs, y, hy hys, hne, heq⟩

/-- Two texts that hash alike are equal, or they collide. -/
theorem eq_or_collision {x y : T} (hx : x ∈ xs) (hy : y ∈ ys) (h : hash x = hash y) :
    x = y ∨ Collision hash xs ys := by
  by_cases hxy : x = y
  · exact .inl hxy
  · exact .inr ⟨x, hx, y, hy, hxy, h⟩

/-- Lists whose hashes are the same but for their order are the same but for their order, or two
texts of them collide. -/
theorem perm_or_collision (h : (xs.map hash).Perm (ys.map hash)) :
    xs.Perm ys ∨ Collision hash xs ys := by
  induction xs generalizing ys with
  | nil =>
    rw [List.map_nil, List.nil_perm, List.map_eq_nil_iff] at h
    rw [h]
    exact .inl .nil
  | cons x xs ih =>
    obtain ⟨y, hy, hxy⟩ := List.mem_map.mp (h.mem_iff.mp List.mem_cons_self)
    rcases eq_or_collision List.mem_cons_self hy hxy.symm with rfl | hcoll
    · obtain ⟨before, after, rfl⟩ := List.append_of_mem hy
      have hmid : (before ++ x :: after).Perm (x :: (before ++ after)) := List.perm_middle
      rcases ih ((List.perm_cons (hash x)).mp (h.trans (hmid.map hash))) with hperm | hcoll
      · exact .inl ((hperm.cons x).trans hmid.symm)
      · exact .inr (hcoll.mono (List.subset_cons_self _ _) (List.Sublist.subset (by simp)))
    · exact .inr hcoll

namespace HashTree

/-! ## Digests -/

section Digest

variable (text : α → List H → T) (hash : T → H)

mutual

/-- The hash of a node: of its label with the hashes of its children. -/
def digest : HashTree α → H
  | .node a cs => hash (text a (digests cs))

/-- The digests of a forest. -/
def digests : List (HashTree α) → List H
  | [] => []
  | t :: ts => digest t :: digests ts

end

mutual

/-- What is hashed for a tree. -/
def texts : HashTree α → List T
  | .node a cs => text a (digests text hash cs) :: forestTexts cs

/-- What is hashed for a forest. -/
def forestTexts : List (HashTree α) → List T
  | [] => []
  | t :: ts => texts t ++ forestTexts ts

end

variable (P : α → List H → Prop)

mutual

/-- Every node meets a condition on its label and the digests of its children. -/
def Sound : HashTree α → Prop
  | .node a cs => P a (digests text hash cs) ∧ SoundAll cs

/-- Every node of a forest meets a condition. -/
def SoundAll : List (HashTree α) → Prop
  | [] => True
  | t :: ts => Sound t ∧ SoundAll ts

end

end Digest

variable {text : α → List H → T} {P : α → List H → Prop}

theorem digests_append (ts us : List (HashTree α)) :
    digests text hash (ts ++ us) = digests text hash ts ++ digests text hash us := by
  induction ts with
  | nil => rfl
  | cons t ts ih => rw [List.cons_append, digests, digests, ih, List.cons_append]

theorem soundAll_append {ts us : List (HashTree α)} (ht : SoundAll text hash P ts)
    (hu : SoundAll text hash P us) : SoundAll text hash P (ts ++ us) := by
  induction ts with
  | nil => exact hu
  | cons t ts ih => exact ⟨ht.1, ih ht.2⟩

theorem length_digests (ts : List (HashTree α)) : (digests text hash ts).length = ts.length := by
  induction ts with
  | nil => rfl
  | cons t ts ih => rw [digests, List.length_cons, List.length_cons, ih]

/-- Every digest of a forest is a hash. -/
theorem mem_digests {ts : List (HashTree α)} {h : H} (hmem : h ∈ digests text hash ts) :
    ∃ x, h = hash x := by
  induction ts with
  | nil => cases hmem
  | cons t ts ih =>
    rw [digests] at hmem
    rcases List.mem_cons.mp hmem with rfl | hmem
    · cases t with
      | node a cs => exact ⟨_, digest.eq_1 _ _ a cs⟩
    · exact ih hmem

/-- The text of a node can be read: it has one label and one list of digests. -/
def Readable (text : α → List H → T) (P : α → List H → Prop) : Prop :=
  ∀ {a b : α} {hs ks : List H}, P a hs → P b ks → text a hs = text b ks → a = b ∧ hs = ks

mutual

/-- **A digest fixes the tree**, unless two of the texts hashed for it collide. -/
theorem digest_eq (hread : Readable text P) : ∀ {t u : HashTree α}, t.Sound text hash P →
    u.Sound text hash P → digest text hash t = digest text hash u →
    t = u ∨ Collision hash (texts text hash t) (texts text hash u)
  | .node a cs, .node b ds, ht, hu, h => by
    rw [digest, digest] at h
    rw [Sound] at ht hu
    rw [texts, texts]
    rcases eq_or_collision List.mem_cons_self List.mem_cons_self h with htext | hcoll
    · obtain ⟨rfl, hdigests⟩ := hread ht.1 hu.1 htext
      rcases digests_eq hread ht.2 hu.2 hdigests with rfl | hcoll
      · exact .inl rfl
      · exact .inr (hcoll.mono (List.subset_cons_self _ _) (List.subset_cons_self _ _))
    · exact .inr hcoll

/-- The digests of a forest fix it, unless two of the texts hashed for it collide. -/
theorem digests_eq (hread : Readable text P) : ∀ {ts us : List (HashTree α)},
    SoundAll text hash P ts → SoundAll text hash P us →
    digests text hash ts = digests text hash us →
    ts = us ∨ Collision hash (forestTexts text hash ts) (forestTexts text hash us)
  | [], [], _, _, _ => .inl rfl
  | [], _ :: _, _, _, h => by
    rw [digests, digests] at h
    cases h
  | _ :: _, [], _, _, h => by
    rw [digests, digests] at h
    cases h
  | t :: ts, u :: us, ht, hu, h => by
    rw [digests, digests] at h
    obtain ⟨hhead, htail⟩ := List.cons.inj h
    rw [SoundAll] at ht hu
    rw [forestTexts, forestTexts]
    rcases digest_eq hread ht.1 hu.1 hhead with rfl | hcoll
    · rcases digests_eq hread ht.2 hu.2 htail with rfl | hcoll
      · exact .inl rfl
      · exact .inr (hcoll.mono (List.subset_append_right _ _) (List.subset_append_right _ _))
    · exact .inr (hcoll.mono (List.subset_append_left _ _) (List.subset_append_left _ _))

end

/-! ## The tree below a key -/

section Unfolds

variable (edge : κ → α → List κ → Prop)

mutual

/-- The tree is what hangs below a key: `edge k a ks` gives the node of the key `k` the label
`a` and the children `ks`. -/
def Unfolds : κ → HashTree α → Prop
  | k, .node a cs => ∃ ks, edge k a ks ∧ UnfoldsAll ks cs

/-- The forest is what hangs below a list of keys. -/
def UnfoldsAll : List κ → List (HashTree α) → Prop
  | [], [] => True
  | k :: ks, t :: ts => Unfolds k t ∧ UnfoldsAll ks ts
  | [], _ :: _ => False
  | _ :: _, [] => False

end

end Unfolds

variable {edge edge' : κ → α → List κ → Prop}

mutual

/-- More nodes do not change what hangs below a key. -/
theorem Unfolds.mono (h : ∀ k a ks, edge k a ks → edge' k a ks) : ∀ {t : HashTree α} {k : κ},
    Unfolds edge k t → Unfolds edge' k t
  | .node a cs, k, hk => by
    rw [Unfolds] at hk ⊢
    obtain ⟨ks, hedge, hall⟩ := hk
    exact ⟨ks, h k a ks hedge, UnfoldsAll.mono h hall⟩

theorem UnfoldsAll.mono (h : ∀ k a ks, edge k a ks → edge' k a ks) :
    ∀ {ts : List (HashTree α)} {ks : List κ}, UnfoldsAll edge ks ts → UnfoldsAll edge' ks ts
  | [], [], _ => trivial
  | [], _ :: _, hk => by
    rw [UnfoldsAll] at hk
    exact hk.elim
  | _ :: _, [], hk => by
    rw [UnfoldsAll] at hk
    exact hk.elim
  | t :: ts, k :: ks, hk => by
    rw [UnfoldsAll] at hk ⊢
    exact ⟨Unfolds.mono h hk.1, UnfoldsAll.mono h hk.2⟩

end

theorem UnfoldsAll.concat {k : κ} {t : HashTree α} (hk : Unfolds edge k t) :
    ∀ {ks : List κ} {ts : List (HashTree α)}, UnfoldsAll edge ks ts →
      UnfoldsAll edge (ks ++ [k]) (ts ++ [t])
  | [], [], _ => by
    rw [List.nil_append, List.nil_append, UnfoldsAll]
    exact ⟨hk, by rw [UnfoldsAll]; trivial⟩
  | [], _ :: _, h => by
    rw [UnfoldsAll] at h
    exact h.elim
  | _ :: _, [], h => by
    rw [UnfoldsAll] at h
    exact h.elim
  | k' :: ks, t' :: ts, h => by
    rw [UnfoldsAll] at h
    rw [List.cons_append, List.cons_append, UnfoldsAll]
    exact ⟨h.1, UnfoldsAll.concat hk h.2⟩

end HashTree
