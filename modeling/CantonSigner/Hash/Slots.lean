import CantonSigner.Hash.Merkle
import CantonSigner.Model.TestDevice

/-!
# How far a child may be from its parent

The store of node hashes has as many slots as a node may have children, and a parent comes
after its children. That is not enough slots for all transactions: what counts is how many
nodes come between a child and its parent, and whole subtrees of other children may come
there.

- `Documented`: the orders in which the nodes of a transaction may be sent;
- `getNodeHash_isSome_iff`: a node that was sent is found exactly while fewer than 32 hashes
  were stored after its own;
- `slots_enough_iff`: so the children of a node are found exactly if each of them is `Recent`;
- `crowdedOrder`: a parent with 32 children whose first child is lost.
-/

namespace CantonSigner

open ByteCodec HashingParser

variable {d : Device} {tx : DamlTransaction}

/-! ## Orders -/

/-- Nodes in an order in which they may be sent: tree by tree, and every child before its
parent. -/
structure Documented (roots sent : List TxTree) : Prop where
  trees : TreeByTree roots sent
  childrenFirst : ∀ before t after, sent = before ++ t :: after → ∀ c ∈ t.children, c ∈ before

/-- The nodes whose hashes are stored. -/
def storedNodes (tx : DamlTransaction) (sent : List TxTree) : List TxTree :=
  sent.filter fun t => !isRootNode tx t

/-- Fewer hashes than there are slots were stored after the one of this node. -/
def Recent (tx : DamlTransaction) (sent : List TxTree) (c : TxTree) : Prop :=
  ∃ before after, sent = before ++ c :: after ∧ (storedNodes tx after).length < maxNodeChildren

/-- The children of a node are found while it is hashed: each lookup gives the hash of the
child, and the children are encoded without an error. -/
structure ChildrenFound (d : Device) (tx : DamlTransaction) (s : NodesState) (t : TxTree) :
    Prop where
  found : ∀ c ∈ t.children, ∃ hash,
    nodeHash d tx c = some hash ∧ getNodeHash s.store c.idString = some hash
  encoded : ∀ w, w.err = .ok →
    (encodeChildren (getNodeHash s.store) w (t.children.map TxTree.idString)).err = .ok

namespace TxTree

/-- A node comes before its descendants. -/
theorem nodes_eq_cons (t : TxTree) : t.nodes = t :: forestNodes t.children := by
  cases t <;> simp [nodes, children, forestNodes]

/-- A child is below the root of its tree. -/
theorem child_mem_below {r t c : TxTree} (ht : t ∈ r.nodes) (hc : c ∈ t.children) :
    c ∈ forestNodes r.children := by
  rw [nodes_eq_cons] at ht
  rcases List.mem_cons.mp ht with rfl | ht
  · exact mem_forestNodes hc (self_mem_nodes c)
  · exact forestNodes_closed _ t ht c hc

theorem child_not_mem_roots {roots : List TxTree} (hnodup : (forestNodes roots).Nodup)
    {t c : TxTree} (ht : t ∈ forestNodes roots) (hc : c ∈ t.children) : c ∉ roots := by
  induction roots with
  | nil => exact nofun
  | cons r rs ih =>
    rw [forestNodes] at ht hnodup
    obtain ⟨hfirst, hrest, hdisjoint⟩ := List.nodup_append.mp hnodup
    have hroots : ∀ u ∈ rs, u ∈ forestNodes rs := fun u hu =>
      mem_forestNodes hu (self_mem_nodes u)
    intro hmem
    rcases List.mem_append.mp ht with htree | hothers
    · -- The child is in the first tree, and not at its root.
      have hbelow := child_mem_below htree hc
      rw [nodes_eq_cons] at hfirst hdisjoint
      rcases List.mem_cons.mp hmem with rfl | hmem
      · exact (List.nodup_cons.mp hfirst).1 hbelow
      · exact hdisjoint c (List.mem_cons_of_mem _ hbelow) c (hroots c hmem) rfl
    · have hchild := forestNodes_closed rs t hothers c hc
      rcases List.mem_cons.mp hmem with rfl | hmem
      · exact hdisjoint c (self_mem_nodes c) c hchild rfl
      · exact ih hrest hothers hmem

end TxTree

/-- A child is not taken for a root. -/
theorem child_not_root {roots : List TxTree}
    (hids : ((TxTree.forestNodes roots).map TxTree.id).Nodup)
    (hroots : tx.roots = roots.map TxTree.idString) {t c : TxTree}
    (ht : t ∈ TxTree.forestNodes roots) (hc : c ∈ t.children) : isRootNode tx c = false := by
  by_contra hroot
  rw [Bool.not_eq_false, isRootNode, hroots, List.contains_iff_mem, List.mem_map] at hroot
  obtain ⟨r, hr, heq⟩ := hroot
  have hid : r.id = c.id := decimal_injective heq
  have hmem := TxTree.mem_forestNodes hr (TxTree.self_mem_nodes r)
  have hc' := TxTree.forestNodes_closed roots t ht c hc
  obtain rfl := List.inj_on_of_nodup_map hids hmem hc' hid
  exact TxTree.child_not_mem_roots (List.Nodup.of_map _ hids) ht hc hr

/-! ## The store -/

/-- The entry of a node in the store. -/
def storeEntry (d : Device) (tx : DamlTransaction) (t : TxTree) : NodeHash :=
  (t.id, (nodeHash d tx t).getD [])

/-- The store after some nodes: their entries were pushed onto empty slots, in the order of the
nodes. -/
def Stored (d : Device) (tx : DamlTransaction) (sent : List TxTree) (store : NodeHashStore) :
    Prop :=
  ∃ start, (∀ e ∈ start.slots, e.1 = -1) ∧
    store = SlotRing.pushAll start ((storedNodes tx sent).map (storeEntry d tx))

theorem storedNodes_append (xs ys : List TxTree) :
    storedNodes tx (xs ++ ys) = storedNodes tx xs ++ storedNodes tx ys := List.filter_append ..

theorem storedNodes_cons {t : TxTree} (h : isRootNode tx t = false) (ts : List TxTree) :
    storedNodes tx (t :: ts) = t :: storedNodes tx ts := by
  simp [storedNodes, h]

theorem Stored.step {sent : List TxTree} {store : NodeHashStore} {t : TxTree} {hash : Bytes}
    (h : Stored d tx sent store) (hhash : nodeHash d tx t = some hash) :
    Stored d tx (sent ++ [t]) (if isRootNode tx t then store else setNodeHash store t.id hash) := by
  obtain ⟨start, hstart, rfl⟩ := h
  refine ⟨start, hstart, ?_⟩
  rw [storedNodes_append, List.map_append]
  by_cases hroot : isRootNode tx t = true
  · simp [storedNodes, hroot]
  · rw [if_neg hroot, storedNodes_cons (by simpa using hroot)]
    show _ = SlotRing.pushAll start (_ ++ [storeEntry d tx t])
    rw [SlotRing.pushAll_concat, storeEntry, hhash]
    rfl

/-- The store of a run over node parts, each child of which came before. -/
theorem stored_of_absorbed {sent : List TxTree} {store : NodeHashStore} {s : NodesState}
    (hforest : Forest sent) (hshort : ∀ t ∈ sent, t.idString.length < 4)
    (h : (sent.map TxTree.part).foldlM (absorbNode d tx) (.afterHeader store tx) = some s) :
    Stored d tx sent s.store := by
  rw [List.foldlM_map] at h
  refine (List.foldlM_history (P := fun l s => (∀ t ∈ l, t ∈ sent) →
    MerkleInv d tx l s ∧ Stored d tx l s.store) ?_ ?_ h (fun _ => id)).2
  · intro _
    refine ⟨⟨SlotRing.forall_fill _ (.inl rfl), [], rfl, by simp [NodesState.afterHeader]⟩, ?_⟩
    exact ⟨_, SlotRing.forall_fill _ rfl, rfl⟩
  · intro l t s s' ih hstep hmem
    have hl : ∀ t ∈ l, t ∈ sent := fun t ht => hmem t (List.mem_append_left _ ht)
    have ht : t ∈ sent := hmem t (by simp)
    obtain ⟨hinv, hstored⟩ := ih hl
    refine ⟨hinv.step hforest hshort hl ht hstep, ?_⟩
    obtain ⟨hash, hhash, hstore, -⟩ := absorbNode_part
      (hinv.lookup hforest hshort hl ht) (hshort t ht) hstep
    rw [hstore]
    exact hstored.step hhash

/-- **One lookup**: a node that was sent is found exactly if it is recent. -/
theorem getNodeHash_isSome_iff {sent : List TxTree} {store : NodeHashStore} {c : TxTree}
    (h : Stored d tx sent store) (hids : (sent.map TxTree.id).Nodup)
    (hshort : c.idString.length < 4) (hc : c ∈ sent) (hroot : isRootNode tx c = false) :
    (getNodeHash store c.idString).isSome = true ↔ Recent tx sent c := by
  obtain ⟨start, hstart, rfl⟩ := h
  rw [getNodeHash, Option.isSome_map, SlotRing.find?, List.find?_isSome]
  simp only [atoint_idString hshort, beq_iff_eq]
  -- The entries before and after the one of the node.
  have hsplit : ∀ {before after}, sent = before ++ c :: after →
      (storedNodes tx sent).map (storeEntry d tx) =
        (storedNodes tx before).map (storeEntry d tx) ++
          storeEntry d tx c :: (storedNodes tx after).map (storeEntry d tx) := by
    rintro before after rfl
    rw [storedNodes_append, storedNodes_cons hroot, List.map_append, List.map_cons]
  constructor
  · rintro ⟨e, he, hid⟩
    obtain ⟨before, after, rfl⟩ := List.append_of_mem hc
    refine ⟨before, after, rfl, ?_⟩
    by_contra hfull
    rw [hsplit rfl, List.append_cons] at he
    -- Only later entries are left, and they have other ids.
    have hlater := SlotRing.mem_of_mem_pushAll (by simpa using hfull) he
    obtain ⟨t, ht, rfl⟩ := List.mem_map.mp hlater
    have hid : t.id = c.id := Int.ofNat_inj.mp hid
    have hmem : t ∈ after := (List.mem_filter.mp ht).1
    rw [List.map_append, List.map_cons, List.nodup_append] at hids
    refine (List.nodup_cons.mp hids.2.1).1 (List.mem_map.mpr ⟨t, hmem, hid⟩)
  · rintro ⟨before, after, heq, hfew⟩
    refine ⟨storeEntry d tx c, ?_, rfl⟩
    rw [hsplit heq]
    exact SlotRing.mem_pushAll _ (by simpa using hfew)

/-! ## The children of a node -/

variable {roots sent before after : List TxTree} {t : TxTree} {store : NodeHashStore}
  {s : NodesState}

/-- The nodes sent before a node are a forest. -/
theorem Documented.forest (h : Documented roots (before ++ after))
    (hids : ((TxTree.forestNodes roots).map TxTree.id).Nodup) : Forest before := by
  refine ⟨?_, fun t ht c hc => ?_⟩
  · have hall := (h.trees.perm.map TxTree.id).nodup_iff.mpr hids
    rw [List.map_append] at hall
    exact (List.nodup_append.mp hall).1
  · obtain ⟨xs, ys, rfl⟩ := List.append_of_mem ht
    have hc' := h.childrenFirst xs t (ys ++ after) (by simp) c hc
    exact List.mem_append_left _ hc'

/-- Encoding the children of a node fails only if one of them is not found, or if there are too
many. -/
theorem encodeNodeIds_err {lookup : Bytes → Option Bytes} {ids : List Bytes}
    (h : ∀ i ∈ ids, (lookup i).isSome = true) (w : Hw) :
    (encodeNodeIds lookup w ids).err = w.err := by
  induction ids generalizing w with
  | nil => rfl
  | cons i ids ih =>
    rw [List.forall_mem_cons] at h
    obtain ⟨hash, hhash⟩ := Option.isSome_iff_exists.mp h.1
    rw [encodeNodeIds, hhash]
    exact (ih h.2 (w.put hash)).trans (w.put_err hash)

/-- **When the slots are enough**: in an order that may be sent, the children of a node with at
most 32 of them are found exactly if each of them is recent. -/
theorem slots_enough_iff (hids : ((TxTree.forestNodes roots).map TxTree.id).Nodup)
    (hroots : tx.roots = roots.map TxTree.idString) (hsent : Documented roots sent)
    (hfew : ∀ t ∈ TxTree.forestNodes roots, t.children.length ≤ 32)
    (hsplit : sent = before ++ t :: after)
    (habs : (before.map TxTree.part).foldlM (absorbNode d tx) (.afterHeader store tx) = some s) :
    ChildrenFound d tx s t ↔ ∀ c ∈ t.children, Recent tx before c := by
  subst hsplit
  have hforest := hsent.forest hids
  have hshort : ∀ u ∈ before, u.idString.length < 4 := fun u hu =>
    parts_short habs u.part (List.mem_map_of_mem hu) u.idString (by simp [TxTree.part, nodeIds])
  have hinv := merkleInv_of_absorbed hforest hshort (fun _ => id) habs
  have hstored := stored_of_absorbed hforest hshort habs
  have ht : t ∈ TxTree.forestNodes roots := hsent.trees.perm.mem_iff.mp (by simp)
  have hbefore : ∀ c ∈ t.children, c ∈ before := hsent.childrenFirst before t after rfl
  -- a child is found exactly if its slot has not been written over
  have hfound : ∀ c ∈ t.children,
      (getNodeHash s.store c.idString).isSome = true ↔ Recent tx before c := fun c hc =>
    getNodeHash_isSome_iff hstored hforest.ids (hshort c (hbefore c hc)) (hbefore c hc)
      (child_not_root hids hroots ht hc)
  constructor
  · intro h c hc
    obtain ⟨hash, -, hhash⟩ := h.found c hc
    rw [← hfound c hc, hhash]
    rfl
  · intro h
    have hsome : ∀ c ∈ t.children, (getNodeHash s.store c.idString).isSome = true :=
      fun c hc => (hfound c hc).mpr (h c hc)
    constructor
    · intro c hc
      obtain ⟨hash, hhash⟩ := Option.isSome_iff_exists.mp (hsome c hc)
      have hc' := hbefore c hc
      exact ⟨hash, hinv.lookup_node hforest hshort (fun _ => id) hc' hhash, hhash⟩
    · -- with all hashes there, the encoding of the children raises no error
      intro w hw
      have hlen : ¬ maxNodeChildren < (t.children.map TxTree.idString).length := by
        rw [List.length_map]
        exact Nat.not_lt.mpr (hfew t ht)
      rw [encodeChildren, if_neg hlen, encodeRepeatedNodeIds, encodeNodeIds_err]
      · exact hw
      · rintro i hi
        obtain ⟨c, hc, rfl⟩ := List.mem_map.mp hi
        exact hsome c hc

/-! ## A crowded parent -/

/-- A node without children. -/
def leaf (id : Nat) : TxTree := .rollback id []

/-- A rollback node is absorbed as soon as its children are found. -/
theorem absorbNode_rollback {id : Nat} {cs : List TxTree} (hshort : (decimal id).length < 4)
    (hfew : cs.length ≤ 32)
    (hfound : ∀ c ∈ cs, (getNodeHash s.store c.idString).isSome = true) :
    ∃ s', absorbNode d tx s (TxTree.rollback id cs).part = some s' := by
  have hlen : ¬ 4 ≤ (decimal id).length := Nat.not_le.mpr hshort
  have herr : (encodeRollback (getNodeHash s.store) ⟨[], .ok⟩
      ⟨cs.map TxTree.idString⟩).err = .ok := by
    have hmax : ¬ maxNodeChildren < (cs.map TxTree.idString).length := by
      rw [List.length_map]
      exact Nat.not_lt.mpr hfew
    rw [encodeRollback, encodeChildren, if_neg hmax, encodeRepeatedNodeIds, encodeNodeIds_err]
    · rfl
    · rintro i hi
      obtain ⟨c, hc, rfl⟩ := List.mem_map.mp hi
      exact hfound c hc
  simp only [absorbNode, digestNode, decodeNodePart, TxTree.part, TxTree.idString, TxTree.id,
    List.foldlM_cons, List.foldlM_nil, decodeNodeItem, decodeNodeIdField, hlen, ↓reduceIte,
    nodeDecodeCallback, TxTree.kind, HashingParser.decodeRollback, Option.bind_eq_bind,
    Option.bind_some, Option.pure_def, Option.map_some]
  rw [if_pos]
  · exact ⟨_, rfl⟩
  · show ((claimChildren _ _).v.enc _).hw.err = .ok
    rw [(claimChildren_frame _ _).2.2]
    exact herr

theorem absorbNode_leaves {ts : List TxTree}
    (h : ∀ t ∈ ts, ∃ i, t = leaf i ∧ (decimal i).length < 4) (s : NodesState) :
    ∃ s', (ts.map TxTree.part).foldlM (absorbNode d tx) s = some s' := by
  induction ts generalizing s with
  | nil => exact ⟨s, rfl⟩
  | cons t ts ih =>
    rw [List.forall_mem_cons] at h
    obtain ⟨⟨i, rfl, hi⟩, hts⟩ := h
    obtain ⟨s₁, h₁⟩ : ∃ s₁, absorbNode d tx s (leaf i).part = some s₁ :=
      absorbNode_rollback hi (by simp) nofun
    obtain ⟨s₂, h₂⟩ := ih hts s₁
    refine ⟨s₂, ?_⟩
    rw [List.map_cons, List.foldlM_cons, h₁]
    exact h₂

/-- The last 30 children. -/
def crowd : List TxTree := ((List.range 30).map (· + 3)).map leaf

theorem leaf_of_mem_crowd : ∀ t ∈ crowd, ∃ i, t = leaf i ∧ (decimal i).length < 4 := by
  intro t ht
  obtain ⟨i, hi, rfl⟩ := List.mem_map.mp ht
  have hall : ∀ i ∈ (List.range 30).map (· + 3), (decimal i).length < 4 := by decide
  exact ⟨i, rfl, hall i hi⟩

/-- 32 children, of which the second has a child of its own. -/
def crowdedRoot : TxTree := .rollback 33 (leaf 0 :: .rollback 2 [leaf 1] :: crowd)

/-- The first child, then the grandchild and the other children. -/
def crowdedOrder : List TxTree := leaf 0 :: leaf 1 :: .rollback 2 [leaf 1] :: crowd

/-- The header of the transaction. -/
def crowdedHeader : DamlTransaction := ⟨some (str "2.1"), [decimal 33], 34, []⟩

theorem documented_crowded : Documented [crowdedRoot] (crowdedOrder ++ [crowdedRoot]) := by
  refine ⟨⟨[_], (List.append_nil _).symm, .cons ?_ .nil⟩, ?_⟩
  · have hnodes : crowdedRoot.nodes =
        crowdedRoot :: leaf 0 :: .rollback 2 [leaf 1] :: leaf 1 :: crowd := rfl
    rw [hnodes]
    refine (List.perm_append_singleton _ _).trans (.cons _ (.cons _ ?_))
    exact .swap ..
  · -- Only the third node and the last one have children.
    have hcrowd : ∀ t ∈ crowd, t.children = [] := by decide
    intro before t after heq c hc
    rcases before with _ | ⟨a, _ | ⟨b, before⟩⟩
    · obtain ⟨rfl, -⟩ := List.cons.inj heq
      cases hc
    · obtain ⟨-, heq⟩ := List.cons.inj heq
      obtain ⟨rfl, -⟩ := List.cons.inj heq
      cases hc
    · simp only [crowdedOrder, List.cons_append, List.cons.injEq] at heq
      obtain ⟨rfl, rfl, heq⟩ := heq
      rcases before with _ | ⟨x, before⟩
      · obtain ⟨rfl, -⟩ := List.cons.inj heq
        rw [List.mem_singleton.mp hc]
        simp
      · simp only [List.cons_append, List.cons.injEq] at heq
        obtain ⟨rfl, heq⟩ := heq
        rcases List.eq_nil_or_concat after with rfl | ⟨after, y, rfl⟩
        · obtain ⟨rfl, hlast⟩ := List.append_inj' heq rfl
          rw [← List.singleton_inj.mp hlast] at hc
          have : c ∈ leaf 0 :: .rollback 2 [leaf 1] :: crowd := hc
          simp only [List.mem_cons] at this ⊢
          tauto
        · rw [List.concat_eq_append, ← List.cons_append, ← List.append_assoc] at heq
          have ht : t ∈ crowd := by
            rw [(List.append_inj' heq rfl).1]
            simp
          rw [hcrowd t ht] at hc
          cases hc

theorem not_recent_crowded : ¬ Recent crowdedHeader crowdedOrder (leaf 0) := by
  rintro ⟨before, after, heq, hfew⟩
  rcases before with _ | ⟨x, before⟩
  · obtain ⟨-, rfl⟩ := List.cons.inj heq
    exact absurd hfew (by decide)
  · -- The node does not come again.
    obtain ⟨-, heq⟩ := List.cons.inj heq
    have hmem : leaf 0 ∈ leaf 1 :: .rollback 2 [leaf 1] :: crowd := by
      rw [heq]
      simp
    exact absurd (List.mem_map_of_mem (f := TxTree.id) hmem) (by decide)

theorem nodup_crowded : ((TxTree.forestNodes [crowdedRoot]).map TxTree.id).Nodup := by decide

theorem few_crowded : ∀ t ∈ TxTree.forestNodes [crowdedRoot], t.children.length ≤ 32 := by decide

/-- The node parts up to the grandchild are accepted. -/
theorem absorbed_grandchild (d : Device) (store : NodeHashStore) :
    ∃ s, ([leaf 0, leaf 1].map TxTree.part).foldlM (absorbNode d crowdedHeader)
      (.afterHeader store crowdedHeader) = some s := by
  refine absorbNode_leaves (fun t ht => ?_) _
  rcases List.mem_pair.mp ht with rfl | rfl
  · exact ⟨0, rfl, by decide⟩
  · exact ⟨1, rfl, by decide⟩

/-- The node parts up to the root are accepted. -/
theorem absorbed_crowded (d : Device) (store : NodeHashStore) :
    ∃ s, (crowdedOrder.map TxTree.part).foldlM (absorbNode d crowdedHeader)
      (.afterHeader store crowdedHeader) = some s := by
  obtain ⟨s₁, h₁⟩ := absorbed_grandchild d store
  -- The grandchild has just been sent.
  have hforest : Forest [leaf 0, leaf 1] := ⟨by decide, by simp [leaf, TxTree.children]⟩
  have hrecent : Recent crowdedHeader [leaf 0, leaf 1] (leaf 1) := ⟨[leaf 0], [], rfl, by decide⟩
  have hfound := (getNodeHash_isSome_iff (stored_of_absorbed hforest (by decide) h₁) hforest.ids
    (by decide) (by simp) (by decide)).mpr hrecent
  obtain ⟨s₂, h₂⟩ : ∃ s₂, absorbNode d crowdedHeader s₁ (TxTree.rollback 2 [leaf 1]).part =
      some s₂ := absorbNode_rollback (by decide) (by decide) (by simpa using hfound)
  obtain ⟨s₃, h₃⟩ : ∃ s₃, (crowd.map TxTree.part).foldlM (absorbNode d crowdedHeader) s₂ =
      some s₃ := absorbNode_leaves leaf_of_mem_crowd s₂
  refine ⟨s₃, ?_⟩
  have hparts : crowdedOrder.map TxTree.part = [leaf 0, leaf 1].map TxTree.part ++
      (TxTree.rollback 2 [leaf 1]).part :: crowd.map TxTree.part := by
    simp only [crowdedOrder, List.map_cons, List.map_nil, List.cons_append, List.nil_append]
  rw [hparts, List.foldlM_append]
  refine Option.bind_eq_some_iff.mpr ⟨s₁, h₁, ?_⟩
  rw [List.foldlM_cons]
  exact Option.bind_eq_some_iff.mpr ⟨s₂, h₂, h₃⟩

/-- The same transaction, up to the node whose only child was sent just before it. -/
theorem slots_enough_iff_grandchild :
    ∃ s, ([leaf 0, leaf 1].map TxTree.part).foldlM (absorbNode testDevice crowdedHeader)
        (.afterHeader (SlotRing.init emptySlot (by decide)) crowdedHeader) = some s ∧
      ChildrenFound testDevice crowdedHeader s (.rollback 2 [leaf 1]) := by
  obtain ⟨s, hs⟩ := absorbed_grandchild testDevice (SlotRing.init emptySlot (by decide))
  refine ⟨s, hs, (slots_enough_iff nodup_crowded rfl documented_crowded few_crowded
    (show _ = [leaf 0, leaf 1] ++ TxTree.rollback 2 [leaf 1] :: (crowd ++ [crowdedRoot]) from rfl)
    hs).mpr fun c hc => ?_⟩
  rw [List.mem_singleton.mp hc]
  exact ⟨[leaf 0], [], rfl, by decide⟩

/-- The slots are not enough for this transaction: its last node part is refused, for the hash
of the first child. -/
theorem slots_lose_first_child :
    ((TxTree.forestNodes [crowdedRoot]).map TxTree.id).Nodup ∧
      crowdedHeader.roots = [crowdedRoot].map TxTree.idString ∧
      Documented [crowdedRoot] (crowdedOrder ++ [crowdedRoot]) ∧
      (∀ t ∈ TxTree.forestNodes [crowdedRoot], t.children.length ≤ 32) ∧
      ∃ s, (crowdedOrder.map TxTree.part).foldlM (absorbNode testDevice crowdedHeader)
          (.afterHeader (SlotRing.init emptySlot (by decide)) crowdedHeader) = some s ∧
        ¬ ChildrenFound testDevice crowdedHeader s crowdedRoot ∧
        absorbNode testDevice crowdedHeader s crowdedRoot.part = none := by
  refine ⟨nodup_crowded, rfl, documented_crowded, few_crowded, ?_⟩
  obtain ⟨s, hs⟩ := absorbed_crowded testDevice (SlotRing.init emptySlot (by decide))
  have hforest := documented_crowded.forest nodup_crowded
  have hlost : ¬ (getNodeHash s.store (leaf 0).idString).isSome = true := by
    rw [getNodeHash_isSome_iff (stored_of_absorbed hforest (by decide) hs) hforest.ids (by decide)
      List.mem_cons_self (by decide)]
    exact not_recent_crowded
  refine ⟨s, hs, fun h => hlost ?_, ?_⟩
  · obtain ⟨hash, -, hfound⟩ := h.found (leaf 0) List.mem_cons_self
    rw [hfound]
    rfl
  · -- An accepted part has found all children.
    cases habs : absorbNode testDevice crowdedHeader s crowdedRoot.part with
    | none => rfl
    | some s' =>
      obtain ⟨hash, h⟩ := absorbNode_spec habs
      exact absurd (h.lookups (leaf 0).idString List.mem_cons_self) hlost

end CantonSigner
