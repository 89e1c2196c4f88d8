import Mathlib.Data.List.GetD
import Mathlib.Data.List.Pairwise
import CantonSigner.Lib.SpanningTree
import CantonSigner.Model.Host
import CantonSigner.Model.TestDevice
import CantonSigner.Tree.Parts

/-!
# Accepted node trees

The tree check marks the ids that arrive and the ids that are claimed; it never looks
for a cycle. That there is none rests on the hash store: a node part that names a
child looks up the child's hash, and the store only ever holds hashes of parts that
came before (`parts_ordered`).

- `TreeInv`: what the marks say as long as the check has found no error;
- `TreeAccepted`: with a good verdict, the children that are claimed make a spanning
  tree of the announced ids (`TreeAccepted.spanningTree`);
- a part can declare more children than it claims, because only its first children
  list is claimed. `accepted_tree_iff` says that these are what decides.
-/

namespace CantonSigner

open ByteCodec HashingParser

/-! ## The marks -/

namespace TreeCheck

variable {t : TreeCheck} {id k : Int}

@[simp] theorem setSeen_nodes_length (t : TreeCheck) (id : Int) :
    (t.setSeen id).nodes.length = t.nodes.length := by simp [setSeen]

@[simp] theorem setClaimed_nodes_length (t : TreeCheck) (id : Int) :
    (t.setClaimed id).nodes.length = t.nodes.length := by simp [setClaimed]

theorem inRange_iff : t.inRange id = true ↔ 0 ≤ id ∧ id < t.nodes.length := by
  rw [inRange, Bool.and_eq_true, decide_eq_true_iff, decide_eq_true_iff, nodesCount]

/-- An entry of a list of marks in which one was replaced. -/
theorem getD_set_toNat {nodes : List NodeCheck} {x default : NodeCheck} (hid : 0 ≤ id)
    (hlt : id < nodes.length) (hk : 0 ≤ k) :
    (nodes.set id.toNat x).getD k.toNat default =
      if k = id then x else nodes.getD k.toNat default := by
  simp only [List.getD_eq_getElem?_getD, List.getElem?_set]
  by_cases h : k = id
  · subst h
    have : k.toNat < nodes.length := by omega
    simp [this]
  · have : id.toNat ≠ k.toNat := by omega
    simp [this, h]

theorem entry_setSeen (hr : t.inRange id = true) (hk : 0 ≤ k) :
    (t.setSeen id).entry k = if k = id then { t.entry id with seen := true } else t.entry k :=
  getD_set_toNat (inRange_iff.mp hr).1 (inRange_iff.mp hr).2 hk

theorem entry_setClaimed (hr : t.inRange id = true) (hk : 0 ≤ k) :
    (t.setClaimed id).entry k =
      if k = id then { t.entry id with claimed := true } else t.entry k :=
  getD_set_toNat (inRange_iff.mp hr).1 (inRange_iff.mp hr).2 hk

theorem setTreeError_ne_ok {e : TreeError} (he : e ≠ .ok) : (t.setTreeError e).err ≠ .ok := by
  unfold setTreeError
  split
  · exact he
  · assumption

end TreeCheck

/-- A mark that does not find an error. -/
theorem treeMarkSeen_ok {t : TreeCheck} {id : Int} (h : (treeMarkSeen t id).err = .ok) :
    t.err = .ok ∧ t.inRange id = true ∧ (t.entry id).seen = false ∧
      treeMarkSeen t id = t.setSeen id := by
  unfold treeMarkSeen at h ⊢
  split at h
  · exact absurd h (TreeCheck.setTreeError_ne_ok (by decide))
  · rename_i hr
    split at h
    · exact absurd h (TreeCheck.setTreeError_ne_ok (by decide))
    · rename_i hs
      simp only [Bool.not_eq_true] at hs
      simp only [Bool.not_eq_true, Bool.not_eq_false'] at hr
      exact ⟨h, hr, hs, by simp [hr, hs]⟩

/-- A claim that does not find an error. -/
theorem claimChild_ok {t t' : TreeCheck} {parentId child : Int} {go : Bool}
    (h : claimChild t parentId child = (t', go)) (hok : t'.err = .ok) :
    go = true ∧ t.err = .ok ∧ t.inRange child = true ∧ child ≠ t.rootId ∧
      (t.entry child).claimed = false ∧ t' = t.setClaimed child := by
  have hbad : ∀ e, e ≠ .ok → (t.setTreeError e, false) ≠ (t', go) := by
    rintro e he heq
    rw [← (Prod.mk.inj heq).1] at hok
    exact TreeCheck.setTreeError_ne_ok he hok
  unfold claimChild at h
  split at h
  · exact absurd h (hbad _ (by decide))
  · rename_i hr
    split at h
    · exact absurd h (hbad _ (by decide))
    · split at h
      · exact absurd h (hbad _ (by decide))
      · rename_i hroot
        split at h
        · exact absurd h (hbad _ (by decide))
        · rename_i hc
          obtain ⟨rfl, rfl⟩ := Prod.mk.inj h
          exact ⟨rfl, hok, by simpa using hr, hroot, by simpa using hc, rfl⟩

/-- Claiming children starts without error if it ends without. -/
theorem treeClaimChildren_err_ok {t : TreeCheck} {parentId : Int} {children : List Bytes}
    (h : (treeClaimChildren t parentId children).err = .ok) : t.err = .ok := by
  induction children generalizing t with
  | nil => exact h
  | cons c cs ih =>
    unfold treeClaimChildren at h
    cases hc : claimChild t parentId (nodeIdFromStr c) with
    | mk t₁ go =>
      rw [hc] at h
      cases go with
      | false => exact absurd (claimChild_ok hc h).1 (by decide)
      | true => exact (claimChild_ok hc (ih h)).2.1

/-- The marks of a check without error: `ids` arrived and `claims` were claimed. -/
structure TreeInv (n : Nat) (root : Int) (ids claims : List Int) (t : TreeCheck) : Prop where
  length : t.nodes.length = n
  rootId : t.rootId = root
  root_nonneg : 0 ≤ root
  root_lt : root < n
  seen : ∀ k : Int, 0 ≤ k → k < n → ((t.entry k).seen = true ↔ k ∈ ids)
  claimed : ∀ k : Int, 0 ≤ k → k < n → ((t.entry k).claimed = true ↔ k = root ∨ k ∈ claims)
  ids_nodup : ids.Nodup
  ids_range : ∀ k ∈ ids, 0 ≤ k ∧ k < n
  claims_nodup : claims.Nodup
  claims_range : ∀ k ∈ claims, 0 ≤ k ∧ k < n
  root_not_claimed : root ∉ claims

namespace TreeInv

variable {n : Nat} {root : Int} {ids claims : List Int} {t t' : TreeCheck}

/-- No part has arrived, and only the root counts as claimed. -/
theorem fresh (hnodes : t.nodes = List.replicate n ⟨false, false⟩) (hid : t.rootId = root)
    (h0 : 0 ≤ root) (hlt : root < n) : TreeInv n root [] [] (t.setClaimed root) := by
  have hr : t.inRange root = true := TreeCheck.inRange_iff.mpr ⟨h0, by simpa [hnodes] using hlt⟩
  have hentry : ∀ k, t.entry k = ⟨false, false⟩ := fun k => by
    rw [TreeCheck.entry, hnodes, List.getD_eq_getElem?_getD, List.getElem?_replicate]
    split <;> rfl
  refine ⟨by simp [hnodes], hid, h0, hlt, ?_, ?_, by simp, by simp, by simp, by simp, by simp⟩
  · intro k hk hkn
    rw [TreeCheck.entry_setClaimed hr hk]
    split <;> simp [hentry]
  · intro k hk hkn
    rw [TreeCheck.entry_setClaimed hr hk]
    split
    · rename_i heq
      simp [heq]
    · rename_i hne
      simp [hentry, hne]

theorem claim {child : Int} (h : TreeInv n root ids claims t) (hr : t.inRange child = true)
    (hroot : child ≠ t.rootId) (hnot : (t.entry child).claimed = false) :
    TreeInv n root ids (claims ++ [child]) (t.setClaimed child) := by
  obtain ⟨h0, hlt⟩ := TreeCheck.inRange_iff.mp hr
  rw [h.length] at hlt
  have hfresh : child ∉ claims := fun hmem => by
    rw [(h.claimed child h0 hlt).mpr (.inr hmem)] at hnot
    cases hnot
  refine ⟨by simpa using h.length, h.rootId, h.root_nonneg, h.root_lt, ?_, ?_, h.ids_nodup,
    h.ids_range, ?_, ?_, ?_⟩
  · intro k hk hkn
    rw [TreeCheck.entry_setClaimed hr hk, ← h.seen k hk hkn]
    split
    · rename_i heq
      rw [heq]
    · rfl
  · intro k hk hkn
    rw [TreeCheck.entry_setClaimed hr hk]
    split
    · rename_i heq
      simp [heq]
    · rename_i hne
      rw [h.claimed k hk hkn]
      simp [hne]
  · exact List.nodup_append.mpr ⟨h.claims_nodup, by simp, by grind⟩
  · intro k hk
    rcases List.mem_append.mp hk with hk | hk
    · exact h.claims_range k hk
    · rw [List.mem_singleton.mp hk]
      exact ⟨h0, hlt⟩
  · rw [h.rootId] at hroot
    simp [h.root_not_claimed, Ne.symm hroot]

theorem claimChildren {children : List Bytes} {parentId : Int}
    (h : TreeInv n root ids claims t) (hok : (treeClaimChildren t parentId children).err = .ok) :
    TreeInv n root ids (claims ++ children.map nodeIdFromStr)
      (treeClaimChildren t parentId children) := by
  induction children generalizing t claims with
  | nil => simpa [treeClaimChildren] using h
  | cons c cs ih =>
    unfold treeClaimChildren at hok ⊢
    cases hc : claimChild t parentId (nodeIdFromStr c) with
    | mk t₁ go =>
      rw [hc] at hok
      cases go with
      | false => exact absurd (claimChild_ok hc hok).1 (by decide)
      | true =>
        have hok₁ : t₁.err = .ok := treeClaimChildren_err_ok hok
        obtain ⟨-, -, hr, hroot, hnot, rfl⟩ := claimChild_ok hc hok₁
        simpa using ih (h.claim hr hroot hnot) hok

theorem markSeen {id : Int} (h : TreeInv n root ids claims t) (hr : t.inRange id = true)
    (hnot : (t.entry id).seen = false) : TreeInv n root (ids ++ [id]) claims (t.setSeen id) := by
  obtain ⟨h0, hlt⟩ := TreeCheck.inRange_iff.mp hr
  rw [h.length] at hlt
  have hfresh : id ∉ ids := fun hmem => by
    rw [(h.seen id h0 hlt).mpr hmem] at hnot
    cases hnot
  refine ⟨by simpa using h.length, h.rootId, h.root_nonneg, h.root_lt, ?_, ?_, ?_, ?_,
    h.claims_nodup, h.claims_range, h.root_not_claimed⟩
  · intro k hk hkn
    rw [TreeCheck.entry_setSeen hr hk]
    split
    · rename_i heq
      simp [heq]
    · rename_i hne
      rw [h.seen k hk hkn]
      simp [hne]
  · intro k hk hkn
    rw [TreeCheck.entry_setSeen hr hk, ← h.claimed k hk hkn]
    split
    · rename_i heq
      rw [heq]
    · rfl
  · exact List.nodup_append.mpr ⟨h.ids_nodup, by simp, by grind⟩
  · intro k hk
    rcases List.mem_append.mp hk with hk | hk
    · exact h.ids_range k hk
    · rw [List.mem_singleton.mp hk]
      exact ⟨h0, hlt⟩

end TreeInv

/-! ## The parts of a flow -/

/-- The ids that parts are recorded under. -/
def partIds (parts : List NodePart) : List Int := parts.map partNodeId

/-- The ids that parts claim. -/
def partClaims (parts : List NodePart) : List Int :=
  parts.flatMap fun part => (claimedChildren part).map nodeIdFromStr

theorem partIds_concat (parts : List NodePart) (part : NodePart) :
    partIds (parts ++ [part]) = partIds parts ++ [partNodeId part] := by simp [partIds]

theorem partClaims_concat (parts : List NodePart) (part : NodePart) :
    partClaims (parts ++ [part]) =
      partClaims parts ++ (claimedChildren part).map nodeIdFromStr := by
  simp [partClaims]

variable {d : Device} {tx : DamlTransaction} {parts : List NodePart} {store : NodeHashStore}
  {s : NodesState}

/-- A header the check accepts: one root, which is one of the announced ids. -/
theorem treeCheckInit_inv {roots : List Bytes} {nodesCount : Int}
    (h : (treeCheckInit roots nodesCount).err = .ok) :
    ∃ root, roots = [root] ∧
      TreeInv nodesCount.toNat (nodeIdFromStr root) [] [] (treeCheckInit roots nodesCount) := by
  unfold treeCheckInit at h ⊢
  split at h
  · exact absurd h (TreeCheck.setTreeError_ne_ok (by decide))
  · rename_i hcount
    simp only [hcount, Bool.false_eq_true, ↓reduceIte]
    split at h
    · rename_i root
      refine ⟨root, rfl, ?_⟩
      dsimp only at h ⊢
      split at h
      · rename_i hr
        obtain ⟨h0, hlt⟩ := TreeCheck.inRange_iff.mp hr
        simp only [hr, ↓reduceIte]
        exact .fresh rfl rfl h0 (by simpa using hlt)
      · exact absurd h (TreeCheck.setTreeError_ne_ok (by decide))
    · exact absurd h (TreeCheck.setTreeError_ne_ok (by decide))

/-- The marks after accepted parts. -/
theorem treeInv_of_absorbed
    (h : parts.foldlM (absorbNode d tx) (.afterHeader store tx) = some s)
    (hok : s.tree.err = .ok) :
    ∃ root, tx.roots = [root] ∧
      TreeInv tx.nodesCount.toNat (nodeIdFromStr root) (partIds parts) (partClaims parts)
        s.tree := by
  refine List.foldlM_history (P := fun parts s => s.tree.err = .ok → ∃ root, tx.roots = [root] ∧
    TreeInv tx.nodesCount.toNat (nodeIdFromStr root) (partIds parts) (partClaims parts) s.tree)
    treeCheckInit_inv ?_ h hok
  intro parts part s s' ih hstep hok
  obtain ⟨hash, hs⟩ := absorbNode_spec hstep
  obtain ⟨parentId, htree⟩ := hs.tree
  rw [htree] at hok
  obtain ⟨hok₁, hr, hnot, heq⟩ := treeMarkSeen_ok hok
  obtain ⟨root, hroot, hinv⟩ := ih (treeClaimChildren_err_ok hok₁)
  refine ⟨root, hroot, ?_⟩
  rw [htree, heq, partIds_concat, partClaims_concat]
  exact (hinv.claimChildren hok₁).markSeen hr hnot

/-- The store holds ids of earlier parts only, so every child comes before the part
that declares it. The exception is the id of an empty slot. -/
theorem parts_ordered (h : parts.foldlM (absorbNode d tx) (.afterHeader store tx) = some s) :
    (∀ e ∈ s.store.slots, e.1 = -1 ∨ e.1 ∈ partIds parts) ∧
      ∀ xs part ys, parts = xs ++ part :: ys →
        ∀ c ∈ partChildren part, atoint c = -1 ∨ atoint c ∈ partIds xs := by
  refine List.foldlM_history (P := fun parts (s : NodesState) =>
    (∀ e ∈ s.store.slots, e.1 = -1 ∨ e.1 ∈ partIds parts) ∧
      ∀ xs part ys, parts = xs ++ part :: ys →
        ∀ c ∈ partChildren part, atoint c = -1 ∨ atoint c ∈ partIds xs) ⟨?_, ?_⟩ ?_ h
  · exact SlotRing.forall_fill _ (.inl rfl)
  · intro xs part ys hnil
    simp at hnil
  · intro parts part s s' ⟨hslots, hordered⟩ hstep
    obtain ⟨hash, hs⟩ := absorbNode_spec hstep
    constructor
    · rw [hs.store, partIds_concat]
      have hold : ∀ e ∈ s.store.slots, e.1 = -1 ∨ e.1 ∈ partIds parts ++ [partNodeId part] :=
        fun e he => (hslots e he).imp_right (List.mem_append_left _)
      split
      · exact hold
      · exact SlotRing.forall_push (.inr (by simp)) hold
    · intro xs part' ys heq c hc
      rcases List.eq_nil_or_concat ys with rfl | ⟨ys', y, rfl⟩
      · -- The new part: what it looks up is in the store.
        obtain ⟨rfl, hlast⟩ := List.append_inj' heq rfl
        rw [← List.head_eq_of_cons_eq hlast] at hc
        obtain ⟨hash', hfind⟩ := Option.isSome_iff_exists.mp (hs.lookups c hc)
        obtain ⟨e, he, -⟩ := Option.map_eq_some_iff.mp hfind
        obtain ⟨hmem, hid⟩ := SlotRing.exists_mem_of_find? he
        rw [← beq_iff_eq.mp hid]
        exact hslots e hmem
      · rw [List.concat_eq_append, ← List.cons_append, ← List.append_assoc] at heq
        exact hordered xs part' ys' (List.append_inj' heq rfl).1 c hc

/-! ## The verdict -/

theorem sweepNodes_ok {nodes : List NodeCheck} (h : sweepNodes nodes = .ok) :
    ∀ n ∈ nodes, n.seen = n.claimed := by
  induction nodes with
  | nil => simp
  | cons n ns ih =>
    unfold sweepNodes at h
    split at h
    · cases h
    · split at h
      · cases h
      · rename_i h₁ h₂
        intro m hm
        rcases List.mem_cons.mp hm with rfl | hm
        · revert h₁ h₂
          cases m.seen <;> cases m.claimed <;> simp
        · exact ih h m hm

/-- A good verdict: no error so far, and the arrived nodes are the claimed ones. -/
theorem verdict_ok {t : TreeCheck} (h : (treeVerifyComplete t).err = .ok) :
    t.err = .ok ∧ ∀ n ∈ t.nodes, n.seen = n.claimed := by
  have herr : (t.setTreeError (sweepNodes t.nodes)).err = .ok := h
  unfold TreeCheck.setTreeError at herr
  split at herr
  · rename_i hok
    exact ⟨hok, sweepNodes_ok herr⟩
  · rename_i hne
    exact absurd herr hne

theorem nodeIdFromStr_eq_atoint {c : Bytes} (h : 0 ≤ nodeIdFromStr c) :
    nodeIdFromStr c = atoint c := by
  unfold nodeIdFromStr at h ⊢
  split
  · rename_i hbad
    simp only [hbad, ↓reduceIte] at h
    exact absurd h (by decide)
  · rfl

/-- Accepted parts, as many as announced, with a good verdict. -/
structure TreeAccepted (tx : DamlTransaction) (parts : List NodePart) (root : Bytes) : Prop where
  roots : tx.roots = [root]
  ids : (partIds parts).Perm ((List.range parts.length).map Int.ofNat)
  root_nonneg : 0 ≤ nodeIdFromStr root
  root_lt : nodeIdFromStr root < parts.length
  claims_nodup : (partClaims parts).Nodup
  mem_claims : ∀ k : Int, k ∈ partClaims parts ↔
    (0 ≤ k ∧ k < parts.length) ∧ k ≠ nodeIdFromStr root
  ordered : ∀ xs part ys, parts = xs ++ part :: ys →
    ∀ c ∈ partChildren part, atoint c = -1 ∨ atoint c ∈ partIds xs

theorem treeAccepted_of_verdict
    (h : parts.foldlM (absorbNode d tx) (.afterHeader store tx) = some s)
    (hcount : (parts.length : Int) = tx.nodesCount)
    (hverdict : (treeVerifyComplete s.tree).err = .ok) : ∃ root, TreeAccepted tx parts root := by
  obtain ⟨hok, hsweep⟩ := verdict_ok hverdict
  obtain ⟨root, hroots, hinv⟩ := treeInv_of_absorbed h hok
  have hn : tx.nodesCount.toNat = parts.length := by omega
  rw [hn] at hinv
  have hids : (partIds parts).Perm ((List.range parts.length).map Int.ofNat) := by
    refine (List.subperm_of_subset hinv.ids_nodup fun k hk => ?_).perm_of_length_le ?_
    · obtain ⟨h0, hlt⟩ := hinv.ids_range k hk
      exact List.mem_map.mpr ⟨k.toNat, List.mem_range.mpr (by omega), by simp [h0]⟩
    · simp [partIds]
  have hmarks : ∀ k : Int, 0 ≤ k → k < parts.length →
      (s.tree.entry k).seen = (s.tree.entry k).claimed := by
    intro k h0 hlt
    have hlen : k.toNat < s.tree.nodes.length := by rw [hinv.length]; omega
    rw [TreeCheck.entry, List.getD_eq_getElem _ _ hlen]
    exact hsweep _ (List.getElem_mem hlen)
  refine ⟨root, hroots, hids, hinv.root_nonneg, hinv.root_lt, hinv.claims_nodup, ?_,
    (parts_ordered h).2⟩
  intro k
  constructor
  · intro hk
    refine ⟨hinv.claims_range k hk, ?_⟩
    rintro rfl
    exact hinv.root_not_claimed hk
  · rintro ⟨⟨h0, hlt⟩, hne⟩
    have hseen : (s.tree.entry k).seen = true := by
      rw [hinv.seen k h0 hlt, hids.mem_iff]
      exact List.mem_map.mpr ⟨k.toNat, List.mem_range.mpr (by omega), by simp [h0]⟩
    rw [hmarks k h0 hlt] at hseen
    exact ((hinv.claimed k h0 hlt).mp hseen).resolve_left hne

/-- The children lists make `c` a child of `p`. -/
def DeclaredEdge (parts : List NodePart) (p c : Int) : Prop :=
  ∃ part ∈ parts, partNodeId part = p ∧ ∃ s ∈ partChildren part, atoint s = c

/-- Every child a part lists is one that it claims. -/
def ListsClaimed (part : NodePart) : Prop :=
  ∀ c ∈ laterChildren part, ∃ c' ∈ claimedChildren part, atoint c' = atoint c

namespace TreeAccepted

variable {root : Bytes}

theorem mem_ids (h : TreeAccepted tx parts root) (k : Int) :
    k ∈ partIds parts ↔ 0 ≤ k ∧ k < parts.length := by
  rw [h.ids.mem_iff]
  constructor
  · intro hk
    obtain ⟨m, hm, rfl⟩ := List.mem_map.mp hk
    have := List.mem_range.mp hm
    constructor
    · exact Int.natCast_nonneg m
    · exact Int.ofNat_lt.mpr this
  · rintro ⟨h0, hlt⟩
    exact List.mem_map.mpr ⟨k.toNat, List.mem_range.mpr (by omega), by simp [h0]⟩

theorem ids_nodup (h : TreeAccepted tx parts root) : (partIds parts).Nodup :=
  h.ids.nodup_iff.mpr (List.nodup_range.map Int.ofNat_injective)

/-- Parts with the same id are the same part. -/
theorem part_unique (h : TreeAccepted tx parts root) {p q : NodePart} (hp : p ∈ parts)
    (hq : q ∈ parts) (heq : partNodeId p = partNodeId q) : p = q :=
  List.inj_on_of_nodup_map h.ids_nodup hp hq heq

theorem atoint_claimed (h : TreeAccepted tx parts root) {part : NodePart} (hpart : part ∈ parts)
    {c : Bytes} (hc : c ∈ claimedChildren part) :
    nodeIdFromStr c = atoint c ∧ atoint c ∈ partClaims parts := by
  have hmem : nodeIdFromStr c ∈ partClaims parts :=
    List.mem_flatMap.mpr ⟨part, hpart, List.mem_map_of_mem hc⟩
  have heq := nodeIdFromStr_eq_atoint ((h.mem_claims _).mp hmem).1.1
  exact ⟨heq, heq ▸ hmem⟩

/-- A claimed id is claimed by one part. -/
theorem claim_unique (h : TreeAccepted tx parts root) {p q : NodePart} (hp : p ∈ parts)
    (hq : q ∈ parts) {c c' : Bytes} (hc : c ∈ claimedChildren p) (hc' : c' ∈ claimedChildren q)
    (heq : atoint c = atoint c') : p = q := by
  by_contra hne
  have hpair := (List.nodup_flatMap.mp h.claims_nodup).2
  have : Std.Symm (Function.onFun List.Disjoint fun part : NodePart =>
      (claimedChildren part).map nodeIdFromStr) := ⟨fun _ _ hd _ ha hb => hd hb ha⟩
  have hdis := hpair.forall hp hq hne
  refine hdis (List.mem_map_of_mem hc) ?_
  rw [(h.atoint_claimed hp hc).1, heq, ← (h.atoint_claimed hq hc').1]
  exact List.mem_map_of_mem hc'

/-- Every id but the root is claimed. -/
theorem exists_parent (h : TreeAccepted tx parts root) {k : Int} (h0 : 0 ≤ k)
    (hlt : k < parts.length) (hne : k ≠ nodeIdFromStr root) :
    ∃ part ∈ parts, ∃ c ∈ claimedChildren part, atoint c = k := by
  obtain ⟨part, hpart, hk⟩ := List.mem_flatMap.mp ((h.mem_claims k).mpr ⟨⟨h0, hlt⟩, hne⟩)
  obtain ⟨c, hc, rfl⟩ := List.mem_map.mp hk
  exact ⟨part, hpart, c, hc, (h.atoint_claimed hpart hc).1.symm⟩

/-- A child arrives before its parent. -/
theorem idxOf_lt (h : TreeAccepted tx parts root) {part : NodePart} (hpart : part ∈ parts)
    {c : Bytes} (hc : c ∈ partChildren part) (h0 : 0 ≤ atoint c) :
    (partIds parts).idxOf (atoint c) < (partIds parts).idxOf (partNodeId part) := by
  obtain ⟨xs, ys, rfl⟩ := List.append_of_mem hpart
  have hearlier : atoint c ∈ partIds xs :=
    (h.ordered xs part ys rfl c hc).resolve_left (by omega)
  have hsplit : partIds (xs ++ part :: ys) = partIds xs ++ partNodeId part :: partIds ys := by
    simp [partIds]
  have hnodup := h.ids_nodup
  rw [hsplit] at hnodup ⊢
  have hnot : partNodeId part ∉ partIds xs := fun hmem =>
    (List.nodup_append.mp hnodup).2.2 _ hmem _ (by simp) rfl
  calc (partIds xs ++ partNodeId part :: partIds ys).idxOf (atoint c)
      = (partIds xs).idxOf (atoint c) := List.idxOf_append_of_mem hearlier
    _ < (partIds xs).length := List.idxOf_lt_length_of_mem hearlier
    _ = (partIds xs ++ partNodeId part :: partIds ys).idxOf (partNodeId part) := by
        rw [List.idxOf_append_of_notMem hnot, List.idxOf_cons_self, Nat.add_zero]

/-- If every listed child is claimed, the children lists are a spanning tree. -/
theorem spanningTree (h : TreeAccepted tx parts root) (hlists : ∀ part ∈ parts, ListsClaimed part) :
    IsSpanningTree {k : Int | 0 ≤ k ∧ k < parts.length} (nodeIdFromStr root)
      (DeclaredEdge parts) := by
  have hclaimed : ∀ part ∈ parts, ∀ c ∈ partChildren part,
      ∃ c' ∈ claimedChildren part, atoint c' = atoint c := by
    intro part hpart c hc
    rcases mem_partChildren.mp hc with hc | hc
    · exact ⟨c, hc, rfl⟩
    · exact hlists part hpart c hc
  have hchild : ∀ p c, DeclaredEdge parts p c → c ∈ partClaims parts := by
    rintro p c ⟨part, hpart, -, s, hs, rfl⟩
    obtain ⟨c', hc', heq⟩ := hclaimed part hpart s hs
    exact heq ▸ (h.atoint_claimed hpart hc').2
  refine .of_rank (partIds parts).idxOf (n := parts.length) ⟨h.root_nonneg, h.root_lt⟩
    ?_ ?_ ?_ ?_ ?_
  · intro p c hedge
    refine ⟨?_, ((h.mem_claims c).mp (hchild p c hedge)).1⟩
    obtain ⟨part, hpart, rfl, -⟩ := hedge
    exact (h.mem_ids _).mp (List.mem_map_of_mem hpart)
  · intro p hedge
    exact ((h.mem_claims _).mp (hchild p _ hedge)).2 rfl
  · rintro k ⟨h0, hlt⟩ hne
    obtain ⟨part, hpart, c, hc, rfl⟩ := h.exists_parent h0 hlt hne
    refine ⟨partNodeId part, ⟨part, hpart, rfl, c, mem_partChildren.mpr (.inl hc), rfl⟩, ?_⟩
    rintro q ⟨part', hpart', rfl, s, hs, heq⟩
    obtain ⟨c', hc', heq'⟩ := hclaimed part' hpart' s hs
    rw [h.claim_unique hpart' hpart hc' hc (heq'.trans heq)]
  · rintro p c hedge
    have h0 := ((h.mem_claims c).mp (hchild p c hedge)).1.1
    obtain ⟨part, hpart, rfl, s, hs, rfl⟩ := hedge
    exact h.idxOf_lt hpart hs h0
  · rintro k hk
    have hmem := (h.mem_ids k).mpr hk
    simpa [partIds] using List.idxOf_lt_length_of_mem hmem

/-- In a spanning tree, a listed child that the part does not claim would have a
second parent, the one that claims it. -/
theorem listsClaimed (h : TreeAccepted tx parts root)
    (htree : IsSpanningTree {k : Int | 0 ≤ k ∧ k < parts.length} (nodeIdFromStr root)
      (DeclaredEdge parts)) : ∀ part ∈ parts, ListsClaimed part := by
  intro part hpart c hc
  have hedge : DeclaredEdge parts (partNodeId part) (atoint c) :=
    ⟨part, hpart, rfl, c, mem_partChildren.mpr (.inr hc), rfl⟩
  obtain ⟨h0, hlt⟩ := (htree.edge_mem _ _ hedge).2
  have hne : atoint c ≠ nodeIdFromStr root := by
    intro heq
    rw [heq] at hedge
    exact htree.root_no_parent _ hedge
  obtain ⟨part', hpart', c', hc', heq⟩ := h.exists_parent h0 hlt hne
  have hedge' : DeclaredEdge parts (partNodeId part') (atoint c) :=
    ⟨part', hpart', rfl, c', mem_partChildren.mpr (.inl hc'), heq⟩
  have hsame := (htree.unique_parent _ ⟨h0, hlt⟩ hne).unique hedge' hedge
  rw [h.part_unique hpart' hpart hsame] at hc'
  exact ⟨c', hc', heq⟩

end TreeAccepted

/-- An accepted node tree really is a tree, unless some part lists a child that it
does not claim. -/
theorem accepted_tree_iff {es : List PartEvent} {st : Prepared}
    (h : (receiving d).Reach (fun _ _ => True) es st)
    (hsent : NodesSent (partBuffers es) tx parts) (hcount : (parts.length : Int) = tx.nodesCount)
    (hverdict : (treeVerifyComplete st.tree).err = .ok) :
    ((partIds parts).Perm ((List.range parts.length).map Int.ofNat) ∧
      ∃ root, tx.roots = [root] ∧
        IsSpanningTree {k : Int | 0 ≤ k ∧ k < parts.length} (nodeIdFromStr root)
          (DeclaredEdge parts)) ↔
      ∀ part ∈ parts, ListsClaimed part := by
  obtain ⟨store, habsorbed⟩ := (nodesReceived_of_reach h hsent hcount).absorbed
  obtain ⟨root, hacc⟩ := treeAccepted_of_verdict habsorbed hcount hverdict
  constructor
  · rintro ⟨-, root', hroot', htree⟩
    obtain rfl : root = root' := by simpa [hacc.roots] using hroot'
    exact hacc.listsClaimed htree
  · intro hlists
    exact ⟨hacc.ids, root, hacc.roots, hacc.spanningTree hlists⟩

/-! ## Two trees of rollback nodes -/

/-- A part with one rollback node for each children list. -/
def rollbackPart (id : String) (lists : List (List String)) : NodePart :=
  [.nodeId (str id), .v1 (lists.map fun children => .rollback ⟨children.map str⟩)]

/-- The header of node parts without seeds. -/
def rollbackHeader (root : String) (parts : List NodePart) : DamlTransaction :=
  ⟨some (str "2.1"), [str root], parts.length, []⟩

/-- A header and node parts, as messages. -/
def nodeMessages (root : String) (parts : List NodePart) : List PartEvent :=
  .part false (Host.damlTransaction (rollbackHeader root parts)) ::
    parts.map fun part => .part false (Host.node part)

theorem nodesSent_nodeMessages (root : String) (parts : List NodePart)
    (hheader : decodeDamlTransaction (Host.damlTransaction (rollbackHeader root parts)) =
      some (rollbackHeader root parts))
    (hparts : ∀ part ∈ parts, decodeNode (Host.node part) = some part) :
    NodesSent (partBuffers (nodeMessages root parts)) (rollbackHeader root parts) parts := by
  refine ⟨_, parts.map Host.node, ?_, hheader, ?_⟩
  · simp only [nodeMessages, partBuffers, List.cons.injEq, true_and]
    clear hparts hheader
    induction parts with
    | nil => rfl
    | cons part parts ih => rw [List.map_cons, List.map_cons, partBuffers, ih]
  · rw [List.forall₂_map_left_iff, List.forall₂_same]
    exact hparts

/-- A run of node messages computed on the test device. -/
theorem exists_reach_nodeMessages (es : List PartEvent) {p : Prepared → Bool}
    (h : ((receiving testDevice).run (fun _ _ => true) .start es).any p = true) :
    ∃ st, (receiving testDevice).Reach (fun _ _ => True) es st ∧ p st = true := by
  obtain ⟨st, hreach, hp⟩ :=
    Machine.exists_reach_of_run (m := receiving testDevice) Prepared.start_fresh h
  exact ⟨st, hreach.mono fun _ _ _ => trivial, hp⟩

/-- A root with one child. -/
def oneChild : List NodePart := [rollbackPart "1" [[]], rollbackPart "0" [["1"]]]

theorem accepted_tree_iff_oneChild :
    IsSpanningTree {k : Int | 0 ≤ k ∧ k < oneChild.length} (nodeIdFromStr (str "0"))
      (DeclaredEdge oneChild) := by
  obtain ⟨st, hreach, hp⟩ := exists_reach_nodeMessages (nodeMessages "0" oneChild)
    (p := fun st => decide ((treeVerifyComplete st.tree).err = .ok)) (by decide +kernel)
  have hsent := nodesSent_nodeMessages "0" oneChild (by decide +kernel)
    (by rintro _ (_ | ⟨_, _ | ⟨_, ⟨⟩⟩⟩) <;> rfl)
  have hlists : ∀ part ∈ oneChild, ListsClaimed part := by
    rintro _ (_ | ⟨_, _ | ⟨_, ⟨⟩⟩⟩) <;> exact fun c hc => nomatch hc
  obtain ⟨-, root, hroot, htree⟩ :=
    (accepted_tree_iff hreach hsent rfl (of_decide_eq_true hp)).mpr hlists
  obtain rfl : str "0" = root := by simpa [rollbackHeader] using hroot
  exact htree

/-- Node 1 is a child of the root, and of the second rollback node of part 2. -/
def twoParents : List NodePart :=
  [rollbackPart "1" [[]], rollbackPart "2" [[], ["1"]], rollbackPart "0" [["1", "2"]]]

/-- The part is accepted with a good verdict, and node 1 has two parents. -/
theorem twoParents_accepted : ∃ st : Prepared,
    (receiving testDevice).Reach (fun _ _ => True) (nodeMessages "0" twoParents) st ∧
      NodesSent (partBuffers (nodeMessages "0" twoParents)) (rollbackHeader "0" twoParents)
        twoParents ∧
      (twoParents.length : Int) = (rollbackHeader "0" twoParents).nodesCount ∧
      (treeVerifyComplete st.tree).err = .ok ∧
      ¬ IsSpanningTree {k : Int | 0 ≤ k ∧ k < twoParents.length} (nodeIdFromStr (str "0"))
        (DeclaredEdge twoParents) := by
  obtain ⟨st, hreach, hp⟩ := exists_reach_nodeMessages (nodeMessages "0" twoParents)
    (p := fun st => decide ((treeVerifyComplete st.tree).err = .ok)) (by decide +kernel)
  refine ⟨st, hreach, nodesSent_nodeMessages "0" twoParents (by decide +kernel)
    (by rintro _ (_ | ⟨_, _ | ⟨_, _ | ⟨_, ⟨⟩⟩⟩⟩) <;> rfl), rfl, of_decide_eq_true hp, ?_⟩
  intro htree
  have hroot : DeclaredEdge twoParents 0 1 :=
    ⟨rollbackPart "0" [["1", "2"]], by simp [twoParents], by decide +kernel, str "1", by decide,
      by decide +kernel⟩
  have hother : DeclaredEdge twoParents 2 1 :=
    ⟨rollbackPart "2" [[], ["1"]], by simp [twoParents], by decide +kernel, str "1", by decide,
      by decide +kernel⟩
  have hparents := htree.unique_parent 1 (by simp [twoParents]) (by decide +kernel)
  exact absurd (hparents.unique hroot hother) (by decide)

end CantonSigner
