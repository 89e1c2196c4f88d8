import CantonSigner.Flow.Finalized
import CantonSigner.Hash.Extends
import CantonSigner.Tree.Root

/-!
# The Merkle hash of a transaction

The app never holds a transaction as a whole: it hashes one node part at a time, puts
the hash of a node that is not a root into a ring of 32 slots, and reads the hashes of
a node's children back from there. `TxTree` is the transaction as a tree and `nodeHash`
its recursive hash. Whatever the ring drops, a lookup that succeeds finds the hash of
the right node (`MerkleInv.lookup`), because a slot only ever holds the hash of a node
that was sent, under its own id, and ids are distinct.
-/

namespace CantonSigner

open ByteCodec HashingParser

/-! ## Transactions as trees -/

/-- A node of a transaction with its descendants. The children of an exercise node
are those of the tree; the field `children` of the message is filled in from them. -/
inductive TxTree where
  | create (id : Nat) (c : Create)
  | fetch (id : Nat) (f : Fetch)
  | queryByKey (id : Nat)
  | exercise (id : Nat) (e : Exercise) (children : List TxTree)
  | rollback (id : Nat) (children : List TxTree)

namespace TxTree

/-- The number of a node. -/
def id : TxTree → Nat
  | .create id _ | .fetch id _ | .queryByKey id | .exercise id _ _ | .rollback id _ => id

/-- The children of a node. -/
def children : TxTree → List TxTree
  | .exercise _ _ cs | .rollback _ cs => cs
  | _ => []

/-- The string a node is referred to by. -/
def idString (t : TxTree) : Bytes := decimal t.id

/-- The node as it is sent. -/
def kind : TxTree → NodeKind
  | .create _ c => .create c
  | .fetch _ f => .fetch f
  | .queryByKey _ => .queryByKey
  | .exercise _ e cs => .exercise { e with children := cs.map idString }
  | .rollback _ cs => .rollback ⟨cs.map idString⟩

/-- The node part of a node. -/
def part (t : TxTree) : NodePart := [.nodeId t.idString, .v1 [t.kind]]

mutual

/-- A node and its descendants. -/
def nodes : TxTree → List TxTree
  | .create id c => [.create id c]
  | .fetch id f => [.fetch id f]
  | .queryByKey id => [.queryByKey id]
  | .exercise id e cs => .exercise id e cs :: forestNodes cs
  | .rollback id cs => .rollback id cs :: forestNodes cs

/-- The nodes of a forest. -/
def forestNodes : List TxTree → List TxTree
  | [] => []
  | t :: ts => nodes t ++ forestNodes ts

end

end TxTree

/-! ## The recursive hash -/

/-- A parser state before the first byte of a node. -/
def freshVState : VState := ⟨⟨[], .ok⟩, -1⟩

/-- The encoding of a create node's fields. -/
def createFields (d : Device) (field : Frame) (c : Create) (seed : Option Bytes) : Option Bytes :=
  (hashCreate d field freshVState c seed).map (·.hw.bytes)

/-- The encoding of an exercise node's own fields, up to its children. -/
def exerciseFields (d : Device) (e : Exercise) (seed : Bytes) : Option Bytes := do
  let s ← HashingParser.decodeValueFields d .chosenValue
    (freshVState.enc fun w => encodeExerciseStart w e (some seed)) e.chosenValue
  let s := s.enc fun w => (encodeExerciseMiddle w e).put [0x01]
  let s ← HashingParser.decodeValueFields d .exerciseResult s e.exerciseResult
  some (encodeRepeated s.hw wrapEncodeString e.choiceObservers).bytes

/-- The children of a node in its encoding: their number, then their hashes. -/
def childrenBytes (hashes : List Bytes) : Bytes := int32Bytes hashes.length ++ hashes.flatten

section NodeHash

variable (d : Device) (tx : DamlTransaction)

mutual

/-- The hash of a node: of its own fields with every child replaced by its hash. -/
def nodeHash : TxTree → Option Bytes
  | .create id c => do
    let fields ← createFields d .createArgument c (← findSeed tx id)
    some (d.sha fields)
  | .fetch _ f => some (d.sha (encodeFetch ⟨[], .ok⟩ f).bytes)
  | .queryByKey _ => none
  | .exercise id e cs => do
    let hashes ← nodeHashes cs
    let fields ← exerciseFields d e (← (← findSeed tx id))
    some (d.sha (fields ++ childrenBytes hashes))
  | .rollback _ cs => do
    let hashes ← nodeHashes cs
    some (d.sha ([nodeEncodingVersion, 0x03] ++ childrenBytes hashes))

/-- The hashes of a list of nodes. -/
def nodeHashes : List TxTree → Option (List Bytes)
  | [] => some []
  | t :: ts => do
    let hash ← nodeHash t
    let hashes ← nodeHashes ts
    some (hash :: hashes)

end

end NodeHash

/-! ## One node part -/

variable {d : Device} {tx : DamlTransaction}

/-- The node is one of the roots of the header. -/
def isRootNode (tx : DamlTransaction) (t : TxTree) : Bool := tx.roots.contains t.idString

/-- A lookup that answers for these nodes gives their hashes. -/
def LooksUp (d : Device) (tx : DamlTransaction) (lookup : Bytes → Option Bytes)
    (cs : List TxTree) : Prop :=
  ∀ c ∈ cs, ∀ hash, lookup c.idString = some hash → nodeHash d tx c = some hash

theorem encodeNodeIds_nodeHashes {lookup : Bytes → Option Bytes} {cs : List TxTree} {w : Hw}
    (hl : LooksUp d tx lookup cs)
    (hok : (encodeNodeIds lookup w (cs.map TxTree.idString)).err = .ok) :
    ∃ hashes, nodeHashes d tx cs = some hashes ∧ hashes.length = cs.length ∧
      (encodeNodeIds lookup w (cs.map TxTree.idString)).bytes = w.bytes ++ hashes.flatten := by
  induction cs generalizing w with
  | nil => exact ⟨[], rfl, rfl, by simp [encodeNodeIds]⟩
  | cons c cs ih =>
    rw [List.map_cons, encodeNodeIds] at hok ⊢
    cases hc : lookup c.idString with
    | none =>
      rw [hc] at hok
      exact absurd hok (Hw.setHashError_err_ok (by decide))
    | some hash =>
      rw [hc] at hok
      have hhash := hl c (by simp) hash hc
      obtain ⟨hashes, hhs, hlen, hbytes⟩ := ih (fun c hc => hl c (List.mem_cons_of_mem _ hc)) hok
      refine ⟨hash :: hashes, by simp [nodeHashes, hhash, hhs], by simp [hlen], ?_⟩
      show (encodeNodeIds lookup (w.put hash) (cs.map TxTree.idString)).bytes = _
      rw [hbytes]
      simp

/-- Children that are encoded without error are replaced by their hashes. -/
theorem encodeChildren_nodeHashes {lookup : Bytes → Option Bytes} {cs : List TxTree} {w : Hw}
    (hl : LooksUp d tx lookup cs)
    (hok : (encodeChildren lookup w (cs.map TxTree.idString)).err = .ok) :
    ∃ hashes, nodeHashes d tx cs = some hashes ∧
      (encodeChildren lookup w (cs.map TxTree.idString)).bytes =
        w.bytes ++ childrenBytes hashes := by
  unfold encodeChildren at hok ⊢
  split at hok
  · exact absurd hok (Hw.setHashError_err_ok (by decide))
  · rename_i hle
    obtain ⟨hashes, hhs, hlen, hbytes⟩ := encodeNodeIds_nodeHashes hl hok
    refine ⟨hashes, hhs, ?_⟩
    rw [if_neg hle]
    show (encodeNodeIds lookup (encodeInt32 w _) (cs.map TxTree.idString)).bytes = _
    rw [hbytes]
    simp [encodeInt32, childrenBytes, hlen]

/-- A context before the node of a part. -/
def nodeContext (id : Int) (root : Bool) (tree : TreeCheck) : HashingParser.Ctx :=
  ⟨id, root, false, freshVState, tree, valuesCheckReset⟩

/-- The node of a part is hashed as the recursion says. -/
theorem nodeDecodeCallback_nodeHash {lookup : Bytes → Option Bytes} {t : TxTree} {root : Bool}
    {tree : TreeCheck} {ctx : HashingParser.Ctx} (hl : LooksUp d tx lookup t.children)
    (h : nodeDecodeCallback d lookup tx (nodeContext t.id root tree) t.kind = some ctx)
    (hok : ctx.v.hw.err = .ok) :
    ctx.nodeId = t.id ∧ ctx.isRootNode = root ∧ nodeHash d tx t = some (d.sha ctx.v.hw.bytes) := by
  cases t with
  -- leaves: the bytes are those of the node alone
  | create id c =>
    obtain ⟨-, seed, v, hseed, hv, rfl⟩ := HashingParser.decodeCreate_eq_some.mp h
    have hseed : findSeed tx id = some seed := hseed
    have hv : hashCreate d .createArgument freshVState c seed = some v := hv
    exact ⟨rfl, rfl, by simp [nodeHash, createFields, hseed, hv]⟩
  | fetch id f =>
    obtain ⟨-, rfl⟩ := HashingParser.decodeFetch_eq_some.mp h
    exact ⟨rfl, rfl, rfl⟩
  -- this kind is always refused
  | queryByKey id => cases h
  | exercise id e cs =>
    have hl : LooksUp d tx lookup cs := hl
    obtain ⟨-, seed, v, hseed, hv, rfl⟩ := HashingParser.decodeExercise_eq_some.mp h
    -- claiming the children changes neither the id nor what is hashed
    obtain ⟨hid, hroot, -⟩ := claimChildren_frame
      { nodeContext id root tree with
        values := valuesRecordUsedContract d valuesCheckReset e.contractId }
      (cs.map TxTree.idString)
    refine ⟨hid, hroot, ?_⟩
    have hseed : findSeed tx id = some (some seed) := hseed
    obtain ⟨s₁, h₁, hrest⟩ := Option.bind_eq_some_iff.mp hv
    obtain ⟨s₂, h₂, heq⟩ := Option.bind_eq_some_iff.mp hrest
    cases heq
    -- what the store returns for the children are their own hashes
    obtain ⟨hashes, hhs, hbytes⟩ := encodeChildren_nodeHashes hl hok
    have hfields : exerciseFields d e seed =
        some (encodeRepeated s₂.hw wrapEncodeString e.choiceObservers).bytes := by
      simp only [exerciseFields, Option.bind_eq_bind]
      rw [show HashingParser.decodeValueFields d .chosenValue
        (freshVState.enc fun w => encodeExerciseStart w e (some seed)) e.chosenValue = some s₁
        from h₁, Option.bind_some]
      rw [show HashingParser.decodeValueFields d .exerciseResult
        (s₁.enc fun w => (encodeExerciseMiddle w e).put [0x01]) e.exerciseResult = some s₂
        from h₂, Option.bind_some]
    simp only [nodeHash, hhs, hseed, hfields, Option.bind_eq_bind, Option.bind_some]
    exact congrArg (fun b => some (d.sha b)) hbytes.symm
  -- a rollback node is its children alone
  | rollback id cs =>
    have hl : LooksUp d tx lookup cs := hl
    simp only [TxTree.kind, nodeDecodeCallback, HashingParser.decodeRollback] at h
    cases h
    have hframe := claimChildren_frame (nodeContext (TxTree.rollback id cs).id root tree)
      (cs.map TxTree.idString)
    refine ⟨hframe.1, hframe.2.1, ?_⟩
    have hw : (claimChildren (nodeContext (TxTree.rollback id cs).id root tree)
        (cs.map TxTree.idString)).v.hw = ⟨[], .ok⟩ := by
      rw [hframe.2.2]
      rfl
    simp only [VState.enc, encodeRollback, hw] at hok ⊢
    obtain ⟨hashes, hhs, hbytes⟩ := encodeChildren_nodeHashes hl hok
    rw [hbytes]
    simp [nodeHash, hhs]

/-! ## The nodes of a flow -/

theorem atoint_idString {t : TxTree} (h : t.idString.length < 4) : atoint t.idString = t.id := by
  rw [TxTree.idString, atoint_digits (isDigits_decimal _) (Nat.lt_trans h (by decide)),
    digitsValue_decimal]

theorem cstr_idString (t : TxTree) : cstr t.idString = t.idString :=
  cstr_digits (isDigits_decimal _)

/-- What an accepted node part adds: its hash, to the hasher or to the store. -/
theorem absorbNode_part {s s' : NodesState} {t : TxTree}
    (hl : LooksUp d tx (getNodeHash s.store) t.children) (hshort : t.idString.length < 4)
    (habs : absorbNode d tx s t.part = some s') : ∃ hash, nodeHash d tx t = some hash ∧
      s'.store = (if isRootNode tx t then s.store else setNodeHash s.store t.id hash) ∧
      s'.hasher = s.hasher ++ if isRootNode tx t then hash else [] := by
  obtain ⟨ctx, hctx, hrest⟩ := Option.bind_eq_some_iff.mp habs
  split at hrest
  · rename_i hok
    cases hrest
    obtain ⟨ctx₁, h₁, rfl⟩ := Option.map_eq_some_iff.mp hctx
    -- The part is the node's id, then the node.
    have hlen : ¬ 4 ≤ t.idString.length := Nat.not_le.mpr hshort
    have hnode : nodeDecodeCallback d (getNodeHash s.store) tx
        (nodeContext t.id (isRootNode tx t) s.tree) t.kind = some ctx₁ := by
      simp only [decodeNodePart, TxTree.part, List.foldlM_cons, List.foldlM_nil, decodeNodeItem,
        decodeNodeIdField, hlen, ↓reduceIte, cstr_idString, atoint_idString hshort,
        Bool.false_or, Option.bind_eq_bind, Option.bind_some, Option.pure_def,
        Option.bind_fun_some] at h₁
      exact h₁
    obtain ⟨hid, hroot, hhash⟩ := nodeDecodeCallback_nodeHash hl hnode hok
    refine ⟨d.sha ctx₁.v.hw.bytes, hhash, ?_, ?_⟩
    · show (if ctx₁.isRootNode then s.store
        else setNodeHash s.store ctx₁.nodeId (d.sha ctx₁.v.hw.bytes)) = _
      rw [hroot, hid]
    · show s.hasher ++ (if ctx₁.isRootNode then d.sha ctx₁.v.hw.bytes else []) = _
      rw [hroot]
  · cases hrest

/-- What the store and the hasher hold after some nodes: hashes of these nodes. -/
structure MerkleInv (d : Device) (tx : DamlTransaction) (sent : List TxTree) (s : NodesState) :
    Prop where
  slots : ∀ e ∈ s.store.slots, e.1 = -1 ∨ ∃ t ∈ sent, e.1 = t.id ∧ nodeHash d tx t = some e.2
  hasher : ∃ hashes, nodeHashes d tx (sent.filter (isRootNode tx)) = some hashes ∧
    s.hasher = (hashTransaction tx).bytes ++ hashes.flatten

/-- Nodes told apart by their ids, with every child of a node among them. -/
structure Forest (all : List TxTree) : Prop where
  ids : (all.map TxTree.id).Nodup
  closed : ∀ t ∈ all, ∀ c ∈ t.children, c ∈ all

theorem nodeHashes_append {ts us : List TxTree} {hs ks : List Bytes}
    (ht : nodeHashes d tx ts = some hs) (hu : nodeHashes d tx us = some ks) :
    nodeHashes d tx (ts ++ us) = some (hs ++ ks) := by
  induction ts generalizing hs with
  | nil =>
    cases ht
    exact hu
  | cons t ts ih =>
    simp only [nodeHashes, Option.bind_eq_bind] at ht
    obtain ⟨hash, hhash, hrest⟩ := Option.bind_eq_some_iff.mp ht
    obtain ⟨hashes, hhashes, heq⟩ := Option.bind_eq_some_iff.mp hrest
    cases heq
    simp [nodeHashes, hhash, ih hhashes]

namespace MerkleInv

variable {all sent : List TxTree} {s s' : NodesState} {t : TxTree}

/-- The store answers for a node with its hash. -/
theorem lookup_node {hash : Bytes} (h : MerkleInv d tx sent s) (hforest : Forest all)
    (hshort : ∀ t ∈ all, t.idString.length < 4) (hsent : ∀ t ∈ sent, t ∈ all) (ht : t ∈ all)
    (hfind : getNodeHash s.store t.idString = some hash) : nodeHash d tx t = some hash := by
  obtain ⟨e, he, rfl⟩ := Option.map_eq_some_iff.mp hfind
  obtain ⟨hmem, hid⟩ := SlotRing.exists_mem_of_find? he
  have hid : e.1 = t.id := (beq_iff_eq.mp hid).trans (atoint_idString (hshort t ht))
  rcases h.slots e hmem with hempty | ⟨t', ht', hid', hhash⟩
  · -- An empty slot has no id.
    omega
  · have hsame : t'.id = t.id := by omega
    rw [← List.inj_on_of_nodup_map hforest.ids (hsent t' ht') ht hsame]
    exact hhash

/-- The store answers for the children of a node with their hashes. -/
theorem lookup (h : MerkleInv d tx sent s) (hforest : Forest all)
    (hshort : ∀ t ∈ all, t.idString.length < 4) (hsent : ∀ t ∈ sent, t ∈ all) (ht : t ∈ all) :
    LooksUp d tx (getNodeHash s.store) t.children :=
  fun c hc _ hfind => h.lookup_node hforest hshort hsent (hforest.closed t ht c hc) hfind

/-- One node part. -/
theorem step (h : MerkleInv d tx sent s) (hforest : Forest all)
    (hshort : ∀ t ∈ all, t.idString.length < 4) (hsent : ∀ t ∈ sent, t ∈ all) (ht : t ∈ all)
    (habs : absorbNode d tx s t.part = some s') : MerkleInv d tx (sent ++ [t]) s' := by
  obtain ⟨hash, hhash, hstore, hhasher'⟩ := absorbNode_part
    (h.lookup hforest hshort hsent ht) (hshort t ht) habs
  have hold : ∀ e ∈ s.store.slots,
      e.1 = -1 ∨ ∃ t' ∈ sent ++ [t], e.1 = t'.id ∧ nodeHash d tx t' = some e.2 := by
    intro e he
    rcases h.slots e he with hempty | ⟨t', ht', hmatch⟩
    · exact .inl hempty
    · exact .inr ⟨t', List.mem_append_left _ ht', hmatch⟩
  obtain ⟨hashes, hhashes, hhasher⟩ := h.hasher
  refine ⟨?_, ?_⟩
  · rw [hstore]
    split
    · exact hold
    · exact SlotRing.forall_push (.inr ⟨t, by simp, rfl, hhash⟩) hold
  · rw [hhasher', List.filter_append]
    by_cases hr : isRootNode tx t = true
    · refine ⟨hashes ++ [hash], nodeHashes_append hhashes ?_, ?_⟩
      · simp [hr, nodeHashes, hhash]
      · simp [hr, hhasher]
    · refine ⟨hashes ++ [], nodeHashes_append hhashes ?_, ?_⟩
      · simp [hr, nodeHashes]
      · simp [hr, hhasher]

end MerkleInv

/-- What is true after any nodes of a forest. -/
theorem merkleInv_of_absorbed {all sent : List TxTree} {store : NodeHashStore} {s : NodesState}
    (hforest : Forest all) (hshort : ∀ t ∈ all, t.idString.length < 4)
    (hsent : ∀ t ∈ sent, t ∈ all)
    (h : (sent.map TxTree.part).foldlM (absorbNode d tx) (.afterHeader store tx) = some s) :
    MerkleInv d tx sent s := by
  rw [List.foldlM_map] at h
  refine List.foldlM_history (P := fun l s => (∀ t ∈ l, t ∈ all) → MerkleInv d tx l s)
    ?_ ?_ h hsent
  · intro _
    exact ⟨SlotRing.forall_fill _ (.inl rfl), [], rfl, by simp [NodesState.afterHeader]⟩
  · intro l t s s' ih hstep hmem
    have hl : ∀ t ∈ l, t ∈ all := fun t ht => hmem t (List.mem_append_left _ ht)
    exact (ih hl).step hforest hshort hl (hmem t (by simp)) hstep

/-- The hasher after the nodes of a forest. -/
theorem hasher_of_absorbed {all sent : List TxTree} {store : NodeHashStore} {s : NodesState}
    (hforest : Forest all) (hsent : ∀ t ∈ sent, t ∈ all) (hall : ∀ t ∈ all, t ∈ sent)
    (h : (sent.map TxTree.part).foldlM (absorbNode d tx) (.afterHeader store tx) = some s) :
    ∃ hashes, nodeHashes d tx (sent.filter (isRootNode tx)) = some hashes ∧
      s.hasher = (hashTransaction tx).bytes ++ hashes.flatten := by
  have hshort : ∀ t ∈ all, t.idString.length < 4 := fun t ht =>
    parts_short h t.part (List.mem_map_of_mem (hall t ht)) t.idString
      (by simp [TxTree.part, nodeIds])
  exact (merkleInv_of_absorbed hforest hshort hsent h).hasher

/-! ## Forests and their order -/

namespace TxTree

theorem self_mem_nodes (t : TxTree) : t ∈ t.nodes := by cases t <;> simp [nodes]

theorem mem_forestNodes {ts : List TxTree} {t u : TxTree} (ht : t ∈ ts) (hu : u ∈ t.nodes) :
    u ∈ forestNodes ts := by
  induction ts with
  | nil => cases ht
  | cons t' ts ih =>
    rw [forestNodes]
    rcases List.mem_cons.mp ht with rfl | ht
    · exact List.mem_append_left _ hu
    · exact List.mem_append_right _ (ih ht)

theorem children_mem_nodes (t : TxTree) : ∀ c ∈ t.children, c ∈ t.nodes := by
  intro c hc
  cases t with
  | exercise id e cs =>
    exact List.mem_cons_of_mem _ (mem_forestNodes hc (self_mem_nodes c))
  | rollback id cs =>
    exact List.mem_cons_of_mem _ (mem_forestNodes hc (self_mem_nodes c))
  | create | fetch | queryByKey => cases hc

mutual

theorem nodes_closed : ∀ (t u : TxTree), u ∈ t.nodes → ∀ c ∈ u.children, c ∈ t.nodes
  | .create .., u, hu, c, hc | .fetch .., u, hu, c, hc | .queryByKey _, u, hu, c, hc => by
    rw [nodes, List.mem_singleton] at hu
    rw [hu] at hc
    cases hc
  | .exercise id e cs, u, hu, c, hc => by
    rcases List.mem_cons.mp hu with rfl | hu
    · exact children_mem_nodes _ c hc
    · exact List.mem_cons_of_mem _ (forestNodes_closed cs u hu c hc)
  | .rollback id cs, u, hu, c, hc => by
    rcases List.mem_cons.mp hu with rfl | hu
    · exact children_mem_nodes _ c hc
    · exact List.mem_cons_of_mem _ (forestNodes_closed cs u hu c hc)

theorem forestNodes_closed : ∀ (ts : List TxTree) (u : TxTree), u ∈ forestNodes ts →
    ∀ c ∈ u.children, c ∈ forestNodes ts
  | [], u, hu, c, hc => by cases hu
  | t :: ts, u, hu, c, hc => by
    rw [forestNodes] at hu ⊢
    rcases List.mem_append.mp hu with hu | hu
    · exact List.mem_append_left _ (nodes_closed t u hu c hc)
    · exact List.mem_append_right _ (forestNodes_closed ts u hu c hc)

end

theorem nodes_head (t : TxTree) : ∃ rest, t.nodes = t :: rest := by
  cases t <;> exact ⟨_, rfl⟩

end TxTree

/-- The nodes of a forest are sent one root's tree after the other, in the order of
the roots. The order inside a tree is left open: a parent that is sent before one of
its children is refused. -/
def TreeByTree (roots sent : List TxTree) : Prop :=
  ∃ orders, sent = orders.flatten ∧
    List.Forall₂ (fun r order => List.Perm order r.nodes) roots orders

theorem TreeByTree.perm {roots sent : List TxTree} (h : TreeByTree roots sent) :
    sent.Perm (TxTree.forestNodes roots) := by
  obtain ⟨orders, rfl, horders⟩ := h
  induction horders with
  | nil => exact .refl _
  | cons hperm _ ih => exact hperm.append ih

/-- In the order of sending, the roots come in their own order. -/
theorem filter_roots {roots : List TxTree} {orders : List (List TxTree)} {p : TxTree → Bool}
    (horders : List.Forall₂ (fun r order => List.Perm order r.nodes) roots orders)
    (hnodup : (TxTree.forestNodes roots).Nodup)
    (hp : ∀ t ∈ TxTree.forestNodes roots, (p t = true ↔ t ∈ roots)) :
    orders.flatten.filter p = roots := by
  induction horders with
  | nil => rfl
  | @cons r order roots orders hperm _ ih =>
    rw [TxTree.forestNodes] at hnodup hp
    obtain ⟨hfirst, hrest, hdisjoint⟩ := List.nodup_append.mp hnodup
    have hroot : ∀ t ∈ roots, t ∈ TxTree.forestNodes roots := fun t ht =>
      TxTree.mem_forestNodes ht (TxTree.self_mem_nodes t)
    -- A node of the first tree is a root only if it is the first root.
    have hone : ∀ t ∈ r.nodes, (p t = true ↔ t = r) := by
      intro t ht
      rw [hp t (List.mem_append_left _ ht), List.mem_cons, or_iff_left_iff_imp]
      intro hmem
      exact absurd rfl (hdisjoint t ht t (hroot t hmem))
    have htree : r.nodes.filter p = [r] := by
      obtain ⟨rest, hnodes⟩ := TxTree.nodes_head r
      rw [hnodes] at hfirst hone ⊢
      rw [List.filter_cons_of_pos ((hone r (by simp)).mpr rfl)]
      have hnone : rest.filter p = [] := by
        rw [List.filter_eq_nil_iff]
        intro t ht hpt
        rw [(hone t (List.mem_cons_of_mem _ ht)).mp hpt] at ht
        exact (List.nodup_cons.mp hfirst).1 ht
      rw [hnone]
    have hfirstTree : order.filter p = [r] :=
      List.perm_singleton.mp (htree ▸ hperm.filter p)
    have hothers : orders.flatten.filter p = roots := by
      refine ih hrest fun t ht => ?_
      rw [hp t (List.mem_append_right _ ht), List.mem_cons, or_iff_right_iff_imp]
      rintro rfl
      exact absurd rfl (hdisjoint t (TxTree.self_mem_nodes t) t ht)
    rw [List.flatten_cons, List.filter_append, hfirstTree, hothers]
    rfl

/-! ## Metadata and input contracts -/

/-- The encoding of the metadata fields, up to the number of input contracts. -/
def metadataFields (m : Metadata) : Bytes :=
  let w := Hw.put ⟨[], .ok⟩ (preparedTransactionHashPurpose ++ [0x01])
  let w := encodeRepeated w wrapEncodeString m.actAs
  let w := encodeString (encodeString w m.commandId) m.transactionUuid
  let w := encodeString (encodeInt32 w m.mediatorGroup) m.synchronizerId
  let w := encodeOptional w (fun w (t : Nat) => encodeInt64 w t) m.minLedgerEffectiveTime
  let w := encodeOptional w (fun w (t : Nat) => encodeInt64 w t) m.maxLedgerEffectiveTime
  (encodeInt64 w m.preparationTime).bytes

/-- What an input contract adds to the metadata hash. -/
def contractBytes (d : Device) (c : Create) (createdAt : Nat) : Option Bytes :=
  (createFields d .contractArgument c none).map fun fields => int64Bytes createdAt ++ d.sha fields

/-- What input contracts add to the metadata hash, in order. -/
def contractsBytes (d : Device) : List (Create × Nat) → Option Bytes
  | [] => some []
  | (c, createdAt) :: cs => do
    let bytes ← contractBytes d c createdAt
    let rest ← contractsBytes d cs
    some (bytes ++ rest)

/-- The input contract as it is sent. -/
def contractPart (c : Create × Nat) : InputContract := ⟨[c.1], c.2⟩

theorem absorbContract_contractPart {hasher hasher' : Bytes} {c : Create × Nat}
    (h : absorbContract d hasher (contractPart c) = some hasher') :
    ∃ bytes, contractBytes d c.1 c.2 = some bytes ∧ hasher' = hasher ++ bytes := by
  obtain ⟨⟨v, values⟩, hr, hrest⟩ := Option.bind_eq_some_iff.mp h
  split at hrest
  · cases hrest
    simp only [decodeInputContractPart, contractPart, List.foldlM_cons, List.foldlM_nil,
      decodeContract, Option.bind_eq_bind, Option.pure_def, Option.bind_fun_some] at hr
    split at hr
    · cases hr
    · obtain ⟨v', hv, heq⟩ := Option.map_eq_some_iff.mp hr
      cases heq
      have hv : hashCreate d .contractArgument freshVState c.1 none = some v := hv
      exact ⟨int64Bytes c.2 ++ d.sha v.hw.bytes, by simp [contractBytes, createFields, hv],
        by simp [contractPart]⟩
  · cases hrest

theorem absorbContracts_contractsBytes {cs : List (Create × Nat)} {hasher hasher' : Bytes}
    (h : (cs.map contractPart).foldlM (absorbContract d) hasher = some hasher') :
    ∃ bytes, contractsBytes d cs = some bytes ∧ hasher' = hasher ++ bytes := by
  induction cs generalizing hasher with
  | nil =>
    cases h
    exact ⟨[], rfl, by simp⟩
  | cons c cs ih =>
    rw [List.map_cons, List.foldlM_cons] at h
    obtain ⟨hasher₁, h₁, h₂⟩ := Option.bind_eq_some_iff.mp h
    obtain ⟨bytes, hbytes, rfl⟩ := absorbContract_contractPart h₁
    obtain ⟨rest, hrest, rfl⟩ := ih h₂
    exact ⟨bytes ++ rest, by simp [contractsBytes, hbytes, hrest], by simp⟩

theorem hashMetadata_bytes (md : Metadata) :
    (hashMetadata .ok md).bytes = metadataFields md ++ int32Bytes md.inputContractsCount := by
  simp only [hashMetadata, encodeMetadata, Hw.put_put, encodeInt32, Hw.put_bytes, metadataFields]

/-! ## The signed hash -/

/-- The hash of a transaction, from its header and the hashes of its roots. -/
def txHash (d : Device) (version : Bytes) (hashes : List Bytes) : Bytes :=
  d.sha ([0x00, 0x00, 0x00, 0x30] ++ (int32Bytes version.length ++ version) ++
    int32Bytes hashes.length ++ hashes.flatten)

theorem length_nodeHashes {ts : List TxTree} {hs : List Bytes} (h : nodeHashes d tx ts = some hs) :
    hs.length = ts.length := by
  induction ts generalizing hs with
  | nil =>
    cases h
    rfl
  | cons t ts ih =>
    simp only [nodeHashes, Option.bind_eq_bind] at h
    obtain ⟨hash, -, hrest⟩ := Option.bind_eq_some_iff.mp h
    obtain ⟨hashes, hhashes, heq⟩ := Option.bind_eq_some_iff.mp hrest
    cases heq
    simp [ih hhashes]

/-- **The signed hash is the Merkle hash of the transaction**: a run that delivers the
nodes of a forest tree by tree, then metadata and input contracts, and is not refused,
has signed the recursive hash, whatever the store of node hashes has dropped. -/
theorem signed_hash_merkle {es : List PartEvent} {st : Prepared} {roots sent : List TxTree}
    {md : Metadata} {contracts : List (Create × Nat)}
    (h : (receiving d).Reach (fun _ _ => True) es st)
    (hids : ((TxTree.forestNodes roots).map TxTree.id).Nodup)
    (hroots : tx.roots = roots.map TxTree.idString) (horder : TreeByTree roots sent)
    (hsent : AllSent (partBuffers es) tx (sent.map TxTree.part) md (contracts.map contractPart)) :
    ∃ version hashes bytes, tx.version = some version ∧ nodeHashes d tx roots = some hashes ∧
      contractsBytes d contracts = some bytes ∧
      st.partialTxHash = txHash d version hashes ∧
      st.partialMdHash =
        d.sha (metadataFields md ++ int32Bytes md.inputContractsCount ++ bytes) ∧
      st.mHash = d.sha ([0x00, 0x00, 0x00, 0x30] ++ [0x02] ++ st.partialTxHash ++
        st.partialMdHash) := by
  have hfinal := finalized_of_reach h hsent
  obtain ⟨store, s, hfold, htx⟩ := hfinal.nodes
  obtain ⟨hasher, hics, hmd⟩ := hfinal.contracts
  obtain ⟨bytes, hbytes, rfl⟩ := absorbContracts_contractsBytes hics
  -- The roots are absorbed in their order.
  have hperm := horder.perm
  have hforest : Forest (TxTree.forestNodes roots) := ⟨hids, TxTree.forestNodes_closed roots⟩
  obtain ⟨hashes, hhashes, hhasher⟩ := hasher_of_absorbed hforest
    (fun t ht => hperm.mem_iff.mp ht) (fun t ht => hperm.mem_iff.mpr ht) hfold
  have hrootNodes : sent.filter (isRootNode tx) = roots := by
    obtain ⟨orders, rfl, horders⟩ := horder
    refine filter_roots horders (List.Nodup.of_map _ hids) fun t ht => ?_
    rw [isRootNode, hroots, List.contains_iff_mem, List.mem_map]
    constructor
    · rintro ⟨r, hr, heq⟩
      have hsame : r.id = t.id := decimal_injective heq
      have hmem := TxTree.mem_forestNodes hr (TxTree.self_mem_nodes r)
      rwa [← List.inj_on_of_nodup_map hids hmem ht hsame]
    · intro hmem
      exact ⟨t, hmem, rfl⟩
  rw [hrootNodes] at hhashes
  -- The header was accepted, so it has a version.
  obtain ⟨version, hversion⟩ : ∃ version, tx.version = some version := by
    obtain ⟨nodes, metadata, rest, hbufs, hnodes, -, -⟩ := hsent.sent.bytes
    obtain ⟨header, bs, rfl, hdec, -⟩ := hnodes.bytes
    have hok := header_hashed_of_reach h hbufs hdec
    cases hv : tx.version with
    | some version => exact ⟨version, rfl⟩
    | none =>
      rw [hashTransaction, hv] at hok
      exact absurd hok (Hw.setHashError_err_ok (by decide))
  refine ⟨version, hashes, bytes, hversion, hhashes, hbytes, ?_, ?_, ?_⟩
  · rw [htx, hhasher, txHash, length_nodeHashes hhashes]
    simp [hashTransaction, hversion, encodeString, encodeBytes, encodeInt32, hroots,
      preparedTransactionHashPurpose]
  · rw [hmd, hashMetadata_bytes]
  · rw [hfinal.mHash]
    rfl

/-- Two nodes without children. -/
def twoLeaves : List TxTree := [.rollback 2 [], .rollback 1 []]

/-- Two trees of rollback nodes. -/
def twoTrees : List TxTree := [.rollback 0 twoLeaves, .rollback 3 []]

/-- The order their nodes are sent in. -/
def twoTreesSent : List TxTree := twoLeaves ++ [.rollback 0 twoLeaves, .rollback 3 []]

/-- A disclosed contract with an empty argument. -/
def emptyContract : Create × Nat :=
  (Host.createOf "cc" (Host.ident "M" "T") (Host.recordOf (Host.ident "M" "T") []), 7)

/-- Metadata that announces one input contract. -/
def oneContractMetadata : Metadata :=
  ⟨[str "alice"], some (str "cmd"), some (str "sync"), 0, some (str "uuid"), 1, 1, none, none⟩

/-- The header of the two trees. -/
def twoTreesHeader : DamlTransaction := ⟨some (str "2.1"), [str "0", str "3"], 4, []⟩

/-- The two trees, metadata and the contract, as messages. -/
def twoTreesMessages : List PartEvent :=
  .part false (Host.damlTransaction twoTreesHeader) ::
    twoTreesSent.map (fun t => .part false (Host.node t.part)) ++
    [.part false (Host.metadata oneContractMetadata),
      .part true (Host.inputContract (contractPart emptyContract))]

theorem signed_hash_merkle_twoTrees : ∃ st hashes,
    (receiving testDevice).Reach (fun _ _ => True) twoTreesMessages st ∧
      nodeHashes testDevice twoTreesHeader twoTrees = some hashes ∧
      st.partialTxHash = txHash testDevice (str "2.1") hashes := by
  obtain ⟨st, hreach, -⟩ := exists_reach_nodeMessages twoTreesMessages (p := fun _ => true)
    (by decide +kernel)
  have hids : ((TxTree.forestNodes twoTrees).map TxTree.id).Nodup := by decide
  have horder : TreeByTree twoTrees twoTreesSent := by
    refine ⟨[twoLeaves ++ [.rollback 0 twoLeaves], [.rollback 3 []]], rfl,
      .cons ?_ (.cons (.refl _) .nil)⟩
    show (twoLeaves ++ [TxTree.rollback 0 twoLeaves]).Perm ([.rollback 0 twoLeaves] ++ twoLeaves)
    exact List.perm_append_comm
  have hsent : AllSent (partBuffers twoTreesMessages) twoTreesHeader
      (twoTreesSent.map TxTree.part) oneContractMetadata ([emptyContract].map contractPart) :=
    ⟨⟨⟨_, Host.metadata oneContractMetadata, [Host.inputContract (contractPart emptyContract)],
      rfl, ⟨_, twoTreesSent.map fun t => Host.node t.part, rfl, by decide +kernel,
        .cons rfl (.cons rfl (.cons rfl (.cons rfl .nil)))⟩, by decide +kernel,
      .cons rfl .nil⟩, rfl⟩, rfl⟩
  obtain ⟨version, hashes, -, hversion, hhashes, -, htx, -⟩ :=
    signed_hash_merkle hreach hids (by decide +kernel) horder hsent
  obtain rfl : str "2.1" = version := Option.some.inj hversion
  exact ⟨st, hashes, hreach, hhashes, htx⟩

end CantonSigner
