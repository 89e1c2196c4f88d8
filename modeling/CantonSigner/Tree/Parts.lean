import CantonSigner.Flow.Nodes
import CantonSigner.Hash.Extends

/-!
# What a node part declares

A node part carries node ids and node kinds, and nothing keeps a host from sending
several of either. The functions below read off a part what the hashing pass takes
from it: the id it is recorded under, whether it is a root, the children it claims
and the children it merely looks up. `digestNode_spec` says so of an accepted part.
-/

namespace CantonSigner

open ByteCodec HashingParser

/-- The id a part with these `node_id` strings is recorded under: the last one. -/
def lastNodeId (ids : List Bytes) : Int :=
  match ids.getLast? with
  | none => -1
  | some s => atoint (cstr s)

theorem lastNodeId_concat (ids : List Bytes) (s : Bytes) :
    lastNodeId (ids ++ [s]) = atoint (cstr s) := by
  simp [lastNodeId]

/-- The children a node kind declares. -/
def declaredChildren : NodeKind → Option (List Bytes)
  | .exercise e => some e.children
  | .rollback r => some r.children
  | _ => none

/-- The children lists of a sequence of node kinds. -/
def childLists (kinds : List NodeKind) : List (List Bytes) := kinds.filterMap declaredChildren

/-- The id a part is recorded under. -/
def partNodeId (part : NodePart) : Int := lastNodeId (nodeIds part)

/-- One of the part's id strings is a root of the header. -/
def partIsRoot (tx : DamlTransaction) (part : NodePart) : Bool :=
  (nodeIds part).any fun s => tx.roots.contains (cstr s)

/-- The children a part claims: those of the first node that declares any. -/
def claimedChildren (part : NodePart) : List Bytes := (childLists (nodeKinds part)).headD []

/-- The children that a part declares after that, which it does not claim. -/
def laterChildren (part : NodePart) : List Bytes := (childLists (nodeKinds part)).tail.flatten

/-- All children a part declares. -/
def partChildren (part : NodePart) : List Bytes := (childLists (nodeKinds part)).flatten

theorem mem_partChildren {part : NodePart} {c : Bytes} :
    c ∈ partChildren part ↔ c ∈ claimedChildren part ∨ c ∈ laterChildren part := by
  unfold partChildren claimedChildren laterChildren
  cases childLists (nodeKinds part) with
  | nil => simp
  | cons l ls => simp

/-- The claim of the first children list of a part. -/
def claimFirst (t : TreeCheck) (parentId : Int) : List (List Bytes) → TreeCheck
  | [] => t
  | children :: _ => treeClaimChildren t parentId children

/-! ## The hashing pass -/

variable {d : Device} {lookup : Bytes → Option Bytes} {tx : DamlTransaction} {t₀ : TreeCheck}
  {ids : List Bytes} {kinds : List NodeKind} {ctx ctx' : HashingParser.Ctx}

/-- What the parser context says after some ids and node kinds of a part. -/
structure PartInv (lookup : Bytes → Option Bytes) (tx : DamlTransaction) (t₀ : TreeCheck)
    (ids : List Bytes) (kinds : List NodeKind) (ctx : HashingParser.Ctx) : Prop where
  nodeId : ctx.nodeId = lastNodeId ids
  root : ctx.isRootNode = ids.any fun s => tx.roots.contains (cstr s)
  short : ∀ s ∈ ids, s.length < 4
  claimed : ctx.treeChildrenClaimed = !(childLists kinds).isEmpty
  tree : ∃ parentId, ctx.tree = claimFirst t₀ parentId (childLists kinds)
  lookups : ctx.v.hw.err = .ok → ∀ c ∈ (childLists kinds).flatten, (lookup c).isSome = true

/-- A node kind without children. -/
theorem partInv_noChildren {k : NodeKind} (h : PartInv lookup tx t₀ ids kinds ctx)
    (hk : declaredChildren k = none) (hext : ctx.v.hw.Extends ctx'.v.hw)
    (hid : ctx'.nodeId = ctx.nodeId) (hroot : ctx'.isRootNode = ctx.isRootNode)
    (hclaimed : ctx'.treeChildrenClaimed = ctx.treeChildrenClaimed) (htree : ctx'.tree = ctx.tree) :
    PartInv lookup tx t₀ ids (kinds ++ [k]) ctx' := by
  have hlists : childLists (kinds ++ [k]) = childLists kinds := by simp [childLists, hk]
  refine ⟨hid.trans h.nodeId, hroot.trans h.root, h.short, ?_, ?_, ?_⟩
  · rw [hlists]
    exact hclaimed.trans h.claimed
  · rw [hlists, htree]
    exact h.tree
  · rw [hlists]
    exact fun herr => h.lookups (hext.err_ok herr)

/-- A node kind with children: they are claimed if they are the first. -/
theorem partInv_children {k : NodeKind} {children : List Bytes}
    (h : PartInv lookup tx t₀ ids kinds ctx) (hk : declaredChildren k = some children)
    (hext : ctx.v.hw.Extends ctx'.v.hw)
    (hlookup : ctx'.v.hw.err = .ok → ∀ c ∈ children, (lookup c).isSome = true)
    (hid : ctx'.nodeId = ctx.nodeId) (hroot : ctx'.isRootNode = ctx.isRootNode)
    (hclaimed : ctx'.treeChildrenClaimed = (claimChildren ctx children).treeChildrenClaimed)
    (htree : ctx'.tree = (claimChildren ctx children).tree) :
    PartInv lookup tx t₀ ids (kinds ++ [k]) ctx' := by
  have hlists : childLists (kinds ++ [k]) = childLists kinds ++ [children] := by
    simp [childLists, hk]
  obtain ⟨parentId, hp⟩ := h.tree
  refine ⟨hid.trans h.nodeId, hroot.trans h.root, h.short, ?_, ?_, ?_⟩
  · rw [hlists, hclaimed]
    unfold claimChildren
    split
    · rename_i hc
      simp [hc]
    · simp
  · rw [hlists, htree]
    unfold claimChildren
    cases hl : childLists kinds with
    -- the first children of the part are claimed
    | nil =>
      have hnot : ctx.treeChildrenClaimed = false := by rw [h.claimed, hl]; rfl
      refine ⟨ctx.nodeId, ?_⟩
      simp only [hnot, Bool.false_eq_true, ↓reduceIte, List.nil_append, claimFirst]
      rw [hp, hl]
      rfl
    -- later ones are not
    | cons l ls =>
      have hyes : ctx.treeChildrenClaimed = true := by rw [h.claimed, hl]; rfl
      refine ⟨parentId, ?_⟩
      simp only [hyes, ↓reduceIte]
      rw [hp, hl]
      rfl
  · rw [hlists, List.flatten_append]
    intro herr c hc
    rcases List.mem_append.mp hc with hc | hc
    · exact h.lookups (hext.err_ok herr) c hc
    · exact hlookup herr c (by simpa using hc)

/-- One node kind. -/
theorem partInv_kind {k : NodeKind} (h : PartInv lookup tx t₀ ids kinds ctx)
    (hk : nodeDecodeCallback d lookup tx ctx k = some ctx') :
    PartInv lookup tx t₀ ids (kinds ++ [k]) ctx' := by
  cases k with
  | create c =>
    obtain ⟨-, seed, v, -, hv, rfl⟩ := decodeCreate_eq_some.mp hk
    exact partInv_noChildren h rfl (hashCreate_extends hv) rfl rfl rfl rfl
  | fetch f =>
    obtain ⟨-, rfl⟩ := decodeFetch_eq_some.mp hk
    exact partInv_noChildren h rfl (encodes_encodeFetch f ctx.v.hw) rfl rfl rfl rfl
  | exercise e =>
    obtain ⟨-, seed, v, -, hv, rfl⟩ := decodeExercise_eq_some.mp hk
    obtain ⟨hid, hroot, -⟩ := claimChildren_frame
      { ctx with values := valuesRecordUsedContract d ctx.values e.contractId } e.children
    obtain ⟨hext, hall⟩ := hashExercise_extends hv
    refine partInv_children (k := .exercise e) h rfl hext hall hid hroot ?_ ?_
    · simp only [claimChildren]
      split <;> rfl
    · simp only [claimChildren]
      split <;> rfl
  | rollback r =>
    simp only [nodeDecodeCallback, HashingParser.decodeRollback] at hk
    cases hk
    have hframe := claimChildren_frame ctx r.children
    have hw : (claimChildren ctx r.children).v.hw = ctx.v.hw := by rw [hframe.2.2]
    obtain ⟨hext, hall⟩ := encodeChildren_extends lookup r.children
      (ctx.v.hw.put [nodeEncodingVersion, 0x03])
    refine partInv_children h rfl ?_ ?_ hframe.1 hframe.2.1 rfl rfl
    · simp only [VState.enc, hw, encodeRollback]
      exact (Hw.extends_put ctx.v.hw _).trans hext
    · simp only [VState.enc, hw, encodeRollback]
      exact hall
  | queryByKey => cases hk

theorem partInv_kinds {ks : List NodeKind} (h : PartInv lookup tx t₀ ids kinds ctx)
    (hk : ks.foldlM (nodeDecodeCallback d lookup tx) ctx = some ctx') :
    PartInv lookup tx t₀ ids (kinds ++ ks) ctx' := by
  induction ks generalizing kinds ctx with
  | nil =>
    cases hk
    simpa using h
  | cons k ks ih =>
    rw [List.foldlM_cons] at hk
    obtain ⟨ctx₁, h₁, h₂⟩ := Option.bind_eq_some_iff.mp hk
    simpa using ih (partInv_kind h h₁) h₂

/-- One `node_id` string. -/
theorem partInv_nodeId {s : Bytes} (h : PartInv lookup tx t₀ ids kinds ctx)
    (hs : decodeNodeIdField tx ctx s = some ctx') :
    PartInv lookup tx t₀ (ids ++ [s]) kinds ctx' := by
  unfold decodeNodeIdField at hs
  split at hs
  · cases hs
  · rename_i hlen
    cases hs
    refine ⟨(lastNodeId_concat ids s).symm, ?_, ?_, h.claimed, h.tree, h.lookups⟩
    · simp [h.root]
    · intro s' hs'
      rcases List.mem_append.mp hs' with hs' | hs'
      · exact h.short s' hs'
      · rw [List.mem_singleton.mp hs']
        omega

theorem partInv_items {items : NodePart} (h : PartInv lookup tx t₀ ids kinds ctx)
    (hi : items.foldlM (decodeNodeItem d lookup tx) ctx = some ctx') :
    PartInv lookup tx t₀ (ids ++ nodeIds items) (kinds ++ nodeKinds items) ctx' := by
  induction items generalizing ids kinds ctx with
  | nil =>
    cases hi
    simpa [nodeIds, nodeKinds] using h
  | cons item items ih =>
    rw [List.foldlM_cons] at hi
    obtain ⟨ctx₁, h₁, h₂⟩ := Option.bind_eq_some_iff.mp hi
    cases item with
    | nodeId s => simpa [nodeIds, nodeKinds] using ih (partInv_nodeId h h₁) h₂
    | v1 ks => simpa [nodeIds, nodeKinds] using ih (partInv_kinds h h₁) h₂

/-- What the hashing pass takes from a part. -/
theorem digestNode_spec {s : NodesState} {part : NodePart} {ctx : HashingParser.Ctx}
    (h : digestNode d tx s part = some ctx) :
    PartInv (getNodeHash s.store) tx s.tree (nodeIds part) (nodeKinds part) ctx := by
  obtain ⟨ctx₁, h₁, rfl⟩ := Option.map_eq_some_iff.mp h
  have hstart : PartInv (getNodeHash s.store) tx s.tree [] []
      ⟨-1, false, false, ⟨⟨[], .ok⟩, -1⟩, s.tree, valuesCheckReset⟩ :=
    ⟨rfl, rfl, nofun, rfl, ⟨0, rfl⟩, fun _ => nofun⟩
  have hinv := partInv_items hstart h₁
  simp only [List.nil_append] at hinv
  exact ⟨hinv.nodeId, hinv.root, hinv.short, hinv.claimed, hinv.tree, hinv.lookups⟩

/-- An accepted part: what it does to the state, and what it declares. -/
structure PartAbsorbed (d : Device) (tx : DamlTransaction) (s : NodesState) (part : NodePart)
    (s' : NodesState) (hash : Bytes) : Prop where
  short : ∀ i ∈ nodeIds part, i.length < 4
  store : s'.store = if partIsRoot tx part then s.store
    else setNodeHash s.store (partNodeId part) hash
  hasher : s'.hasher = s.hasher ++ if partIsRoot tx part then hash else []
  tree : ∃ parentId, s'.tree =
    treeMarkSeen (treeClaimChildren s.tree parentId (claimedChildren part)) (partNodeId part)
  lookups : ∀ c ∈ partChildren part, (getNodeHash s.store c).isSome = true

theorem absorbNode_spec {s s' : NodesState} {part : NodePart}
    (h : absorbNode d tx s part = some s') : ∃ hash, PartAbsorbed d tx s part s' hash := by
  obtain ⟨ctx, hctx, hrest⟩ := Option.bind_eq_some_iff.mp h
  split at hrest
  · rename_i herr
    cases hrest
    have hinv := digestNode_spec hctx
    have hid : ctx.nodeId = partNodeId part := hinv.nodeId
    have hroot : ctx.isRootNode = partIsRoot tx part := hinv.root
    obtain ⟨parentId, htree⟩ := hinv.tree
    refine ⟨d.sha ctx.v.hw.bytes, hinv.short, ?_, ?_, ⟨parentId, ?_⟩, hinv.lookups herr⟩
    · simp only [NodesState.absorb, hid, hroot]
    · simp only [NodesState.absorb, hroot]
    · simp only [NodesState.absorb, hid, htree, claimedChildren]
      cases childLists (nodeKinds part) with
      | nil => rfl
      | cons l ls => rfl
  · cases hrest

end CantonSigner
