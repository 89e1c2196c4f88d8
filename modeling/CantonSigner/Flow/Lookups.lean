import CantonSigner.Tree.Parts

/-!
# Lookups in stores with different pasts

The header of a transaction empties the node hash store, but leaves its write index where
earlier flows put it. A lookup that meets one hash only does not depend on the index
(`getNodeHash_aligned`), and a node part depends on it by its lookups alone
(`decodeNodePart_congr`). So where no id is sent twice, the node parts are hashed as on an empty
store (`absorbNodes_store`).
-/

namespace CantonSigner

open ByteCodec HashingParser

variable {d : Device}

/-! ## Lookups -/

/-- The store holds at most one hash under the number of a child. -/
def UniqueHash (s : NodeHashStore) (child : Bytes) : Prop :=
  ∀ x ∈ s.slots, ∀ y ∈ s.slots, x.1 = atoint child → y.1 = atoint child → x.2 = y.2

theorem getNodeHash_aligned {s s' : NodeHashStore} {child : Bytes}
    (h : s'.contents = s.contents) (hunique : UniqueHash s child) :
    getNodeHash s' child = getNodeHash s child := by
  have hmem : ∀ x, x ∈ s'.slots ↔ x ∈ s.slots := by
    intro x
    rw [← SlotRing.mem_contents, h, SlotRing.mem_contents]
  unfold getNodeHash SlotRing.find?
  cases hfind : s.slots.find? fun e => e.1 == atoint child with
  | none =>
    have hnone : s'.slots.find? (fun e => e.1 == atoint child) = none := by
      rw [List.find?_eq_none] at hfind ⊢
      intro x hx
      exact hfind x ((hmem x).mp hx)
    rw [hnone]
  | some x =>
    cases hfind' : s'.slots.find? fun e => e.1 == atoint child with
    | none =>
      have hx := List.find?_eq_none.mp hfind' x ((hmem x).mpr (List.mem_of_find?_eq_some hfind))
      exact absurd (List.find?_some hfind) hx
    | some y =>
      have hy := (hmem y).mp (List.mem_of_find?_eq_some hfind')
      have heq := hunique y hy x (List.mem_of_find?_eq_some hfind)
        (by simpa using List.find?_some hfind') (by simpa using List.find?_some hfind)
      rw [Option.map_some, Option.map_some, heq]

/-- Two lookups that agree on some strings. -/
def LookupsAgree (lookup lookup' : Bytes → Option Bytes) (ids : List Bytes) : Prop :=
  ∀ id ∈ ids, lookup' id = lookup id

variable {lookup lookup' : Bytes → Option Bytes}

theorem encodeNodeIds_congr {ids : List Bytes} (h : LookupsAgree lookup lookup' ids) (w : Hw) :
    encodeNodeIds lookup' w ids = encodeNodeIds lookup w ids := by
  induction ids generalizing w with
  | nil => rfl
  | cons id ids ih =>
    unfold encodeNodeIds
    rw [h id List.mem_cons_self]
    cases lookup id with
    | none => rfl
    | some hash => exact ih (fun id hid => h id (List.mem_cons_of_mem _ hid)) _

theorem encodeChildren_congr {ids : List Bytes} (h : LookupsAgree lookup lookup' ids) (w : Hw) :
    encodeChildren lookup' w ids = encodeChildren lookup w ids := by
  unfold encodeChildren encodeRepeatedNodeIds
  rw [encodeNodeIds_congr h]

/-- A node kind looks up the children that it declares. -/
theorem nodeDecodeCallback_congr {tx : DamlTransaction} {ctx : HashingParser.Ctx} {k : NodeKind}
    (h : LookupsAgree lookup lookup' ((declaredChildren k).getD [])) :
    nodeDecodeCallback d lookup' tx ctx k = nodeDecodeCallback d lookup tx ctx k := by
  cases k with
  | create c => rfl
  | fetch f => rfl
  | exercise e =>
    have hend : ∀ w, encodeExerciseEnd lookup' w e = encodeExerciseEnd lookup w e :=
      fun w => encodeChildren_congr h _
    show HashingParser.decodeExercise d lookup' tx ctx e =
      HashingParser.decodeExercise d lookup tx ctx e
    unfold HashingParser.decodeExercise hashExercise
    simp only [hend]
  | rollback r =>
    have hend : ∀ w, encodeRollback lookup' w r = encodeRollback lookup w r :=
      fun w => encodeChildren_congr h _
    show some (HashingParser.decodeRollback lookup' ctx r) =
      some (HashingParser.decodeRollback lookup ctx r)
    unfold HashingParser.decodeRollback
    simp only [hend]
  | queryByKey => rfl

theorem mem_nodeKinds {part : NodePart} {kinds : List NodeKind} {k : NodeKind}
    (hkinds : .v1 kinds ∈ part) (hk : k ∈ kinds) : k ∈ nodeKinds part := by
  induction part with
  | nil => cases hkinds
  | cons item part ih =>
    rcases List.mem_cons.mp hkinds with rfl | hrest
    · exact List.mem_append_left _ hk
    · cases item with
      | nodeId s => exact ih hrest
      | v1 ks => exact List.mem_append_right _ (ih hrest)

/-- So does a part. -/
theorem decodeNodePart_congr {tx : DamlTransaction} {tree : TreeCheck} {values : ValuesStore}
    {err : HashError} {part : NodePart} (h : LookupsAgree lookup lookup' (partChildren part)) :
    decodeNodePart d lookup' tx tree values err part =
      decodeNodePart d lookup tx tree values err part := by
  refine List.foldlM_congr part ?_ _
  intro item hitem ctx
  cases item with
  | nodeId s => rfl
  | v1 kinds =>
    refine List.foldlM_congr kinds ?_ ctx
    intro k hk ctx
    refine nodeDecodeCallback_congr ?_
    intro id hid
    refine h id ?_
    cases hdeclared : declaredChildren k with
    | none =>
      rw [hdeclared] at hid
      cases hid
    | some ids =>
      rw [hdeclared] at hid
      exact List.mem_flatten.mpr
        ⟨ids, List.mem_filterMap.mpr ⟨k, mem_nodeKinds hitem hk, hdeclared⟩, hid⟩

/-! ## Ids that are sent once -/

/-- The store holds hashes of these ids next to its empty slots, one for each id. -/
structure StoresOnce (ids : List Int) (s : NodeHashStore) : Prop where
  ids : ∀ e ∈ s.slots, e = emptySlot ∨ e.1 ∈ ids
  unique : ∀ x ∈ s.slots, ∀ y ∈ s.slots, x.1 = y.1 → x.2 = y.2

theorem storesOnce_init (s : NodeHashStore) : StoresOnce [] (initNodeHashStore s) := by
  have hempty : ∀ e ∈ (initNodeHashStore s).slots, e = emptySlot :=
    SlotRing.forall_fill s rfl
  refine ⟨fun e he => .inl (hempty e he), fun x hx y hy _ => ?_⟩
  rw [hempty x hx, hempty y hy]

/-- A new id keeps it so. -/
theorem StoresOnce.set {ids : List Int} {s : NodeHashStore} {id : Int} {hash : Bytes}
    (h : StoresOnce ids s) (hnew : id ∉ ids) (hempty : id ≠ emptySlot.1) :
    StoresOnce (ids ++ [id]) (setNodeHash s id hash) := by
  have hcases : ∀ e ∈ (setNodeHash s id hash).slots, e ∈ s.slots ∨ e = (id, hash) :=
    fun e he => (SlotRing.mem_push he).symm
  have hold : ∀ e ∈ s.slots, e.1 ≠ id := by
    rintro e he rfl
    rcases h.ids e he with rfl | hmem
    · exact hempty rfl
    · exact hnew hmem
  constructor
  · intro e he
    rcases hcases e he with hmem | rfl
    · exact (h.ids e hmem).imp_right fun hid => List.mem_append_left _ hid
    · exact .inr (List.mem_append_right _ (List.mem_singleton_self _))
  · intro x hx y hy heq
    rcases hcases x hx with hx | rfl
    · rcases hcases y hy with hy | rfl
      · exact h.unique x hx y hy heq
      · exact absurd heq (hold x hx)
    · rcases hcases y hy with hy | rfl
      · exact absurd heq.symm (hold y hy)
      · rfl

theorem StoresOnce.uniqueHash {ids : List Int} {s : NodeHashStore} (h : StoresOnce ids s)
    (child : Bytes) : UniqueHash s child :=
  fun x hx y hy hx' hy' => h.unique x hx y hy (hx'.trans hy'.symm)

/-- No two node parts have one id, and none has the id of an empty slot. -/
def DistinctIds (parts : List NodePart) : Prop := (emptySlot.1 :: parts.map partNodeId).Nodup

instance (parts : List NodePart) : Decidable (DistinctIds parts) :=
  inferInstanceAs (Decidable (List.Nodup _))

/-- Two states of the hashing pass that differ in where the entries of the store stand. -/
structure NodesState.Aligned (s s' : NodesState) : Prop where
  contents : s'.store.contents = s.store.contents
  hasher : s'.hasher = s.hasher
  tree : s'.tree = s.tree

theorem absorbNodes_aligned {tx : DamlTransaction} {ids : List Int} {s s' : NodesState}
    {parts : List NodePart} (h : s.Aligned s') (honce : StoresOnce ids s.store)
    (hids : (ids ++ parts.map partNodeId).Nodup) (hempty : emptySlot.1 ∉ parts.map partNodeId) :
    (parts.foldlM (absorbNode d tx) s').map NodesState.hasher =
      (parts.foldlM (absorbNode d tx) s).map NodesState.hasher := by
  induction parts generalizing ids s s' with
  | nil => exact congrArg some h.hasher
  | cons part parts ih =>
    have hdigest : digestNode d tx s' part = digestNode d tx s part := by
      unfold digestNode
      rw [h.tree, decodeNodePart_congr fun child _ =>
        getNodeHash_aligned h.contents (honce.uniqueHash child)]
    rw [List.foldlM_cons, List.foldlM_cons]
    unfold absorbNode
    rw [hdigest]
    cases hctx : digestNode d tx s part with
    | none => rfl
    | some ctx =>
      simp only [Option.bind_some]
      split
      · rw [List.map_cons, List.append_cons] at hids
        rw [List.map_cons, List.mem_cons, not_or] at hempty
        have hid : ctx.nodeId = partNodeId part := (digestNode_spec hctx).nodeId
        have hnew : partNodeId part ∉ ids := by
          intro hmem
          have := (List.nodup_append.mp (List.nodup_append.mp hids).1).2.2
          exact this _ hmem _ (List.mem_singleton_self _) rfl
        -- Both states take up the same entry, if any.
        have haligned : (s.absorb d ctx).Aligned (s'.absorb d ctx) := by
          refine ⟨?_, by simp only [NodesState.absorb, h.hasher], rfl⟩
          unfold NodesState.absorb setNodeHash
          cases ctx.isRootNode with
          | true => exact h.contents
          | false =>
            show (s'.store.push _).contents = (s.store.push _).contents
            rw [SlotRing.contents_push, SlotRing.contents_push, h.contents]
        have honce' : StoresOnce (ids ++ [partNodeId part]) (s.absorb d ctx).store := by
          unfold NodesState.absorb
          cases ctx.isRootNode with
          | true =>
            exact ⟨fun e he => (honce.ids e he).imp_right fun hid => List.mem_append_left _ hid,
              honce.unique⟩
          | false =>
            rw [hid]
            exact honce.set hnew (Ne.symm hempty.1)
        exact ih haligned honce' hids hempty.2
      · rfl

/-- Node parts that send each id once are hashed alike, whatever earlier flows left in the
store. -/
theorem absorbNodes_store {tx : DamlTransaction} {parts : List NodePart} (h : DistinctIds parts)
    (store store' : NodeHashStore) :
    (parts.foldlM (absorbNode d tx) (.afterHeader store' tx)).map NodesState.hasher =
      (parts.foldlM (absorbNode d tx) (.afterHeader store tx)).map NodesState.hasher := by
  obtain ⟨hempty, hids⟩ := List.nodup_cons.mp h
  refine absorbNodes_aligned ⟨?_, rfl, rfl⟩ (storesOnce_init store) hids hempty
  show (initNodeHashStore store').contents = (initNodeHashStore store).contents
  unfold initNodeHashStore
  rw [SlotRing.contents_fill, SlotRing.contents_fill]

end CantonSigner
