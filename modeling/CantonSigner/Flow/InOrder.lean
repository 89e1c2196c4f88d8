import CantonSigner.Flow.Missing
import CantonSigner.Flow.Provenance
import CantonSigner.Hash.Coverage
import CantonSigner.Tree.Verdict

/-!
# Messages that pass the checks

A canonical transaction whose nodes come in an order that the app can follow
(`Transmission.InOrder`), and for whose values there is room on the stack
(`Transmission.HasRoom`), passes every check of the hashing pass and of the node tree. So the
only pass that can still refuse a message of it is the display pass (`accepted_of_next`).

- `kindPasses_canonical`, `createPasses_canonical`: the hashing pass;
- `found_of_kept`: the store of node hashes;
- `verdict_of_inOrder`: the node tree;
- `next_of_inv`: which message of the transaction comes next.
-/

namespace CantonSigner

open ByteCodec HashingParser

variable {d : Device} {st : Prepared} {buf : Bytes} {parsed : Bool}

/-! ## Orders that the app can follow -/

namespace Transmission

variable (t : Transmission)

/-- The nodes whose hashes are stored. -/
def stored (ns : List SentNode) : List SentNode := ns.filter fun n => !t.header.roots.contains n.id

/-- The hash of this child is in the store after these nodes. -/
def Kept (before : List SentNode) (c : Bytes) : Prop :=
  ∃ l m r, before = l ++ m :: r ∧ m.id = c ∧ c ∉ t.header.roots ∧
    (t.stored r).length < maxNodeChildren

/-- The strings that are always hashed are there, every child comes before its parent and its
hash is still in the store, and if the nodes are announced to be one tree, then they are. -/
structure InOrder : Prop where
  version : t.header.version.isSome = true
  commandId : t.metadata.commandId.isSome = true
  transactionUuid : t.metadata.transactionUuid.isSome = true
  synchronizerId : t.metadata.synchronizerId.isSome = true
  ids : ∀ n ∈ t.nodes, IsDigits n.id ∧ n.id.length < 4
  few : ∀ n ∈ t.nodes, n.children.length ≤ maxNodeChildren
  kept : ∀ before n after, t.nodes = before ++ n :: after → ∀ c ∈ n.children, t.Kept before c
  tree : ∀ root, t.header.roots = [root] →
    WellFormedTree root t.nodes.length (t.nodes.map fun n => ⟨n.key, n.children⟩)

end Transmission

/-! ## The hashing pass -/

/-- The stack guard lets the values of a node pass, as the hashing pass opens them. -/
def SentNode.HasRoom (d : Device) (n : SentNode) : Prop :=
  match n.node with
  | .create _ _ argument => argument.hasRoom d [.createArgument] = true
  | .exercise _ _ _ chosenValue result _ => chosenValue.hasRoom d [.chosenValue] = true ∧
    ∀ v ∈ result, v.hasRoom d [.exerciseResult] = true
  | .fetch .. | .rollback _ => True

/-- The stack guard lets every value of the transaction pass. -/
structure Transmission.HasRoom (d : Device) (t : Transmission) : Prop where
  nodes : ∀ n ∈ t.nodes, n.HasRoom d
  contracts : ∀ c ∈ t.contracts, c.argument.hasRoom d [.contractArgument] = true

/-- A value with room passes the checks of the field that holds it. -/
theorem fieldPasses_of_room {v : Val} (h : v.WellFormed) {field : Frame}
    (hroom : v.hasRoom d [field] = true) : fieldPasses d field [v.toValue] := by
  have hs : HashingParser.decodeValueFields d field freshVState [v.toValue] =
      some ⟨freshVState.hw.put v.elemBytes, v.left (v.count freshVState.count)⟩ := by
    rw [HashingParser.decodeValueFields, List.foldlM_cons, decodeValueField_toValue h,
      if_pos hroom]
    rfl
  exact ((decodeValueFields_ends field freshVState _).mp ⟨_, hs, rfl⟩).2

/-- A canonical node whose children are found passes every check on a stack that never runs
out. -/
theorem kindPasses_roomy {lookup : Bytes → Option Bytes} {tx : DamlTransaction} {n : SentNode}
    (h : n.Canonical d tx) (hfew : n.children.length ≤ maxNodeChildren)
    (hfound : ∀ c ∈ n.children, (lookup c).isSome = true) :
    kindPasses d.roomy lookup tx n.key n.kind := by
  obtain ⟨hashes, hlookup⟩ : ∃ hashes, LookedUp lookup n.children hashes := by
    refine ⟨n.children.map fun c => (lookup c).getD [], ?_⟩
    rw [LookedUp, List.forall₂_map_right_iff, List.forall₂_same]
    intro c hc
    obtain ⟨hash, hhash⟩ := Option.isSome_iff_exists.mp (hfound c hc)
    simp [hhash]
  have hchildren : (n.node.withChildren hashes).children = hashes :=
    children_withChildren h.parent hlookup.length_eq
  have hwell : (n.node.withChildren hashes).WellFormed := by
    obtain ⟨htemplate, hid, hinterface⟩ := h.node.wellFormed
    exact ⟨by simpa using htemplate, by simpa using hid, by simpa using hinterface⟩
  have hvals : ∀ v ∈ (n.node.withChildren hashes).vals, Writes d.roomy Val.toValue enc v := by
    intro v hv
    rw [NodeVal.withChildren_vals] at hv
    exact writes_enc (h.node.vals v hv)
  let ctx : HashingParser.Ctx :=
    ⟨n.key, false, false, freshVState, treeCheckReset, valuesCheckReset⟩
  have hseed : (n.node.withChildren hashes).Seeded tx ctx.nodeId :=
    seeded_withChildren h.seed hashes
  obtain ⟨ctx', hctx', hhw⟩ : ∃ ctx', nodeDecodeCallback d.roomy lookup tx ctx
      ((n.node.withChildren hashes).kind Val.toValue n.children) = some ctx' ∧ ctx'.v.hw = _ :=
    hash_nodeVal hwell hvals hseed (hchildren.symm ▸ hlookup) hfew
  rw [NodeVal.withChildren_kind] at hctx'
  refine ((nodeDecodeCallback_ends n.kind _).mp ⟨ctx', hctx', ?_⟩).2
  show ctx'.v.hw.err = .ok
  rw [hhw]
  rfl

/-- With room for its values it passes them on the device. -/
theorem kindPasses_canonical {lookup : Bytes → Option Bytes} {tx : DamlTransaction} {n : SentNode}
    (h : n.Canonical d tx) (hroom : n.HasRoom d) (hfew : n.children.length ≤ maxNodeChildren)
    (hfound : ∀ c ∈ n.children, (lookup c).isSome = true) :
    kindPasses d lookup tx n.key n.kind := by
  have hroomy := kindPasses_roomy h hfew hfound
  have hvals := h.node.vals
  unfold SentNode.kind at hroomy ⊢
  unfold SentNode.HasRoom at hroom
  cases hnode : n.node with
  | create f seed argument =>
    rw [hnode] at hroomy hroom hvals
    obtain ⟨⟨hcomplete, heven, -⟩, hseed⟩ := hroomy
    exact ⟨⟨hcomplete, heven, fieldPasses_of_room
      (hvals argument (List.mem_singleton_self _)).wellFormed hroom⟩, hseed⟩
  | exercise f e seed chosenValue result hashes =>
    rw [hnode] at hroomy hroom hvals
    obtain ⟨⟨hcomplete, hinterface, heven, -, -, hknown⟩, hseed⟩ := hroomy
    refine ⟨⟨hcomplete, hinterface, heven, fieldPasses_of_room
      (hvals chosenValue (List.mem_cons_self ..)).wellFormed hroom.1, ?_, hknown⟩, hseed⟩
    cases result with
    | none => exact fieldPasses_nil d
    | some v =>
      have hwell : v.WellFormed :=
        (hvals v (List.mem_cons_of_mem _ (List.mem_singleton_self v))).wellFormed
      exact fieldPasses_of_room hwell (hroom.2 v rfl)
  | fetch =>
    rw [hnode] at hroomy
    exact hroomy
  | rollback =>
    rw [hnode] at hroomy
    exact hroomy

/-- A canonical contract passes every check. -/
theorem createPasses_canonical {c : SentContract} (h : c.Canonical d)
    (hroom : c.argument.hasRoom d [.contractArgument] = true) :
    ∀ m ∈ c.part.v1, createPasses d .contractArgument m := by
  intro m hm
  obtain rfl := List.mem_singleton.mp hm
  have htemplate := h.node.wellFormed.template c.fields rfl
  have heven := h.node.wellFormed.contractId c.fields rfl
  refine ⟨htemplate, ?_, fieldPasses_of_room
    (h.node.vals c.argument (List.mem_singleton_self _)).wellFormed hroom⟩
  rintro id ⟨⟩
  simpa [evenHex] using heven

/-! ## The store of node hashes -/

variable {tx : DamlTransaction} {store : NodeHashStore} {s : NodesState}

/-- The entries of the store are those of the nodes that are no roots, in their order. -/
theorem store_of_absorbed {parts : List NodePart}
    (h : parts.foldlM (absorbNode d tx) (.afterHeader store tx) = some s) :
    ∃ entries, s.store = SlotRing.pushAll (initNodeHashStore store) entries ∧
      entries.map Prod.fst = (parts.filter fun p => !partIsRoot tx p).map partNodeId := by
  refine List.foldlM_history (P := fun parts (s : NodesState) => ∃ entries,
    s.store = SlotRing.pushAll (initNodeHashStore store) entries ∧
      entries.map Prod.fst = (parts.filter fun p => !partIsRoot tx p).map partNodeId)
    ⟨[], rfl, rfl⟩ ?_ h
  rintro parts part s s' ⟨entries, hstore, hids⟩ hstep
  obtain ⟨hash, hs⟩ := absorbNode_spec hstep
  rw [hs.store, List.filter_append, List.map_append, ← hids]
  cases hroot : partIsRoot tx part with
  | true => exact ⟨entries, hstore, by simp [hroot]⟩
  | false =>
    refine ⟨entries ++ [(partNodeId part, hash)], ?_, by simp [hroot]⟩
    rw [SlotRing.pushAll_concat, ← hstore]
    rfl

/-- A child that is kept is found. -/
theorem found_of_kept {t : Transmission} (ho : t.InOrder) {before : List SentNode}
    (hbefore : ∀ n ∈ before, n ∈ t.nodes)
    (h : (before.map SentNode.part).foldlM (absorbNode d t.header) (.afterHeader store t.header) =
      some s) {c : Bytes} (hc : t.Kept before c) : (getNodeHash s.store c).isSome = true := by
  obtain ⟨l, m, r, rfl, rfl, hroot, hfew⟩ := hc
  obtain ⟨entries, hstore, hids⟩ := store_of_absorbed h
  have hstored : (l ++ m :: r).filter (fun n => !partIsRoot t.header n.part) =
      t.stored l ++ m :: t.stored r := by
    have hcongr : (l ++ m :: r).filter (fun n => !partIsRoot t.header n.part) =
        t.stored (l ++ m :: r) := List.filter_congr fun n hn => by
      rw [partIsRoot_part, cstr_digits (ho.ids n (hbefore n hn)).1]
    rw [hcongr, Transmission.stored, List.filter_append, List.filter_cons, if_pos (by simpa)]
    rfl
  -- The entries are split at the one of the child.
  have hsplit : entries.map Prod.fst = (t.stored l).map SentNode.key ++
      m.key :: (t.stored r).map SentNode.key := by
    rw [hids, List.filter_map, List.map_map]
    show List.map _ (List.filter (fun n : SentNode => !partIsRoot t.header n.part) _) = _
    rw [hstored, List.map_append]
    rfl
  obtain ⟨es, es', heq, hes, hes'⟩ := List.map_eq_append_iff.mp hsplit
  obtain ⟨e, after, rfl, he, hafter⟩ := List.map_eq_cons_iff.mp hes'
  rw [getNodeHash, Option.isSome_map, SlotRing.find?, List.find?_isSome]
  refine ⟨e, ?_, ?_⟩
  · rw [hstore, heq]
    refine SlotRing.mem_pushAll _ ?_
    have hlen := congrArg List.length hafter
    rw [List.length_map, List.length_map] at hlen
    rw [hlen]
    exact hfew
  · rw [he, beq_iff_eq]
    show atoint (cstr m.id) = atoint m.id
    rw [cstr_digits (ho.ids m (hbefore m (by simp))).1]

/-! ## The node tree -/

section Tree

variable {tree : TreeCheck}

/-- An error that was found stays. -/
theorem setTreeError_err (h : tree.err ≠ .ok) (e : TreeError) :
    (tree.setTreeError e).err = tree.err := by
  rw [TreeCheck.setTreeError, if_neg h]

theorem claimChild_kept (h : tree.err ≠ .ok) (parentId child : Int) :
    (claimChild tree parentId child).1.err = tree.err := by
  unfold claimChild
  split_ifs
  · exact setTreeError_err h _
  · exact setTreeError_err h _
  · exact setTreeError_err h _
  · exact setTreeError_err h _
  · rfl

theorem treeClaimChildren_kept (h : tree.err ≠ .ok) (parentId : Int) (children : List Bytes) :
    (treeClaimChildren tree parentId children).err = tree.err := by
  induction children generalizing tree with
  | nil => rfl
  | cons c cs ih =>
    have hchild := claimChild_kept h parentId (nodeIdFromStr c)
    unfold treeClaimChildren
    split
    · rename_i t' heq
      rw [heq] at hchild
      exact hchild
    · rename_i t' heq
      rw [heq] at hchild
      exact (ih (hchild ▸ h)).trans hchild

theorem treeEvent_kept (h : tree.err ≠ .ok) (e : NodeEvent) :
    (treeEvent tree e).err = tree.err := by
  have hclaimed := treeClaimChildren_kept h e.id e.children
  unfold treeEvent treeMarkSeen
  split_ifs
  · rw [setTreeError_err (hclaimed ▸ h), hclaimed]
  · rw [setTreeError_err (hclaimed ▸ h), hclaimed]
  · exact hclaimed

/-- The verdict on a header that is not checked. -/
theorem verdict_kept (h : tree.err ≠ .ok) (es : List NodeEvent) :
    (treeVerifyComplete (es.foldl treeEvent tree)).err = tree.err := by
  induction es generalizing tree with
  | nil => exact setTreeError_err h _
  | cons e es ih => exact (ih (treeEvent_kept h e ▸ h)).trans (treeEvent_kept h e)

end Tree

/-- The event of the tree check that a node is. -/
def SentNode.event (n : SentNode) : NodeEvent := ⟨n.key, n.children⟩

/-- An accepted node is one event of the tree check. -/
theorem tree_of_absorbed {s' : NodesState} {n : SentNode}
    (hn : n.node.IsParent ∨ n.children = []) (h : absorbNode d tx s n.part = some s') :
    s'.tree = treeEvent s.tree n.event := by
  obtain ⟨ctx, hctx, hrest⟩ := Option.bind_eq_some_iff.mp h
  split at hrest
  · cases hrest
    obtain ⟨ctx₁, h₁, rfl⟩ := Option.map_eq_some_iff.mp hctx
    let st : Prepared :=
      { Prepared.start with nodeHashes := s.store, header := tx, tree := s.tree }
    have hmark : treeMarkSeen ctx₁.tree ctx₁.nodeId = markPart st.tree (-1) false n.part :=
      markPart_of_hashed h₁
    have hclaim : ∀ ls : List (List Bytes),
        claimFirst s.tree n.key ls = treeClaimChildren s.tree n.key (ls.headD []) := by
      intro ls
      cases ls <;> rfl
    refine hmark.trans ?_
    show treeMarkSeen (claimFirst s.tree n.key (childLists [n.kind])) n.key = _
    rw [hclaim]
    show treeMarkSeen (treeClaimChildren s.tree n.key (claimedChildren n.part)) n.key = _
    rw [(childLists_part hn).2.1]
    rfl
  · cases hrest

theorem tree_of_nodes {ns : List SentNode} (hn : ∀ n ∈ ns, n.node.IsParent ∨ n.children = [])
    (h : (ns.map SentNode.part).foldlM (absorbNode d tx) (.afterHeader store tx) = some s) :
    s.tree = (ns.map SentNode.event).foldl treeEvent (treeCheckInit tx.roots tx.nodesCount) := by
  rw [List.foldlM_map] at h
  refine List.foldlM_history (P := fun l (s : NodesState) => (∀ n ∈ l, n ∈ ns) →
    s.tree = (l.map SentNode.event).foldl treeEvent (treeCheckInit tx.roots tx.nodesCount))
    (fun _ => rfl) ?_ h (fun _ => id)
  intro l n s s' ih hstep hmem
  rw [tree_of_absorbed (hn n (hmem n (by simp))) hstep,
    ih fun m hm => hmem m (List.mem_append_left _ hm), List.map_append, List.foldl_append]
  rfl

/-- The node tree of a transaction in order is not refused. -/
theorem verdict_of_inOrder {t : Transmission} (h : t.Canonical d) (ho : t.InOrder)
    (htree : st.tree = (t.nodes.map SentNode.event).foldl treeEvent
      (treeCheckInit t.header.roots t.header.nodesCount)) : (applyNodeTreeVerdict st).2 = 0 := by
  have hpossible : treeErrorIsImpossible (treeVerifyComplete st.tree).err = false := by
    rw [htree, h.nodesCount]
    -- too many nodes: there is no tree check
    by_cases hmany : maxTxNodes < t.nodes.length
    · have hinit : treeCheckInit t.header.roots t.nodes.length =
          treeCheckReset.setTreeError .tooManyNodes := by
        unfold treeCheckInit
        rw [if_pos]
        simp only [Bool.or_eq_true, decide_eq_true_eq]
        omega
      rw [hinit, verdict_kept (by decide)]
      rfl
    · have hcount :
          ¬ ((t.nodes.length : Int) < 0 || (maxTxNodes : Int) < t.nodes.length) = true := by
        simp only [Bool.or_eq_true, decide_eq_true_eq]
        omega
      -- one root: the tree is well formed, so its verdict is fine
      by_cases hone : ∃ root, t.header.roots = [root]
      · obtain ⟨root, hroot⟩ := hone
        have hwell := ho.tree root hroot
        have hpos : 0 < t.nodes.length := Nat.zero_lt_of_lt hwell.rootId.lt
        have hverdict := (rootVerdict_iff hpos (Nat.not_lt.mp hmany) (List.length_map _)
          hwell.rootId).mpr hwell
        rw [hroot]
        exact congrArg treeErrorIsImpossible hverdict
      · -- several roots: there is no tree check either
        have hinit : treeCheckInit t.header.roots t.nodes.length =
            treeCheckReset.setTreeError .rootCount := by
          unfold treeCheckInit
          rw [if_neg hcount]
          split
          · rename_i root hroot
            exact absurd ⟨root, hroot⟩ hone
          · rfl
        rw [hinit, verdict_kept (by decide)]
        rfl
  unfold applyNodeTreeVerdict
  dsimp only
  rw [hpossible]
  split <;> rfl

/-! ## Refusals of the display pass -/

namespace DisplayParser

/-- A walk was stopped by the stack guard, or its screen lacks a mandatory field. -/
def Unshown (d : Device) (o : Option Ctx) : Prop :=
  o = none ∨ ∃ s fs, o = some s ∧ s.fields = some fs ∧ formatLoop d fs.length 0 s = .missing

/-- That is why the display pass refuses a part. -/
theorem unshown_of_refused {o : Option Ctx} {values : ValuesStore}
    (h : o.bind (finishParsing d values) = none) : Unshown d o := by
  cases o with
  | none => exact .inl rfl
  | some s =>
    have h : finishParsing d values s = none := h
    unfold finishParsing at h
    split at h
    · rename_i fs c hfields _
      refine .inr ⟨s, fs, rfl, hfields, ?_⟩
      have hformat : formatAndPopulate d s fs = none := by
        cases hf : formatAndPopulate d s fs with
        | none => rfl
        | some review =>
          rw [hf] at h
          cases h
      unfold formatAndPopulate at hformat
      dsimp only at hformat
      split at hformat
      · cases hformat
      · split at hformat
        · cases hformat
        · assumption
        · cases hformat
    · cases h

end DisplayParser

/-! ## One message -/

/-- The message is accepted, unless the display pass refuses it. -/
structure OnlyDisplayRefuses (d : Device) (st : Prepared) (parsed : Bool) (buf : Bytes) : Prop where
  refused : DisplayRefuses d st buf →
    (processPreparedTxPart d parsed st buf).2 = Sw.txParsingFail
  accepted : ¬ DisplayRefuses d st buf → (processPreparedTxPart d parsed st buf).2 = 0

/-- A header with a version. -/
theorem receiveHeader_ok {tx : DamlTransaction} (h : tx.version.isSome = true) :
    (receiveHeader st tx).2 = 0 := by
  have herr : (hashTransaction tx).err = .ok := by
    have henc := ((encodesIf_put preparedTransactionHashPurpose).after
      (encodesIf_encodeString tx.version)).after (encodesIf_put (int32Bytes tx.roots.length))
    exact (henc ⟨[], .ok⟩).mpr ⟨rfl, ⟨trivial, h⟩, trivial⟩
  unfold receiveHeader
  dsimp only
  rw [if_neg (by simpa using herr)]

/-- A node part that passes the checks. -/
theorem receiveNode_passes {part : NodePart} (herr : st.hashErr = .ok)
    (hpass : partPasses d (getNodeHash st.nodeHashes) st.header (-1) part) :
    (displayRefusesNode d st part → (receiveNode d st part).2 = Sw.txParsingFail) ∧
      (¬ displayRefusesNode d st part → (receiveNode d st part).2 = 0) := by
  obtain ⟨ctx, hctx, hok⟩ :=
    (decodeNodePart_ends st.tree st.values st.hashErr part).mpr ⟨herr, hpass⟩
  have hctx : hashNodePart d st part = some ctx := hctx
  have herrEq : (recordNode d st ctx).hashErr = ctx.v.hw.err := by
    unfold recordNode
    dsimp only
    split <;> rfl
  have hdisplay := displayNodePart_none_iff hctx
  unfold Prepared.withNode at hdisplay
  unfold receiveNode
  rw [hctx]
  dsimp only
  rw [if_neg (by rw [herrEq]; exact not_not_intro hok), ← hdisplay]
  cases displayNodePart d { recordNode d st ctx with
      values := HoldingParser.valuesCollectFromNode d (recordNode d st ctx).values part } part with
  | none => exact ⟨fun _ => rfl, fun hnot => absurd rfl hnot⟩
  | some shown => exact ⟨nofun, fun _ => rfl⟩

/-- An input contract that passes the checks. -/
theorem receiveInputContract_passes {ic : InputContract} (herr : st.hashErr = .ok)
    (hpass : ∀ c ∈ ic.v1, createPasses d .contractArgument c)
    (hlast : st.recvNodeIdx + 1 = st.inputContractsCount → parsed = true) :
    (DisplayParser.parseInputContractForDisplay d st.globals st.review st.values ic = none →
      (receiveInputContract d parsed st ic).2 = Sw.txParsingFail) ∧
    (¬ DisplayParser.parseInputContractForDisplay d st.globals st.review st.values ic = none →
      (receiveInputContract d parsed st ic).2 = 0) := by
  obtain ⟨⟨v, values⟩, hv, hok⟩ :=
    (decodeInputContractPart_ends (d := d) st.values st.hashErr ic).mpr ⟨herr, hpass⟩
  have hdisplay : DisplayParser.parseInputContractForDisplay d st.globals st.review values
      ic = none ↔ _ := parseInputContractForDisplay_none_iff values st.values
  unfold receiveInputContract
  rw [hv]
  dsimp only
  rw [if_neg (not_not_intro hok), ← hdisplay]
  cases DisplayParser.parseInputContractForDisplay d st.globals st.review values ic with
  | none => exact ⟨fun _ => rfl, fun hnot => absurd rfl hnot⟩
  | some shown =>
    refine ⟨nofun, fun _ => ?_⟩
    obtain ⟨globals, review, values'⟩ := shown
    dsimp only
    split
    · rename_i hidx
      rw [hlast hidx]
      rfl
    · rfl

theorem encodesIf_time (t : Option Nat) :
    EncodesIf True fun w => encodeOptional w (fun w (t : Nat) => encodeInt64 w t) t := by
  cases t with
  | none => exact encodesIf_put _
  | some t => exact ((encodesIf_put _).after (encodesIf_put _)).congr and_self_iff

/-- Metadata is hashed without error exactly when its strings are there. -/
theorem encodesIf_encodeMetadata (md : Metadata) :
    EncodesIf ((md.commandId.isSome = true ∧ md.transactionUuid.isSome = true) ∧
      md.synchronizerId.isSome = true) fun w => encodeMetadata w md := by
  refine EncodesIf.congr ((((((((encodesIf_put [0x01]).after (encodesIf_strings md.actAs)).after
    (encodesIf_encodeString md.commandId)).after (encodesIf_encodeString md.transactionUuid)).after
    (encodesIf_put (int32Bytes md.mediatorGroup))).after
    (encodesIf_encodeString md.synchronizerId)).after
    (encodesIf_time md.minLedgerEffectiveTime)).after
    (encodesIf_time md.maxLedgerEffectiveTime) |>.after
    ((encodesIf_put (int64Bytes md.preparationTime)).after
      (encodesIf_put (int32Bytes md.inputContractsCount)))) ?_
  simp

/-- Metadata with its strings, after a tree that is not impossible. -/
theorem receiveMetadata_passes {md : Metadata} (herr : st.hashErr = .ok)
    (hverdict : (applyNodeTreeVerdict st).2 = 0) (hcommand : md.commandId.isSome = true)
    (huuid : md.transactionUuid.isSome = true) (hsync : md.synchronizerId.isSome = true)
    (hlast : md.inputContractsCount = 0 → parsed = true) :
    (receiveMetadata d parsed st (some md)).2 = 0 := by
  have hkept : (applyNodeTreeVerdict st).1.hashErr = .ok := by
    rw [applyNodeTreeVerdict_accepted hverdict]
    exact herr
  have hok : (hashMetadata .ok md).err = .ok :=
    (encodesIf_encodeMetadata md _).mpr ⟨rfl, ⟨hcommand, huuid⟩, hsync⟩
  unfold receiveMetadata
  dsimp only
  rw [if_neg (not_not_intro hverdict)]
  unfold hashMetadataPart
  dsimp only
  rw [hkept, if_neg (not_not_intro hok)]
  split
  · rename_i hzero
    rw [hlast hzero]
    rfl
  · rfl

/-! ## The next message of a transmission -/

namespace Transmission

variable {t : Transmission} {bufs rest : List Bytes}

/-- The messages up to some of the nodes. -/
def nodeBuffers (t : Transmission) (ns : List SentNode) : List Bytes :=
  Host.damlTransaction t.header :: ns.map fun n => Host.node n.part

theorem nodesSent (h : t.Canonical d) {ns : List SentNode} (hns : ∀ n ∈ ns, n ∈ t.nodes) :
    NodesSent (t.nodeBuffers ns) t.header (ns.map SentNode.part) := by
  refine ⟨_, _, rfl, decode_header h, ?_⟩
  rw [List.forall₂_map_left_iff, List.forall₂_map_right_iff, List.forall₂_same]
  exact fun n hn => (h.nodes n (hns n hn)).decode_part h.bound

theorem messages_eq (t : Transmission) : t.messages = t.nodeBuffers t.nodes ++
    Host.metadata t.metadata :: t.contracts.map fun c => Host.inputContract c.part := by
  simp [messages, nodeBuffers, parts, inputs, Function.comp_def]

/-- What a flow under way waits for: the header, a node, the metadata, or a contract. -/
inductive Next (d : Device) (t : Transmission) (st : Prepared) (buf : Bytes) (rest : List Bytes) :
    Prop where
  | header (state : st.txState = .damlTxPart) (eq : buf = Host.damlTransaction t.header)
      (more : rest ≠ [])
  | node (before : List SentNode) (n : SentNode) (after : List SentNode)
      (state : st.txState = .damlNodes) (split : t.nodes = before ++ n :: after)
      (eq : buf = Host.node n.part)
      (received : NodesReceived d st t.header (before.map SentNode.part)) (more : rest ≠ [])
  | metadata (state : st.txState = .metadata) (eq : buf = Host.metadata t.metadata)
      (received : NodesReceived d st t.header t.parts)
      (more : rest = t.contracts.map fun c => Host.inputContract c.part)
  | contract (before : List SentContract) (c : SentContract) (after : List SentContract)
      (state : st.txState = .metadataInputContracts) (split : t.contracts = before ++ c :: after)
      (eq : buf = Host.inputContract c.part)
      (received : ContractsReceived d st t.header t.parts t.metadata (before.map SentContract.part))
      (more : rest = after.map fun c => Host.inputContract c.part)

theorem next_of_inv (h : t.Canonical d) (hinv : FlowInv d st bufs) (hun : Unfinished st)
    (hsplit : t.messages = bufs ++ buf :: rest) : Next d t st buf rest := by
  have hall := (allSent h).sent
  rw [hsplit] at hall
  have hlen : ∀ ns : List SentNode, (t.nodeBuffers ns).length = ns.length + 1 := fun ns => by
    simp [nodeBuffers]
  have hun := hun.waiting
  unfold Waiting at hun
  cases hstate : st.txState with
  | damlTxPart =>
    obtain rfl := hinv.header hstate
    obtain ⟨rfl, rfl⟩ := List.cons.inj hsplit.symm
    exact .header hstate rfl (by simp)
  | damlNodes =>
    rw [hstate] at hun
    obtain ⟨tx, parts, hsent, hreceived⟩ := hinv.nodes hstate
    obtain rfl : t.header = tx := hall.header_eq hsent
    have hmore : parts.length < t.nodes.length := by
      have hcount := h.nodesCount
      rw [hreceived.header, hreceived.idx] at hun
      have := hun (by omega)
      omega
    -- As many nodes as were received are behind; the message is the one after them.
    obtain ⟨before, n, after, hnodes, hbefore⟩ : ∃ before n after,
        t.nodes = before ++ n :: after ∧ before.length = parts.length := by
      refine ⟨t.nodes.take parts.length, t.nodes[parts.length], t.nodes.drop (parts.length + 1),
        ?_, ?_⟩
      · rw [List.cons_getElem_drop_succ, List.take_append_drop]
      · rw [List.length_take]
        omega
    have hmessages : t.nodeBuffers before ++ Host.node n.part ::
        (after.map (fun n => Host.node n.part) ++ Host.metadata t.metadata ::
          t.contracts.map fun c => Host.inputContract c.part) = bufs ++ buf :: rest := by
      rw [← hsplit, messages_eq, hnodes]
      simp [nodeBuffers]
    obtain ⟨hbufs, hrest⟩ := List.append_inj hmessages (by rw [hsent.length, hlen, hbefore])
    obtain ⟨rfl, rfl⟩ := List.cons.inj hrest
    obtain ⟨-, rfl⟩ := hsent.unique (hbufs ▸ nodesSent h fun n hn => by simp [hnodes, hn])
    exact .node before n after hstate hnodes rfl hreceived (by simp)
  | metadata =>
    obtain ⟨tx, parts, hsent, hreceived, hcount⟩ := hinv.metadata hstate
    obtain rfl : t.header = tx := hall.header_eq hsent
    rw [messages_eq] at hsplit
    obtain ⟨hbufs, hrest⟩ := List.append_inj hsplit (by
      have := h.nodesCount
      rw [hsent.length, hlen]
      omega)
    obtain ⟨rfl, rfl⟩ := List.cons.inj hrest
    obtain ⟨-, rfl⟩ := hsent.unique (hbufs ▸ nodesSent h fun n => id)
    exact .metadata hstate rfl hreceived rfl
  | metadataInputContracts =>
    obtain ⟨tx, parts, md, ics, hsent, hreceived⟩ := hinv.contracts hstate
    obtain ⟨rfl, rfl, rfl, more, hmore, hcount⟩ := hall.unique hsent
    obtain ⟨before, after, hcontracts, rfl, rfl⟩ := List.map_eq_append_iff.mp hmore
    obtain ⟨c, after, rfl⟩ := List.exists_cons_of_length_eq_add_one
      ((List.length_map SentContract.part).symm.trans hcount)
    rw [messages_eq, hcontracts, List.map_append, List.map_cons, ← List.cons_append,
      ← List.append_assoc] at hsplit
    obtain ⟨-, hrest⟩ := List.append_inj hsplit (by
      have := hsent.length
      simp only [List.length_append, hlen, List.length_cons, List.length_map, Transmission.parts]
        at this ⊢
      omega)
    obtain ⟨rfl, rfl⟩ := List.cons.inj hrest
    exact .contract before c after hstate hcontracts rfl hreceived rfl

/-- The message is a node or a contract that the display pass makes no screen of. -/
def Unshown (d : Device) (t : Transmission) (st : Prepared) (buf : Bytes) : Prop :=
  (∃ n ∈ t.nodes, buf = Host.node n.part ∧ DisplayParser.Unshown d
    (DisplayParser.walkNode d (.start none st.review) n.part)) ∨
  ∃ c ∈ t.contracts, buf = Host.inputContract c.part ∧ DisplayParser.Unshown d
    (DisplayParser.walkInputContract d (.start st.globals st.review) c.part)

/-- That is what the display pass refuses. -/
theorem unshown_of_refuses (h : t.Canonical d) (hnext : Next d t st buf rest)
    (hrefuses : DisplayRefuses d st buf) : t.Unshown d st buf := by
  cases hnext with
  | header hstate | metadata hstate =>
    rw [DisplayRefuses, hstate] at hrefuses
    exact hrefuses.elim
  | node before n after hstate hnodes heq =>
    subst heq
    have hn : n ∈ t.nodes := by simp [hnodes]
    rw [DisplayRefuses, hstate] at hrefuses
    obtain ⟨part, hpart, -, hnone⟩ := hrefuses
    rw [(h.nodes n hn).decode_part h.bound] at hpart
    cases hpart
    refine .inl ⟨n, hn, rfl, ?_⟩
    unfold DisplayParser.parseNodeForDisplay at hnone
    split at hnone
    · cases hnone
    · exact DisplayParser.unshown_of_refused hnone
  | contract before c after hstate hcontracts heq =>
    subst heq
    have hc : c ∈ t.contracts := by simp [hcontracts]
    rw [DisplayRefuses, hstate] at hrefuses
    obtain ⟨ic, hic, hnone⟩ := hrefuses
    rw [(h.contracts c hc).decode_part h.bound] at hic
    cases hic
    refine .inr ⟨c, hc, rfl, ?_⟩
    unfold DisplayParser.parseInputContractForDisplay at hnone
    split at hnone
    · cases hnone
    · exact DisplayParser.unshown_of_refused hnone

/-- **One message of a transmission in order**: only the display pass may refuse it, and the last
one completes the transaction. -/
theorem accepted_of_next (h : t.Canonical d) (hroom : t.HasRoom d) (ho : t.InOrder)
     (hnext : Next d t st buf rest) (hlast : rest = [] → parsed = true) :
    OnlyDisplayRefuses d st parsed buf ∧ (rest = [] → Completes st buf) := by
  cases hnext with
  -- no display pass runs over the header
  | header hstate heq hmore =>
    subst heq
    refine ⟨⟨fun hrefuses => ?_, fun _ => ?_⟩, fun hnil => absurd hnil hmore⟩
    · rw [DisplayRefuses, hstate] at hrefuses
      exact hrefuses.elim
    · rw [processPreparedTxPart, hstate]
      dsimp only
      rw [decode_header h]
      exact receiveHeader_ok ho.version
  | node before n after hstate hnodes heq hreceived hmore =>
    subst heq
    have hn : n ∈ t.nodes := by simp [hnodes]
    have hbefore : ∀ m ∈ before, m ∈ t.nodes := fun m hm => by simp [hnodes, hm]
    have hcanonical := h.nodes n hn
    have hdec := hcanonical.decode_part h.bound
    obtain ⟨store, habs⟩ := hreceived.absorbed
    -- the children of the node came before it, so their hashes are in the store
    have hpass : partPasses d (getNodeHash st.nodeHashes) st.header (-1) n.part := by
      rw [hreceived.header]
      refine ⟨(ho.ids n hn).2, fun k hk => ?_, trivial⟩
      obtain rfl := List.mem_singleton.mp hk
      exact kindPasses_canonical hcanonical (hroom.nodes n hn) (ho.few n hn) fun c hc =>
        found_of_kept ho hbefore habs (ho.kept before n after hnodes c hc)
    obtain ⟨hrefused, haccepted⟩ := receiveNode_passes hreceived.hashErr hpass
    refine ⟨⟨?_, ?_⟩, fun hnil => absurd hnil hmore⟩ <;>
      (rw [DisplayRefuses, processPreparedTxPart, hstate]
       dsimp only
       rw [hdec])
    · rintro ⟨part, hpart, hdisplay⟩
      cases hpart
      exact hrefused hdisplay
    · exact fun hnot => haccepted fun hdisplay => hnot ⟨_, rfl, hdisplay⟩
  | metadata hstate heq hreceived hmore =>
    subst heq
    have hcount := h.contractsCount
    -- all nodes are in, so the tree is checked here
    have hverdict : (applyNodeTreeVerdict st).2 = 0 := by
      obtain ⟨store, habs⟩ := hreceived.absorbed
      exact verdict_of_inOrder h ho (tree_of_nodes (fun n hn => (h.nodes n hn).parent) habs)
    have hzero : t.metadata.inputContractsCount = 0 ↔ rest = [] := by
      rw [hmore, List.map_eq_nil_iff, ← List.length_eq_zero_iff]
      omega
    refine ⟨⟨fun hrefuses => ?_, fun _ => ?_⟩, fun hnil => .inl ⟨hstate, ?_⟩⟩
    · rw [DisplayRefuses, hstate] at hrefuses
      exact hrefuses.elim
    · rw [processPreparedTxPart, hstate]
      dsimp only
      rw [decode_metadata h]
      exact receiveMetadata_passes hreceived.hashErr hverdict ho.commandId ho.transactionUuid
        ho.synchronizerId fun hz => hlast (hzero.mp hz)
    · rw [decode_metadata h]
      simpa using hzero.mpr hnil
  | contract before c after hstate hcontracts heq hreceived hmore =>
    subst heq
    have hcanonical := h.contracts c (by simp [hcontracts])
    have hdec := hcanonical.decode_part h.bound
    -- the last contract is the one whose index reaches the declared count
    have hidx : st.recvNodeIdx + 1 = st.inputContractsCount ↔ rest = [] := by
      rw [hmore, List.map_eq_nil_iff, ← List.length_eq_zero_iff, hreceived.idx, hreceived.count,
        h.contractsCount, hcontracts, List.length_append, List.length_cons, List.length_map]
      omega
    obtain ⟨hrefused, haccepted⟩ := receiveInputContract_passes hreceived.hashErr
      (createPasses_canonical hcanonical (hroom.contracts c (by simp [hcontracts]))) fun hi =>
        hlast (hidx.mp hi)
    refine ⟨⟨?_, ?_⟩, fun hnil => .inr ⟨hstate, hidx.mpr hnil⟩⟩ <;>
      (rw [DisplayRefuses, processPreparedTxPart, hstate]
       dsimp only
       rw [hdec])
    · rintro ⟨ic, hic, hdisplay⟩
      cases hic
      exact hrefused hdisplay
    · exact fun hnot => haccepted fun hdisplay => hnot ⟨_, rfl, hdisplay⟩

end Transmission

end CantonSigner
