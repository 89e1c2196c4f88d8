import CantonSigner.Flow.Receiving
import CantonSigner.Hash.Extends

/-!
# The node parts of a flow

What the hashing pass keeps between node parts is small: the store of node
hashes, the transaction hasher and the tree check. `absorbNode` is its step, as a
function of the header and the part alone; the value store and the display state,
which the same parts also feed, do not come into it
(`decodeNodePart_absorbValues`).

`NodesReceived` collects what is known of a flow once some of its node parts have
arrived, and `nodesReceived_step` adds one more.
-/

namespace CantonSigner

open ByteCodec HashingParser

/-! ## The hashing pass does not depend on the value store -/

namespace HashingParser

/-- A parser context without its value store. -/
def Ctx.dropValues (ctx : Ctx) : Ctx := { ctx with values := valuesCheckReset }

variable {d : Device} {lookup : Bytes → Option Bytes} {tx : DamlTransaction}

theorem decodeCreate_dropValues (ctx : Ctx) (c : Create) :
    (decodeCreate d tx ctx.dropValues c).map Ctx.dropValues =
      (decodeCreate d tx ctx c).map Ctx.dropValues := by
  unfold decodeCreate Ctx.dropValues
  dsimp only
  split
  · rfl
  · cases findSeed tx ctx.nodeId with
    | none => rfl
    | some seed =>
      simp only [Option.bind_eq_bind, Option.bind_some]
      cases hashCreate d .createArgument ctx.v c seed with
      | none => rfl
      | some v => rfl

theorem decodeExercise_dropValues (ctx : Ctx) (e : Exercise) :
    (decodeExercise d lookup tx ctx.dropValues e).map Ctx.dropValues =
      (decodeExercise d lookup tx ctx e).map Ctx.dropValues := by
  have hclaim : ∀ (values : ValuesStore), claimChildren { ctx with values := values } e.children =
      { claimChildren ctx e.children with values := values } := by
    intro values
    unfold claimChildren
    dsimp only
    split <;> rfl
  unfold decodeExercise Ctx.dropValues
  dsimp only
  split
  · rfl
  · rw [hclaim (valuesRecordUsedContract d valuesCheckReset e.contractId),
      hclaim (valuesRecordUsedContract d ctx.values e.contractId)]
    dsimp only
    cases findSeed tx (claimChildren ctx e.children).nodeId with
    | none => rfl
    | some seed =>
      cases seed with
      | none => rfl
      | some seed =>
        dsimp only
        cases hashExercise d lookup (claimChildren ctx e.children).v e seed with
        | none => rfl
        | some v => rfl

theorem nodeDecodeCallback_dropValues (ctx : Ctx) (k : NodeKind) :
    (nodeDecodeCallback d lookup tx ctx.dropValues k).map Ctx.dropValues =
      (nodeDecodeCallback d lookup tx ctx k).map Ctx.dropValues := by
  cases k with
  | create c => exact decodeCreate_dropValues ctx c
  | exercise e => exact decodeExercise_dropValues ctx e
  | fetch f =>
    unfold nodeDecodeCallback decodeFetch Ctx.dropValues
    dsimp only
    split <;> rfl
  | rollback r =>
    unfold nodeDecodeCallback decodeRollback claimChildren Ctx.dropValues
    dsimp only [Option.map_some]
    split <;> rfl
  | queryByKey => rfl

/-- What depends on a context without its value store only. -/
theorem view_of_dropValues {α : Type} {f : Ctx → α → Option Ctx}
    (hf : ∀ ctx a, (f ctx.dropValues a).map Ctx.dropValues = (f ctx a).map Ctx.dropValues)
    (a : α) (c c' : Ctx) (h : c.dropValues = c'.dropValues) :
    (f c a).map Ctx.dropValues = (f c' a).map Ctx.dropValues := by
  rw [← hf c, ← hf c', h]

theorem decodeNodeItem_dropValues (ctx : Ctx) (item : NodeItem) :
    (decodeNodeItem d lookup tx ctx.dropValues item).map Ctx.dropValues =
      (decodeNodeItem d lookup tx ctx item).map Ctx.dropValues := by
  cases item with
  | nodeId s =>
    unfold decodeNodeItem decodeNodeIdField Ctx.dropValues
    dsimp only
    split <;> rfl
  | v1 kinds => exact List.foldlM_view (view_of_dropValues nodeDecodeCallback_dropValues) kinds rfl

/-! ## The presence checks -/

/-- A node has the plain fields that the hashing pass checks. -/
def NodeComplete : NodeKind → Prop
  | .create c => createIsComplete c = true
  | .exercise e => exerciseIsComplete e = true
  | .fetch f => fetchIsComplete f = true
  | .rollback _ => True
  | .queryByKey => False

theorem nodeComplete_of_callback {ctx ctx' : Ctx} {k : NodeKind}
    (h : nodeDecodeCallback d lookup tx ctx k = some ctx') : NodeComplete k := by
  cases k with
  | create c =>
    exact (decodeCreate_eq_some.mp h).1
  | exercise e =>
    exact (decodeExercise_eq_some.mp h).1.1
  | fetch f =>
    exact (decodeFetch_eq_some.mp h).1.1
  | rollback r => trivial
  | queryByKey => cases h

/-- Every node of a part that the hashing pass accepts is complete. -/
theorem nodeComplete_of_items {items : NodePart} {ctx ctx' : Ctx}
    (h : items.foldlM (decodeNodeItem d lookup tx) ctx = some ctx') :
    ∀ k ∈ nodeKinds items, NodeComplete k := by
  have hkinds : ∀ (ks : List NodeKind) (ctx ctx' : Ctx),
      ks.foldlM (nodeDecodeCallback d lookup tx) ctx = some ctx' → ∀ k ∈ ks, NodeComplete k := by
    intro ks
    induction ks with
    | nil => simp
    | cons k ks ih =>
      intro ctx ctx' h
      rw [List.foldlM_cons] at h
      obtain ⟨ctx₁, h₁, h₂⟩ := Option.bind_eq_some_iff.mp h
      rintro k' (_ | ⟨_, hk'⟩)
      · exact nodeComplete_of_callback h₁
      · exact ih ctx₁ ctx' h₂ k' hk'
  induction items generalizing ctx with
  | nil => simp [nodeKinds]
  | cons item items ih =>
    rw [List.foldlM_cons] at h
    obtain ⟨ctx₁, h₁, h₂⟩ := Option.bind_eq_some_iff.mp h
    cases item with
    | nodeId s => simpa [nodeKinds] using ih h₂
    | v1 ks =>
      intro k hk
      have hk' : k ∈ ks ∨ k ∈ nodeKinds items := by simpa [nodeKinds] using hk
      exact hk'.elim (hkinds ks _ _ h₁ k) (ih h₂ k)

end HashingParser

/-! ## One node part -/

/-- What the hashing pass keeps between node parts. -/
structure NodesState where
  store : NodeHashStore
  hasher : Bytes
  tree : TreeCheck

/-- The hashing pass over a node part, without the value store. -/
def digestNode (d : Device) (tx : DamlTransaction) (s : NodesState) (part : NodePart) :
    Option HashingParser.Ctx :=
  (decodeNodePart d (getNodeHash s.store) tx s.tree valuesCheckReset .ok part).map
    HashingParser.Ctx.dropValues

/-- The state after a node part whose hashing pass ended in `ctx`. -/
def NodesState.absorb (d : Device) (s : NodesState) (ctx : HashingParser.Ctx) : NodesState where
  store := if ctx.isRootNode then s.store
    else setNodeHash s.store ctx.nodeId (d.sha ctx.v.hw.bytes)
  hasher := s.hasher ++ (if ctx.isRootNode then d.sha ctx.v.hw.bytes else [])
  tree := treeMarkSeen ctx.tree ctx.nodeId

/-- A node part that is accepted: no parsing error, no hash error. -/
def absorbNode (d : Device) (tx : DamlTransaction) (s : NodesState) (part : NodePart) :
    Option NodesState :=
  (digestNode d tx s part).bind fun ctx =>
    if ctx.v.hw.err = .ok then some (s.absorb d ctx) else none

/-- The state the header leaves for the node parts. -/
def NodesState.afterHeader (store : NodeHashStore) (tx : DamlTransaction) : NodesState where
  store := initNodeHashStore store
  hasher := (hashTransaction tx).bytes
  tree := treeCheckInit tx.roots tx.nodesCount

/-- The part of a receiving state that node parts work on. -/
def Prepared.nodesState (st : Prepared) : NodesState := ⟨st.nodeHashes, st.hasher, st.tree⟩

variable {d : Device} {st st' : Prepared} {buf : Bytes}

theorem decodeNodePart_absorbValues {part : NodePart} {ctx : HashingParser.Ctx}
    (herr : st.hashErr = .ok) (h : hashNodePart d st part = some ctx) :
    digestNode d st.header st.nodesState part = some ctx.dropValues := by
  unfold hashNodePart decodeNodePart at h
  rw [herr] at h
  refine Eq.trans ?_ (congrArg (Option.map HashingParser.Ctx.dropValues) h)
  exact List.foldlM_view
    (HashingParser.view_of_dropValues HashingParser.decodeNodeItem_dropValues) part rfl

/-- An accepted node part is absorbed. -/
theorem absorbNode_of_nodeStep {part : NodePart} {ctx : HashingParser.Ctx}
    (herr : st.hashErr = .ok) (hs : NodeStep d st buf st' part ctx) :
    absorbNode d st.header st.nodesState part = some st'.nodesState := by
  unfold absorbNode
  rw [decodeNodePart_absorbValues herr hs.hashed]
  have hnoerr : ctx.dropValues.v.hw.err = .ok := hs.noError
  simp only [Option.bind_some, hnoerr, ↓reduceIte, Option.some.injEq]
  obtain ⟨shown, hdisplay, rfl⟩ := hs.result
  have hshown : (advanceNode shown).nodesState = (st.withNode d ctx part).nodesState := by
    rcases displayNodePart_cases hdisplay with ⟨-, rfl⟩ | ⟨-, r, -, rfl⟩ <;> rfl
  rw [hshown]
  simp only [Prepared.nodesState, withNode_nodeHashes, withNode_hasher, withNode_tree]
  rfl

/-! ## The node parts of a run -/

/-- The messages of a flow. -/
def partBuffers : List PartEvent → List Bytes
  | [] => []
  | .part _ buf :: es => buf :: partBuffers es
  | .rows .. :: es => partBuffers es

theorem partBuffers_append (es es' : List PartEvent) :
    partBuffers (es ++ es') = partBuffers es ++ partBuffers es' := by
  induction es with
  | nil => rfl
  | cons e es ih => cases e <;> simp [partBuffers, ih]

/-- A header and node parts, as sent. -/
structure NodesSent (bufs : List Bytes) (tx : DamlTransaction) (parts : List NodePart) : Prop where
  bytes : ∃ header nodes, bufs = header :: nodes ∧ decodeDamlTransaction header = some tx ∧
    List.Forall₂ (fun b p => decodeNode b = some p) nodes parts

/-- The receiving state after header and node parts. -/
structure NodesReceived (d : Device) (st : Prepared) (tx : DamlTransaction)
    (parts : List NodePart) : Prop where
  header : st.header = tx
  hashErr : st.hashErr = .ok
  idx : st.recvNodeIdx = parts.length
  absorbed : ∃ store,
    parts.foldlM (absorbNode d tx) (.afterHeader store tx) = some st.nodesState

variable {bufs : List Bytes} {parsed : Bool}

theorem nodesSent_append {tx : DamlTransaction} {parts : List NodePart} {part : NodePart}
    (h : NodesSent bufs tx parts) (hdec : decodeNode buf = some part) :
    NodesSent (bufs ++ [buf]) tx (parts ++ [part]) := by
  obtain ⟨header, nodes, rfl, hheader, hnodes⟩ := h.bytes
  exact ⟨header, nodes ++ [buf], rfl, hheader, List.rel_append hnodes (.cons hdec .nil)⟩

theorem nodesReceived_step {tx : DamlTransaction} {parts : List NodePart} {part : NodePart}
    {ctx : HashingParser.Ctx} (h : NodesReceived d st tx parts)
    (hs : NodeStep d st buf st' part ctx) : NodesReceived d st' tx (parts ++ [part]) := by
  obtain ⟨store, habs⟩ := h.absorbed
  have hstep := absorbNode_of_nodeStep h.hashErr hs
  rw [h.header] at hstep
  obtain ⟨shown, hdisplay, rfl⟩ := hs.result
  have hframe : shown.header = st.header ∧ shown.hashErr = ctx.v.hw.err ∧
      shown.recvNodeIdx = st.recvNodeIdx := by
    rcases displayNodePart_cases hdisplay with ⟨-, rfl⟩ | ⟨-, r, -, rfl⟩ <;> simp
  refine ⟨hframe.1.trans h.header, hframe.2.1.trans hs.noError, ?_, store, ?_⟩
  · show shown.recvNodeIdx + 1 = _
    rw [hframe.2.2, h.idx]
    simp
  · exact List.foldlM_concat habs hstep

theorem nodesReceived_header {tx : DamlTransaction} (hs : HeaderStep st buf st' tx) :
    NodesSent [buf] tx [] ∧ NodesReceived d st' tx [] := by
  refine ⟨⟨buf, [], rfl, hs.decoded, .nil⟩, ?_⟩
  rw [hs.result]
  exact ⟨rfl, hs.hashed, rfl, st.nodeHashes, rfl⟩

/-- What a run has received: nothing, node parts still incomplete or just complete,
or more than the node parts. -/
def NodesPhase (d : Device) (st : Prepared) (bufs : List Bytes) : Prop :=
  (st.txState = .damlTxPart ∧ bufs = []) ∨
  (∃ tx parts, NodesSent bufs tx parts ∧ NodesReceived d st tx parts ∧
    (st.txState = .damlNodes ∧ (parts.length : Int) ≠ tx.nodesCount ∨
      st.txState = .metadata ∧ (parts.length : Int) = tx.nodesCount)) ∨
  ((st.txState = .metadata ∨ st.txState = .metadataInputContracts) ∧
    ∃ nodes rest tx parts, bufs = nodes ++ rest ∧ rest ≠ [] ∧ NodesSent nodes tx parts ∧
      (parts.length : Int) = tx.nodesCount)

theorem nodesPhase_part (h : NodesPhase d st bufs)
    (hacc : processPreparedTxPart d parsed st buf = (st', 0)) :
    NodesPhase d st' (bufs ++ [buf]) := by
  rcases accepted_cases hacc with ⟨tx, hs⟩ | ⟨part, ctx, hs⟩ | ⟨md, hs⟩ | ⟨ic, v, values, shown, hs⟩
  · -- The header is the first message.
    rcases h with ⟨-, rfl⟩ | ⟨tx', parts, -, -, ⟨hst, -⟩ | ⟨hst, -⟩⟩ | ⟨hst | hst, -⟩
    · obtain ⟨hsent, hreceived⟩ := nodesReceived_header (d := d) hs
      refine .inr (.inl ⟨tx, [], hsent, hreceived, ?_⟩)
      rw [hs.result]
      by_cases hzero : tx.nodesCount = 0
      · exact .inr ⟨by simp [Prepared.withHeader, hzero], by simp [hzero]⟩
      · exact .inl ⟨by simp [Prepared.withHeader, hzero], by simpa using Ne.symm hzero⟩
    all_goals exact absurd (hs.state.symm.trans hst) (by decide)
  · -- A node part comes while node parts are still missing.
    rcases h with ⟨hst, -⟩ | ⟨tx, parts, hsent, hreceived, ⟨-, -⟩ | ⟨hst, -⟩⟩ | ⟨hst | hst, -⟩
    · exact absurd (hs.state.symm.trans hst) (by decide)
    · have hreceived' := nodesReceived_step hreceived hs
      refine .inr (.inl ⟨tx, parts ++ [part], nodesSent_append hsent hs.decoded, hreceived', ?_⟩)
      obtain ⟨shown, hdisplay, rfl⟩ := hs.result
      have hstate : shown.txState = .damlNodes := by
        rcases displayNodePart_cases hdisplay with ⟨-, rfl⟩ | ⟨-, r, -, rfl⟩ <;> simp [hs.state]
      rw [← hreceived'.idx, ← hreceived'.header]
      by_cases hlast : shown.recvNodeIdx + 1 = shown.header.nodesCount
      · exact .inr ⟨by simp [advanceNode, hlast], hlast⟩
      · exact .inl ⟨by simp [advanceNode, hlast, hstate], hlast⟩
    all_goals exact absurd (hs.state.symm.trans hst) (by decide)
  · -- The metadata comes once the nodes are complete, and closes the phase.
    right; right
    constructor
    · rcases hs.result with ⟨-, -, rfl⟩ | ⟨-, rfl⟩
      · left
        rw [finalized_eq, applyNodeTreeVerdict_accepted hs.verdict]
        exact hs.state
      · exact .inr rfl
    · rcases h with ⟨hst, -⟩ | ⟨tx, parts, hsent, -, ⟨hst, -⟩ | ⟨-, hcount⟩⟩ |
        ⟨-, nodes, rest, tx, parts, rfl, -, hsent, hcount⟩
      · exact absurd (hs.state.symm.trans hst) (by decide)
      · exact absurd (hs.state.symm.trans hst) (by decide)
      · exact ⟨bufs, [buf], tx, parts, rfl, by simp, hsent, hcount⟩
      · exact ⟨nodes, rest ++ [buf], tx, parts, by simp, by simp, hsent, hcount⟩
  · -- An input contract only comes after that.
    right; right
    constructor
    · right
      rcases hs.result with ⟨-, -, rfl⟩ | ⟨-, rfl⟩
      · rw [finalized_eq]
        exact hs.state
      · exact hs.state
    · rcases h with ⟨hst, -⟩ | ⟨tx, parts, -, -, ⟨hst, -⟩ | ⟨hst, -⟩⟩ |
        ⟨-, nodes, rest, tx, parts, rfl, -, hsent, hcount⟩
      · exact absurd (hs.state.symm.trans hst) (by decide)
      · exact absurd (hs.state.symm.trans hst) (by decide)
      · exact absurd (hs.state.symm.trans hst) (by decide)
      · exact ⟨nodes, rest ++ [buf], tx, parts, by simp, by simp, hsent, hcount⟩

theorem nodesPhase_setRows {pairs : Option (List Pair)} {signature : Bytes}
    (h : NodesPhase d st bufs) : NodesPhase d (st.setRows pairs signature) bufs := by
  rcases h with h | ⟨tx, parts, hsent, hr, hst⟩ | h
  · exact .inl h
  · exact .inr (.inl ⟨tx, parts, hsent, ⟨hr.header, hr.hashErr, hr.idx, hr.absorbed⟩, hst⟩)
  · exact .inr (.inr h)

theorem nodesPhase_of_reach {ok : Prepared → PartEvent → Prop} {es : List PartEvent}
    (h : (receiving d).Reach ok es st) : NodesPhase d st (partBuffers es) := by
  refine h.invariant (P := fun es st => NodesPhase d st (partBuffers es)) ?_ ?_
  · rintro _ ⟨p, rfl⟩
    exact .inl ⟨rfl, rfl⟩
  · intro es st e st' hinv _ hstep
    rw [partBuffers_append]
    rcases receiving_step_cases hstep with ⟨parsed, buf, rfl, hacc⟩ | ⟨pairs, signature, rfl, rfl⟩
    · exact nodesPhase_part hinv hacc
    · simpa [partBuffers] using nodesPhase_setRows hinv

/-- The messages determine what was sent. -/
theorem NodesSent.unique {tx tx' : DamlTransaction} {parts parts' : List NodePart}
    (h : NodesSent bufs tx parts) (h' : NodesSent bufs tx' parts') : tx = tx' ∧ parts = parts' := by
  obtain ⟨header, nodes, rfl, htx, hparts⟩ := h.bytes
  obtain ⟨header', nodes', heq, htx', hparts'⟩ := h'.bytes
  obtain ⟨rfl, rfl⟩ := List.cons.inj heq
  refine ⟨Option.some.inj (htx.symm.trans htx'), ?_⟩
  clear h h' heq
  induction hparts generalizing parts' with
  | nil =>
    cases hparts'
    rfl
  | cons hp _ ih =>
    cases hparts' with
    | cons hp' hrest' => rw [Option.some.inj (hp.symm.trans hp'), ih hrest']

theorem NodesSent.length {tx : DamlTransaction} {parts : List NodePart}
    (h : NodesSent bufs tx parts) : bufs.length = parts.length + 1 := by
  obtain ⟨header, nodes, rfl, -, hparts⟩ := h.bytes
  simp [hparts.length_eq]

/-- A run of a header and as many node parts as it announces has absorbed them, and
waits for the metadata. -/
theorem nodesComplete_of_reach {ok : Prepared → PartEvent → Prop} {es : List PartEvent}
    {tx : DamlTransaction} {parts : List NodePart} (h : (receiving d).Reach ok es st)
    (hsent : NodesSent (partBuffers es) tx parts) (hcount : (parts.length : Int) = tx.nodesCount) :
    NodesReceived d st tx parts ∧ st.txState = .metadata := by
  rcases nodesPhase_of_reach h with ⟨-, hnil⟩ | ⟨tx', parts', hsent', hreceived, hphase⟩ |
    ⟨-, nodes, rest, tx', parts', hbufs, hrest, hsent', hcount'⟩
  · have := hsent.length
    rw [hnil] at this
    cases this
  · obtain ⟨rfl, rfl⟩ := hsent.unique hsent'
    rcases hphase with ⟨-, hne⟩ | ⟨hstate, -⟩
    · exact absurd hcount hne
    · exact ⟨hreceived, hstate⟩
  · -- The announced parts already fill the messages before the rest.
    exfalso
    obtain ⟨header, bs, hb, htx, -⟩ := hsent.bytes
    obtain ⟨header', bs', rfl, htx', -⟩ := hsent'.bytes
    rw [hb, List.cons_append] at hbufs
    obtain ⟨rfl, -⟩ := List.cons.inj hbufs
    have heq : tx = tx' := Option.some.inj (htx.symm.trans htx')
    have hlen := congrArg List.length hbufs
    rw [← hb, hsent.length, List.length_cons, List.length_append] at hlen
    have hlen' := hsent'.length
    rw [List.length_cons] at hlen'
    have hpos : 0 < rest.length := List.length_pos_iff.mpr hrest
    rw [heq] at hcount
    omega

theorem nodesReceived_of_reach {ok : Prepared → PartEvent → Prop} {es : List PartEvent}
    {tx : DamlTransaction} {parts : List NodePart} (h : (receiving d).Reach ok es st)
    (hsent : NodesSent (partBuffers es) tx parts) (hcount : (parts.length : Int) = tx.nodesCount) :
    NodesReceived d st tx parts :=
  (nodesComplete_of_reach h hsent hcount).1

/-- The message after the node parts is the metadata, and it brings the verdict on the
node tree. -/
theorem metadataStep_of_nodes {ok : Prepared → PartEvent → Prop} {es : List PartEvent}
    {tx : DamlTransaction} {parts : List NodePart} (h : (receiving d).Reach ok es st)
    (hsent : NodesSent (partBuffers es) tx parts) (hcount : (parts.length : Int) = tx.nodesCount)
    (hacc : processPreparedTxPart d parsed st buf = (st', 0)) :
    ∃ md, MetadataStep d st parsed buf st' md := by
  have hstate := (nodesComplete_of_reach h hsent hcount).2
  rcases accepted_cases hacc with ⟨tx, hs⟩ | ⟨part, ctx, hs⟩ | ⟨md, hs⟩ | ⟨ic, v, values, shown, hs⟩
  · exact absurd (hs.state.symm.trans hstate) (by decide)
  · exact absurd (hs.state.symm.trans hstate) (by decide)
  · exact ⟨md, hs⟩
  · exact absurd (hs.state.symm.trans hstate) (by decide)

end CantonSigner
