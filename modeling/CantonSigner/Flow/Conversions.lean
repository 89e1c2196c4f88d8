import CantonSigner.Flow.Requests
import CantonSigner.Lib.Traced

/-!
# The conversions of node ids

The functions on the way to `atoint`, once more, in the monad that records the strings that
`atoint` is called on: each is the function of its name outside `Conversions`, with its guards in
place, and its `value` is what that function returns (`nodeIdFromStr_value` to `run_value`). What
calls nothing is taken as it is.

nanopb hands on the fields of a part as it reads them, so the calls for the first fields are made
even if a later one is malformed. `streamed` reads a message in this way, and a part that turns
out malformed is refused like one that was read as a whole.
-/

namespace CantonSigner

open ByteCodec HashingParser

namespace Conversions

/-- A result with the strings that were converted for it. -/
abbrev Conv := Traced Bytes

/-- `atoint`, recorded. -/
def atoint (s : Bytes) : Conv Int := .call CantonSigner.atoint s

/-! ## The tree check -/

/-- `node_id_from_str`. -/
def nodeIdFromStr (s : Bytes) : Conv Int :=
  if s.isEmpty || 3 < s.length || !s.all isDigit then pure (-1) else atoint s

@[simp] theorem nodeIdFromStr_value (s : Bytes) :
    (nodeIdFromStr s).value = CantonSigner.nodeIdFromStr s := by
  unfold nodeIdFromStr CantonSigner.nodeIdFromStr
  split <;> rfl

/-- `tree_check_init`. -/
def treeCheckInit (roots : List Bytes) (nodesCount : Int) : Conv TreeCheck :=
  if nodesCount < 0 || maxTxNodes < nodesCount then
    pure (treeCheckReset.setTreeError .tooManyNodes)
  else
    match roots with
    | [root] => do
      let t := { treeCheckReset with nodes := List.replicate nodesCount.toNat ⟨false, false⟩ }
      let rootId ← nodeIdFromStr root
      pure (if t.inRange rootId then { t with rootId := rootId }.setClaimed rootId
        else t.setTreeError .nodeIdOutOfRange)
    | _ => pure (treeCheckReset.setTreeError .rootCount)

@[simp] theorem treeCheckInit_value (roots : List Bytes) (nodesCount : Int) :
    (treeCheckInit roots nodesCount).value = CantonSigner.treeCheckInit roots nodesCount := by
  unfold treeCheckInit CantonSigner.treeCheckInit
  split
  · rfl
  · rcases roots with _ | ⟨root, _ | ⟨_, _⟩⟩
    · rfl
    · simp only [Traced.bind_value, nodeIdFromStr_value, Traced.pure_value]
    · rfl

/-- `tree_claim_children`. -/
def treeClaimChildren (t : TreeCheck) (parentId : Int) : List Bytes → Conv TreeCheck
  | [] => pure t
  | c :: cs => do
    let child ← nodeIdFromStr c
    match claimChild t parentId child with
    | (t, false) => pure t
    | (t, true) => treeClaimChildren t parentId cs

@[simp] theorem treeClaimChildren_value (t : TreeCheck) (parentId : Int) (cs : List Bytes) :
    (treeClaimChildren t parentId cs).value = CantonSigner.treeClaimChildren t parentId cs := by
  induction cs generalizing t with
  | nil => rfl
  | cons c cs ih =>
    rw [treeClaimChildren, Traced.bind_value, nodeIdFromStr_value, CantonSigner.treeClaimChildren]
    rcases claimChild t parentId (CantonSigner.nodeIdFromStr c) with ⟨t, _ | _⟩
    · rfl
    · exact ih t

/-! ## The hash lookup -/

section Lookup

variable (store : NodeHashStore)

/-- `get_node_hash`. -/
def getNodeHash (nodeId : Bytes) : Conv (Option Bytes) := do
  let num ← atoint nodeId
  pure ((store.find? fun e => e.1 == num).map (·.2))

@[simp] theorem getNodeHash_value (nodeId : Bytes) :
    (getNodeHash store nodeId).value = CantonSigner.getNodeHash store nodeId := rfl

/-- The loop of `encode_repeated_node_ids`. -/
def encodeNodeIds : Hw → List Bytes → Conv Hw
  | w, [] => pure w
  | w, id :: ids => do
    match ← getNodeHash store id with
    | none => pure (w.setHashError .failedToLoadNodeHash)
    | some h => encodeNodeIds (w.put h) ids

@[simp] theorem encodeNodeIds_value (w : Hw) (ids : List Bytes) :
    (encodeNodeIds store w ids).value =
      CantonSigner.encodeNodeIds (CantonSigner.getNodeHash store) w ids := by
  induction ids generalizing w with
  | nil => rfl
  | cons id ids ih =>
    rw [encodeNodeIds, Traced.bind_value, getNodeHash_value, CantonSigner.encodeNodeIds]
    cases CantonSigner.getNodeHash store id with
    | none => rfl
    | some h => exact ih _

/-- The children list of an exercise or rollback node (`encode_repeated_node_ids` with the check
before it). -/
def encodeChildren (w : Hw) (ids : List Bytes) : Conv Hw :=
  if maxNodeChildren < ids.length then pure (w.setHashError .maxNodeChildrenExceeded)
  else encodeNodeIds store (encodeInt32 w ids.length) ids

@[simp] theorem encodeChildren_value (w : Hw) (ids : List Bytes) :
    (encodeChildren store w ids).value =
      CantonSigner.encodeChildren (CantonSigner.getNodeHash store) w ids := by
  unfold encodeChildren CantonSigner.encodeChildren encodeRepeatedNodeIds
  split
  · rfl
  · exact encodeNodeIds_value ..

/-- `encode_exercise_end`. -/
def encodeExerciseEnd (w : Hw) (e : Exercise) : Conv Hw :=
  encodeChildren store (encodeRepeated w wrapEncodeString e.choiceObservers) e.children

/-- `encode_rollback`. -/
def encodeRollback (w : Hw) (r : Rollback) : Conv Hw :=
  encodeChildren store (w.put [nodeEncodingVersion, 0x03]) r.children

end Lookup

/-! ## Nodes -/

section Nodes

variable (d : Device) (store : NodeHashStore) (tx : DamlTransaction)

/-- The children a node declares are claimed once per part. -/
def claimChildren (ctx : Ctx) (children : List Bytes) : Conv Ctx :=
  if ctx.treeChildrenClaimed then pure ctx
  else do
    let tree ← treeClaimChildren ctx.tree ctx.nodeId children
    pure { ctx with tree := tree, treeChildrenClaimed := true }

@[simp] theorem claimChildren_value (ctx : Ctx) (children : List Bytes) :
    (claimChildren ctx children).value = HashingParser.claimChildren ctx children := by
  unfold claimChildren HashingParser.claimChildren
  split
  · rfl
  · rw [Traced.bind_value, treeClaimChildren_value]
    rfl

/-- The hashing part of `decode_exercise`. Its values convert nothing. -/
def hashExercise (s : VState) (e : Exercise) (seed : Bytes) : Conv (Option VState) := do
  let s := (HashingParser.decodeValueFields d .chosenValue
    (s.enc fun w => encodeExerciseStart w e (some seed)) e.chosenValue).bind fun s =>
      HashingParser.decodeValueFields d .exerciseResult (s.enc fun w =>
        (encodeExerciseMiddle w e).put [0x01])
        e.exerciseResult
  match s with
  | none => pure none
  | some s => do
    let hw ← encodeExerciseEnd store s.hw e
    pure (some { s with hw := hw })

theorem hashExercise_value (s : VState) (e : Exercise) (seed : Bytes) :
    (hashExercise d store s e seed).value =
      HashingParser.hashExercise d (CantonSigner.getNodeHash store) s e seed := by
  unfold hashExercise HashingParser.hashExercise
  cases HashingParser.decodeValueFields d .chosenValue _ e.chosenValue with
  | none => rfl
  | some s =>
    dsimp only [Option.bind_eq_bind, Option.bind_some]
    cases HashingParser.decodeValueFields d .exerciseResult _ e.exerciseResult with
    | none => rfl
    | some s =>
      dsimp only [Option.bind_some]
      rw [Traced.bind_value, encodeExerciseEnd, encodeChildren_value]
      rfl

/-- `decode_exercise`, on the decoded message. -/
def decodeExercise (ctx : Ctx) (e : Exercise) : Conv (Option Ctx) :=
  if !exerciseIsComplete e || !optionalInterfaceIsComplete e.interfaceId then pure none
  else do
    let ctx := { ctx with values := valuesRecordUsedContract d ctx.values e.contractId }
    let ctx ← claimChildren ctx e.children
    match findSeed tx ctx.nodeId with
    | none | some none => pure none
    | some (some seed) => do
      let v ← hashExercise d store ctx.v e seed
      pure (v.map fun v => { ctx with v := v })

theorem decodeExercise_value (ctx : Ctx) (e : Exercise) :
    (decodeExercise d store tx ctx e).value =
      HashingParser.decodeExercise d (CantonSigner.getNodeHash store) tx ctx e := by
  unfold decodeExercise HashingParser.decodeExercise
  split
  · rfl
  · dsimp only
    rw [Traced.bind_value, claimChildren_value]
    rcases findSeed tx _ with _ | _ | seed
    · rfl
    · rfl
    · rw [Traced.bind_value, hashExercise_value, Traced.pure_value]

/-- `decode_rollback`, on the decoded message. -/
def decodeRollback (ctx : Ctx) (r : Rollback) : Conv Ctx := do
  let ctx ← claimChildren ctx r.children
  let hw ← encodeRollback store ctx.v.hw r
  pure { ctx with v := { ctx.v with hw := hw } }

theorem decodeRollback_value (ctx : Ctx) (r : Rollback) :
    (decodeRollback store ctx r).value =
      HashingParser.decodeRollback (CantonSigner.getNodeHash store) ctx r := by
  unfold decodeRollback HashingParser.decodeRollback
  rw [Traced.bind_value, claimChildren_value, Traced.bind_value, encodeRollback,
    encodeChildren_value]
  rfl

/-- `decode_node_id_field`. -/
def decodeNodeIdField (ctx : Ctx) (s : Bytes) : Conv (Option Ctx) :=
  if 4 ≤ s.length then pure none
  else do
    let nodeId ← atoint (cstr s)
    pure (some { ctx with
      isRootNode := ctx.isRootNode || tx.roots.contains (cstr s)
      nodeId := nodeId })

theorem decodeNodeIdField_value (ctx : Ctx) (s : Bytes) :
    (decodeNodeIdField tx ctx s).value = HashingParser.decodeNodeIdField tx ctx s := by
  unfold decodeNodeIdField HashingParser.decodeNodeIdField
  split <;> rfl

end Nodes
/-! ## Parts as they are read -/

/-- A message whose fields are handled as they are read, up to the first malformed one. -/
def streamed {σ : Type} (step : σ → Wire.Field → Conv (Option σ)) (s : σ) (b : Bytes) :
    Conv (Option σ) :=
  (Traced.fold step s (Wire.fieldsBefore b.length b)).andThen fun s =>
    pure (if (Wire.parseFields b).isSome then some s else none)

theorem streamed_value {σ : Type} (step : σ → Wire.Field → Conv (Option σ)) (s : σ) (b : Bytes) :
    (streamed step s b).value =
      (Wire.parseFields b).bind fun fs => fs.foldlM (fun s f => (step s f).value) s := by
  rw [streamed, Traced.andThen_value, Traced.fold_value]
  cases hparse : Wire.parseFields b with
  | none => cases (Wire.fieldsBefore b.length b).foldlM (fun s f => (step s f).value) s <;> rfl
  | some fs =>
    rw [Wire.fieldsBefore_of_parse hparse]
    exact Option.bind_fun_some _

theorem streamed_calls {σ : Type} (step : σ → Wire.Field → Conv (Option σ)) (s : σ) (b : Bytes) :
    (streamed step s b).calls = listAlong (fun s f => (step s f).value)
      (fun s f => (step s f).calls)
      s (Wire.fieldsBefore b.length b) := by
  rw [streamed, Traced.andThen_calls, Traced.fold_calls]
  cases (Traced.fold step s (Wire.fieldsBefore b.length b)).value with
  | none => exact List.append_nil _
  | some s => exact List.append_nil _

/-- The nodes of a field of a v1 node. -/
def kindsOfField (f : Wire.Field) : Option (List NodeKind) :=
  match f.tag with
  | 1 => (f.payload.content.bind CantonSigner.decodeCreate).map fun c => [.create c]
  | 2 => (f.payload.content.bind CantonSigner.decodeFetch).map fun e => [.fetch e]
  | 3 => (f.payload.content.bind CantonSigner.decodeExercise).map fun e => [.exercise e]
  | 4 => (f.payload.content.bind CantonSigner.decodeRollback).map fun r => [.rollback r]
  | 5 => f.payload.content.map fun _ => [.queryByKey]
  | _ => some []

theorem decodeNodeKinds_collects (b : Bytes) : decodeNodeKinds b =
    (Wire.parseFields b).bind
      (List.foldlM (fun ks f => (kindsOfField f).map fun l => ks ++ l) []) := by
  unfold decodeNodeKinds decodeInto kindsOfField
  congr 2
  funext ks f
  split <;> simp [*, Option.map_map, Function.comp_def]

/-- The items of a field of a node part. -/
def itemsOfField (f : Wire.Field) : Option (List NodeItem) :=
  match f.tag with
  | 1 => f.payload.callbackBytes.map fun s => [.nodeId s]
  | 1000 => (f.payload.content.bind decodeNodeKinds).map fun ks => [.v1 ks]
  | _ => some []

theorem decodeNode_collects (b : Bytes) : decodeNode b =
    (Wire.parseFields b).bind
      (List.foldlM (fun is f => (itemsOfField f).map fun l => is ++ l) []) := by
  unfold decodeNode decodeInto itemsOfField
  congr 2
  funext is f
  split <;> simp [*, Option.map_map, Function.comp_def]

/-- An exercise node without its values, as the first decode reads it. -/
def plainExercise : Bytes → Option Exercise :=
  decodeInto (exerciseField fun _ => some .nil)
    ⟨none, none, none, none, [], [], [], none, none, [], true, false, [], [], []⟩

section Parts

variable (d : Device) (store : NodeHashStore) (tx : DamlTransaction)

/-- `decode_exercise` on a message with a malformed value: it fails on the value, after the
children have been claimed. -/
def decodeMalformedExercise (ctx : Ctx) (b : Bytes) : Conv (Option Ctx) :=
  match plainExercise b with
  | none => pure none
  | some e =>
    if !exerciseIsComplete e || !optionalInterfaceIsComplete e.interfaceId then pure none
    else do
      let _ ← claimChildren ctx e.children
      pure none

theorem decodeMalformedExercise_value (ctx : Ctx) (b : Bytes) :
    (decodeMalformedExercise ctx b).value = none := by
  unfold decodeMalformedExercise
  split
  · rfl
  · split <;> rfl

/-- `node_decode_callback` on a field of a v1 node. -/
def nodeDecodeCallback (ctx : Ctx) (f : Wire.Field) : Conv (Option Ctx) :=
  match f.tag with
  | 1 => pure ((f.payload.content.bind CantonSigner.decodeCreate).bind
      (HashingParser.decodeCreate d tx ctx))
  | 2 => pure ((f.payload.content.bind CantonSigner.decodeFetch).bind
      (HashingParser.decodeFetch d ctx))
  | 3 =>
    match f.payload.content with
    | none => pure none
    | some b =>
      match CantonSigner.decodeExercise b with
      | none => decodeMalformedExercise ctx b
      | some e => decodeExercise d store tx ctx e
  | 4 =>
    match f.payload.content.bind CantonSigner.decodeRollback with
    | none => pure none
    | some r => do
      let ctx ← decodeRollback store ctx r
      pure (some ctx)
  | 5 => pure none
  | _ => pure (some ctx)

theorem nodeDecodeCallback_value (ctx : Ctx) (f : Wire.Field) :
    (nodeDecodeCallback d store tx ctx f).value = (kindsOfField f).bind fun kinds =>
      kinds.foldlM (HashingParser.nodeDecodeCallback d (CantonSigner.getNodeHash store) tx)
        ctx := by
  unfold nodeDecodeCallback kindsOfField
  split
  · cases f.payload.content.bind CantonSigner.decodeCreate with
    | none => rfl
    | some c => simp [HashingParser.nodeDecodeCallback]
  · cases f.payload.content.bind CantonSigner.decodeFetch with
    | none => rfl
    | some c => simp [HashingParser.nodeDecodeCallback]
  · cases f.payload.content with
    | none => rfl
    | some b =>
      cases hdec : CantonSigner.decodeExercise b with
      | none => simpa [hdec] using decodeMalformedExercise_value ctx b
      | some e => simpa [hdec, HashingParser.nodeDecodeCallback] using decodeExercise_value ..
  · cases f.payload.content.bind CantonSigner.decodeRollback with
    | none => rfl
    | some r => simp [HashingParser.nodeDecodeCallback, decodeRollback_value]
  · cases f.payload.content with
    | none => rfl
    | some b => simp [HashingParser.nodeDecodeCallback]
  · simp

/-- One field of a node part. -/
def decodeNodeField (ctx : Ctx) (f : Wire.Field) : Conv (Option Ctx) :=
  match f.tag with
  | 1 =>
    match f.payload.callbackBytes with
    | none => pure none
    | some s => decodeNodeIdField tx ctx s
  | 1000 =>
    match f.payload.content with
    | none => pure none
    | some b => streamed (nodeDecodeCallback d store tx) ctx b
  | _ => pure (some ctx)

theorem decodeNodeField_value (ctx : Ctx) (f : Wire.Field) :
    (decodeNodeField d store tx ctx f).value = (itemsOfField f).bind fun items =>
      items.foldlM (decodeNodeItem d (CantonSigner.getNodeHash store) tx) ctx := by
  unfold decodeNodeField itemsOfField
  split
  · cases f.payload.callbackBytes with
    | none => rfl
    | some s => simp [decodeNodeItem, decodeNodeIdField_value]
  · cases f.payload.content with
    | none => rfl
    | some b =>
      have hnodes : (streamed (nodeDecodeCallback d store tx) ctx b).value =
          (decodeNodeKinds b).bind (List.foldlM
            (HashingParser.nodeDecodeCallback d (CantonSigner.getNodeHash store) tx) ctx) := by
        rw [streamed_value, decodeNodeKinds_collects, Option.bind_assoc]
        simp only [nodeDecodeCallback_value, List.foldlM_collected]
        rfl
      simpa [decodeNodeItem, Option.bind_map] using hnodes
  · simp

end Parts

/-! ## The app -/

section App

variable (d : Device)

/-- The hashing pass over a node part as it is read. -/
def hashNodePart (st : Prepared) (buf : Bytes) : Conv (Option Ctx) :=
  streamed (decodeNodeField d st.nodeHashes st.header)
    ⟨-1, false, false, ⟨⟨[], st.hashErr⟩, -1⟩, st.tree, st.values⟩ buf

theorem hashNodePart_value (st : Prepared) (buf : Bytes) :
    (hashNodePart d st buf).value =
      (decodeNode buf).bind (CantonSigner.hashNodePart d st) := by
  rw [hashNodePart, streamed_value, decodeNode_collects, Option.bind_assoc]
  simp only [decodeNodeField_value]
  refine Option.bind_congr fun fs _ => ?_
  exact (List.foldlM_collected fs [] _).symm

/-- The header part (`RECEIVING_DAML_TX_PART`). -/
def receiveHeader (st : Prepared) (tx : DamlTransaction) : Conv PartResult := do
  let hw := hashTransaction tx
  let tree ← treeCheckInit tx.roots tx.nodesCount
  let st :=
    { st with
      header := tx
      tree := tree
      nodeHashes := initNodeHashStore st.nodeHashes
      hasher := hw.bytes
      hashErr := hw.err }
  pure (if hw.err ≠ .ok then abortPreparedTx st Sw.txHashFail
    else
      ({ st with
        recvNodeIdx := 0
        txState := if tx.nodesCount = 0 then .metadata else .damlNodes }, 0))

theorem receiveHeader_value (st : Prepared) (tx : DamlTransaction) :
    (receiveHeader st tx).value = CantonSigner.receiveHeader st tx := by
  unfold receiveHeader CantonSigner.receiveHeader
  rw [Traced.bind_value, treeCheckInit_value]
  rfl

/-- A node part (`RECEIVING_DAML_NODES`): the passes after the hashing pass convert nothing. -/
def receiveNode (st : Prepared) (buf : Bytes) : Conv PartResult := do
  let hashed ← hashNodePart d st buf
  pure (match hashed, decodeNode buf with
    | some ctx, some part =>
      let st := recordNode d st ctx
      if st.hashErr ≠ .ok then abortPreparedTx st Sw.txHashFail
      else
        let st := { st with values := HoldingParser.valuesCollectFromNode d st.values part }
        match displayNodePart d st part with
        | none => abortPreparedTx st Sw.txParsingFail
        | some st => (advanceNode st, 0)
    | _, _ => abortPreparedTx st Sw.txParsingFail)

theorem receiveNode_value (st : Prepared) (buf : Bytes) :
    (receiveNode d st buf).value =
      match decodeNode buf with
      | none => abortPreparedTx st Sw.txParsingFail
      | some part => CantonSigner.receiveNode d st part := by
  unfold receiveNode CantonSigner.receiveNode
  rw [Traced.bind_value, hashNodePart_value]
  cases decodeNode buf with
  | none => rfl
  | some part =>
    dsimp only [Option.bind_some]
    cases CantonSigner.hashNodePart d st part <;> rfl

/-- `process_prepared_tx_part`; metadata and input contracts convert nothing. -/
def processPreparedTxPart (parsed : Bool) (st : Prepared) (buf : Bytes) : Conv PartResult :=
  match st.txState with
  | .damlTxPart =>
    match decodeDamlTransaction buf with
    | none => pure (abortPreparedTx st Sw.txParsingFail)
    | some tx => receiveHeader st tx
  | .damlNodes => receiveNode d st buf
  | .metadata | .metadataInputContracts =>
    pure (CantonSigner.processPreparedTxPart d parsed st buf)

theorem processPreparedTxPart_value (parsed : Bool) (st : Prepared) (buf : Bytes) :
    (processPreparedTxPart d parsed st buf).value =
      CantonSigner.processPreparedTxPart d parsed st buf := by
  unfold processPreparedTxPart
  cases hstate : st.txState with
  | damlTxPart =>
    simp only [CantonSigner.processPreparedTxPart, hstate]
    cases decodeDamlTransaction buf with
    | none => rfl
    | some tx => exact receiveHeader_value st tx
  | damlNodes =>
    simp only [CantonSigner.processPreparedTxPart, hstate]
    exact receiveNode_value d st buf
  | metadata => rfl
  | metadataInputContracts => rfl

/-- The message processor of the flow; the other flows have no node ids. -/
def processMessage (a : App) (buf : Bytes) : Conv (Option (App × Int)) :=
  match a.signingType with
  | .preparedTransaction => do
    let r ← processPreparedTxPart d (a.state = .parsed) a.prepared buf
    pure (some (a.setPrepared r.1, r.2))
  | _ => pure (CantonSigner.processMessage d a buf)

theorem processMessage_value (a : App) (buf : Bytes) :
    (processMessage d a buf).value = CantonSigner.processMessage d a buf := by
  unfold processMessage
  cases htype : a.signingType with
  | preparedTransaction =>
    simp only [CantonSigner.processMessage, htype]
    rw [Traced.bind_value, processPreparedTxPart_value]
    rfl
  | hash => rfl
  | untypedVersionedMessage => rfl

/-- Process a complete message and answer. -/
def processAndAnswer (a : App) (buf : Bytes) : Conv (App × Output) :=
  if a.headerOverwritten then pure (App.powerUp a.allowBlindSign, .fault)
  else do
    let r ← processMessage d a buf
    pure (answerMessage a r)

theorem processAndAnswer_value (a : App) (buf : Bytes) :
    (processAndAnswer d a buf).value = CantonSigner.processAndAnswer d a buf := by
  unfold processAndAnswer CantonSigner.processAndAnswer
  split
  · rfl
  · rw [Traced.bind_value, processMessage_value]
    rfl

/-- One step of the app. Only a continuation of a flow processes a message. -/
def step (a : App) (e : Event) : Conv (App × Output) :=
  match request a e with
  | .next more msgEnd data =>
    match processNextChunk d a more msgEnd data with
    | (a, sw, buf) =>
      if sw ≠ 0 then pure (refuseTx a sw)
      else
        match buf with
        | none => pure (a, .sw Sw.ok)
        | some buf => processAndAnswer d a buf
  | _ => pure (CantonSigner.step d a e)

theorem step_value (a : App) (e : Event) : (step d a e).value = CantonSigner.step d a e := by
  unfold step
  cases hreq : request a e with
  | next more msgEnd data =>
    rw [step_next hreq, continueFlow]
    dsimp only
    by_cases hsw : (processNextChunk d a more msgEnd data).2.1 ≠ 0
    · rw [if_pos hsw, if_pos hsw]
      rfl
    · rw [if_neg hsw, if_neg hsw]
      cases (processNextChunk d a more msgEnd data).2.2 with
      | none => rfl
      | some buf => exact processAndAnswer_value d _ buf
  | untouched => rfl
  | getPublicKey => rfl
  | first => rfl
  | decide => rfl

/-- A run of the app. -/
def run : App → List Event → Conv App
  | a, [] => pure a
  | a, e :: es => do
    let r ← step d a e
    run r.1 es

theorem run_value (a : App) (es : List Event) :
    (run d a es).value = es.foldl (fun a e => (CantonSigner.step d a e).1) a := by
  induction es generalizing a with
  | nil => rfl
  | cons e es ih =>
    rw [run, Traced.bind_value, step_value, ih]
    rfl

end App

end Conversions

end CantonSigner
