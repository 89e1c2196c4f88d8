import CantonSigner.Lib.Run
import CantonSigner.Model.SignTx

/-!
# The receiving machine of a prepared transaction

A prepared-transaction flow between two first APDUs, seen from the modules that
receive it: `receiving` starts from the state a first APDU leaves and takes the
parts that are accepted, in the order they arrive. Between parts, a review shown
or decided too early may replace the rows on display (`PartEvent.rows`).

`accepted_cases` says once what an accepted part does, by the receiving state it
meets; the results about flows start from it.
-/

namespace CantonSigner

open ByteCodec

/-- What happens to a prepared transaction. -/
inductive PartEvent where
  /-- A complete message, marked when the host says that it is the last one. -/
  | part (parsed : Bool) (buf : Bytes)
  /-- The rows of the review or the signature are replaced. -/
  | rows (pairs : Option (List Pair)) (signature : Bytes)
deriving Repr, DecidableEq

/-- The state a first APDU leaves: a cleaned context that waits for the header.
The node hash store and the hash error are those of the flow before. -/
def Prepared.Fresh (st : Prepared) : Prop :=
  ∃ p : PreparedState, st = ⟨TxInfo.zero, { p.clean with txState := .damlTxPart }⟩

/-- The state the first APDU after power-up leaves. -/
def Prepared.start : Prepared :=
  ⟨TxInfo.zero, { PreparedState.powerUp.clean with txState := .damlTxPart }⟩

theorem Prepared.start_fresh : Prepared.start.Fresh := ⟨_, rfl⟩

/-- Replace the rows on display and the signature. -/
def Prepared.setRows (st : Prepared) (pairs : Option (List Pair)) (signature : Bytes) : Prepared :=
  { st with review := { st.review with pairs := pairs }, signature := signature }

/-- The receiving machine; a refused part is no step. -/
def receiving (d : Device) : Machine Prepared PartEvent where
  init := Prepared.Fresh
  step st
    | .part parsed buf =>
      let r := processPreparedTxPart d parsed st buf
      if r.2 = 0 then some r.1 else none
    | .rows pairs signature => some (st.setRows pairs signature)

/-- A condition on the parts of a flow; the rows are free. -/
def onParts (ok : Prepared → Bool → Bytes → Prop) : Prepared → PartEvent → Prop
  | st, .part parsed buf => ok st parsed buf
  | _, .rows .. => True

/-! ## What an accepted part does -/

/-- The state after an accepted header. -/
def Prepared.withHeader (st : Prepared) (tx : DamlTransaction) : Prepared :=
  { st with
    header := tx
    tree := treeCheckInit tx.roots tx.nodesCount
    nodeHashes := initNodeHashStore st.nodeHashes
    hasher := (hashTransaction tx).bytes
    hashErr := (hashTransaction tx).err
    recvNodeIdx := 0
    txState := if tx.nodesCount = 0 then .metadata else .damlNodes }

/-- The state after the hashing and the value pass over a node part. -/
def Prepared.withNode (d : Device) (st : Prepared) (ctx : HashingParser.Ctx) (part : NodePart) :
    Prepared :=
  let st := recordNode d st ctx
  { st with values := HoldingParser.valuesCollectFromNode d st.values part }

/-- The state after the metadata is hashed. -/
def Prepared.withMetadata (d : Device) (st : Prepared) (md : Metadata) : Prepared :=
  { st with
    partialTxHash := d.sha st.hasher
    hasher := (hashMetadata st.hashErr md).bytes
    hashErr := (hashMetadata st.hashErr md).err
    recvNodeIdx := 0
    inputContractsCount := md.inputContractsCount }

/-- The state after an input contract is hashed and parsed for display. -/
def Prepared.withContract (d : Device) (st : Prepared) (ic : InputContract)
    (v : HashingParser.VState) (shown : DisplayParser.Globals × Review × ValuesStore) : Prepared :=
  { st with
    hashErr := v.hw.err
    hasher := st.hasher ++ int64Bytes ic.createdAt ++ d.sha v.hw.bytes
    globals := shown.1
    review := shown.2.1
    values := shown.2.2
    recvNodeIdx := st.recvNodeIdx + 1 }

/-- The state after `process_prepared_tx_finalize` ran to its end. -/
def Prepared.finalized (d : Device) (st : Prepared) : Prepared :=
  (processPreparedTxFinalize d true st).1

variable {d : Device} {st st' : Prepared} {parsed : Bool} {buf : Bytes}

/-- An accepted header. -/
structure HeaderStep (st : Prepared) (buf : Bytes) (st' : Prepared) (tx : DamlTransaction) :
    Prop where
  state : st.txState = .damlTxPart
  decoded : decodeDamlTransaction buf = some tx
  hashed : (hashTransaction tx).err = .ok
  result : st' = st.withHeader tx

/-- An accepted node part. -/
structure NodeStep (d : Device) (st : Prepared) (buf : Bytes) (st' : Prepared) (part : NodePart)
    (ctx : HashingParser.Ctx) : Prop where
  state : st.txState = .damlNodes
  decoded : decodeNode buf = some part
  hashed : hashNodePart d st part = some ctx
  noError : ctx.v.hw.err = .ok
  result : ∃ shown, displayNodePart d (st.withNode d ctx part) part = some shown ∧
    st' = advanceNode shown

/-- An accepted metadata part; `finalized` tells whether it completed the
transaction. -/
structure MetadataStep (d : Device) (st : Prepared) (parsed : Bool) (buf : Bytes)
    (st' : Prepared) (md : Metadata) : Prop where
  state : st.txState = .metadata
  verdict : (applyNodeTreeVerdict st).2 = 0
  decoded : decodeMetadata buf = some md
  noError : (hashMetadata st.hashErr md).err = .ok
  result :
    (md.inputContractsCount = 0 ∧ parsed = true ∧
      st' = ((applyNodeTreeVerdict st).1.withMetadata d md).finalized d) ∨
    (md.inputContractsCount ≠ 0 ∧
      st' = { (applyNodeTreeVerdict st).1.withMetadata d md with
        txState := .metadataInputContracts })

/-- An accepted input contract. -/
structure ContractStep (d : Device) (st : Prepared) (parsed : Bool) (buf : Bytes)
    (st' : Prepared) (ic : InputContract) (v : HashingParser.VState) (values : ValuesStore)
    (shown : DisplayParser.Globals × Review × ValuesStore) : Prop where
  state : st.txState = .metadataInputContracts
  decoded : decodeInputContract buf = some ic
  hashed : HashingParser.decodeInputContractPart d st.values st.hashErr ic = some (v, values)
  noError : v.hw.err = .ok
  displayed : DisplayParser.parseInputContractForDisplay d st.globals st.review values ic =
    some shown
  result :
    (st.recvNodeIdx + 1 = st.inputContractsCount ∧ parsed = true ∧
      st' = (st.withContract d ic v shown).finalized d) ∨
    (st.recvNodeIdx + 1 ≠ st.inputContractsCount ∧ st' = st.withContract d ic v shown)

theorem not_accepted_abort {sw : Int} (hsw : sw ≠ 0) :
    abortPreparedTx st sw ≠ (st', 0) := by
  intro h
  exact hsw (congrArg Prod.snd h)

theorem finalize_accepted (h : processPreparedTxFinalize d parsed st = (st', 0)) :
    parsed = true ∧ st' = st.finalized d := by
  cases parsed with
  | false => exact absurd h (not_accepted_abort (by decide))
  | true => exact ⟨rfl, (congrArg Prod.fst h).symm⟩

theorem receiveHeader_accepted {tx : DamlTransaction} (h : receiveHeader st tx = (st', 0)) :
    (hashTransaction tx).err = .ok ∧ st' = st.withHeader tx := by
  unfold receiveHeader at h
  dsimp only at h
  split at h
  · exact absurd h (not_accepted_abort (by decide))
  · rename_i herr
    exact ⟨by simpa using herr, (congrArg Prod.fst h).symm⟩

theorem receiveNode_accepted {part : NodePart} (h : receiveNode d st part = (st', 0)) :
    ∃ ctx, hashNodePart d st part = some ctx ∧ ctx.v.hw.err = .ok ∧
      ∃ shown, displayNodePart d (st.withNode d ctx part) part = some shown ∧
        st' = advanceNode shown := by
  unfold receiveNode at h
  cases hh : hashNodePart d st part with
  | none =>
    rw [hh] at h
    exact absurd h (not_accepted_abort (by decide))
  | some ctx =>
    rw [hh] at h
    have herrEq : (recordNode d st ctx).hashErr = ctx.v.hw.err := by
      unfold recordNode
      dsimp only
      split <;> rfl
    dsimp only at h
    split at h
    · exact absurd h (not_accepted_abort (by decide))
    · rename_i herr
      refine ⟨ctx, rfl, by rw [← herrEq]; simpa using herr, ?_⟩
      split at h
      · exact absurd h (not_accepted_abort (by decide))
      · rename_i shown hshown
        exact ⟨shown, hshown, (congrArg Prod.fst h).symm⟩

theorem applyNodeTreeVerdict_hashErr (st : Prepared) :
    (applyNodeTreeVerdict st).1.hashErr = st.hashErr := by
  unfold applyNodeTreeVerdict abortPreparedTx
  dsimp only
  split
  · rfl
  · split <;> rfl

theorem receiveMetadata_accepted {md : Option Metadata}
    (h : receiveMetadata d parsed st md = (st', 0)) :
    (applyNodeTreeVerdict st).2 = 0 ∧ ∃ m, md = some m ∧ (hashMetadata st.hashErr m).err = .ok ∧
      ((m.inputContractsCount = 0 ∧ parsed = true ∧
          st' = ((applyNodeTreeVerdict st).1.withMetadata d m).finalized d) ∨
        (m.inputContractsCount ≠ 0 ∧
          st' = { (applyNodeTreeVerdict st).1.withMetadata d m with
            txState := .metadataInputContracts })) := by
  unfold receiveMetadata at h
  dsimp only at h
  split at h
  · rename_i hverdict
    exact absurd h (not_accepted_abort hverdict)
  · rename_i hverdict
    refine ⟨by simpa using hverdict, ?_⟩
    unfold hashMetadataPart at h
    dsimp only at h
    split at h
    · exact absurd h (not_accepted_abort (by decide))
    · rename_i m
      rw [applyNodeTreeVerdict_hashErr] at h
      split at h
      · exact absurd h (not_accepted_abort (by decide))
      · rename_i herr
        refine ⟨m, rfl, by simpa using herr, ?_⟩
        -- the tree verdict does not touch the hash error
        have hwith : (applyNodeTreeVerdict st).1.withMetadata d m =
            { (applyNodeTreeVerdict st).1 with
              partialTxHash := d.sha (applyNodeTreeVerdict st).1.hasher
              hasher := (hashMetadata st.hashErr m).bytes
              hashErr := (hashMetadata st.hashErr m).err
              recvNodeIdx := 0
              inputContractsCount := m.inputContractsCount } := by
          simp only [Prepared.withMetadata, applyNodeTreeVerdict_hashErr]
        split at h
        · -- no contract is announced: the flow is finalised here
          rename_i hzero
          obtain ⟨hparsed, hst⟩ := finalize_accepted h
          exact .inl ⟨hzero, hparsed, by rw [hst, hwith]⟩
        · -- contracts are announced and awaited
          rename_i hzero
          refine .inr ⟨hzero, ?_⟩
          rw [hwith]
          exact (congrArg Prod.fst h).symm

theorem receiveInputContract_accepted {ic : InputContract}
    (h : receiveInputContract d parsed st ic = (st', 0)) :
    ∃ v values shown,
      HashingParser.decodeInputContractPart d st.values st.hashErr ic = some (v, values) ∧
      v.hw.err = .ok ∧
      DisplayParser.parseInputContractForDisplay d st.globals st.review values ic = some shown ∧
      ((st.recvNodeIdx + 1 = st.inputContractsCount ∧ parsed = true ∧
          st' = (st.withContract d ic v shown).finalized d) ∨
        (st.recvNodeIdx + 1 ≠ st.inputContractsCount ∧ st' = st.withContract d ic v shown)) := by
  unfold receiveInputContract at h
  split at h
  · exact absurd h (not_accepted_abort (by decide))
  · rename_i v values hhash
    dsimp only at h
    split at h
    · exact absurd h (not_accepted_abort (by decide))
    · rename_i herr
      split at h
      · exact absurd h (not_accepted_abort (by decide))
      · rename_i globals review values' hshown
        refine ⟨v, values, (globals, review, values'), hhash, by simpa using herr, hshown, ?_⟩
        split at h
        · rename_i hidx
          obtain ⟨hparsed, hst⟩ := finalize_accepted h
          exact .inl ⟨hidx, hparsed, hst⟩
        · rename_i hidx
          exact .inr ⟨hidx, (congrArg Prod.fst h).symm⟩

/-- What an accepted part is, by the receiving state it meets. -/
theorem accepted_cases (h : processPreparedTxPart d parsed st buf = (st', 0)) :
    (∃ tx, HeaderStep st buf st' tx) ∨
    (∃ part ctx, NodeStep d st buf st' part ctx) ∨
    (∃ md, MetadataStep d st parsed buf st' md) ∨
    (∃ ic v values shown, ContractStep d st parsed buf st' ic v values shown) := by
  unfold processPreparedTxPart at h
  split at h
  · rename_i hstate
    split at h
    · exact absurd h (not_accepted_abort (by decide))
    · rename_i tx hdec
      obtain ⟨herr, hst⟩ := receiveHeader_accepted h
      exact .inl ⟨tx, hstate, hdec, herr, hst⟩
  · rename_i hstate
    split at h
    · exact absurd h (not_accepted_abort (by decide))
    · rename_i part hdec
      obtain ⟨ctx, hhash, herr, hres⟩ := receiveNode_accepted h
      exact .inr (.inl ⟨part, ctx, hstate, hdec, hhash, herr, hres⟩)
  · rename_i hstate
    obtain ⟨hverdict, md, hdec, herr, hres⟩ := receiveMetadata_accepted h
    exact .inr (.inr (.inl ⟨md, hstate, hverdict, hdec, herr, hres⟩))
  · rename_i hstate
    split at h
    · exact absurd h (not_accepted_abort (by decide))
    · rename_i ic hdec
      obtain ⟨v, values, shown, hhash, herr, hshown, hres⟩ := receiveInputContract_accepted h
      exact .inr (.inr (.inr ⟨ic, v, values, shown, hstate, hdec, hhash, herr, hshown, hres⟩))

/-- A step of the machine is an accepted part or new rows. -/
theorem receiving_step_cases {e : PartEvent} (h : (receiving d).step st e = some st') :
    (∃ parsed buf, e = .part parsed buf ∧ processPreparedTxPart d parsed st buf = (st', 0)) ∨
    (∃ pairs signature, e = .rows pairs signature ∧ st' = st.setRows pairs signature) := by
  cases e with
  | part parsed buf =>
    left
    simp only [receiving] at h
    split at h
    · rename_i hzero
      refine ⟨parsed, buf, rfl, ?_⟩
      rw [← Option.some.inj h, ← hzero]
    · cases h
  | rows pairs signature =>
    right
    exact ⟨pairs, signature, rfl, (Option.some.inj h).symm⟩

/-! ## What the steps leave alone -/

@[simp] theorem withNode_review (ctx : HashingParser.Ctx) (part : NodePart) :
    (st.withNode d ctx part).review = st.review := by
  simp only [Prepared.withNode, recordNode]; split <;> rfl

@[simp] theorem withNode_globals (ctx : HashingParser.Ctx) (part : NodePart) :
    (st.withNode d ctx part).globals = st.globals := by
  simp only [Prepared.withNode, recordNode]; split <;> rfl

@[simp] theorem withNode_mHashLen (ctx : HashingParser.Ctx) (part : NodePart) :
    (st.withNode d ctx part).mHashLen = st.mHashLen := by
  simp only [Prepared.withNode, recordNode]; split <;> rfl

@[simp] theorem withNode_txState (ctx : HashingParser.Ctx) (part : NodePart) :
    (st.withNode d ctx part).txState = st.txState := by
  simp only [Prepared.withNode, recordNode]; split <;> rfl

@[simp] theorem withNode_header (ctx : HashingParser.Ctx) (part : NodePart) :
    (st.withNode d ctx part).header = st.header := by
  simp only [Prepared.withNode, recordNode]; split <;> rfl

@[simp] theorem withNode_recvNodeIdx (ctx : HashingParser.Ctx) (part : NodePart) :
    (st.withNode d ctx part).recvNodeIdx = st.recvNodeIdx := by
  simp only [Prepared.withNode, recordNode]; split <;> rfl

@[simp] theorem withNode_hashErr (ctx : HashingParser.Ctx) (part : NodePart) :
    (st.withNode d ctx part).hashErr = ctx.v.hw.err := by
  simp only [Prepared.withNode, recordNode]; split <;> rfl

@[simp] theorem withNode_tree (ctx : HashingParser.Ctx) (part : NodePart) :
    (st.withNode d ctx part).tree = treeMarkSeen ctx.tree ctx.nodeId := by
  simp only [Prepared.withNode, recordNode]; split <;> rfl

@[simp] theorem withNode_values (ctx : HashingParser.Ctx) (part : NodePart) :
    (st.withNode d ctx part).values = HoldingParser.valuesCollectFromNode d ctx.values part := by
  simp only [Prepared.withNode, recordNode]; split <;> rfl

theorem withNode_hasher (ctx : HashingParser.Ctx) (part : NodePart) :
    (st.withNode d ctx part).hasher =
      st.hasher ++ (if ctx.isRootNode then d.sha ctx.v.hw.bytes else []) := by
  simp only [Prepared.withNode, recordNode]
  split <;> simp

theorem withNode_nodeHashes (ctx : HashingParser.Ctx) (part : NodePart) :
    (st.withNode d ctx part).nodeHashes = if ctx.isRootNode then st.nodeHashes
      else setNodeHash st.nodeHashes ctx.nodeId (d.sha ctx.v.hw.bytes) := by
  simp only [Prepared.withNode, recordNode]
  split <;> rfl

/-- The display pass over a node part changes the screen state only. -/
theorem displayNodePart_cases {part : NodePart} (h : displayNodePart d st part = some st') :
    (treeCanClearSign st.tree = false ∧ st' = st) ∨
    (treeCanClearSign st.tree = true ∧ ∃ shown,
      DisplayParser.parseNodeForDisplay d st.globals st.review st.values part = some shown ∧
      st' = { st with globals := shown.1, review := shown.2.1, values := shown.2.2 }) := by
  unfold displayNodePart at h
  cases hc : treeCanClearSign st.tree with
  | false =>
    rw [hc] at h
    cases h
    exact .inl ⟨rfl, rfl⟩
  | true =>
    rw [hc] at h
    obtain ⟨shown, hshown, heq⟩ := Option.map_eq_some_iff.mp h
    exact .inr ⟨rfl, shown, hshown, heq.symm⟩

/-- An accepted verdict leaves the state alone but for the tree, and turns clear
signing off when it is bad. -/
theorem applyNodeTreeVerdict_accepted (h : (applyNodeTreeVerdict st).2 = 0) :
    (applyNodeTreeVerdict st).1 =
      { st with
        tree := treeVerifyComplete st.tree
        review := if (treeVerifyComplete st.tree).err = .ok then st.review
          else cleanupDisplayItems { st.review with clearSigningAvailable := false } } := by
  unfold applyNodeTreeVerdict at h ⊢
  dsimp only at h ⊢
  split
  · simp
  · rename_i hbad
    simp only [hbad, ↓reduceIte] at h ⊢
    split at h
    · have hsw : Sw.txInvalidNodeTree = 0 := h
      exact absurd hsw (by decide)
    · rename_i himp
      simp [himp]

/-- Finalising turns clear signing off when the values do not agree, produces the
hash, and ends the deferred match. -/
theorem finalized_eq (st : Prepared) :
    st.finalized d =
      { st with
        values := valuesReleaseUsedContracts
          (if st.review.clearSigningAvailable then (valuesCanClearSign st.values).1 else st.values)
        review := if st.review.clearSigningAvailable && !(valuesCanClearSign st.values).2 then
            cleanupDisplayItems { st.review with clearSigningAvailable := false }
          else st.review
        partialMdHash := d.sha st.hasher
        hasher := d.hasherAfterFinal st.hasher
        mHash := finalizeHash d st.partialTxHash (d.sha st.hasher)
        mHashLen := 32
        globals := none } := by
  unfold Prepared.finalized processPreparedTxFinalize
  cases hc : st.review.clearSigningAvailable with
  | false => simp
  | true =>
    rcases hv : valuesCanClearSign st.values with ⟨values, ok⟩
    cases ok <;> simp

end CantonSigner
