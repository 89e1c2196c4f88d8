import CantonSigner.Model.Decode
import CantonSigner.Model.HashingParser
import CantonSigner.Model.HoldingParser
import CantonSigner.Model.DisplayReview

/-!
# Prepared transactions (prepared_transaction.c)

The receiving state machine of a prepared transaction: header, node parts,
metadata, input contracts, and the finalisation that produces the hash to sign.

`Prepared` gathers what this machine works on: `G_context.tx_info` and the static
state of the modules it drives. Heap allocations succeed.
-/

namespace CantonSigner

open ByteCodec

/-- `prepared_tx_receiving_state_e`. -/
inductive ReceivingState where
  | damlTxPart
  | damlNodes
  | metadata
  | metadataInputContracts
deriving Repr, DecidableEq

/-- What the receiving machine keeps apart from the shared `tx_info`. `header` and
`inputContractsCount` are what is still read of the two messages that share
`tx_parts_ctx`. -/
structure PreparedState where
  txState : ReceivingState
  header : DamlTransaction
  inputContractsCount : Int
  recvNodeIdx : Int
  hasher : Bytes
  hashErr : HashError
  nodeHashes : NodeHashStore
  partialTxHash : Bytes
  partialMdHash : Bytes
  tree : TreeCheck
  values : ValuesStore
  globals : DisplayParser.Globals

/-- The state of the receiving machine. -/
structure Prepared extends TxInfo, PreparedState

/-- What processing a part ends in: the new state and 0, or the status word that
refuses the flow. -/
abbrev PartResult := Prepared × Int

/-- `abort_prepared_tx`. -/
def abortPreparedTx (st : Prepared) (sw : Int) : PartResult :=
  ({ st with tree := treeCheckReset, values := valuesCheckReset }, sw)

/-- `process_prepared_tx_finalize` (prepared_transaction.c:232–275). `parsed` says
that the host marked this message as the last one (`STATE_PARSED`). -/
def processPreparedTxFinalize (d : Device) (parsed : Bool) (st : Prepared) : PartResult :=
  if !parsed then abortPreparedTx st Sw.badState
  else
    let st :=
      if st.review.clearSigningAvailable then
        match valuesCanClearSign st.values with
        | (values, true) => { st with values := values }
        | (values, false) =>
          { st with
            values := values
            review := cleanupDisplayItems { st.review with clearSigningAvailable := false } }
      else st
    let mdHash := d.sha st.hasher
    ({ st with
      values := valuesReleaseUsedContracts st.values
      partialMdHash := mdHash
      hasher := d.hasherAfterFinal st.hasher
      mHash := finalizeHash d st.partialTxHash mdHash
      mHashLen := 32
      globals := none }, 0)

/-- `RECEIVING_DAML_TX_PART` (prepared_transaction.c:79–111), on the decoded
header. -/
def receiveHeader (st : Prepared) (tx : DamlTransaction) : PartResult :=
  let hw := hashTransaction tx
  let st :=
    { st with
      header := tx
      tree := treeCheckInit tx.roots tx.nodesCount
      nodeHashes := initNodeHashStore st.nodeHashes
      hasher := hw.bytes
      hashErr := hw.err }
  if hw.err ≠ .ok then abortPreparedTx st Sw.txHashFail
  else
    ({ st with
      recvNodeIdx := 0
      txState := if tx.nodesCount = 0 then .metadata else .damlNodes }, 0)

/-- The end of `proto_deserialize_node` (pb_hashing_parser.c:1210–1228): the node
is marked as arrived, and its hash goes to the transaction hasher if it is a
root and to the store otherwise. -/
def recordNode (d : Device) (st : Prepared) (ctx : HashingParser.Ctx) : Prepared :=
  let nodeHash := d.sha ctx.v.hw.bytes
  let st :=
    { st with
      tree := treeMarkSeen ctx.tree ctx.nodeId
      values := ctx.values
      hashErr := ctx.v.hw.err }
  if ctx.isRootNode then { st with hasher := st.hasher ++ nodeHash }
  else { st with nodeHashes := setNodeHash st.nodeHashes ctx.nodeId nodeHash }

/-- The hashing pass over a node part from a receiving state. -/
def hashNodePart (d : Device) (st : Prepared) (part : NodePart) : Option HashingParser.Ctx :=
  HashingParser.decodeNodePart d (getNodeHash st.nodeHashes) st.header st.tree st.values st.hashErr
    part

/-- The display parse of a node part, skipped once the tree is known to be bad. -/
def displayNodePart (d : Device) (st : Prepared) (part : NodePart) : Option Prepared :=
  if treeCanClearSign st.tree then
    (DisplayParser.parseNodeForDisplay d st.globals st.review st.values part).map
      fun (globals, review, values) =>
        { st with globals := globals, review := review, values := values }
  else some st

/-- Count the part, and move on after the last one. -/
def advanceNode (st : Prepared) : Prepared :=
  let idx := st.recvNodeIdx + 1
  { st with
    recvNodeIdx := idx
    txState := if idx = st.header.nodesCount then .metadata else st.txState }

/-- `RECEIVING_DAML_NODES` (prepared_transaction.c:113–152), on the decoded part. -/
def receiveNode (d : Device) (st : Prepared) (part : NodePart) : PartResult :=
  match hashNodePart d st part with
  | none => abortPreparedTx st Sw.txParsingFail
  | some ctx =>
    let st := recordNode d st ctx
    if st.hashErr ≠ .ok then abortPreparedTx st Sw.txHashFail
    else
      let st := { st with values := HoldingParser.valuesCollectFromNode d st.values part }
      match displayNodePart d st part with
      | none => abortPreparedTx st Sw.txParsingFail
      | some st => (advanceNode st, 0)

/-- `apply_node_tree_verdict` (prepared_transaction.c:52–73): the verdict is
applied to the display state; the status word refuses an impossible tree. -/
def applyNodeTreeVerdict (st : Prepared) : PartResult :=
  let tree := treeVerifyComplete st.tree
  let st := { st with tree := tree }
  if tree.err = .ok then (st, 0)
  else if treeErrorIsImpossible tree.err then abortPreparedTx st Sw.txInvalidNodeTree
  else
    ({ st with
      review := cleanupDisplayItems { st.review with clearSigningAvailable := false } }, 0)

/-- The part of `RECEIVING_METADATA` after the verdict
(prepared_transaction.c:162–198): the transaction hash is final, and the hasher
starts over with the metadata. `release_daml_tx` frees the strings of the header, which the
model has no pointers to; see `App.headerOverwritten` for a second metadata part. -/
def hashMetadataPart (d : Device) (parsed : Bool) (st : Prepared) (md : Option Metadata) :
    PartResult :=
  let st := { st with partialTxHash := d.sha st.hasher, hasher := d.hasherAfterFinal st.hasher }
  match md with
  | none => abortPreparedTx st Sw.txParsingFail
  | some md =>
    let hw := hashMetadata st.hashErr md
    let st := { st with hasher := hw.bytes, hashErr := hw.err }
    if hw.err ≠ .ok then abortPreparedTx st Sw.txHashFail
    else
      let st := { st with recvNodeIdx := 0, inputContractsCount := md.inputContractsCount }
      if md.inputContractsCount = 0 then processPreparedTxFinalize d parsed st
      else ({ st with txState := .metadataInputContracts }, 0)

/-- `RECEIVING_METADATA` (prepared_transaction.c:153–198). -/
def receiveMetadata (d : Device) (parsed : Bool) (st : Prepared) (md : Option Metadata) :
    PartResult :=
  let verdict := applyNodeTreeVerdict st
  if verdict.2 ≠ 0 then abortPreparedTx verdict.1 verdict.2
  else hashMetadataPart d parsed verdict.1 md

/-- `RECEIVING_METADATA_INPUT_CONTRACTS` (prepared_transaction.c:199–226). -/
def receiveInputContract (d : Device) (parsed : Bool) (st : Prepared) (ic : InputContract) :
    PartResult :=
  match HashingParser.decodeInputContractPart d st.values st.hashErr ic with
  | none => abortPreparedTx st Sw.txParsingFail
  | some (v, values) =>
    let contractHash := d.sha v.hw.bytes
    let st :=
      { st with
        values := values
        hashErr := v.hw.err
        hasher := st.hasher ++ int64Bytes ic.createdAt ++ contractHash }
    if st.hashErr ≠ .ok then abortPreparedTx st Sw.txHashFail
    else
      match DisplayParser.parseInputContractForDisplay d st.globals st.review st.values ic with
      | none => abortPreparedTx st Sw.txParsingFail
      | some (globals, review, values) =>
        let idx := st.recvNodeIdx + 1
        let st :=
          { st with globals := globals, review := review, values := values, recvNodeIdx := idx }
        if idx = st.inputContractsCount then processPreparedTxFinalize d parsed st
        else (st, 0)

/-- `process_prepared_tx_part` (prepared_transaction.c:75–230). -/
def processPreparedTxPart (d : Device) (parsed : Bool) (st : Prepared) (buf : Bytes) :
    PartResult :=
  match st.txState with
  | .damlTxPart =>
    match decodeDamlTransaction buf with
    | none => abortPreparedTx st Sw.txParsingFail
    | some tx => receiveHeader st tx
  | .damlNodes =>
    match decodeNode buf with
    | none => abortPreparedTx st Sw.txParsingFail
    | some part => receiveNode d st part
  | .metadata => receiveMetadata d parsed st (decodeMetadata buf)
  | .metadataInputContracts =>
    match decodeInputContract buf with
    | none => abortPreparedTx st Sw.txParsingFail
    | some ic => receiveInputContract d parsed st ic

end CantonSigner
