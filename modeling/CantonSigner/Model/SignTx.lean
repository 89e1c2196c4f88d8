import CantonSigner.Model.PreparedTransaction
import CantonSigner.Model.UntypedVersionedMsg

/-!
# The app as a state machine (dispatcher.c, sign_tx.c, get_public_key.c, ui/)

The whole app between power-up and power-down: every APDU and every user
decision is one step.

- `App`: `G_context` and the static state of the modules, the screen on display,
  and the blind-signing setting;
- `Event`: an APDU, a choice on a review screen, or a change of the setting;
- `step`: what the app does with an event and what it answers.
-/

namespace CantonSigner

open ByteCodec

/-- `state_e`. -/
inductive State where
  | none
  | expectingMore
  | msgComplete
  | parsed
  | approved
deriving Repr, DecidableEq

/-- `request_type_e`. -/
inductive ReqType where
  | confirmAddress
  | confirmTransaction
deriving Repr, DecidableEq

/-- `signing_type_e`. -/
inductive SigningType where
  | hash
  | untypedVersionedMessage
  | preparedTransaction
deriving Repr, DecidableEq

/-- What is on display. A review keeps its callback until another screen
replaces it. -/
inductive Screen where
  | menu
  | clearReview (title finish : Option Bytes) (rows : List Pair)
  | blindReview (rows : List Pair)
  | addressReview (partyId : Bytes)
  | blindSigningError
deriving Repr, DecidableEq

/-- The app. `rawTx` is the first `raw_tx_len` bytes of the receive buffer;
`publicKey` is `pk_info`. -/
structure App where
  state : State
  reqType : ReqType
  signingType : SigningType
  bip32Path : List Nat
  rawTx : Bytes
  tx : TxInfo
  prep : PreparedState
  topo : TopologyState
  publicKey : Bytes × Bytes
  screen : Screen
  allowBlindSign : Bool

/-- What the app answers to an event. -/
inductive Output where
  /-- A status word without data. -/
  | sw (v : Int)
  /-- Data and `SW_OK`. -/
  | response (data : Bytes)
  /-- A screen, and no answer yet. -/
  | shown (s : Screen)
  | nothing
  /-- A `LEDGER_ASSERT` failed: the session is over. -/
  | assertion
  /-- Memory outside the heap is freed: the session is over. -/
  | fault
deriving Repr, DecidableEq

/-- An APDU command of class `CLA`. -/
structure Command where
  ins : UInt8
  p1 : UInt8
  p2 : UInt8
  data : Bytes
deriving Repr, DecidableEq

/-- What can happen to the app. -/
inductive Event where
  | apdu (c : Command)
  | choice (confirm : Bool)
  | setBlindSigning (allow : Bool)
deriving Repr, DecidableEq

/-! ## Contexts -/

/-- The empty transaction header. -/
def DamlTransaction.zero : DamlTransaction := ⟨none, [], 0, []⟩

/-- The state of the prepared-transaction modules at power-up. -/
def PreparedState.powerUp : PreparedState where
  txState := .damlTxPart
  header := .zero
  inputContractsCount := 0
  recvNodeIdx := 0
  hasher := []
  hashErr := .ok
  nodeHashes := SlotRing.init (0, List.replicate 32 0) (by decide)
  partialTxHash := []
  partialMdHash := []
  tree := ⟨[], 0, .ok⟩
  values := { valuesCheckReset with ok := false }
  globals := none

/-- The state of the topology module at power-up. -/
def TopologyState.powerUp : TopologyState :=
  ⟨none, false, false, false, List.replicate 4 false, none⟩

/-- The app at power-up. -/
def App.powerUp (allowBlindSign : Bool) : App where
  state := .none
  reqType := .confirmAddress
  signingType := .hash
  bip32Path := []
  rawTx := []
  tx := .zero
  prep := .powerUp
  topo := .powerUp
  publicKey := ([], [])
  screen := .menu
  allowBlindSign := allowBlindSign

/-- What `clean_context` leaves of the prepared-transaction modules: the receiving
state, the hash error and the node hash store are not touched. -/
def PreparedState.clean (p : PreparedState) : PreparedState :=
  { p with
    header := .zero
    inputContractsCount := 0
    recvNodeIdx := 0
    hasher := []
    partialTxHash := []
    partialMdHash := []
    tree := treeCheckReset
    values := valuesCheckReset
    globals := none }

/-- `clean_context` (utils.c:94–103). -/
def cleanContext (a : App) : App :=
  { a with
    state := .none
    reqType := .confirmAddress
    signingType := .hash
    bip32Path := []
    rawTx := []
    tx := .zero
    prep := a.prep.clean
    publicKey := ([], []) }

/-- The end of a session by assertion: the app starts again, the setting is
kept. -/
def assertFailed (a : App) : App × Output := (App.powerUp a.allowBlindSign, .assertion)

/-- `buffer_read_u8` and `buffer_read_bip32_path`: the path and what follows it. -/
def readBip32Path : Bytes → Option (List Nat × Bytes)
  | [] => none
  | len :: rest =>
    let n := len.toNat
    if n = 0 || maxBip32Path < n || rest.length < 4 * n then none
    else
      some ((List.range n).map fun i =>
        ((rest.drop (4 * i)).take 4).foldl (fun acc b => acc * 256 + b.toNat) 0,
        rest.drop (4 * n))

/-- `derive_public_key` (get_public_key.c:40–82): the Y-coordinate in
little-endian order with the parity of X in the top bit. -/
def derivePublicKey (d : Device) (path : List Nat) : Except Int (Bytes × Bytes) :=
  match d.derivePoint path with
  | .error e => .error e
  | .ok (point, chainCode) =>
    let y := ((point.drop 33).take 32).reverse
    let key :=
      if (point.getD 32 0) &&& 1 ≠ 0 then y.modify 31 (· ||| 0x80) else y
    .ok (key, chainCode)

/-! ## GET_PUBLIC_KEY -/

/-- `helper_send_response_pubkey`. -/
def pubkeyResponse (key : Bytes × Bytes) : Bytes := [32] ++ key.1 ++ [32] ++ key.2

/-- `handler_get_public_key` (get_public_key.c:84–108). -/
def handlerGetPublicKey (d : Device) (a : App) (data : Bytes) (display : Bool) : App × Output :=
  let a := cleanContext a
  match readBip32Path data with
  | none => (a, .sw Sw.wrongDataLength)
  | some (path, _) =>
    let a := { a with bip32Path := path }
    match derivePublicKey d path with
    | .error e => (a, .sw e)
    | .ok key =>
      let a := { a with publicKey := key }
      if display then
        let screen := .addressReview (partyIdFromPubkey d key.1)
        ({ a with screen := screen }, .shown screen)
      else (a, .response (pubkeyResponse key))

/-! ## SIGN_TX -/

/-- `refuse_tx` (sign_tx.c:53–57). -/
def refuseTx (a : App) (sw : Int) : App × Output :=
  ({ a with reqType := .confirmAddress, state := .none }, .sw sw)

/-- The prepared-transaction state seen from the app. -/
def App.prepared (a : App) : Prepared := ⟨a.tx, a.prep⟩

/-- The topology state seen from the app. -/
def App.topology (a : App) : Topology := ⟨a.tx, a.topo⟩

/-- Write a prepared-transaction state back. -/
def App.setPrepared (a : App) (st : Prepared) : App :=
  { a with tx := st.toTxInfo, prep := st.toPreparedState }

/-- Write a topology state back. -/
def App.setTopology (a : App) (t : Topology) : App :=
  { a with tx := t.toTxInfo, topo := t.toTopologyState }

/-- `process_untyped_versioned_msg_tx_init` (untyped_versioned_msg.c:222–256) with
the rest of the first APDU; `none` is a failed assertion. -/
def processUntypedVersionedMsgTxInit (d : Device) (a : App) (rest : Bytes) :
    Option (App × Bool) :=
  match derivePublicKey d a.bip32Path with
  | .error _ => none
  | .ok key =>
    let challenge := readChallengeAndDeadline rest
    some ({ a with
      tx := { a.tx with review := { a.tx.review with pairs := some [] }, signature := key.1 }
      topo := ⟨some [], false, false, false, List.replicate 4 false, challenge.join⟩ },
      challenge.isSome)

/-- The first APDU of a flow, in `process_tx_chunk` (sign_tx.c:126–156). -/
def processFirstChunk (d : Device) (a : App) (type : SigningType) (data : Bytes) :
    Option (App × Int) :=
  let a := cleanContext a
  match readBip32Path data with
  | none => some (a, Sw.wrongDataLength)
  | some (path, rest) =>
    let a := { a with bip32Path := path }
    let accept (a : App) : App :=
      { a with
        reqType := .confirmTransaction
        signingType := type
        tx := { a.tx with review := { a.tx.review with clearSigningAvailable := false } }
        state := .expectingMore }
    match type with
    | .preparedTransaction =>
      some (accept { a with prep := { a.prep with txState := .damlTxPart } }, 0)
    | .hash => some (accept a, 0)
    | .untypedVersionedMessage =>
      match processUntypedVersionedMsgTxInit d a rest with
      | none => none
      | some (a, false) => some (a, Sw.wrongDataLength)
      | some (a, true) => some (accept a, 0)

/-- The rest of the chunks, in `process_tx_chunk` (sign_tx.c:157–195): the status
word, and the message to process when one is complete. -/
def processNextChunk (d : Device) (a : App) (more msgEnd : Bool) (data : Bytes) :
    App × Int × Option Bytes :=
  if a.reqType ≠ .confirmTransaction then (a, Sw.badState, none)
  else if d.maxTransactionLen < a.rawTx.length + data.length then (a, Sw.wrongTxLength, none)
  else
    let raw := a.rawTx ++ data
    let a := { a with rawTx := raw }
    match msgEnd, more with
    | true, true => ({ a with rawTx := [], state := .msgComplete }, 0, some raw)
    | true, false => ({ a with state := .parsed }, 0, some raw)
    | false, true => ({ a with state := .expectingMore }, 0, none)
    | false, false => (a, Sw.badState, none)

/-- `process_transaction_hash` (sign_tx.c:197–214). -/
def processTransactionHash (a : App) (buf : Bytes) : App × Int :=
  if a.state ≠ .parsed then (a, Sw.badState)
  else if buf.length ≠ 32 && buf.length ≠ 34 then (a, Sw.wrongDataLength)
  else ({ a with tx := { a.tx with mHash := buf, mHashLen := buf.length } }, 0)

/-- The message processor of the flow; `none` is a failed assertion. -/
def processMessage (d : Device) (a : App) (buf : Bytes) : Option (App × Int) :=
  match a.signingType with
  | .preparedTransaction =>
    let r := processPreparedTxPart d (a.state = .parsed) a.prepared buf
    some (a.setPrepared r.1, r.2)
  | .hash => some (processTransactionHash a buf)
  | .untypedVersionedMessage =>
    match processUntypedVersionedMsgTx d (a.state = .parsed) a.topology buf with
    | .assertion => none
    | .refused t sw => some (a.setTopology t, sw)
    | .ok t => some (a.setTopology t, 0)

/-- `%H`: two uppercase hex digits per byte. -/
def hexUpper (b : Bytes) : Bytes :=
  b.flatMap fun c =>
    let digit (n : Nat) : UInt8 := UInt8.ofNat (if n < 10 then 48 + n else 55 + n)
    [digit (c.toNat / 16), digit (c.toNat % 16)]

/-- `ui_display_transaction_bs_choice` (nbgl_display_transaction.c:57–121): a clear
review shows the rows of the display parser, a blind one the hash only. -/
def uiDisplayTransactionBsChoice (a : App) (isBlindSigned : Bool) : App × Output :=
  if a.reqType ≠ .confirmTransaction || a.state ≠ .parsed then
    ({ a with state := .none }, .sw Sw.badState)
  else if isBlindSigned then
    let rows := [(str "Transaction hash", hexUpper (a.tx.mHash.take a.tx.mHashLen))]
    let screen := Screen.blindReview rows
    ({ a with
      tx := { a.tx with review := { a.tx.review with pairs := some rows } }
      screen := screen }, .shown screen)
  else
    let screen := Screen.clearReview a.tx.review.reviewTitle a.tx.review.reviewFinish
      (a.tx.review.pairs.getD [])
    ({ a with screen := screen }, .shown screen)

/-- `ui_display_transaction`. -/
def uiDisplayTransaction (a : App) : App × Output := uiDisplayTransactionBsChoice a false

/-- `ui_display_blind_signed_transaction`. -/
def uiDisplayBlindSignedTransaction (a : App) : App × Output :=
  uiDisplayTransactionBsChoice a true

/-- `ui_error_blind_signing` (blind_signing.c:21–40). -/
def uiErrorBlindSigning (a : App) : App × Output :=
  ({ a with
    tx := { a.tx with review := cleanupDisplayItems a.tx.review }
    screen := .blindSigningError }, .sw Sw.incorrectData)

/-- The review of a completely received transaction (sign_tx.c:103–110). -/
def startReview (a : App) : App × Output :=
  if a.tx.review.clearSigningAvailable then uiDisplayTransaction a
  else if !a.allowBlindSign then uiErrorBlindSigning a
  else uiDisplayBlindSignedTransaction a

/-- `RECEIVING_METADATA` runs `release_daml_tx` on the union that header and metadata
share. The header is there until the metadata is decoded over it, and the state is left
unless the metadata announces no input contracts and completes the transaction: after
that the pointers that `pb_release` frees are fields of the metadata, `version` its
`has_submitter_info`. -/
def App.headerOverwritten (a : App) : Bool :=
  a.signingType = .preparedTransaction && a.prep.txState = .metadata && a.tx.mHashLen = 32

/-- The answer to a processed message (sign_tx.c:92–113). -/
def answerMessage (a : App) : Option (App × Int) → App × Output
  | none => assertFailed a
  | some (a, sw) =>
    if sw ≠ 0 then
      refuseTx { a with tx := { a.tx with review := cleanupDisplayItems a.tx.review } } sw
    else if a.state = .parsed then startReview a
    else (a, .sw Sw.ok)

/-- Process a complete message and answer (sign_tx.c:80–113). -/
def processAndAnswer (d : Device) (a : App) (buf : Bytes) : App × Output :=
  if a.headerOverwritten then (App.powerUp a.allowBlindSign, .fault)
  else answerMessage a (processMessage d a buf)

/-- `handler_sign_tx` (sign_tx.c:59–118). -/
def handlerSignTx (d : Device) (a : App) (type : SigningType) (first more msgEnd : Bool)
    (data : Bytes) : App × Output :=
  if first then
    match processFirstChunk d a type data with
    | none => assertFailed a
    | some (a, sw) => if sw ≠ 0 then refuseTx a sw else (a, .sw Sw.ok)
  else if a.signingType ≠ type then (a, .sw Sw.badState)
  else
    match processNextChunk d a more msgEnd data with
    | (a, sw, buf) =>
      if sw ≠ 0 then refuseTx a sw
      else
        match buf with
        | none => (a, .sw Sw.ok)
        | some buf => processAndAnswer d a buf

/-! ## Dispatcher -/

/-- The `signing_type_e` of a P1 byte. -/
def signingTypeOfP1 (p1 : UInt8) : Option SigningType :=
  if p1 = 0 then some .hash
  else if p1 = 1 then some .untypedVersionedMessage
  else if p1 = 2 then some .preparedTransaction
  else none

/-- The P2 flags of a `SIGN_TX` command that the dispatcher accepts: first, more
and message end. -/
def signFlags (p2 : UInt8) : Option (Bool × Bool × Bool) :=
  if p2 &&& 0xF8 ≠ 0 then none
  else if p2 &&& 0x06 = 0 then none
  else if p2 &&& 0x01 ≠ 0 && p2 &&& 0x02 = 0 then none
  else some (p2 &&& 0x01 ≠ 0, p2 &&& 0x02 ≠ 0, p2 &&& 0x04 ≠ 0)

/-- `apdu_dispatcher` (dispatcher.c:34–110). Without data the command has a NULL
data pointer. -/
def apduDispatcher (d : Device) (a : App) (c : Command) : App × Output :=
  if c.ins = 0x03 then
    (a, if c.p1 ≠ 0 || c.p2 ≠ 0 then .sw Sw.wrongP1P2 else .response d.appVersion)
  else if c.ins = 0x04 then
    (a, if c.p1 ≠ 0 || c.p2 ≠ 0 then .sw Sw.wrongP1P2 else .response d.appName)
  else if c.ins = 0x05 then
    if 1 < c.p1 || 3 < c.p2 || (c.p1 = 0 && c.p2 ≠ 0) then (a, .sw Sw.wrongP1P2)
    else if c.data.isEmpty then (a, .sw Sw.wrongDataLength)
    else handlerGetPublicKey d a c.data (c.p1 = 1)
  else if c.ins = 0x06 then
    match signingTypeOfP1 c.p1, signFlags c.p2 with
    | some type, some (first, more, msgEnd) =>
      if c.data.isEmpty then (a, .sw Sw.wrongDataLength)
      else handlerSignTx d a type first more msgEnd c.data
    | _, _ => (a, .sw Sw.wrongP1P2)
  else (a, .sw Sw.insNotSupported)

/-! ## User decisions -/

/-- `validate_transaction` (validate.c:72–88). -/
def validateTransaction (d : Device) (a : App) (confirm : Bool) : App × Output :=
  let finish (a : App) : App :=
    { a with tx := { a.tx with review := cleanupDisplayItems a.tx.review }, screen := .menu }
  if confirm then
    match d.signHash a.bip32Path (a.tx.mHash.take a.tx.mHashLen) with
    | none => (finish { a with state := .none }, .sw Sw.signatureFail)
    | some sig =>
      let challenge := match a.tx.challengeSignature with
        | none => []
        | some c => [64] ++ c
      (finish { a with state := .approved, tx := { a.tx with signature := sig } },
        .response ([64] ++ sig ++ [0] ++ challenge))
  else (finish { a with state := .none }, .sw Sw.deny)

/-- `validate_pubkey`. -/
def validatePubkey (a : App) (confirm : Bool) : App × Output :=
  let a' := { a with screen := .menu }
  if confirm then (a', .response (pubkeyResponse a.publicKey)) else (a', .sw Sw.deny)

/-- A choice on the screen on display. -/
def userChoice (d : Device) (a : App) (confirm : Bool) : App × Output :=
  match a.screen with
  | .clearReview .. | .blindReview .. => validateTransaction d a confirm
  | .addressReview _ => validatePubkey a confirm
  | .menu | .blindSigningError => ({ a with screen := .menu }, .nothing)

/-- One step of the app. -/
def step (d : Device) (a : App) : Event → App × Output
  | .apdu c => apduDispatcher d a c
  | .choice confirm => userChoice d a confirm
  | .setBlindSigning allow => ({ a with allowBlindSign := allow }, .nothing)

end CantonSigner
