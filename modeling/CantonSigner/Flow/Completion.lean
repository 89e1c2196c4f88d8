import CantonSigner.Flow.AppRuns
import CantonSigner.Flow.Lookups
import CantonSigner.Model.Host
import CantonSigner.Model.TestDevice

/-!
# Reviews and completeness

A prepared transaction is complete when as many node parts and input contracts
have arrived as header and metadata announce. Two machines run side by side: the
receiving state follows these counts, and the APDU state follows the flags of the
host, and the review is started by the second alone. So a part that the host marks
as the last one starts a review wherever it stands (`header_reviewed`).

`review_complete` holds of every run in which the host marks a part as the last
one only when it completes the announced counts, and sends no part after it: each
review is then of a complete transaction, and its hash covers every part.
-/

namespace CantonSigner

open ByteCodec

/-! ## What a complete transaction is -/

/-- What an input contract adds to the metadata hasher. -/
def absorbContract (d : Device) (hasher : Bytes) (ic : InputContract) : Option Bytes :=
  (HashingParser.decodeInputContractPart d valuesCheckReset .ok ic).bind fun r =>
    if r.1.hw.err = .ok then some (hasher ++ int64Bytes ic.createdAt ++ d.sha r.1.hw.bytes)
    else none

/-- The hash over all parts of a transaction, with the node hash store as the flow
before left it. -/
def transactionHash (d : Device) (store : NodeHashStore) (tx : DamlTransaction)
    (parts : List NodePart) (md : Metadata) (ics : List InputContract) : Option Bytes := do
  let nodes ← parts.foldlM (absorbNode d tx) (.afterHeader store tx)
  let hasher ← ics.foldlM (absorbContract d) (hashMetadata .ok md).bytes
  some (finalizeHash d (d.sha nodes.hasher) (d.sha hasher))

/-- The hash of these parts. What earlier flows left in the node hash store has a part in it only
if the node parts do not have distinct ids. -/
structure HashOfParts (d : Device) (tx : DamlTransaction) (parts : List NodePart) (md : Metadata)
    (ics : List InputContract) (hash : Bytes) : Prop where
  store : ∃ store, transactionHash d store tx parts md ics = some hash
  distinct : DistinctIds parts → ∀ store, transactionHash d store tx parts md ics = some hash

theorem hashOfParts {d : Device} {store : NodeHashStore} {tx : DamlTransaction}
    {parts : List NodePart} {md : Metadata} {ics : List InputContract} {hash : Bytes}
    (h : transactionHash d store tx parts md ics = some hash) :
    HashOfParts d tx parts md ics hash := by
  refine ⟨⟨store, h⟩, fun hids store' => ?_⟩
  have hnodes := @absorbNodes_store d tx parts hids store store'
  obtain ⟨nodes, habs, hrest⟩ := Option.bind_eq_some_iff.mp h
  rw [habs] at hnodes
  obtain ⟨nodes', habs', hhasher⟩ := Option.map_eq_some_iff.mp hnodes
  refine Option.bind_eq_some_iff.mpr ⟨nodes', habs', ?_⟩
  rw [hhasher]
  exact hrest

/-- Some message was marked as the last one. -/
def lastMarked (log : List PartEvent) : Bool :=
  log.any fun
    | .part parsed _ => parsed
    | .rows .. => false

/-- Metadata and input contracts after the node parts, as sent. -/
structure ContractsSent (bufs : List Bytes) (tx : DamlTransaction) (parts : List NodePart)
    (md : Metadata) (ics : List InputContract) : Prop where
  bytes : ∃ nodes metadata contracts, bufs = nodes ++ metadata :: contracts ∧
    NodesSent nodes tx parts ∧ decodeMetadata metadata = some md ∧
    List.Forall₂ (fun b ic => decodeInputContract b = some ic) contracts ics
  nodesCount : (parts.length : Int) = tx.nodesCount

/-! ## The invariant of a flow -/

/-- The receiving state after metadata and input contracts. -/
structure ContractsReceived (d : Device) (st : Prepared) (tx : DamlTransaction)
    (parts : List NodePart) (md : Metadata) (ics : List InputContract) : Prop where
  hashErr : st.hashErr = .ok
  count : st.inputContractsCount = md.inputContractsCount
  idx : st.recvNodeIdx = ics.length
  absorbed : ∃ store nodes, parts.foldlM (absorbNode d tx) (.afterHeader store tx) = some nodes ∧
    st.partialTxHash = d.sha nodes.hasher
  hasher : ics.foldlM (absorbContract d) (hashMetadata .ok md).bytes = some st.hasher

/-- What has been sent and received, by the receiving state. -/
def FlowInv (d : Device) (st : Prepared) (bufs : List Bytes) : Prop :=
  match st.txState with
  | .damlTxPart => bufs = []
  | .damlNodes => ∃ tx parts, NodesSent bufs tx parts ∧ NodesReceived d st tx parts
  | .metadata => ∃ tx parts, NodesSent bufs tx parts ∧ NodesReceived d st tx parts ∧
      (parts.length : Int) = tx.nodesCount
  | .metadataInputContracts => ∃ tx parts md ics, ContractsSent bufs tx parts md ics ∧
      ContractsReceived d st tx parts md ics

variable {d : Device} {st st' : Prepared} {buf : Bytes} {bufs : List Bytes} {parsed : Bool}

/-! ### What is known at each stage -/

theorem FlowInv.header (h : FlowInv d st bufs) (hstate : st.txState = .damlTxPart) :
    bufs = [] := by
  unfold FlowInv at h
  rw [hstate] at h
  exact h

theorem FlowInv.nodes (h : FlowInv d st bufs) (hstate : st.txState = .damlNodes) :
    ∃ tx parts, NodesSent bufs tx parts ∧ NodesReceived d st tx parts := by
  unfold FlowInv at h
  rw [hstate] at h
  exact h

theorem FlowInv.metadata (h : FlowInv d st bufs) (hstate : st.txState = .metadata) :
    ∃ tx parts, NodesSent bufs tx parts ∧ NodesReceived d st tx parts ∧
      (parts.length : Int) = tx.nodesCount := by
  unfold FlowInv at h
  rw [hstate] at h
  exact h

theorem FlowInv.contracts (h : FlowInv d st bufs) (hstate : st.txState = .metadataInputContracts) :
    ∃ tx parts md ics, ContractsSent bufs tx parts md ics ∧
      ContractsReceived d st tx parts md ics := by
  unfold FlowInv at h
  rw [hstate] at h
  exact h

/-! ### What each part adds -/

theorem flowInv_header {tx : DamlTransaction} (h : FlowInv d st bufs)
    (hs : HeaderStep st buf st' tx) : FlowInv d st' (bufs ++ [buf]) := by
  have hbufs := h.header hs.state
  have hsent : NodesSent (bufs ++ [buf]) tx [] :=
    ⟨buf, [], by rw [hbufs]; rfl, hs.decoded, .nil⟩
  rw [hs.result]
  have hreceived : NodesReceived d (st.withHeader tx) tx [] :=
    ⟨rfl, hs.hashed, rfl, st.nodeHashes, rfl⟩
  unfold FlowInv
  by_cases hzero : tx.nodesCount = 0
  · have hstate : (st.withHeader tx).txState = .metadata := by simp [Prepared.withHeader, hzero]
    rw [hstate]
    exact ⟨tx, [], hsent, hreceived, by simp [hzero]⟩
  · have hstate : (st.withHeader tx).txState = .damlNodes := by simp [Prepared.withHeader, hzero]
    rw [hstate]
    exact ⟨tx, [], hsent, hreceived⟩

theorem flowInv_node {part : NodePart} {ctx : HashingParser.Ctx} (h : FlowInv d st bufs)
    (hs : NodeStep d st buf st' part ctx) : FlowInv d st' (bufs ++ [buf]) := by
  obtain ⟨tx, parts, hsent, hreceived⟩ := h.nodes hs.state
  have hreceived' := nodesReceived_step hreceived hs
  have hsent' := nodesSent_append hsent hs.decoded
  obtain ⟨shown, hdisplay, rfl⟩ := hs.result
  have hstate : shown.txState = .damlNodes := by
    rcases displayNodePart_cases hdisplay with ⟨-, rfl⟩ | ⟨-, r, -, rfl⟩ <;> simp [hs.state]
  unfold FlowInv
  by_cases hlast : shown.recvNodeIdx + 1 = shown.header.nodesCount
  · have hstate' : (advanceNode shown).txState = .metadata := by simp [advanceNode, hlast]
    rw [hstate']
    refine ⟨tx, parts ++ [part], hsent', hreceived', ?_⟩
    rw [← hreceived'.idx, ← hreceived'.header]
    exact hlast
  · have hstate' : (advanceNode shown).txState = .damlNodes := by
      simp [advanceNode, hlast, hstate]
    rw [hstate']
    exact ⟨tx, parts ++ [part], hsent', hreceived'⟩

/-- What the metadata part adds, before the transaction is finalised or not. -/
theorem contractsReceived_metadata {tx : DamlTransaction} {parts : List NodePart} {md : Metadata}
    (h : NodesReceived d st tx parts) (hs : MetadataStep d st parsed buf st' md) :
    ContractsReceived d ((applyNodeTreeVerdict st).1.withMetadata d md) tx parts md [] := by
  obtain ⟨store, habs⟩ := h.absorbed
  rw [applyNodeTreeVerdict_accepted hs.verdict]
  refine ⟨hs.noError, rfl, rfl, ⟨store, _, habs, rfl⟩, ?_⟩
  simp [Prepared.withMetadata, h.hashErr]

theorem contractsSent_metadata {tx : DamlTransaction} {parts : List NodePart} {md : Metadata}
    (h : NodesSent bufs tx parts) (hcount : (parts.length : Int) = tx.nodesCount)
    (hdec : decodeMetadata buf = some md) : ContractsSent (bufs ++ [buf]) tx parts md [] :=
  ⟨⟨bufs, buf, [], rfl, h, hdec, .nil⟩, hcount⟩

/-- The contribution of an input contract does not depend on the value store. -/
theorem decodeInputContractPart_view {values values' : ValuesStore} {ic : InputContract}
    {v : HashingParser.VState}
    (h : HashingParser.decodeInputContractPart d values .ok ic = some (v, values')) :
    ∃ w, HashingParser.decodeInputContractPart d valuesCheckReset .ok ic = some (v, w) := by
  have hstep : ∀ c (s s' : HashingParser.VState × ValuesStore), s.1 = s'.1 →
      (HashingParser.decodeContract d s c).map Prod.fst =
        (HashingParser.decodeContract d s' c).map Prod.fst := by
    intro c s s' heq
    unfold HashingParser.decodeContract
    rw [heq]
    split
    · rfl
    · cases HashingParser.hashCreate d .contractArgument s'.1 c none <;> rfl
  have hstart : (⟨⟨[], .ok⟩, -1⟩, valuesCheckReset).1 =
      ((⟨⟨[], .ok⟩, -1⟩, values) : HashingParser.VState × ValuesStore).1 := rfl
  have hview := List.foldlM_view hstep ic.v1 hstart
  unfold HashingParser.decodeInputContractPart at h ⊢
  rw [h] at hview
  obtain ⟨⟨v', w⟩, hw, hv⟩ := Option.map_eq_some_iff.mp hview
  have hv : v' = v := hv
  exact ⟨w, by rw [hw, hv]⟩

/-- What an input contract adds. -/
theorem contractsReceived_contract {tx : DamlTransaction} {parts : List NodePart} {md : Metadata}
    {ics : List InputContract} {ic : InputContract} {v : HashingParser.VState}
    {values : ValuesStore} {shown : DisplayParser.Globals × Review × ValuesStore}
    (h : ContractsReceived d st tx parts md ics)
    (hs : ContractStep d st parsed buf st' ic v values shown) :
    ContractsReceived d (st.withContract d ic v shown) tx parts md (ics ++ [ic]) := by
  refine ⟨hs.noError, h.count, ?_, h.absorbed, ?_⟩
  · show st.recvNodeIdx + 1 = _
    rw [h.idx]
    simp
  · obtain ⟨w, hw⟩ := decodeInputContractPart_view (h.hashErr ▸ hs.hashed)
    refine List.foldlM_concat h.hasher ?_
    simp [absorbContract, hw, hs.noError, Prepared.withContract]

theorem contractsSent_contract {tx : DamlTransaction} {parts : List NodePart} {md : Metadata}
    {ics : List InputContract} {ic : InputContract} (h : ContractsSent bufs tx parts md ics)
    (hdec : decodeInputContract buf = some ic) :
    ContractsSent (bufs ++ [buf]) tx parts md (ics ++ [ic]) := by
  obtain ⟨nodes, metadata, contracts, rfl, hnodes, hmd, hcs⟩ := h.bytes
  refine ⟨⟨nodes, metadata, contracts ++ [buf], by simp, hnodes, hmd, ?_⟩, h.nodesCount⟩
  exact List.rel_append hcs (.cons hdec .nil)

/-- An accepted part that is not marked as the last one keeps the invariant. -/
theorem flowInv_part (h : FlowInv d st bufs)
    (hacc : processPreparedTxPart d false st buf = (st', 0)) : FlowInv d st' (bufs ++ [buf]) := by
  rcases accepted_cases hacc with ⟨tx, hs⟩ | ⟨part, ctx, hs⟩ | ⟨md, hs⟩ | ⟨ic, v, values, shown, hs⟩
  · exact flowInv_header h hs
  · exact flowInv_node h hs
  · obtain ⟨tx, parts, hsent, hreceived, hcount⟩ := h.metadata hs.state
    rcases hs.result with ⟨-, hparsed, -⟩ | ⟨-, rfl⟩
    · cases hparsed
    · have hr := contractsReceived_metadata hreceived hs
      exact ⟨tx, parts, md, [], contractsSent_metadata hsent hcount hs.decoded,
        hr.hashErr, hr.count, hr.idx, hr.absorbed, hr.hasher⟩
  · obtain ⟨tx, parts, md, ics, hsent, hreceived⟩ := h.contracts hs.state
    rcases hs.result with ⟨-, hparsed, -⟩ | ⟨-, rfl⟩
    · cases hparsed
    · have hstate : (st.withContract d ic v shown).txState = .metadataInputContracts := hs.state
      unfold FlowInv
      rw [hstate]
      exact ⟨tx, parts, md, ics ++ [ic], contractsSent_contract hsent hs.decoded,
        contractsReceived_contract hreceived hs⟩

/-! ## Reviews -/

/-- The part completes the announced counts. -/
def Completes (st : Prepared) (buf : Bytes) : Prop :=
  (st.txState = .metadata ∧ (decodeMetadata buf).any (·.inputContractsCount = 0) = true) ∨
    (st.txState = .metadataInputContracts ∧ st.recvNodeIdx + 1 = st.inputContractsCount)

/-- The host marks a part as the last one only when it completes the transaction,
and sends none after it. -/
def MarkedAtEnd (st : Prepared) (log : List PartEvent) (parsed : Bool) (buf : Bytes) : Prop :=
  lastMarked log = false ∧ (parsed = true → Completes st buf)

/-- What is known of a transaction when it is reviewed: `buf` is the part that
started the review, `st` the state that `process_prepared_tx_finalize` ran on. -/
structure ReviewedComplete (d : Device) (bufs : List Bytes) (a' : App) (st : Prepared)
    (tx : DamlTransaction) (parts : List NodePart) (md : Metadata) (ics : List InputContract) :
    Prop where
  sent : ContractsSent bufs tx parts md ics
  contractsCount : (ics.length : Int) = md.inputContractsCount
  hash : HashOfParts d tx parts md ics a'.tx.mHash
  hashLen : a'.tx.mHashLen = 32
  clear : a'.tx.review.clearSigningAvailable = true → (valuesCanClearSign st.values).2 = true

/-- A completing part finalises what was received. -/
theorem completes_accepted (h : FlowInv d st bufs) (hc : Completes st buf)
    (hacc : processPreparedTxPart d true st buf = (st', 0)) :
    ∃ st₀ tx parts md ics, st' = st₀.finalized d ∧ ContractsSent (bufs ++ [buf]) tx parts md ics ∧
      ContractsReceived d st₀ tx parts md ics ∧ (ics.length : Int) = md.inputContractsCount := by
  rcases accepted_cases hacc with ⟨tx, hs⟩ | ⟨part, ctx, hs⟩ | ⟨md, hs⟩ | ⟨ic, v, values, shown, hs⟩
  · -- a header or a node part completes nothing
    exfalso
    rcases hc with ⟨hstate, -⟩ | ⟨hstate, -⟩ <;> exact absurd (hs.state.symm.trans hstate)
      (by decide)
  · exfalso
    rcases hc with ⟨hstate, -⟩ | ⟨hstate, -⟩ <;> exact absurd (hs.state.symm.trans hstate)
      (by decide)
  · -- metadata without contracts
    have hzero : md.inputContractsCount = 0 := by
      rcases hc with ⟨-, hany⟩ | ⟨hstate, -⟩
      · simpa [hs.decoded] using hany
      · exact absurd (hs.state.symm.trans hstate) (by decide)
    obtain ⟨tx, parts, hsent, hreceived, hcount⟩ := h.metadata hs.state
    rcases hs.result with ⟨-, -, heq⟩ | ⟨hne, -⟩
    · exact ⟨_, tx, parts, md, [], heq, contractsSent_metadata hsent hcount hs.decoded,
        contractsReceived_metadata hreceived hs, by simp [hzero]⟩
    · exact absurd hzero hne
  · -- the last contract
    have hidx : st.recvNodeIdx + 1 = st.inputContractsCount := by
      rcases hc with ⟨hstate, -⟩ | ⟨-, hidx⟩
      · exact absurd (hs.state.symm.trans hstate) (by decide)
      · exact hidx
    obtain ⟨tx, parts, md, ics, hsent, hreceived⟩ := h.contracts hs.state
    have hreceived' := contractsReceived_contract hreceived hs
    rcases hs.result with ⟨-, -, heq⟩ | ⟨hne, -⟩
    · refine ⟨_, tx, parts, md, ics ++ [ic], heq, contractsSent_contract hsent hs.decoded,
        hreceived', ?_⟩
      rw [← hreceived'.idx, ← hreceived'.count]
      exact hidx
    · exact absurd hidx hne

theorem lastMarked_append (log : List PartEvent) (parsed : Bool) (buf : Bytes) :
    lastMarked (log ++ [.part parsed buf]) = (lastMarked log || parsed) := by
  simp [lastMarked]

theorem flowInv_setRows {pairs : Option (List Pair)} {signature : Bytes} (h : FlowInv d st bufs) :
    FlowInv d (st.setRows pairs signature) bufs := by
  have hstate : (st.setRows pairs signature).txState = st.txState := rfl
  unfold FlowInv at h ⊢
  rw [hstate]
  revert h
  cases st.txState with
  | damlTxPart => exact id
  | damlNodes =>
    rintro ⟨tx, parts, hs, hr⟩
    exact ⟨tx, parts, hs, hr.header, hr.hashErr, hr.idx, hr.absorbed⟩
  | metadata =>
    rintro ⟨tx, parts, hs, hr, hcount⟩
    exact ⟨tx, parts, hs, ⟨hr.header, hr.hashErr, hr.idx, hr.absorbed⟩, hcount⟩
  | metadataInputContracts =>
    rintro ⟨tx, parts, md, ics, hs, hr⟩
    exact ⟨tx, parts, md, ics, hs, hr.hashErr, hr.count, hr.idx, hr.absorbed, hr.hasher⟩

/-- The invariant as a relation between the state of a flow and its log. -/
theorem flowRelation_flowInv :
    FlowRelation d MarkedAtEnd fun st log =>
      lastMarked log = false → FlowInv d st (partBuffers log) := by
  refine ⟨?_, ?_, ?_⟩
  · rintro st ⟨p, rfl⟩ -
    rfl
  · intro st log parsed buf st' hQ hok hacc hlast
    rw [lastMarked_append] at hlast
    obtain ⟨hlog, hparsed⟩ := Bool.or_eq_false_iff.mp hlast
    subst hparsed
    rw [partBuffers_append]
    exact flowInv_part (hQ hlog) hacc
  · intro st log pairs signature hQ hlast
    have hlog : lastMarked log = false := by simpa [lastMarked] using hlast
    rw [partBuffers_append, partBuffers, partBuffers, List.append_nil]
    exact flowInv_setRows (hQ hlog)

/-- A review is shown only by the last part of a flow. -/
theorem message_of_review {a : App} {e : Event} {s : Screen}
    (hshown : (step d a e).2 = .shown s) (hrev : s.isReview = true) :
    a.reqType = .confirmTransaction ∧ ∃ raw buf, messageOf d a e = some (true, buf) ∧
      step d a e = processAndAnswer d (a.atMessage raw true) buf ∧
      ∃ a₁, processMessage d (a.atMessage raw true) buf = some (a₁, 0) ∧
        step d a e = startReview a₁ := by
  cases hreq : request a e with
  | untouched => exact absurd hshown ((step_untouched hreq).2 s)
  | getPublicKey data display =>
    rw [step_getPublicKey hreq] at hshown
    -- the address screen is no review
    unfold handlerGetPublicKey at hshown
    dsimp only at hshown
    split at hshown
    · cases hshown
    · split at hshown
      · cases hshown
      · split at hshown
        · cases hshown
          cases hrev
        · cases hshown
  | first type data =>
    rw [step_first hreq] at hshown
    rcases startFlow_cases (d := d) (a := a) type data with heq | ⟨a₁, heq⟩ | ⟨a₁, heq, -⟩ <;>
      (rw [heq] at hshown; cases hshown)
  | decide confirm =>
    rw [step_decide hreq] at hshown
    unfold validateTransaction at hshown
    dsimp only at hshown
    split at hshown
    · split at hshown <;> cases hshown
    · cases hshown
  | next more msgEnd data =>
    rcases step_next_cases (d := d) hreq with ⟨-, heq⟩ | ⟨-, -, heq⟩ |
      ⟨hconf, parsed, raw, buf, hmsg, heq⟩
    · rw [heq] at hshown
      cases hshown
    · rw [heq] at hshown
      cases hshown
    · -- of the ends of a message, only one shows something, and it asks for the last part
      rcases processAndAnswer_cases (d := d) (a.atMessage raw parsed) buf with
        (⟨-, h⟩ | ⟨-, h⟩) | ⟨a₁, sw, -, -, h⟩ | ⟨a₁, hm, hp, h⟩ | ⟨a₁, -, -, h⟩
      · rw [heq, h] at hshown
        cases hshown
      · rw [heq, h] at hshown
        cases hshown
      · rw [heq, h] at hshown
        cases hshown
      · have hparsed : parsed = true := by
          cases parsed with
          | true => rfl
          | false => cases hp
        subst hparsed
        exact ⟨hconf, raw, buf, hmsg, heq, a₁, hm, heq.trans h⟩
      · rw [heq, h] at hshown
        cases hshown

/-- A clear review is of the state that the last message left. -/
theorem shown_clear {a : App} {e : Event} {title finish : Option Bytes} {rows : List Pair}
    (hshown : (step d a e).2 = .shown (.clearReview title finish rows)) :
    a.reqType = .confirmTransaction ∧ ∃ raw buf a₁, messageOf d a e = some (true, buf) ∧
      processMessage d (a.atMessage raw true) buf = some (a₁, 0) ∧
      a₁.tx.review.clearSigningAvailable = true ∧
      (step d a e).1 = { a₁ with screen := clearScreen a₁ } ∧
      .clearReview title finish rows = clearScreen a₁ := by
  obtain ⟨hconf, raw, buf, hmsg, -, a₁, hm, hstart⟩ := message_of_review hshown rfl
  refine ⟨hconf, raw, buf, a₁, hmsg, hm, ?_⟩
  have hframe := processMessage_frame hm
  have hconf₁ : a₁.reqType = .confirmTransaction := by rw [hframe]; exact hconf
  have hstate₁ : a₁.state = .parsed := by rw [hframe]; rfl
  rw [hstart] at hshown ⊢
  rcases startReview_cases hconf₁ hstate₁ with ⟨hon, hs⟩ | ⟨-, hs⟩ | ⟨-, hs⟩
  · rw [hs] at hshown ⊢
    exact ⟨hon, rfl, (Output.shown.inj hshown).symm⟩
  · rw [hs] at hshown
    cases hshown
  · rw [hs] at hshown
    cases hshown

/-- A review of a prepared transaction is shown on a part that was accepted. -/
theorem accepted_of_review {a : App} {e : Event} {s : Screen}
    (htype : a.signingType = .preparedTransaction) (hshown : (step d a e).2 = .shown s)
    (hrev : s.isReview = true) :
    a.reqType = .confirmTransaction ∧ ∃ raw buf st', messageOf d a e = some (true, buf) ∧
      processPreparedTxPart d true a.prepared buf = (st', 0) ∧
      step d a e = startReview ((a.atMessage raw true).setPrepared st') := by
  obtain ⟨hconf, raw, buf, hmsg, -, a₁, hm, hstart⟩ := message_of_review hshown hrev
  unfold processMessage at hm
  have hsign : (a.atMessage raw true).signingType = .preparedTransaction := htype
  rw [hsign] at hm
  obtain ⟨h₁, h₂⟩ := Prod.mk.inj (Option.some.inj hm)
  refine ⟨hconf, raw, buf, (processPreparedTxPart d true a.prepared buf).1, hmsg, ?_, ?_⟩
  · exact Prod.ext rfl h₂
  · rw [hstart, ← h₁]
    rfl

/-- A clear review is started on the flag, and shows what the parts left. -/
theorem clear_of_review {a : App} {e : Event} {title finish : Option Bytes} {rows : List Pair}
    (htype : a.signingType = .preparedTransaction)
    (hshown : (step d a e).2 = .shown (.clearReview title finish rows)) :
    a.reqType = .confirmTransaction ∧ ∃ buf st', messageOf d a e = some (true, buf) ∧
      processPreparedTxPart d true a.prepared buf = (st', 0) ∧
      st'.review.clearSigningAvailable = true ∧ title = st'.review.reviewTitle ∧
      finish = st'.review.reviewFinish ∧ rows = st'.review.pairs.getD [] := by
  obtain ⟨hconf, raw, buf, st', hmsg, hacc, hstart⟩ := accepted_of_review htype hshown rfl
  refine ⟨hconf, buf, st', hmsg, hacc, ?_⟩
  rw [hstart] at hshown
  rcases startReview_cases (a := (a.atMessage raw true).setPrepared st') hconf rfl with
    ⟨hflag, heq⟩ | ⟨-, heq⟩ | ⟨-, heq⟩
  · rw [heq] at hshown
    cases hshown
    exact ⟨hflag, rfl, rfl, rfl⟩
  · rw [heq] at hshown
    cases hshown
  · rw [heq] at hshown
    cases hshown

/-- **A reviewed transaction is complete**, in every run in which parts are marked
as the last one only at the end: `process_prepared_tx_finalize` ran in the APDU
that showed the review, every announced part was accepted once, the hash covers
them all, and a clear review passed the value check. -/
theorem review_complete {es : List Event} {a : App} {log : List PartEvent} {e : Event} {s : Screen}
    (h : (loggedApp d).Reach (onMessages d MarkedAtEnd) es (a, log))
    (hok : onMessages d MarkedAtEnd (a, log) e) (htype : a.signingType = .preparedTransaction)
    (hshown : (step d a e).2 = .shown s) (hrev : s.isReview = true) :
    ∃ buf st tx parts md ics, messageOf d a e = some (true, buf) ∧
      processPreparedTxPart d true a.prepared buf = processPreparedTxFinalize d true st ∧
      ReviewedComplete d (partBuffers log ++ [buf]) (step d a e).1 st tx parts md ics := by
  obtain ⟨hconf, raw, buf, st', hmsg, hacc, hstart⟩ := accepted_of_review htype hshown hrev
  obtain ⟨hlog, hcompletes⟩ := hok htype _ _ hmsg
  have hinv := loggedApp_simulation flowRelation_flowInv h ⟨hconf, htype⟩ hlog
  obtain ⟨st, tx, parts, md, ics, hfinal, hsent, hreceived, hcount⟩ :=
    completes_accepted hinv (hcompletes rfl) hacc
  -- The review is of the finalised state, up to its rows.
  have hreview : (step d a e).1.tx.mHash = (st.finalized d).mHash ∧
      (step d a e).1.tx.mHashLen = (st.finalized d).mHashLen ∧
      (step d a e).1.tx.review.clearSigningAvailable =
        (st.finalized d).review.clearSigningAvailable := by
    have htx : ((a.atMessage raw true).setPrepared st').tx = (st.finalized d).toTxInfo := by
      rw [hfinal]
      rfl
    rw [hstart]
    rcases startReview_cases (a := (a.atMessage raw true).setPrepared st') hconf rfl with
      ⟨-, heq⟩ | ⟨-, heq⟩ | ⟨-, heq⟩ <;>
      simp [heq, uiErrorBlindSigning, cleanupDisplayItems, htx]
  refine ⟨buf, st, tx, parts, md, ics, hmsg, ?_, hsent, hcount, ?_, ?_, ?_⟩
  · rw [hacc, hfinal]
    rfl
  · obtain ⟨store, nodes, habs, htxHash⟩ := hreceived.absorbed
    refine hashOfParts (?_ : transactionHash d store tx parts md ics = some _)
    rw [hreview.1, finalized_eq]
    simp [transactionHash, habs, hreceived.hasher, htxHash]
  · rw [hreview.2.1, finalized_eq]
  · rw [hreview.2.2, finalized_eq]
    intro hclear
    dsimp only at hclear
    split at hclear
    · cases hclear
    · rename_i hverdict
      simpa [hclear] using hverdict

instance (st : Prepared) (buf : Bytes) : Decidable (Completes st buf) :=
  inferInstanceAs (Decidable (_ ∨ _))

instance (st : Prepared) (log : List PartEvent) (parsed : Bool) (buf : Bytes) :
    Decidable (MarkedAtEnd st log parsed buf) :=
  inferInstanceAs (Decidable (_ ∧ (_ → _)))

/-- `onMessages MarkedAtEnd`, computed. -/
def markedAtEndStep (d : Device) (s : App × List PartEvent) (e : Event) : Bool :=
  (messageOf d s.1 e).all fun (parsed, buf) => decide (MarkedAtEnd s.1.prepared s.2 parsed buf)

theorem onMessages_of_markedAtEndStep (s : App × List PartEvent) (e : Event)
    (h : markedAtEndStep d s e = true) : onMessages d MarkedAtEnd s e := by
  intro _ parsed buf hmsg
  simpa [markedAtEndStep, hmsg] using h

/-- The first APDU of a prepared transaction. -/
def firstPrepared : Event := .apdu ⟨0x06, 2, 0x03, [1, 0x80, 0, 0, 44]⟩

/-- The parts of a transaction before its last one, one APDU each. -/
def preparedFlow (parts : List Bytes) : List Event :=
  firstPrepared :: parts.map fun buf => .apdu ⟨0x06, 2, 0x06, buf⟩

/-- The last part of a transaction. -/
def lastPart (buf : Bytes) : Event := .apdu ⟨0x06, 2, 0x04, buf⟩

/-- Metadata without input contracts, as the last part. -/
def lastMetadata : Event := .apdu ⟨0x06, 2, 0x04, Host.metadataOf 0⟩

/-- Bob accepts an offer of alice, up to the metadata. -/
def acceptance : List Bytes := [
  Host.headerOf ["0"] 2 [0],
  Host.nodeOf "1" (.create (Host.amulet "bb" "bob" "10.0")),
  Host.nodeOf "0" (.exercise (Host.accept "aa" ["1"])),
  Host.metadataOf 1]

/-- The offer of alice. -/
def acceptedOffer : Bytes := Host.inputContract ⟨[Host.offer "aa" "alice" "bob" "10.0"], 7⟩

/-- An acceptance after a flow whose header does not decode. -/
def acceptanceAfterRefusal : List Event := preparedFlow [[0x0A]] ++ preparedFlow acceptance

theorem review_complete_acceptance : ∃ a log s,
    (loggedApp testDevice).Reach (onMessages testDevice MarkedAtEnd) acceptanceAfterRefusal
      (a, log) ∧
      (step testDevice a (lastPart acceptedOffer)).2 = .shown s ∧ s.isReview = true ∧
      ∃ buf st tx parts md ics, messageOf testDevice a (lastPart acceptedOffer) = some (true, buf) ∧
        processPreparedTxPart testDevice true a.prepared buf =
          processPreparedTxFinalize testDevice true st ∧
        ReviewedComplete testDevice (partBuffers log ++ [buf])
          (step testDevice a (lastPart acceptedOffer)).1 st tx parts md ics := by
  have h₀ : (loggedApp testDevice).init (App.powerUp true, []) := ⟨true, rfl⟩
  have hrun : ((loggedApp testDevice).run (markedAtEndStep testDevice) (App.powerUp true, [])
      acceptanceAfterRefusal).any (fun s => markedAtEndStep testDevice s (lastPart acceptedOffer) &&
        decide (s.1.signingType = .preparedTransaction) &&
        (step testDevice s.1 (lastPart acceptedOffer)).2.screen.any Screen.isReview) = true := by
    decide +kernel
  obtain ⟨⟨a, log⟩, hreach, hp⟩ := Machine.exists_reach_of_run h₀ hrun
  simp only [Bool.and_eq_true, decide_eq_true_eq] at hp
  obtain ⟨⟨hok, htype⟩, hshown⟩ := hp
  have hreach' := hreach.mono fun s e h => onMessages_of_markedAtEndStep s e h
  obtain ⟨s, hs, hrev⟩ := Output.exists_shown hshown
  exact ⟨a, log, s, hreach', hs, hrev, review_complete hreach'
    (onMessages_of_markedAtEndStep _ _ hok) htype hs hrev⟩

/-- A header that announces one node, marked as the last part. -/
def lastHeader : Event := .apdu ⟨0x06, 2, 0x04, Host.headerOf ["0"] 1 []⟩

/-- The header alone is reviewed: no node part, no metadata, and an empty hash. -/
theorem header_reviewed : ∃ a log,
    (loggedApp testDevice).Reach (fun _ _ => True) [firstPrepared] (a, log) ∧ log = [] ∧
      a.signingType = .preparedTransaction ∧
      (step testDevice a lastHeader).2 = .shown (.blindReview [(str "Transaction hash", [])]) ∧
      (step testDevice a lastHeader).1.tx.mHashLen = 0 := by
  have h₀ : (loggedApp testDevice).init (App.powerUp true, []) := ⟨true, rfl⟩
  have hrun : ((loggedApp testDevice).run (fun _ _ => true) (App.powerUp true, [])
      [firstPrepared]).any (fun s => s.2.isEmpty &&
        decide (s.1.signingType = .preparedTransaction) &&
        decide ((step testDevice s.1 lastHeader).2 =
          .shown (.blindReview [(str "Transaction hash", [])])) &&
        decide ((step testDevice s.1 lastHeader).1.tx.mHashLen = 0)) = true := by decide +kernel
  obtain ⟨⟨a, log⟩, hreach, hp⟩ := Machine.exists_reach_of_run h₀ hrun
  simp only [Bool.and_eq_true, decide_eq_true_eq, List.isEmpty_iff] at hp
  obtain ⟨⟨⟨hlog, htype⟩, hshown⟩, hlen⟩ := hp
  exact ⟨a, log, hreach.mono fun _ _ _ => trivial, hlog, htype, hshown, hlen⟩

end CantonSigner
