import CantonSigner.Flow.Completion

/-!
# Prepared transactions with different pasts

The first APDU of a flow cleans the context, but the node hash store keeps its write index,
and the header that empties the store leaves the index where it is. `Aligned` is what is
left of two pasts: the stores hold the same entries from the oldest on, and everything else
that the flow reads is the same. A lookup that meets one hash only finds it in both
(`getNodeHash_aligned`), so a message does the same for both (`alignedResult_part`) as long as
every lookup does.
-/

namespace CantonSigner

open ByteCodec HashingParser

variable {d : Device} {st st' : Prepared} {parsed : Bool} {buf : Bytes}

/-! ## A prepared transaction -/

/-- The state with another node hash store. -/
def Prepared.withStore (st : Prepared) (s : NodeHashStore) : Prepared := { st with nodeHashes := s }

/-- A result with another node hash store. -/
def PartResult.withStore (r : PartResult) (s : NodeHashStore) : PartResult := (r.1.withStore s, r.2)

/-- Finalising the transaction. -/
theorem processPreparedTxFinalize_withStore (st : Prepared) (s : NodeHashStore) :
    processPreparedTxFinalize d parsed (st.withStore s) =
      PartResult.withStore (processPreparedTxFinalize d parsed st) s := by
  unfold processPreparedTxFinalize
  cases parsed with
  | false => rfl
  | true =>
    have hreview : (st.withStore s).review = st.review := rfl
    have hvalues : (st.withStore s).values = st.values := rfl
    rw [hreview, hvalues]
    cases st.review.clearSigningAvailable with
    | false => rfl
    | true =>
      rcases valuesCanClearSign st.values with ⟨values, ok⟩
      cases ok <;> rfl

/-- Hashing the metadata. -/
theorem hashMetadataPart_withStore (st : Prepared) (md : Option Metadata) (s : NodeHashStore) :
    hashMetadataPart d parsed (st.withStore s) md =
      PartResult.withStore (hashMetadataPart d parsed st md) s := by
  unfold hashMetadataPart
  cases md with
  | none => rfl
  | some md =>
    dsimp only
    have herr : (st.withStore s).hashErr = st.hashErr := rfl
    rw [herr]
    split
    · rfl
    · split
      · exact processPreparedTxFinalize_withStore (st.withMetadata d md) s
      · rfl

/-- The metadata. -/
theorem receiveMetadata_withStore (st : Prepared) (md : Option Metadata) (s : NodeHashStore) :
    receiveMetadata d parsed (st.withStore s) md =
      PartResult.withStore (receiveMetadata d parsed st md) s := by
  have hverdict : applyNodeTreeVerdict (st.withStore s) =
      PartResult.withStore (applyNodeTreeVerdict st) s := by
    unfold applyNodeTreeVerdict
    have htree : (st.withStore s).tree = st.tree := rfl
    rw [htree]
    dsimp only
    split
    · rfl
    · split <;> rfl
  unfold receiveMetadata
  rw [hverdict]
  dsimp only [PartResult.withStore]
  split
  · rfl
  · exact hashMetadataPart_withStore _ md s

/-- An input contract. -/
theorem receiveInputContract_withStore (st : Prepared) (ic : InputContract) (s : NodeHashStore) :
    receiveInputContract d parsed (st.withStore s) ic =
      PartResult.withStore (receiveInputContract d parsed st ic) s := by
  unfold receiveInputContract
  have hsame : (st.withStore s).values = st.values ∧ (st.withStore s).hashErr = st.hashErr :=
    ⟨rfl, rfl⟩
  rw [hsame.1, hsame.2]
  cases decodeInputContractPart d st.values st.hashErr ic with
  | none => rfl
  | some r =>
    obtain ⟨v, values⟩ := r
    dsimp only
    split
    · rfl
    · have hframe : (st.withStore s).globals = st.globals ∧ (st.withStore s).review = st.review :=
        ⟨rfl, rfl⟩
      rw [hframe.1, hframe.2]
      cases DisplayParser.parseInputContractForDisplay d st.globals st.review values ic with
      | none => rfl
      | some r =>
        obtain ⟨globals, review, values⟩ := r
        have hfinal := @processPreparedTxFinalize_withStore d parsed
          (st.withContract d ic v (globals, review, values)) s
        by_cases hlast : st.recvNodeIdx + 1 = st.inputContractsCount
        · show (if st.recvNodeIdx + 1 = st.inputContractsCount then _ else _) =
            PartResult.withStore (if st.recvNodeIdx + 1 = st.inputContractsCount then _ else _) s
          rw [if_pos hlast, if_pos hlast]
          exact hfinal
        · show (if st.recvNodeIdx + 1 = st.inputContractsCount then _ else _) =
            PartResult.withStore (if st.recvNodeIdx + 1 = st.inputContractsCount then _ else _) s
          rw [if_neg hlast, if_neg hlast]
          rfl

/-- The store after a node part. -/
def storeAfter (d : Device) (s : NodeHashStore) (ctx : HashingParser.Ctx) : NodeHashStore :=
  if ctx.isRootNode then s else setNodeHash s ctx.nodeId (d.sha ctx.v.hw.bytes)

/-- Recording a node sets its hash in either store. -/
theorem recordNode_withStore (st : Prepared) (ctx : HashingParser.Ctx) (s : NodeHashStore) :
    recordNode d (st.withStore s) ctx = (recordNode d st ctx).withStore (storeAfter d s ctx) := by
  unfold recordNode storeAfter
  cases ctx.isRootNode <;> rfl

/-- The passes over a node for display. -/
theorem displayNodePart_withStore (st : Prepared) (part : NodePart) (s : NodeHashStore) :
    displayNodePart d (st.withStore s) part = (displayNodePart d st part).map (·.withStore s) := by
  unfold displayNodePart
  have htree : (st.withStore s).tree = st.tree := rfl
  rw [htree]
  split
  · show (DisplayParser.parseNodeForDisplay d st.globals st.review st.values part).map _ = _
    cases DisplayParser.parseNodeForDisplay d st.globals st.review st.values part <;> rfl
  · rfl

/-- Two states that differ in the past of their flows: while the header is awaited, in the
hash error and the store, and then in where the entries of the store stand. -/
def Aligned (st st' : Prepared) : Prop :=
  ∃ s err, st' = { st with hashErr := err, nodeHashes := s } ∧
    (st.txState ≠ .damlTxPart → err = st.hashErr ∧ s.contents = st.nodeHashes.contents)

/-- Stores with the same contents align the states. -/
theorem aligned_withStore {s : NodeHashStore} (h : s.contents = st.nodeHashes.contents) :
    Aligned st (st.withStore s) := ⟨s, st.hashErr, rfl, fun _ => ⟨rfl, h⟩⟩

/-- Two results with the same status word. -/
def AlignedResult (r r' : PartResult) : Prop := r'.2 = r.2 ∧ Aligned r.1 r'.1

/-- And the results. -/
theorem alignedResult_withStore {r : PartResult} {s : NodeHashStore}
    (h : s.contents = r.1.nodeHashes.contents) : AlignedResult r (r.withStore s) :=
  ⟨rfl, aligned_withStore h⟩

/-- No child that a node part names is stored under two hashes. -/
def LookupsUnique (st : Prepared) (buf : Bytes) : Prop :=
  st.txState = .damlNodes → ∀ part, decodeNode buf = some part →
    ∀ child ∈ partChildren part, UniqueHash st.nodeHashes child

/-- A node part that names no child under two hashes. -/
theorem alignedResult_node {part : NodePart} {s : NodeHashStore}
    (hcontents : s.contents = st.nodeHashes.contents)
    (hunique : ∀ child ∈ partChildren part, UniqueHash st.nodeHashes child) :
    AlignedResult (receiveNode d st part) (receiveNode d (st.withStore s) part) := by
  have hhash : hashNodePart d (st.withStore s) part = hashNodePart d st part :=
    decodeNodePart_congr fun child hchild => getNodeHash_aligned hcontents (hunique child hchild)
  unfold receiveNode
  rw [hhash]
  cases hashNodePart d st part with
  | none => exact alignedResult_withStore (r := abortPreparedTx st Sw.txParsingFail) hcontents
  | some ctx =>
    dsimp only
    rw [recordNode_withStore]
    -- The new entry goes to the end in both stores.
    have hafter : (storeAfter d s ctx).contents = (recordNode d st ctx).nodeHashes.contents := by
      unfold storeAfter recordNode setNodeHash
      cases ctx.isRootNode with
      | true => exact hcontents
      | false =>
        show (s.push _).contents = (st.nodeHashes.push _).contents
        rw [SlotRing.contents_push, SlotRing.contents_push, hcontents]
    generalize recordNode d st ctx = st₁ at hafter ⊢
    generalize storeAfter d s ctx = s₁ at hafter ⊢
    have herr : (st₁.withStore s₁).hashErr = st₁.hashErr := rfl
    rw [herr]
    split
    · exact alignedResult_withStore (r := abortPreparedTx st₁ Sw.txHashFail) hafter
    · have hdisplay := displayNodePart_withStore (d := d)
        { st₁ with values := HoldingParser.valuesCollectFromNode d st₁.values part } part s₁
      have hkept : ∀ shown, displayNodePart d
          { st₁ with values := HoldingParser.valuesCollectFromNode d st₁.values part } part =
            some shown → shown.nodeHashes = st₁.nodeHashes := by
        intro shown hshown
        rcases displayNodePart_cases hshown with ⟨-, rfl⟩ | ⟨-, r, -, rfl⟩
        · rfl
        · rfl
      dsimp only [Prepared.withStore] at hdisplay ⊢
      rw [hdisplay]
      cases hshown : displayNodePart d
          { st₁ with values := HoldingParser.valuesCollectFromNode d st₁.values part } part with
      | none =>
        exact alignedResult_withStore (r := abortPreparedTx { st₁ with
          values := HoldingParser.valuesCollectFromNode d st₁.values part } Sw.txParsingFail) hafter
      | some shown =>
        refine alignedResult_withStore (r := (advanceNode shown, 0)) ?_
        show s₁.contents = shown.nodeHashes.contents
        rw [hkept shown hshown]
        exact hafter

/-- The header clears the hash error and empties the store. -/
theorem alignedResult_header (st : Prepared) (tx : DamlTransaction) (err : HashError)
    (s : NodeHashStore) :
    AlignedResult (receiveHeader st tx)
      (receiveHeader { st with hashErr := err, nodeHashes := s } tx) := by
  have hempty : (initNodeHashStore s).contents = (initNodeHashStore st.nodeHashes).contents := by
    unfold initNodeHashStore
    rw [SlotRing.contents_fill, SlotRing.contents_fill]
  unfold receiveHeader
  dsimp only
  split
  · exact ⟨rfl, _, _, rfl, fun _ => ⟨rfl, hempty⟩⟩
  · exact ⟨rfl, _, _, rfl, fun _ => ⟨rfl, hempty⟩⟩

/-- A refusal drops what the states differ in. -/
theorem alignedResult_abort (h : Aligned st st') (sw : Int) :
    AlignedResult (abortPreparedTx st sw) (abortPreparedTx st' sw) := by
  obtain ⟨s, err, rfl, hsame⟩ := h
  exact ⟨rfl, s, err, rfl, hsame⟩

/-! One equation of the processor for each state. -/

/-- The processor while it waits for the header. -/
theorem process_header (h : st.txState = .damlTxPart) : processPreparedTxPart d parsed st buf =
    match decodeDamlTransaction buf with
    | none => abortPreparedTx st Sw.txParsingFail
    | some tx => receiveHeader st tx := by
  cases hdec : decodeDamlTransaction buf <;> simp only [processPreparedTxPart, h, hdec]

/-- While it waits for nodes. -/
theorem process_node (h : st.txState = .damlNodes) : processPreparedTxPart d parsed st buf =
    match decodeNode buf with
    | none => abortPreparedTx st Sw.txParsingFail
    | some part => receiveNode d st part := by
  cases hdec : decodeNode buf <;> simp only [processPreparedTxPart, h, hdec]

/-- For the metadata. -/
theorem process_metadata (h : st.txState = .metadata) :
    processPreparedTxPart d parsed st buf = receiveMetadata d parsed st (decodeMetadata buf) := by
  simp only [processPreparedTxPart, h]

/-- For input contracts. -/
theorem process_contract (h : st.txState = .metadataInputContracts) :
    processPreparedTxPart d parsed st buf =
      match decodeInputContract buf with
      | none => abortPreparedTx st Sw.txParsingFail
      | some ic => receiveInputContract d parsed st ic := by
  cases hdec : decodeInputContract buf <;> simp only [processPreparedTxPart, h, hdec]

/-- One message of a flow, after two pasts. -/
theorem alignedResult_part (h : Aligned st st') (hunique : LookupsUnique st buf) :
    AlignedResult (processPreparedTxPart d parsed st buf)
      (processPreparedTxPart d parsed st' buf) := by
  have haborted := alignedResult_abort h Sw.txParsingFail
  have hstate' : st'.txState = st.txState := by
    obtain ⟨s, err, rfl, -⟩ := h
    rfl
  have hstore : st.txState ≠ .damlTxPart →
      ∃ s, st' = st.withStore s ∧ s.contents = st.nodeHashes.contents := by
    obtain ⟨s, err, rfl, hsame⟩ := h
    intro hst
    obtain ⟨rfl, hcontents⟩ := hsame hst
    exact ⟨s, rfl, hcontents⟩
  cases hstate : st.txState with
  | damlTxPart =>
    obtain ⟨s, err, rfl, -⟩ := h
    rw [process_header hstate, process_header (hstate'.trans hstate)]
    cases decodeDamlTransaction buf with
    | none => exact haborted
    | some tx => exact alignedResult_header st tx err s
  | damlNodes =>
    obtain ⟨s, rfl, hcontents⟩ := hstore (by rw [hstate]; decide)
    rw [process_node hstate, process_node (hstate'.trans hstate)]
    cases hdec : decodeNode buf with
    | none => exact haborted
    | some part => exact alignedResult_node hcontents (hunique hstate part hdec)
  | metadata =>
    obtain ⟨s, rfl, hcontents⟩ := hstore (by rw [hstate]; decide)
    rw [process_metadata hstate, process_metadata (hstate'.trans hstate),
      receiveMetadata_withStore]
    -- With its own store put back the state is what it was, so the store is kept.
    have hkept : (receiveMetadata d parsed st (decodeMetadata buf)).1.nodeHashes = st.nodeHashes :=
      congrArg (fun r : PartResult => r.1.nodeHashes)
        (receiveMetadata_withStore st (decodeMetadata buf) st.nodeHashes)
    refine alignedResult_withStore ?_
    rw [hkept]
    exact hcontents
  | metadataInputContracts =>
    obtain ⟨s, rfl, hcontents⟩ := hstore (by rw [hstate]; decide)
    rw [process_contract hstate, process_contract (hstate'.trans hstate)]
    cases decodeInputContract buf with
    | none => exact haborted
    | some ic =>
      dsimp only
      rw [receiveInputContract_withStore]
      have hkept : (receiveInputContract d parsed st ic).1.nodeHashes = st.nodeHashes :=
        congrArg (fun r : PartResult => r.1.nodeHashes)
          (receiveInputContract_withStore st ic st.nodeHashes)
      refine alignedResult_withStore ?_
      rw [hkept]
      exact hcontents

end CantonSigner
