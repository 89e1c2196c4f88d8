import CantonSigner.Flow.Aligned
import CantonSigner.Flow.Heap

/-!
# Apps with different pasts

What two pasts leave of the app when a flow starts is `AlignedApp`, and one command keeps it
and is answered alike (`alignedAnswer_step`): if it completes a node part, no child of the part
may be stored under two hashes (`CommandUnique`). The heap may differ as well
(`alignedAnswer_heaps`), if the part keeps no Timestamp in a field that is read as text.
-/

namespace CantonSigner

open ByteCodec

variable {d : Device} {buf : Bytes} {parsed : Bool}

/-- The app with what another one has of the modules and on its screen. -/
def App.withPast (a b : App) : App := { a with prep := b.prep, topo := b.topo, screen := b.screen }

/-- Two apps that differ in what the next first APDU cleans or no APDU reads. -/
structure AlignedApp (a a' : App) : Prop where
  same : a' = a.withPast a'
  prepared : a.Receiving → Aligned a.prepared a'.prepared
  topology : a.ReceivingTopology → a'.topo = a.topo

variable {a a' : App}

/-- With no flow open, that is all. -/
theorem alignedApp_closed (hsame : a' = a.withPast a') (hclosed : a.reqType ≠ .confirmTransaction) :
    AlignedApp a a' :=
  ⟨hsame, fun h => absurd h.1 hclosed, fun h => absurd h.1 hclosed⟩

/-- Two answers, with the states that they leave. -/
def AlignedAnswer (r r' : App × Output) : Prop := r'.2 = r.2 ∧ AlignedApp r.1 r'.1

/-- A refusal closes the flow. -/
theorem alignedAnswer_refuse (hsame : a' = a.withPast a') (sw : Int) :
    AlignedAnswer (refuseTx a sw) (refuseTx a' sw) := by
  refine ⟨rfl, alignedApp_closed ?_ nofun⟩
  rw [hsame]
  rfl

/-- The first APDU of a flow leaves aligned apps, whatever the pasts. -/
theorem alignedAnswer_first (a a' : App) (hset : a'.allowBlindSign = a.allowBlindSign)
    (type : SigningType) (data : Bytes) :
    AlignedAnswer (startFlow d a type data) (startFlow d a' type data) := by
  obtain ⟨state, reqType, signingType, bip32Path, rawTx, tx, prep, topo, publicKey, screen,
    allow⟩ := a'
  obtain rfl : allow = a.allowBlindSign := hset
  unfold startFlow processFirstChunk
  dsimp only
  cases readBip32Path data with
  | none => exact alignedAnswer_refuse rfl Sw.wrongDataLength
  | some r =>
    obtain ⟨path, rest⟩ := r
    cases type with
    | hash => exact ⟨rfl, rfl, fun h => absurd h.2 nofun, fun h => absurd h.2 nofun⟩
    | preparedTransaction =>
      refine ⟨rfl, rfl, fun _ => ?_, fun h => absurd h.2 nofun⟩
      exact ⟨prep.nodeHashes, prep.hashErr, rfl, fun h => absurd rfl h⟩
    | untypedVersionedMessage =>
      dsimp only [processUntypedVersionedMsgTxInit]
      cases derivePublicKey d path with
      | error e => exact ⟨rfl, alignedApp_closed rfl nofun⟩
      | ok key =>
        dsimp only
        cases (readChallengeAndDeadline rest).isSome with
        | false => exact alignedAnswer_refuse rfl Sw.wrongDataLength
        | true => exact ⟨rfl, rfl, fun h => absurd h.2 nofun, fun _ => rfl⟩

/-- What a message changes outside the modules. -/
def App.update (a : App) (state : State) (rawTx : Bytes) (tx : TxInfo) (screen : Screen) : App :=
  { a with state := state, rawTx := rawTx, tx := tx, screen := screen }

/-- Apps stay aligned under the same change; their screens are not compared. -/
theorem AlignedApp.update (h : AlignedApp a a') (state : State) (rawTx : Bytes) (tx : TxInfo)
    (screen screen' : Screen) :
    AlignedApp (a.update state rawTx tx screen) (a'.update state rawTx tx screen') := by
  obtain ⟨hsame, hprepared, htopology⟩ := h
  refine ⟨?_, ?_, htopology⟩
  · rw [hsame]
    rfl
  · intro hr
    obtain ⟨s, err, heq, hst⟩ := hprepared hr
    refine ⟨s, err, ?_, hst⟩
    have hprep : a'.prep = { a.prep with hashErr := err, nodeHashes := s } :=
      congrArg Prepared.toPreparedState heq
    show (⟨tx, a'.prep⟩ : Prepared) = _
    rw [hprep]
    rfl

theorem processMessage_hash (h : a.signingType = .hash) :
    processMessage d a buf = some (processTransactionHash a buf) := by
  simp only [processMessage, h]

/-- The message of a prepared transaction, after two pasts. -/
theorem alignedApp_prepared (h : AlignedApp a a') {st₁ st₁' : Prepared} (hst : Aligned st₁ st₁')
    (htype : a.signingType = .preparedTransaction) :
    AlignedApp (a.setPrepared st₁) (a'.setPrepared st₁') := by
  obtain ⟨s, err, rfl, hsame⟩ := hst
  refine ⟨?_, fun _ => ⟨s, err, rfl, hsame⟩, fun hr => ?_⟩
  · rw [h.same]
    rfl
  · exact absurd (htype.symm.trans hr.2) nofun

/-- The message of a topology flow, after two pasts. -/
theorem alignedApp_topology (h : AlignedApp a a') (t : Topology)
    (htype : a.signingType = .untypedVersionedMessage) :
    AlignedApp (a.setTopology t) (a'.setTopology t) := by
  refine ⟨?_, fun hr => ?_, fun _ => rfl⟩
  · rw [h.same]
    rfl
  · exact absurd (htype.symm.trans hr.2) nofun

/-- What aligned apps have in common. -/
theorem AlignedApp.state_eq (h : AlignedApp a a') : a'.state = a.state :=
  (congrArg App.state h.same).trans rfl

theorem AlignedApp.reqType_eq (h : AlignedApp a a') : a'.reqType = a.reqType :=
  (congrArg App.reqType h.same).trans rfl

theorem AlignedApp.signingType_eq (h : AlignedApp a a') : a'.signingType = a.signingType :=
  (congrArg App.signingType h.same).trans rfl

theorem AlignedApp.rawTx_eq (h : AlignedApp a a') : a'.rawTx = a.rawTx :=
  (congrArg App.rawTx h.same).trans rfl

theorem AlignedApp.tx_eq (h : AlignedApp a a') : a'.tx = a.tx := (congrArg App.tx h.same).trans rfl

theorem AlignedApp.allowBlindSign_eq (h : AlignedApp a a') :
    a'.allowBlindSign = a.allowBlindSign :=
  (congrArg App.allowBlindSign h.same).trans rfl

/-- An open flow has its header in place after both pasts or after neither. -/
theorem AlignedApp.headerOverwritten_eq (h : AlignedApp a a')
    (hopen : a.reqType = .confirmTransaction) : a'.headerOverwritten = a.headerOverwritten := by
  by_cases htype : a.signingType = .preparedTransaction
  · obtain ⟨s, err, hprepared, -⟩ := h.prepared ⟨hopen, htype⟩
    have hstate : a'.prep.txState = a.prep.txState :=
      congrArg (fun st : Prepared => st.txState) hprepared
    simp only [App.headerOverwritten, h.signingType_eq, h.tx_eq, hstate]
  · rw [headerOverwritten_of_type htype, headerOverwritten_of_type (h.signingType_eq ▸ htype)]

/-- The leftovers of the second past. -/
theorem AlignedApp.exists_past (h : AlignedApp a a') :
    ∃ p t s, a' = { a with prep := p, topo := t, screen := s } :=
  ⟨a'.prep, a'.topo, a'.screen, h.same⟩

/-- The transaction hash of a hash flow, after two pasts. -/
theorem alignedApp_hash (h : AlignedApp a a') (buf : Bytes) :
    (processTransactionHash a' buf).2 = (processTransactionHash a buf).2 ∧
      AlignedApp (processTransactionHash a buf).1 (processTransactionHash a' buf).1 := by
  obtain ⟨p, t, s, rfl⟩ := h.exists_past
  unfold processTransactionHash
  by_cases hstate : a.state ≠ .parsed
  · rw [if_pos hstate, if_pos hstate]
    exact ⟨rfl, h⟩
  · rw [if_neg hstate, if_neg hstate]
    split
    · exact ⟨rfl, h⟩
    · exact ⟨rfl, h.update a.state a.rawTx { a.tx with mHash := buf, mHashLen := buf.length }
        a.screen s⟩

/-- The processor of a message of a topology flow. -/
theorem processMessage_ofTopology (htype : a.signingType = .untypedVersionedMessage) :
    processMessage d a buf =
      match processUntypedVersionedMsgTx d (a.state = .parsed) a.topology buf with
      | .assertion => none
      | .refused t sw => some (a.setTopology t, sw)
      | .ok t => some (a.setTopology t, 0) := by
  cases htopology : processUntypedVersionedMsgTx d (a.state = .parsed) a.topology buf <;>
    simp only [processMessage, htype, htopology]

/-- The processor of a message, after two pasts. -/
theorem alignedApp_message (h : AlignedApp a a') (hopen : a.reqType = .confirmTransaction)
    (hunique : a.signingType = .preparedTransaction → LookupsUnique a.prepared buf) :
    (processMessage d a buf = none ∧ processMessage d a' buf = none) ∨
      ∃ a₁ a₁' sw, processMessage d a buf = some (a₁, sw) ∧
        processMessage d a' buf = some (a₁', sw) ∧ AlignedApp a₁ a₁' := by
  cases htype : a.signingType with
  | preparedTransaction =>
    have hresult : AlignedResult (processPreparedTxPart d (a.state = .parsed) a.prepared buf)
        (processPreparedTxPart d (a'.state = .parsed) a'.prepared buf) := by
      rw [h.state_eq]
      exact alignedResult_part (h.prepared ⟨hopen, htype⟩) (hunique htype)
    refine .inr ⟨_, _, _, processMessage_prepared htype, ?_,
      alignedApp_prepared h hresult.2 htype⟩
    rw [← hresult.1]
    exact processMessage_prepared (h.signingType_eq.trans htype)
  | hash =>
    obtain ⟨hsw, happ⟩ := alignedApp_hash h buf
    refine .inr ⟨(processTransactionHash a buf).1, (processTransactionHash a' buf).1,
      (processTransactionHash a buf).2, processMessage_hash htype, ?_, happ⟩
    rw [processMessage_hash (h.signingType_eq.trans htype), ← hsw]
  | untypedVersionedMessage =>
    have htopo : a'.topology = a.topology := by
      show (⟨a'.tx, a'.topo⟩ : Topology) = _
      rw [h.tx_eq, h.topology ⟨hopen, htype⟩]
      rfl
    rw [processMessage_ofTopology htype, processMessage_ofTopology (h.signingType_eq.trans htype),
      h.state_eq, htopo]
    cases processUntypedVersionedMsgTx d (a.state = .parsed) a.topology buf with
    | assertion => exact .inl ⟨rfl, rfl⟩
    | refused t₁ sw => exact .inr ⟨_, _, sw, rfl, rfl, alignedApp_topology h t₁ htype⟩
    | ok t₁ => exact .inr ⟨_, _, 0, rfl, rfl, alignedApp_topology h t₁ htype⟩

/-- A screen of the review, after two pasts. -/
theorem alignedAnswer_screen (h : AlignedApp a a') (isBlind : Bool) :
    AlignedAnswer (uiDisplayTransactionBsChoice a isBlind)
      (uiDisplayTransactionBsChoice a' isBlind) := by
  obtain ⟨p, t, s, rfl⟩ := h.exists_past
  unfold uiDisplayTransactionBsChoice
  dsimp only
  split
  · exact ⟨rfl, h.update .none a.rawTx a.tx a.screen s⟩
  · split
    · exact ⟨rfl, h.update a.state a.rawTx _ _ _⟩
    · exact ⟨rfl, h.update a.state a.rawTx a.tx _ _⟩

/-- The review of a message, after two pasts. -/
theorem alignedAnswer_review (h : AlignedApp a a') :
    AlignedAnswer (startReview a) (startReview a') := by
  have hclear := alignedAnswer_screen h false
  have hblind := alignedAnswer_screen h true
  obtain ⟨p, t, s, rfl⟩ := h.exists_past
  unfold startReview
  dsimp only
  split
  · exact hclear
  · split
    · exact ⟨rfl, h.update a.state a.rawTx _ _ _⟩
    · exact hblind

/-- The answer to a message, after two pasts. -/
theorem alignedAnswer_message (h : AlignedApp a a') (hopen : a.reqType = .confirmTransaction)
    (hunique : a.signingType = .preparedTransaction → LookupsUnique a.prepared buf) :
    AlignedAnswer (processAndAnswer d a buf) (processAndAnswer d a' buf) := by
  have hclosed : (App.powerUp a.allowBlindSign).reqType ≠ .confirmTransaction := by
    simp [App.powerUp]
  by_cases hover : a.headerOverwritten = true
  · have hover' : a'.headerOverwritten = true := by
      rw [h.headerOverwritten_eq hopen]
      exact hover
    rw [processAndAnswer, processAndAnswer, if_pos hover, if_pos hover']
    refine ⟨rfl, alignedApp_closed ?_ hclosed⟩
    rw [h.allowBlindSign_eq]
    rfl
  have hover : a.headerOverwritten = false := Bool.eq_false_of_not_eq_true hover
  rw [processAndAnswer_eq hover, processAndAnswer_eq ((h.headerOverwritten_eq hopen).trans hover)]
  rcases alignedApp_message (d := d) h hopen hunique with ⟨hnone, hnone'⟩ |
    ⟨a₁, a₁', sw, hm, hm', h₁⟩
  · rw [hnone, hnone']
    refine ⟨rfl, alignedApp_closed ?_ hclosed⟩
    show App.powerUp a'.allowBlindSign = (App.powerUp a.allowBlindSign).withPast _
    rw [h.allowBlindSign_eq]
    rfl
  · rw [hm, hm', answerMessage, answerMessage, h₁.state_eq]
    split
    · refine alignedAnswer_refuse ?_ sw
      rw [h₁.same]
      rfl
    · split
      · exact alignedAnswer_review h₁
      · exact ⟨rfl, h₁⟩

/-! ## Commands -/

/-- The node part that a command completes names no child that the store holds under two
different hashes. -/
def CommandUnique (d : Device) (a : App) (c : Command) : Prop :=
  ∀ parsed buf, messageOf d a (.apdu c) = some (parsed, buf) →
    a.signingType = .preparedTransaction → LookupsUnique a.prepared buf

/-- A continuation, after two pasts. -/
theorem alignedAnswer_next (h : AlignedApp a a') {c : Command} {more msgEnd : Bool} {data : Bytes}
    (hreq : request a (.apdu c) = .next more msgEnd data) (hunique : CommandUnique d a c) :
    AlignedAnswer (continueFlow d a more msgEnd data) (continueFlow d a' more msgEnd data) := by
  have hmessage : messageOf d a (.apdu c) =
      let r := processNextChunk d a more msgEnd data
      if r.2.1 = 0 then r.2.2.map fun buf => (msgEnd && !more, buf) else none := by
    simp only [messageOf, hreq]
  have hrefuse : ∀ sw, AlignedAnswer (refuseTx a sw) (refuseTx a' sw) := by
    intro sw
    refine alignedAnswer_refuse ?_ sw
    exact h.same
  unfold processNextChunk at hmessage
  unfold continueFlow processNextChunk
  rw [h.reqType_eq, h.rawTx_eq]
  by_cases hopen : a.reqType ≠ .confirmTransaction
  · rw [if_pos hopen, if_pos hopen]
    exact hrefuse Sw.badState
  · rw [if_neg hopen] at hmessage ⊢
    rw [if_neg hopen]
    rw [not_not] at hopen
    by_cases hlen : d.maxTransactionLen < a.rawTx.length + data.length
    · rw [if_pos hlen, if_pos hlen]
      exact hrefuse Sw.wrongTxLength
    · rw [if_neg hlen] at hmessage ⊢
      rw [if_neg hlen]
      -- What the chunk is added to is the same, so the same message is complete.
      have hupdate := fun state raw => h.update state raw a.tx a.screen a'.screen
      obtain ⟨p, t, s, rfl⟩ := h.exists_past
      cases msgEnd with
      | true =>
        cases more with
        | true =>
          exact alignedAnswer_message (hupdate .msgComplete []) hopen
            (hunique _ _ (hmessage.trans rfl))
        | false =>
          exact alignedAnswer_message (hupdate .parsed (a.rawTx ++ data)) hopen
            (hunique _ _ (hmessage.trans rfl))
      | false =>
        cases more with
        | true => exact ⟨rfl, hupdate .expectingMore (a.rawTx ++ data)⟩
        | false =>
          refine alignedAnswer_refuse ?_ Sw.badState
          rfl

/-- A command reaches the same handler after two pasts. -/
theorem request_aligned (h : AlignedApp a a') (c : Command) :
    request a' (.apdu c) = request a (.apdu c) := by
  simp only [request, requestOfCommand, h.signingType_eq]

/-- **One command** of a flow, after two pasts. -/
theorem alignedAnswer_step (h : AlignedApp a a') {c : Command} (hunique : CommandUnique d a c) :
    AlignedAnswer (step d a (.apdu c)) (step d a' (.apdu c)) := by
  have hreq' := request_aligned h c
  cases hreq : request a (.apdu c) with
  | untouched =>
    rw [step_untouched_command hreq, step_untouched_command (hreq'.trans hreq)]
    exact ⟨rfl, h⟩
  | getPublicKey data display =>
    rw [step_getPublicKey hreq, step_getPublicKey (hreq'.trans hreq)]
    obtain ⟨p, t, s, rfl⟩ := h.exists_past
    unfold handlerGetPublicKey
    dsimp only
    cases readBip32Path data with
    | none => exact ⟨rfl, alignedApp_closed rfl nofun⟩
    | some r =>
      dsimp only
      cases derivePublicKey d r.1 with
      | error e => exact ⟨rfl, alignedApp_closed rfl nofun⟩
      | ok key =>
        cases display with
        | true => exact ⟨rfl, alignedApp_closed rfl nofun⟩
        | false => exact ⟨rfl, alignedApp_closed rfl nofun⟩
  | first type data =>
    rw [step_first hreq, step_first (hreq'.trans hreq)]
    exact alignedAnswer_first a a' h.allowBlindSign_eq type data
  | next more msgEnd data =>
    rw [step_next hreq, step_next (hreq'.trans hreq)]
    exact alignedAnswer_next h hreq hunique
  | decide confirm => exact absurd hreq request_command_ne_decide

/-! ## Two heaps -/

/-- The same parts are walked to the same end after two pasts. -/
theorem CommandTyped.aligned {c : Command} (htyped : CommandTyped d a c) (h : AlignedApp a a') :
    CommandTyped d a' c := by
  intro parsed buf hmsg htype
  have hchunk : ∀ more msgEnd data, (processNextChunk d a' more msgEnd data).2 =
      (processNextChunk d a more msgEnd data).2 := by
    intro more msgEnd data
    unfold processNextChunk
    rw [h.reqType_eq, h.rawTx_eq]
    split
    · rfl
    · split
      · rfl
      · cases msgEnd <;> cases more <;> rfl
  have hsame : messageOf d a' (.apdu c) = messageOf d a (.apdu c) := by
    unfold messageOf
    rw [request_aligned h]
    simp only [hchunk]
  rw [hsame] at hmsg
  rw [h.signingType_eq] at htype
  have hopen : a.reqType = .confirmTransaction := messageOf_open hmsg
  obtain ⟨s, err, heq, -⟩ := h.prepared ⟨hopen, htype⟩
  rw [heq]
  exact htyped parsed buf hmsg htype

/-- **One command** of a flow, after two pasts and on two heaps. -/
theorem alignedAnswer_heaps {heap heap' : Bytes → Bytes} (h : AlignedApp a a') (hr : a.Regular d)
    (hr' : a'.Regular d) {c : Command} (hunique : CommandUnique d a c)
    (htyped : CommandTyped d a c) :
    AlignedAnswer (step (d.withHeap heap) a (.apdu c)) (step (d.withHeap heap') a' (.apdu c)) := by
  rw [step_withHeap hr htyped, step_withHeap hr' (htyped.aligned h)]
  exact alignedAnswer_step h hunique

end CantonSigner
