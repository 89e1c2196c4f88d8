import CantonSigner.Flow.Requests

/-!
# How a processed message is answered

A message is refused with a status word of its processor, or it is accepted, and
then the last one of a flow starts the review. `processAndAnswer_cases` says this
once; the processors change nothing of the app but the transaction state
(`processMessage_frame`), and no refusal uses the words the app answers an
accepted message with (`processMessage_sw`).
-/

namespace CantonSigner

open ByteCodec

variable {d : Device}

/-! ## Status words of refusals -/

/-- The error rows of the status word table (doc/APDU.md:253–292). -/
def documentedErrors : List Int := [
  Sw.deny, Sw.incorrectData, Sw.wrongP1P2, Sw.wrongDataLength, Sw.insNotSupported,
  Sw.claNotSupported, Sw.displayAddressFail, Sw.wrongTxLength, Sw.txParsingFail, Sw.txHashFail,
  Sw.badState, Sw.signatureFail, Sw.challengeSignatureFail, Sw.txInvalidNodeTree,
  Sw.topologyMultipleNamespaceDelegations, Sw.topologyMissingTargetKey,
  Sw.topologyPartyKeyMismatch, Sw.topologyPartyKeyWrongFormat, Sw.topologyMissingPartyKey,
  Sw.topologyPartyIdMismatch, Sw.topologyUnexpectedPartyToKeySigningKeysCount,
  Sw.topologyUnexpectedPartyToKeyThresholdValue, Sw.topologyMultiplePartyToKeyMappings,
  Sw.topologyMissingParty, Sw.topologyUnexpectedNumberOfParticipants,
  Sw.topologyUnexpectedDuplicateParticipant, Sw.topologyMissingParticipantData,
  Sw.topologyUnexpectedParticipantId, Sw.topologyUnexpectedThresholdValue,
  Sw.topologyUnexpectedPartySigningKeys, Sw.topologyMultiplePartyToParticipants,
  Sw.topologyUnknownMappingType, Sw.topologyUnsupportedOperation,
  Sw.topologyMandatoryFieldMissing, Sw.topologyTooManyMessages]

/-- A status word that is neither `SW_OK` nor the blind-signing answer. -/
def IsRefusal (sw : Int) : Prop := sw ≠ Sw.ok ∧ sw ≠ Sw.incorrectData

instance (sw : Int) : Decidable (IsRefusal sw) := inferInstanceAs (Decidable (_ ∧ _))

/-- A documented error that no other answer uses. -/
def IsErrorWord (sw : Int) : Prop := sw ∈ documentedErrors ∧ IsRefusal sw

instance (sw : Int) : Decidable (IsErrorWord sw) := inferInstanceAs (Decidable (_ ∧ _))

/-- An error is not zero. -/
theorem IsErrorWord.ne_zero {sw : Int} (h : IsErrorWord sw) : sw ≠ 0 := by
  rintro rfl
  exact absurd h (by decide)

/-- The result of a processor: accepted, or refused with an error of its own. -/
def IsPartWord (sw : Int) : Prop := sw = 0 ∨ IsErrorWord sw

instance (sw : Int) : Decidable (IsPartWord sw) := inferInstanceAs (Decidable (_ ∨ _))

/-- Neither is `SW_OK` or the blind-signing answer. -/
theorem IsPartWord.isRefusal {sw : Int} (h : IsPartWord sw) : IsRefusal sw := by
  rcases h with rfl | ⟨-, h⟩
  · decide
  · exact h

/-- The result of a part is accepted or refused with a word of its own. -/
def PartResult.answered (r : PartResult) : Prop := IsPartWord r.2

/-- An abort. -/
theorem answered_abort (st : Prepared) {sw : Int} (h : IsPartWord sw) :
    (abortPreparedTx st sw).answered := h

/-- An acceptance. -/
theorem answered_accept (st : Prepared) : PartResult.answered (st, 0) := .inl rfl

/-- Finalising the transaction. -/
theorem processPreparedTxFinalize_answered (parsed : Bool) (st : Prepared) :
    (processPreparedTxFinalize d parsed st).answered := by
  unfold processPreparedTxFinalize
  split
  · exact answered_abort _ (by decide)
  · exact answered_accept _

/-- The header. -/
theorem receiveHeader_answered (st : Prepared) (tx : DamlTransaction) :
    (receiveHeader st tx).answered := by
  unfold receiveHeader
  dsimp only
  split
  · exact answered_abort _ (by decide)
  · exact answered_accept _

/-- A node. -/
theorem receiveNode_answered (st : Prepared) (part : NodePart) :
    (receiveNode d st part).answered := by
  unfold receiveNode
  split
  · exact answered_abort _ (by decide)
  · dsimp only
    split
    · exact answered_abort _ (by decide)
    · split
      · exact answered_abort _ (by decide)
      · exact answered_accept _

/-- The verdict on the tree. -/
theorem applyNodeTreeVerdict_answered (st : Prepared) : (applyNodeTreeVerdict st).answered := by
  unfold applyNodeTreeVerdict
  dsimp only
  split
  · exact answered_accept _
  · split
    · exact answered_abort _ (by decide)
    · exact answered_accept _

/-- The metadata. -/
theorem receiveMetadata_answered (parsed : Bool) (st : Prepared) (md : Option Metadata) :
    (receiveMetadata d parsed st md).answered := by
  unfold receiveMetadata
  dsimp only
  split
  · exact applyNodeTreeVerdict_answered st
  · unfold hashMetadataPart
    dsimp only
    split
    · exact answered_abort _ (by decide)
    · split
      · exact answered_abort _ (by decide)
      · split
        · exact processPreparedTxFinalize_answered _ _
        · exact answered_accept _

/-- An input contract. -/
theorem receiveInputContract_answered (parsed : Bool) (st : Prepared) (ic : InputContract) :
    (receiveInputContract d parsed st ic).answered := by
  unfold receiveInputContract
  split
  · exact answered_abort _ (by decide)
  · dsimp only
    split
    · exact answered_abort _ (by decide)
    · split
      · exact answered_abort _ (by decide)
      · split
        · exact processPreparedTxFinalize_answered _ _
        · exact answered_accept _

/-- So is every part of a prepared transaction. -/
theorem processPreparedTxPart_answered (parsed : Bool) (st : Prepared) (buf : Bytes) :
    (processPreparedTxPart d parsed st buf).answered := by
  unfold processPreparedTxPart
  split
  · split
    · exact answered_abort _ (by decide)
    · exact receiveHeader_answered _ _
  · split
    · exact answered_abort _ (by decide)
    · exact receiveNode_answered _ _
  · exact receiveMetadata_answered _ _ _
  · split
    · exact answered_abort _ (by decide)
    · exact receiveInputContract_answered _ _ _

/-- A refused topology message is refused with a word of its own. -/
def Outcome.answered : Outcome → Prop
  | .refused _ sw => IsErrorWord sw
  | _ => True

/-- The check of a key. -/
theorem checkPartyKeyValue_isPartWord (t : Topology) (key : SigningPublicKey) :
    IsPartWord (checkPartyKeyValue t key) := by
  have hwords : IsPartWord Sw.topologyMissingPartyKey ∧ IsPartWord Sw.topologyPartyKeyWrongFormat ∧
      IsPartWord Sw.topologyPartyKeyMismatch ∧ IsPartWord 0 := by decide
  obtain ⟨hmissing, hformat, hmismatch, hzero⟩ := hwords
  unfold checkPartyKeyValue
  split_ifs <;> assumption

/-- The participants of one configuration. -/
theorem matchParticipants_isErrorWord (config : List ParticipantName) (uids : List (Option Bytes))
    (matched : List Nat) (names : List (Option Bytes)) {sw : Int}
    (h : matchParticipants config uids matched names = .error sw) : IsErrorWord sw := by
  induction uids generalizing matched names with
  | nil => simp [matchParticipants] at h
  | cons uid uids ih =>
    simp only [matchParticipants] at h
    split at h
    · cases h; decide
    · cases h; decide
    · split at h
      · exact ih _ _ h
      · split at h
        · cases h; decide
        · exact ih _ _ h

/-- The search for a configuration. -/
theorem findParticipants_isErrorWord (uids : List (Option Bytes))
    (configs : List (List ParticipantName)) {sw : Int}
    (h : findParticipants uids configs = .error sw) : IsErrorWord sw := by
  induction configs with
  | nil =>
    simp only [findParticipants] at h
    cases h
    decide
  | cons config configs ih =>
    simp only [findParticipants] at h
    split at h
    · split at h
      · rename_i heq
        cases h
        exact matchParticipants_isErrorWord _ _ _ _ heq
      · split at h
        · cases h
        · exact ih h
    · exact ih h

/-- A namespace delegation. -/
theorem processNamespaceDelegation_answered (t : Topology) (m : NamespaceDelegation) :
    (processNamespaceDelegation t m).answered := by
  unfold processNamespaceDelegation
  split
  · show IsErrorWord _; decide
  · cases m.targetKey with
    | none => exact (by decide : IsErrorWord Sw.topologyMissingTargetKey)
    | some key =>
      have hret := checkPartyKeyValue_isPartWord t key
      dsimp only
      split_ifs with hzero
      · trivial
      · exact hret.resolve_left hzero

/-- A party-to-key mapping. -/
theorem processPartyToKeyMapping_answered (t : Topology) (m : PartyToKeyMapping) :
    (processPartyToKeyMapping d t m).answered := by
  unfold processPartyToKeyMapping refuseMapping
  split
  · show IsErrorWord _; decide
  · split
    · show IsErrorWord _; decide
    · split
      · show IsErrorWord _; decide
      · split
        · dsimp only
          split
          · trivial
          · rename_i hzero
            exact (checkPartyKeyValue_isPartWord _ _).resolve_left hzero
        · show IsErrorWord _; decide

/-- A party-to-participant mapping. -/
theorem processPartyToParticipant_answered (t : Topology) (m : PartyToParticipant) :
    (processPartyToParticipant d t m).answered := by
  unfold processPartyToParticipant refuseMapping
  split
  · show IsErrorWord _; decide
  · split
    · show IsErrorWord _; decide
    · split
      · show IsErrorWord _; decide
      · split
        · show IsErrorWord _; decide
        · split
          · show IsErrorWord _; decide
          · split
            · show IsErrorWord _; decide
            · split
              · trivial
              · split
                · rename_i heq
                  exact findParticipants_isErrorWord _ _ heq
                · split <;> trivial

/-- So is every topology transaction that decodes. -/
theorem parseTopologyTransactionForDisplay_answered (t : Topology) {buf : Bytes}
    (hdec : d.decodeTopologyTransaction buf ≠ none) :
    (parseTopologyTransactionForDisplay d t buf).answered := by
  unfold parseTopologyTransactionForDisplay
  split
  · rename_i hnone
    exact absurd hnone hdec
  · split
    · trivial
    · split
      · show IsErrorWord _; decide
      · split
        · exact processNamespaceDelegation_answered _ _
        · exact processPartyToParticipant_answered _ _
        · exact processPartyToKeyMapping_answered _ _
        · show IsErrorWord _; decide

/-- And the end of the flow. -/
theorem finishTopology_answered (t : Topology) (hashes : List Bytes) :
    (finishTopology d t hashes).answered := by
  unfold finishTopology
  dsimp only
  split
  · split
    · show IsErrorWord _; decide
    · trivial
  · trivial

/-- A message that decodes is refused with a word of its own. -/
theorem processUntypedVersionedMsgTx_answered (parsed : Bool) (t : Topology) {buf : Bytes}
    (hdec : d.decodeTopologyTransaction buf ≠ none) :
    (processUntypedVersionedMsgTx d parsed t buf).answered := by
  unfold processUntypedVersionedMsgTx
  split
  · trivial
  · split
    · show IsErrorWord _; decide
    · dsimp only
      split
      · trivial
      · rename_i heq
        have hsw := heq ▸ parseTopologyTransactionForDisplay_answered _ hdec
        exact hsw
      · split
        · exact finishTopology_answered _ _
        · trivial

/-- A message that does not decode is refused with the parser's own status, if there is
room for its hash. -/
theorem processUntypedVersionedMsgTx_undecodable (parsed : Bool) {t : Topology} {buf : Bytes}
    (hdec : d.decodeTopologyTransaction buf = none) :
    processUntypedVersionedMsgTx d parsed t buf =
      match t.txHashes with
      | none => .assertion
      | some hashes =>
        if maxHashes ≤ hashes.length then .refused (cleanupHashStorage t) Sw.topologyTooManyMessages
        else .refused (cleanupHashStorage t) valueParsingError := by
  unfold processUntypedVersionedMsgTx parseTopologyTransactionForDisplay
  rw [hdec]
  cases t.txHashes <;> rfl

/-- A refusal is never taken for an acceptance. -/
theorem processUntypedVersionedMsgTx_nonzero {parsed : Bool} {t t' : Topology} {buf : Bytes}
    {sw : Int} (h : processUntypedVersionedMsgTx d parsed t buf = .refused t' sw) : sw ≠ 0 := by
  by_cases hdec : d.decodeTopologyTransaction buf = none
  · rw [processUntypedVersionedMsgTx_undecodable _ hdec] at h
    split at h
    · cases h
    · split at h <;> (cases h; decide)
  · have hansw := processUntypedVersionedMsgTx_answered parsed t hdec
    rw [h] at hansw
    exact hansw.ne_zero

/-- The words of the processors: their own, or the parser's status for a topology message
that does not decode. -/
theorem processMessage_word {a a₁ : App} {buf : Bytes} {sw : Int}
    (h : processMessage d a buf = some (a₁, sw)) :
    IsPartWord sw ∨ (sw = valueParsingError ∧ a.signingType = .untypedVersionedMessage ∧
      d.decodeTopologyTransaction buf = none) := by
  unfold processMessage at h
  split at h
  · cases h
    exact .inl (processPreparedTxPart_answered _ _ _)
  · -- a hash message has one of two refusals
    have hwords : IsPartWord Sw.badState ∧ IsPartWord Sw.wrongDataLength := by decide
    left
    simp only [Option.some.injEq, processTransactionHash] at h
    split at h
    · cases h
      exact hwords.1
    · split at h
      · cases h
        exact hwords.2
      · cases h
        exact .inl rfl
  · rename_i htype
    -- only a topology message that does not decode hands on its parser status
    by_cases hdec : d.decodeTopologyTransaction buf = none
    · rw [processUntypedVersionedMsgTx_undecodable _ hdec] at h
      cases hhashes : a.topology.txHashes with
      | none => simp [hhashes] at h
      | some hashes =>
        by_cases hroom : maxHashes ≤ hashes.length
        · simp only [hhashes, if_pos hroom] at h
          cases h
          exact .inl (by decide)
        · simp only [hhashes, if_neg hroom] at h
          cases h
          exact .inr ⟨rfl, htype, hdec⟩
    · have hansw := processUntypedVersionedMsgTx_answered (decide (a.state = .parsed)) a.topology
        hdec
      split at h
      · cases h
      · rename_i heq
        cases h
        rw [heq] at hansw
        exact .inl (.inr hansw)
      · cases h
        exact .inl (.inl rfl)

/-- No processor returns `SW_OK` or the blind-signing answer. -/
theorem processMessage_sw {a a₁ : App} {buf : Bytes} {sw : Int}
    (h : processMessage d a buf = some (a₁, sw)) : IsRefusal sw := by
  rcases processMessage_word h with hword | ⟨rfl, -⟩
  · exact hword.isRefusal
  · decide

/-! ## The answer -/

/-- The processors write to the transaction state only. -/
theorem processMessage_frame {a a₁ : App} {buf : Bytes} {sw : Int}
    (h : processMessage d a buf = some (a₁, sw)) :
    a₁ = { a with tx := a₁.tx, prep := a₁.prep, topo := a₁.topo } := by
  unfold processMessage at h
  split at h
  · cases h; rfl
  · simp only [Option.some.injEq, processTransactionHash] at h
    split at h
    · cases h; rfl
    · split at h <;> (cases h; rfl)
  · split at h
    · cases h
    · cases h; rfl
    · cases h; rfl

/-- Where the header is in place, the processor's word is answered. -/
theorem processAndAnswer_eq {a : App} (h : a.headerOverwritten = false) (buf : Bytes) :
    processAndAnswer d a buf = answerMessage a (processMessage d a buf) := by
  rw [processAndAnswer, h, if_neg Bool.false_ne_true]

/-- The other flows have no header. -/
theorem headerOverwritten_of_type {a : App} (h : a.signingType ≠ .preparedTransaction) :
    a.headerOverwritten = false := by
  simp [App.headerOverwritten, h]

/-- Nor has it gone before a transaction is finalised. -/
theorem headerOverwritten_of_open {a : App} (h : a.tx.mHashLen ≠ 32) :
    a.headerOverwritten = false := by
  simp [App.headerOverwritten, h]

/-- A message ends the session, is refused, is the last one and starts the
review, or is accepted with more to come. -/
theorem processAndAnswer_cases (a : App) (buf : Bytes) :
    ((processMessage d a buf = none ∧ processAndAnswer d a buf = assertFailed a) ∨
      (a.headerOverwritten = true ∧
        processAndAnswer d a buf = (App.powerUp a.allowBlindSign, .fault))) ∨
    (∃ a₁ sw, processMessage d a buf = some (a₁, sw) ∧ sw ≠ 0 ∧ processAndAnswer d a buf =
      refuseTx { a₁ with tx := { a₁.tx with review := cleanupDisplayItems a₁.tx.review } } sw) ∨
    (∃ a₁, processMessage d a buf = some (a₁, 0) ∧ a.state = .parsed ∧
      processAndAnswer d a buf = startReview a₁) ∨
    (∃ a₁, processMessage d a buf = some (a₁, 0) ∧ a.state ≠ .parsed ∧
      processAndAnswer d a buf = (a₁, .sw Sw.ok)) := by
  unfold processAndAnswer
  by_cases hover : a.headerOverwritten = true
  · exact .inl (.inr ⟨hover, if_pos hover⟩)
  rw [if_neg hover, answerMessage.eq_def]
  cases hm : processMessage d a buf with
  | none => exact .inl (.inl ⟨rfl, rfl⟩)
  | some r =>
    obtain ⟨a₁, sw⟩ := r
    right
    have hstate : a₁.state = a.state := by rw [processMessage_frame hm]
    by_cases hsw : sw = 0
    · subst hsw
      by_cases hp : a.state = .parsed
      · exact .inr (.inl ⟨a₁, rfl, hp, by simp [hstate, hp]⟩)
      · exact .inr (.inr ⟨a₁, rfl, hp, by simp [hstate, hp]⟩)
    · exact .inl ⟨a₁, sw, rfl, hsw, by simp [hsw]⟩

/-- The screen of a clear review. -/
def clearScreen (a : App) : Screen :=
  .clearReview a.tx.review.reviewTitle a.tx.review.reviewFinish (a.tx.review.pairs.getD [])

/-- The row of a blind review. -/
def blindRows (a : App) : List Pair :=
  [(str "Transaction hash", hexUpper (a.tx.mHash.take a.tx.mHashLen))]

/-- A review of a transaction that is complete is shown, or answered with the
blind-signing error. -/
theorem startReview_cases {a : App} (hreq : a.reqType = .confirmTransaction)
    (hstate : a.state = .parsed) :
    (a.tx.review.clearSigningAvailable = true ∧
      startReview a = ({ a with screen := clearScreen a }, .shown (clearScreen a))) ∨
    (a.tx.review.clearSigningAvailable = false ∧ startReview a = uiErrorBlindSigning a) ∨
    (a.tx.review.clearSigningAvailable = false ∧
      startReview a = ({ a with
        tx := { a.tx with review := { a.tx.review with pairs := some (blindRows a) } }
        screen := .blindReview (blindRows a) }, .shown (.blindReview (blindRows a)))) := by
  unfold startReview
  cases hc : a.tx.review.clearSigningAvailable with
  | true =>
    left
    simp [uiDisplayTransaction, uiDisplayTransactionBsChoice, hreq, hstate, clearScreen]
  | false =>
    right
    cases hb : a.allowBlindSign with
    | false => left; simp
    | true =>
      right
      simp [uiDisplayBlindSignedTransaction, uiDisplayTransactionBsChoice, hreq, hstate, hb,
        blindRows]

/-- The answer is a clear review. -/
def Output.isClearReview : Output → Bool
  | .shown (.clearReview ..) => true
  | _ => false

/-- A clear review has a title and rows. -/
theorem Output.exists_clearReview {o : Output} (h : o.isClearReview = true) :
    ∃ title finish rows, o = .shown (.clearReview title finish rows) := by
  cases o with
  | shown s =>
    cases s with
    | clearReview title finish rows => exact ⟨title, finish, rows, rfl⟩
    | menu => cases h
    | blindReview rows => cases h
    | addressReview partyId => cases h
    | blindSigningError => cases h
  | sw v => cases h
  | response data => cases h
  | nothing => cases h
  | assertion => cases h
  | fault => cases h

/-- A review is clear exactly if its rows were released. -/
theorem startReview_isClear {a : App} (hreq : a.reqType = .confirmTransaction)
    (hstate : a.state = .parsed) :
    (startReview a).2.isClearReview = a.tx.review.clearSigningAvailable := by
  rcases startReview_cases hreq hstate with ⟨hflag, heq⟩ | ⟨hflag, heq⟩ | ⟨hflag, heq⟩ <;>
    rw [heq, hflag] <;> rfl

/-- A review changes the state, the screen and what is shown there. -/
theorem startReview_frame (a : App) : ∃ state screen review, (startReview a).1 =
    { a with state := state, screen := screen, tx := { a.tx with review := review } } := by
  have hchoice : ∀ blind, ∃ state screen review, (uiDisplayTransactionBsChoice a blind).1 =
      { a with state := state, screen := screen, tx := { a.tx with review := review } } := by
    intro blind
    unfold uiDisplayTransactionBsChoice
    split
    · exact ⟨_, _, _, rfl⟩
    · split <;> exact ⟨_, _, _, rfl⟩
  unfold startReview
  split
  · exact hchoice false
  · split
    · exact ⟨_, _, _, rfl⟩
    · exact hchoice true

/-- A flow that stays open stays of its type. -/
theorem processAndAnswer_signingType {a : App} {raw buf : Bytes} {parsed : Bool}
    (hr : (processAndAnswer d (a.atMessage raw parsed) buf).1.reqType = .confirmTransaction) :
    (processAndAnswer d (a.atMessage raw parsed) buf).1.signingType = a.signingType := by
  rcases processAndAnswer_cases (d := d) (a.atMessage raw parsed) buf with (⟨-, h⟩ | ⟨-, h⟩) |
    ⟨a₁, sw, hm, -, h⟩ | ⟨a₁, hm, -, h⟩ | ⟨a₁, hm, -, h⟩
  · rw [h] at hr
    exact absurd hr (by simp [assertFailed, App.powerUp])
  · rw [h] at hr
    exact absurd hr (by simp [App.powerUp])
  · rw [h] at hr
    exact absurd hr (by simp [refuseTx])
  · obtain ⟨state, screen, review, hreview⟩ := startReview_frame a₁
    rw [h, hreview]
    show a₁.signingType = a.signingType
    rw [processMessage_frame hm]
    rfl
  · rw [h]
    show a₁.signingType = a.signingType
    rw [processMessage_frame hm]
    rfl

/-- A review keeps the path and the type of the flow. -/
theorem startReview_path (a : App) : (startReview a).1.bip32Path = a.bip32Path ∧
    (startReview a).1.signingType = a.signingType ∧ (startReview a).1.reqType = a.reqType := by
  obtain ⟨state, screen, review, h⟩ := startReview_frame a
  rw [h]
  exact ⟨rfl, rfl, rfl⟩

/-- A message does not change the path of the flow. -/
theorem processAndAnswer_path {a : App} {raw buf : Bytes} {parsed : Bool}
    (hr : (processAndAnswer d (a.atMessage raw parsed) buf).1.reqType = .confirmTransaction) :
    (processAndAnswer d (a.atMessage raw parsed) buf).1.bip32Path = a.bip32Path := by
  rcases processAndAnswer_cases (d := d) (a.atMessage raw parsed) buf with
    (⟨-, heq⟩ | ⟨-, heq⟩) | ⟨a₁, sw, -, -, heq⟩ | ⟨a₁, hm, -, heq⟩ | ⟨a₁, hm, -, heq⟩
  · rw [heq] at hr
    exact absurd hr (by simp [assertFailed, App.powerUp])
  · rw [heq] at hr
    exact absurd hr (by simp [App.powerUp])
  · rw [heq] at hr
    exact absurd hr (by simp [refuseTx])
  · rw [heq, (startReview_path a₁).1]
    exact (congrArg App.bip32Path (processMessage_frame hm)).trans rfl
  · rw [heq]
    exact (congrArg App.bip32Path (processMessage_frame hm)).trans rfl

end CantonSigner
