import Mathlib.Data.List.Sort
import CantonSigner.Model.DisplayReview

/-!
# Topology messages (untyped_versioned_msg.c)

The onboarding flow: each message is hashed, and its mapping is checked against
the device's own key and party. Once the last message has arrived, the multi-hash
over the stored hashes is what will be signed.

`Topology` gathers the static state of the module with `G_context.tx_info`. A false
`LEDGER_ASSERT` ends the session: `Outcome.assertion`.
-/

namespace CantonSigner

open ByteCodec

/-- `MAX_HASHES`. -/
def maxHashes : Nat := 3
/-- `CHALLENGE_AND_DEADLINE_LEN`. -/
def challengeAndDeadlineLen : Nat := 24
/-- `ONBOARDING_FLOW_DISPLAY_FIELDS_NB`. -/
def onboardingFlowDisplayFieldsNb : Nat := 4
/-- `EXPECTED_PARTICIPANTS_NB`. -/
def expectedParticipantsNb : Nat := 2
/-- `ED25519_DER_PREFIX`. -/
def ed25519DerPrefix : Bytes :=
  [0x30, 0x2A, 0x30, 0x05, 0x06, 0x03, 0x2B, 0x65, 0x70, 0x03, 0x21, 0x00]
/-- `CRYPTO_KEY_FORMAT_RAW`. -/
def cryptoKeyFormatRaw : Nat := 3
/-- `CRYPTO_KEY_FORMAT_DER_X509`. -/
def cryptoKeyFormatDerX509 : Nat := 4
/-- `TOPOLOGY_CHANGE_OP_ADD_REPLACE`. -/
def topologyChangeOpAddReplace : Nat := 1

/-- `participant_id_to_name_mapping_t`. -/
structure ParticipantName where
  participantId : Bytes
  participantName : Bytes
deriving Repr, DecidableEq

/-- `MAINNET_DUAL_VALIDATORS`. -/
def mainnetDualValidators : List ParticipantName := [
  ⟨str "ledger-ledgerops-2::12207a4859ad414f4f47c2d773ddf4ea88de8c3a1aab19abaa197e504acdbf679d3c",
    str "Ledger Validator"⟩,
  ⟨str "Ledger-Kiln-2::1220e2225d5a297fae4000be2e3ca560ce802461da04c8e3e40c9fbbf0547f4fe8e3",
    str "Kiln Validator"⟩]

/-- `TESTNET_DUAL_VALIDATORS`. -/
def testnetDualValidators : List ParticipantName := [
  ⟨str ("ledger-ledgeropstestnet-0::" ++
      "122095f38f5c73cc18fbeb3290f8c17f7a1ff190f66fe159c671cf1fb0dc634eedaf"),
    str "Ledger Testnet\nValidator"⟩,
  ⟨str ("Ledger-KilnTestnet-2::" ++
      "1220fa9df3caa84092023bf7edf28de1d28f96caf9b7d130385bfe6e284be6e0fbd7"),
    str "Kiln Testnet\nValidator"⟩]

/-- `DEVNET_DUAL_VALIDATORS`. -/
def devnetDualValidators : List ParticipantName := [
  ⟨str ("ledger-ledgeropsdevnet-0::" ++
      "12208f74f551f8c28b68414fc3bb4b8466178055845485878a1af8ac1fe96f88fad2"),
    str "Ledger Devnet\nValidator"⟩,
  ⟨str "Ledger-KilnDevnet-2::12203b77e5d74eb787ff0251fd76949379a625368646302a203fea7f7db1dd5402bf",
    str "Kiln Devnet\nValidator"⟩]

/-- `VALID_PARTICIPANTS_CONFIGS`. -/
def validParticipantsConfigs : List (List ParticipantName) :=
  [mainnetDualValidators, testnetDualValidators, devnetDualValidators]

/-- The `item_name`s of `ONBOARDING_FLOW_DISPLAY_CONFIGS`. -/
def onboardingItemName : Nat → Bytes
  | 0 => str "Add account"
  | 1 => str "Associate to validator 1"
  | 2 => str "Associate to validator 2"
  | _ => str "Validators threshold"

/-- The `mandatory` flags of `ONBOARDING_FLOW_DISPLAY_CONFIGS`. -/
def onboardingMandatory : List Bool := [true, true, false, false]

/-- `REVIEW_TITLE`. -/
def onboardingReviewTitle : Bytes := str "Review transaction to add account"
/-- `REVIEW_FINISH`. -/
def onboardingReviewFinish : Bytes := str "Sign transaction to add account?"

/-- The module's static state. -/
structure TopologyState where
  txHashes : Option (List Bytes)
  hasParsedNamespaceDelegation : Bool
  hasParsedPartyToParticipant : Bool
  hasParsedPartyToKeyMapping : Bool
  found : List Bool
  challengeAndDeadline : Option Bytes
deriving Repr, DecidableEq

/-- What the module works on: its state and `tx_info`. -/
structure Topology extends TxInfo, TopologyState
deriving Repr, DecidableEq

/-- How processing a message ends: accepted, refused with a status word, or
stopped by an assertion. -/
inductive Outcome where
  | ok (t : Topology)
  | refused (t : Topology) (sw : Int)
  | assertion
deriving Repr, DecidableEq

/-! ## Keys and hashes -/

/-- `canton_hash` (utils.c:51–68). -/
def cantonHash (d : Device) (purpose : UInt8) (data : Bytes) : Bytes :=
  [0x12, 0x20] ++ d.sha ([0, 0, 0, purpose] ++ data)

/-- `%h`: two lowercase hex digits per byte. -/
def hexLower (b : Bytes) : Bytes :=
  b.flatMap fun c =>
    let digit (n : Nat) : UInt8 := UInt8.ofNat (if n < 10 then 48 + n else 87 + n)
    [digit (c.toNat / 16), digit (c.toNat % 16)]

/-- `party_id_from_pubkey` (party_id.c:27–47): the first 32 bytes of the key are
hashed. -/
def partyIdFromPubkey (d : Device) (publicKey : Bytes) : Bytes :=
  str "ldg::" ++ hexLower (cantonHash d 0x0C (publicKey.take 32))

/-- `strcmp(a, b) <= 0` on NUL-free strings. -/
def strcmpLe : Bytes → Bytes → Bool
  | [], _ => true
  | _ :: _, [] => false
  | a :: as, b :: bs => a < b || (a == b && strcmpLe as bs)

/-- The order of `compare_hashes_hex`. -/
def compareHashesHex (a b : Bytes) : Prop := strcmpLe (hexLower a) (hexLower b) = true

instance : DecidableRel compareHashesHex := fun a b =>
  inferInstanceAs (Decidable (strcmpLe (hexLower a) (hexLower b) = true))

/-! ## The byte writer (bytewriter.c) -/

/-- `ByteWriter`: the capacity of the buffer, what is written so far, and the flag. -/
structure ByteWriter where
  cap : Nat
  written : Bytes
  overflow : Bool
deriving Repr, DecidableEq

/-- `bw_init`. -/
def bwInit (cap : Nat) : ByteWriter := ⟨cap, [], false⟩

/-- `bw_put`: nothing is written from the first overflow on. -/
def bwPut (bw : ByteWriter) (p : Bytes) : ByteWriter :=
  if bw.overflow || bw.cap < bw.written.length + p.length then { bw with overflow := true }
  else { bw with written := bw.written ++ p }

/-- `bw_put_u32_be`. -/
def bwPutU32Be (bw : ByteWriter) (v : Nat) : ByteWriter := bwPut bw (beBytes 4 v)

/-- The buffer that `compute_multi_hash` allocates, filled with the count and the sorted
hashes, each after its length. -/
def concatHashes (hashes : List Bytes) : ByteWriter :=
  let len := hashes.length * 34 + hashes.length * 4 + 4
  let bw := bwPutU32Be (bwInit len) hashes.length
  (hashes.insertionSort compareHashesHex).foldl (fun bw h => bwPut (bwPutU32Be bw 34) h) bw

/-- The hash `compute_multi_hash` (untyped_versioned_msg.c:248–271) produces: of the whole
buffer, with what the heap holds where nothing was written. -/
def multiHash (d : Device) (hashes : List Bytes) : Bytes :=
  let bw := concatHashes hashes
  cantonHash d 55 ((bw.written ++ d.heapAfter bw.written).take bw.cap)

/-! ## Storage -/

/-- `cleanup_hash_storage`. -/
def cleanupHashStorage (t : Topology) : Topology := { t with txHashes := none }

/-- `set_field_value` (untyped_versioned_msg.c:371–401): the next row; `none` when
there is no room, which its callers assert, or no array, where its write goes to NULL.
Either ends the session. -/
def setFieldValue (t : Topology) (fieldIdx : Nat) (value : Bytes) : Option Topology :=
  match t.review.pairs with
  | none => none
  | some pairs =>
    if onboardingFlowDisplayFieldsNb ≤ pairs.length then none
    else
      some { t with
        review := { t.review with pairs := some (pairs ++ [(onboardingItemName fieldIdx, value)]) }
        found := t.found.set fieldIdx true }

/-! ## Mapping checks -/

/-- `check_party_key_value` (untyped_versioned_msg.c:403–442); 0 when the key is
the device's. `tx_info.signature` holds that key until a signature takes its place,
and either way its first 32 bytes are compared. -/
def checkPartyKeyValue (t : Topology) (key : SigningPublicKey) : Int :=
  if key.publicKey.isEmpty then Sw.topologyMissingPartyKey
  else if key.format = cryptoKeyFormatRaw then
    if key.publicKey.length ≠ 32 then Sw.topologyPartyKeyWrongFormat
    else if key.publicKey ≠ t.signature.take 32 then Sw.topologyPartyKeyMismatch
    else 0
  else if key.format = cryptoKeyFormatDerX509 then
    if key.publicKey.length ≠ 44 then Sw.topologyPartyKeyWrongFormat
    else if key.publicKey.take 12 ≠ ed25519DerPrefix then Sw.topologyPartyKeyWrongFormat
    else if key.publicKey.drop 12 ≠ t.signature.take 32 then Sw.topologyPartyKeyMismatch
    else 0
  else Sw.topologyPartyKeyWrongFormat

/-- `check_party_id_value`. -/
def checkPartyIdValue (d : Device) (t : Topology) (party : Option Bytes) : Bool :=
  party == some (partyIdFromPubkey d t.signature)

/-- Refuse a mapping and drop the rows. -/
def refuseMapping (t : Topology) (sw : Int) : Outcome :=
  .refused { t with review := cleanupDisplayItems t.review } sw

/-- `process_namespace_delegation` (untyped_versioned_msg.c:466–494). -/
def processNamespaceDelegation (t : Topology) (m : NamespaceDelegation) : Outcome :=
  if t.hasParsedNamespaceDelegation then .refused t Sw.topologyMultipleNamespaceDelegations
  else
    let ret := match m.targetKey with
      | some key => checkPartyKeyValue t key
      | none => Sw.topologyMissingTargetKey
    let t := { t with hasParsedNamespaceDelegation := true }
    if ret = 0 then .ok t else .refused t ret

/-- `process_party_to_key_mapping` (untyped_versioned_msg.c:497–539). -/
def processPartyToKeyMapping (d : Device) (t : Topology) (m : PartyToKeyMapping) : Outcome :=
  if t.hasParsedPartyToKeyMapping then .refused t Sw.topologyMultiplePartyToKeyMappings
  else if !checkPartyIdValue d t m.party then refuseMapping t Sw.topologyPartyIdMismatch
  else if m.threshold ≠ m.signingKeys.length then
    refuseMapping t Sw.topologyUnexpectedPartyToKeyThresholdValue
  else
    match m.signingKeys with
    | [key] =>
      let ret := checkPartyKeyValue t key
      if ret = 0 then .ok { t with hasParsedPartyToKeyMapping := true } else refuseMapping t ret
    | _ => refuseMapping t Sw.topologyUnexpectedPartyToKeySigningKeysCount

/-- The loops over `j` and `k` of `process_party_to_participant` for one
configuration: the names matched so far, one entry per participant, and the
indices of the configuration already matched. A status word stops the mapping. -/
def matchParticipants (config : List ParticipantName) :
    List (Option Bytes) → List Nat → List (Option Bytes) → Except Int (List (Option Bytes))
  | [], _, names => .ok names
  | uid :: uids, matched, names =>
    match uid with
    | none | some [] => .error Sw.topologyMissingParticipantData
    | some uid =>
      match config.findIdx? (·.participantId == uid) with
      | none => matchParticipants config uids matched (names ++ [none])
      | some k =>
        if k ∈ matched then .error Sw.topologyUnexpectedDuplicateParticipant
        else
          matchParticipants config uids (k :: matched)
            (names ++ [(config[k]?).map (·.participantName)])

/-- The loop over the configurations: the names of the participants in the first
configuration that names them all. -/
def findParticipants (uids : List (Option Bytes)) :
    List (List ParticipantName) → Except Int (List Bytes)
  | [] => .error Sw.topologyUnexpectedParticipantId
  | config :: configs =>
    if config.length = uids.length then
      match matchParticipants config uids [] [] with
      | .error sw => .error sw
      | .ok names =>
        if names.all Option.isSome then .ok (names.filterMap id) else findParticipants uids configs
    else findParticipants uids configs

/-- The rows of an accepted party-to-participant mapping, in the order they are
set; `none` when one cannot be set. -/
def setParticipantRows (t : Topology) (names : List Bytes) (threshold count : Nat) :
    Option Topology := do
  let t ← names.zipIdx.foldlM (fun t (name, j) => setFieldValue t (if j = 0 then 1 else 2) name) t
  if 1 < threshold then
    setFieldValue t 3 (DisplayParser.decimal 1 threshold ++ str " out of " ++
      DisplayParser.decimal 1 count)
  else some t

/-- `process_party_to_participant` (untyped_versioned_msg.c:542–667). -/
def processPartyToParticipant (d : Device) (t : Topology) (m : PartyToParticipant) : Outcome :=
  if t.hasParsedPartyToParticipant then .refused t Sw.topologyMultiplePartyToParticipants
  else
    match m.party with
    | none => refuseMapping t Sw.topologyMissingParty
    | some party =>
      if !checkPartyIdValue d t (some party) then refuseMapping t Sw.topologyPartyIdMismatch
      else if m.participants.length ≠ expectedParticipantsNb then
        refuseMapping t Sw.topologyUnexpectedNumberOfParticipants
      else if m.threshold ≠ m.participants.length then
        refuseMapping t Sw.topologyUnexpectedThresholdValue
      else if m.hasPartySigningKeys then refuseMapping t Sw.topologyUnexpectedPartySigningKeys
      else
        match setFieldValue t 0 party with
        | none => .assertion
        | some t =>
          match findParticipants m.participants validParticipantsConfigs with
          | .error sw => refuseMapping t sw
          | .ok names =>
            match setParticipantRows t names m.threshold m.participants.length with
            | none => .assertion
            | some t => .ok { t with hasParsedPartyToParticipant := true }

/-- `parse_topology_transaction_for_display` (untyped_versioned_msg.c:669–712). A
message without a mapping is accepted as it is. -/
def parseTopologyTransactionForDisplay (d : Device) (t : Topology) (buf : Bytes) : Outcome :=
  match d.decodeTopologyTransaction buf with
  | none => .refused t valueParsingError
  | some tt =>
    match tt.mapping with
    | none => .ok t
    | some m =>
      if tt.operation ≠ topologyChangeOpAddReplace then
        .refused t Sw.topologyUnsupportedOperation
      else
        match m with
        | .namespaceDelegation m => processNamespaceDelegation t m
        | .partyToParticipant m => processPartyToParticipant d t m
        | .partyToKeyMapping m => processPartyToKeyMapping d t m
        | .other => .refused t Sw.topologyUnknownMappingType

/-! ## Messages -/

/-- `sign_challenge`, when a challenge was sent: the multi-hash with challenge and
deadline, signed with the attestation key. The challenge is wiped. -/
def signChallenge (d : Device) (t : Topology) : Topology :=
  match t.challengeAndDeadline with
  | none => t
  | some c =>
    { t with
      challengeSignature := some (d.signWithAttestationKey (t.mHash ++ c))
      challengeAndDeadline := some (List.replicate challengeAndDeadlineLen 0) }

/-- The last message: multi-hash, challenge, and the rows released for a clear
review when all three mappings were checked. -/
def finishTopology (d : Device) (t : Topology) (hashes : List Bytes) : Outcome :=
  let t := cleanupHashStorage { t with mHash := multiHash d hashes, mHashLen := 34 }
  let t := signChallenge d t
  if t.hasParsedNamespaceDelegation && t.hasParsedPartyToKeyMapping &&
      t.hasParsedPartyToParticipant then
    if (onboardingMandatory.zip t.found).any fun (m, f) => m && !f then
      .refused t Sw.topologyMandatoryFieldMissing
    else
      .ok { t with review :=
              { t.review with
                clearSigningAvailable := true
                reviewTitle := some onboardingReviewTitle
                reviewFinish := some onboardingReviewFinish } }
  else .ok t

/-- `process_untyped_versioned_msg_tx` (untyped_versioned_msg.c:328–368). -/
def processUntypedVersionedMsgTx (d : Device) (parsed : Bool) (t : Topology) (buf : Bytes) :
    Outcome :=
  match t.txHashes with
  | none => .assertion
  | some hashes =>
    if maxHashes ≤ hashes.length then
      .refused (cleanupHashStorage t) Sw.topologyTooManyMessages
    else
      let hashes := hashes ++ [cantonHash d 11 buf]
      match parseTopologyTransactionForDisplay d { t with txHashes := some hashes } buf with
      | .assertion => .assertion
      | .refused t sw => .refused (cleanupHashStorage t) sw
      | .ok t => if parsed then finishTopology d t hashes else .ok t

/-- `read_challenge_and_deadline` on what is left of the first APDU; `none` when
its length is wrong, and the empty rest means that no challenge was sent. -/
def readChallengeAndDeadline (rest : Bytes) : Option (Option Bytes) :=
  match rest with
  | [] => some none
  | len :: rest =>
    if len.toNat ≠ challengeAndDeadlineLen || rest.length < challengeAndDeadlineLen then none
    else some (some (rest.take challengeAndDeadlineLen))

end CantonSigner
