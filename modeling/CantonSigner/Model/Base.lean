import CantonSigner.Model.Messages

/-!
# Constants, status words and the device

What the modules of the app share: the limits of `constants.h`, the status
words of `sw.h`, and the device the app runs on. The device stands for the code
outside the repository (the SDK's hash, key derivation and signature functions,
the stack, the heap layout) and for the choices of the build.
-/

namespace CantonSigner

open ByteCodec

/-! ## Limits (constants.h) -/

/-- `MAX_NODE_CHILDREN`. -/
def maxNodeChildren : Nat := 32
/-- `MAX_TX_NODES`. -/
def maxTxNodes : Nat := 256
/-- `MAX_USED_CONTRACTS`. -/
def maxUsedContracts : Nat := 32
/-- `USED_CONTRACT_LEN`. -/
def usedContractLen : Nat := 8
/-- `MAX_HOLDINGS`. -/
def maxHoldings : Nat := 4
/-- `DEFAULT_DECODE_BUFFER_SIZE`. -/
def defaultDecodeBufferSize : Nat := 64
/-- `MAX_BIP32_PATH`. -/
def maxBip32Path : Nat := 10

/-! ## Status words (sw.h)

A status word is kept as the `int` the handlers return; `io_send_sw` sends its
low 16 bits. -/

namespace Sw

/-- `SW_OK`: success. -/
def ok : Int := 0x9000
/-- `SW_DENY`: the user refused. -/
def deny : Int := 0x6985
/-- `SW_WRONG_P1P2`: a P1 or P2 that the instruction does not have. -/
def wrongP1P2 : Int := 0x6A86
/-- `SW_WRONG_DATA_LENGTH`: no data, a path cut short, or a hash of another length. -/
def wrongDataLength : Int := 0x6A87
/-- `SW_INS_NOT_SUPPORTED`: no such instruction. -/
def insNotSupported : Int := 0x6D00
/-- `SW_CLA_NOT_SUPPORTED`: a command of another class. -/
def claNotSupported : Int := 0x6E00
/-- `SWO_INCORRECT_DATA` of the SDK, the blind-signing-disabled answer. -/
def incorrectData : Int := 0x6A80
/-- `SW_DISPLAY_ADDRESS_FAIL`: the party id cannot be displayed. -/
def displayAddressFail : Int := 0xB002
/-- `SW_WRONG_TX_LENGTH`: a message over the limit. -/
def wrongTxLength : Int := 0xB004
/-- `SW_TX_PARSING_FAIL`: a message that does not parse. -/
def txParsingFail : Int := 0xB005
/-- `SW_TX_HASH_FAIL`: a message that cannot be hashed. -/
def txHashFail : Int := 0xB006
/-- `SW_BAD_STATE`: a command that the state does not expect. -/
def badState : Int := 0xB007
/-- `SW_SIGNATURE_FAIL`: the hash could not be signed. -/
def signatureFail : Int := 0xB008
/-- `SW_CHALLENGE_SIGNATURE_FAIL`: the challenge could not be signed. -/
def challengeSignatureFail : Int := 0xB009
/-- `SW_TX_INVALID_NODE_TREE`: a node tree that could never be valid. -/
def txInvalidNodeTree : Int := 0xB00A
/-- A second namespace delegation in one flow. -/
def topologyMultipleNamespaceDelegations : Int := 0xC101
/-- A namespace delegation without a target key. -/
def topologyMissingTargetKey : Int := 0xC103
/-- A key that is not the device public key. -/
def topologyPartyKeyMismatch : Int := 0xC104
/-- A key of another length or format than a raw or DER-encoded Ed25519 key. -/
def topologyPartyKeyWrongFormat : Int := 0xC105
/-- A signing key without its bytes. -/
def topologyMissingPartyKey : Int := 0xC106
/-- A party that is not the one of the device key. -/
def topologyPartyIdMismatch : Int := 0xC201
/-- A party-to-key mapping without exactly one signing key. -/
def topologyUnexpectedPartyToKeySigningKeysCount : Int := 0xC202
/-- A party-to-key threshold that is not the number of its keys. -/
def topologyUnexpectedPartyToKeyThresholdValue : Int := 0xC203
/-- A second party-to-key mapping in one flow. -/
def topologyMultiplePartyToKeyMappings : Int := 0xC204
/-- A party-to-participant mapping without a party. -/
def topologyMissingParty : Int := 0xC301
/-- Not exactly two participants. -/
def topologyUnexpectedNumberOfParticipants : Int := 0xC302
/-- The same participant twice. -/
def topologyUnexpectedDuplicateParticipant : Int := 0xC303
/-- A participant without its id. -/
def topologyMissingParticipantData : Int := 0xC304
/-- A participant that no configuration expects. -/
def topologyUnexpectedParticipantId : Int := 0xC305
/-- A threshold that is not the number of participants. -/
def topologyUnexpectedThresholdValue : Int := 0xC306
/-- Signing keys in a party-to-participant mapping. -/
def topologyUnexpectedPartySigningKeys : Int := 0xC307
/-- A second party-to-participant mapping in one flow. -/
def topologyMultiplePartyToParticipants : Int := 0xC308
/-- A mapping of another kind. -/
def topologyUnknownMappingType : Int := 0xC401
/-- An operation other than `ADD_REPLACE`. -/
def topologyUnsupportedOperation : Int := 0xC402
/-- A field of the onboarding screen that no mapping has set. -/
def topologyMandatoryFieldMissing : Int := 0xC403
/-- More than three topology messages. -/
def topologyTooManyMessages : Int := 0xC404

end Sw

/-- `VALUE_PARSING_ERROR` of `parser_status_e`. -/
def valueParsingError : Int := -3

/-! ## The stack -/

/-- The calls of the decoders on the way to a value that is about to be opened. What they leave
of the stack is the compiler's business. -/
inductive Frame where
  /-- The fields of a message that hold a value, as the hashing pass decodes them. -/
  | createArgument | contractArgument | chosenValue | exerciseResult
  /-- The same fields, as the display pass decodes them. -/
  | displayArgument | displayContractArgument | displayChosenValue
  /-- The argument of a create, as the holding parser decodes it. -/
  | holdingArgument
  /-- The callbacks for what a value holds. -/
  | optional | list | textMap | genMap | record | variant
deriving Repr, DecidableEq

/-! ## The device -/

/-- The device and the SDK under the app. -/
structure Device where
  /-- SHA-256 of the SDK. -/
  sha : Bytes → Bytes
  length_sha : ∀ b, (sha b).length = 32
  /-- What a hasher that has been finalised holds if it is used again without
  `hw_init`. -/
  hasherAfterFinal : Bytes → Bytes
  /-- `stack_has_room` (utils.c:42–50), by the calls below it, the innermost first. -/
  stackHasRoom : List Frame → Bool
  /-- The bytes a read past the end of a heap block finds there, by the contents of the block, at
  one moment. Runs on a heap that changes between commands are those of `Flow.Isolation`. -/
  heapAfter : Bytes → Bytes
  /-- `MAX_TRANSACTION_LEN`, 7 KB on Nano X and 12 KB elsewhere. -/
  maxTransactionLen : Nat
  /-- `SCREEN_SIZE_WALLET`. -/
  screenSizeWallet : Bool
  /-- The version and name the build gives the app. -/
  appVersion : Bytes
  appName : Bytes
  /-- `bip32_derive_with_seed_get_pubkey_256`: the EC point and the chain code,
  or the error code. -/
  derivePoint : List Nat → Except Int (Bytes × Bytes)
  /-- `bip32_derive_with_seed_eddsa_sign_hash_256`. -/
  signHash : List Nat → Bytes → Option Bytes
  /-- `cx_eddsa_sign_no_throw` with the attestation key. -/
  signWithAttestationKey : Bytes → Bytes
  /-- `proto_deserialize_topology_transaction`. -/
  decodeTopologyTransaction : Bytes → Option TopologyTransaction

end CantonSigner
