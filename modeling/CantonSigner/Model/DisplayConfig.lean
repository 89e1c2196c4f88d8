import CantonSigner.Model.Base

/-!
# Display configurations (pb_node_display_config.c, pb_node_display_definitions.h)

The tables that say which records select a screen, which values it shows under
which labels, and what the value check compares.
-/

namespace CantonSigner

open ByteCodec

/-- `MAX_FIELD_PATH_LEN`. -/
def maxFieldPathLen : Nat := 128
/-- `MAX_FIELD_VALUE_LEN`. -/
def maxFieldValueLen : Nat := 1000
/-- `PREAPPROVAL_ASSET_FIELD_INDEX`. -/
def preapprovalAssetFieldIndex : Nat := 1
/-- `PREAPPROVAL_ASSET_FIELD_VALUE`. -/
def preapprovalAssetFieldValue : Bytes := str "Canton Coin (CC)"
/-- `NATIVE_COIN_TICKER`. -/
def nativeCoinTicker : Bytes := str "CC"

/-! ## Titles -/

def tokenTransferReviewTitle : Bytes := str "Review transaction to send tokens"
def tokenTransferReviewFinish : Bytes := str "Sign transaction to send tokens?"
def tokenTransferAcceptReviewTitle : Bytes := str "Review transaction to accept incoming transfer"
def tokenTransferAcceptReviewFinish : Bytes := str "Sign transaction to accept incoming transfer?"
def tokenTransferRejectReviewTitle : Bytes := str "Review transaction to reject incoming transfer"
def tokenTransferRejectReviewFinish : Bytes := str "Sign transaction to reject incoming transfer?"
def tokenTransferWithdrawReviewTitle : Bytes := str "Review transaction to withdraw transfer offer"
def tokenTransferWithdrawReviewFinish : Bytes := str "Sign transaction to withdraw transfer offer?"
def nativeCoinTransferReviewTitle : Bytes := str "Review transaction to send Canton Coin"
def nativeCoinTransferReviewFinish : Bytes := str "Sign transaction to send Canton Coin?"
def preapprovalProposalReviewTitle : Bytes :=
  str "Review transaction to pre-approve incoming transfers"
def preapprovalProposalReviewFinish : Bytes :=
  str "Sign transaction to pre-approve incoming transfers?"

/-! ## Types -/

/-- `instrument_to_ticker_mapping_t`. -/
structure TickerMapping where
  admin : Bytes
  id : Bytes
  ticker : Bytes
deriving Repr, DecidableEq

/-- `identifier_config_t`. -/
structure IdentifierConfig where
  moduleName : Bytes
  entityName : Bytes
deriving Repr, DecidableEq

/-- `shown_as_e`. -/
inductive ShownAs where
  | other
  | sender
  | receiver
  | amount
  | admin
  | instrument
deriving Repr, DecidableEq

/-- `destination_e`. -/
inductive Destination where
  | none
  | sender
  | receiver
deriving Repr, DecidableEq

/-- `amount_check_e`. -/
inductive AmountCheck where
  | notComparable
  | comparable
deriving Repr, DecidableEq

/-- The `format_callback` of a field. -/
inductive FormatCallback where
  | tokenAmount
  | nativeAmount
  | timestamp
deriving Repr, DecidableEq

/-- `field_config_t`. -/
structure FieldConfig where
  path : Bytes
  itemName : Option Bytes
  formatCallback : Option FormatCallback
  mandatory : Bool
  shownAs : ShownAs
deriving Repr, DecidableEq

/-- `display_config_t`. -/
structure DisplayConfig where
  identifier : IdentifierConfig
  nodeIdentifiers : List IdentifierConfig
  fields : List FieldConfig
  reviewTitle : Bytes
  reviewFinish : Bytes
  metadataContractIdentifiers : List IdentifierConfig
  destination : Destination
  amountCheck : AmountCheck
deriving Repr, DecidableEq

/-- `tx_field_t`: a field of the chosen screen. `value` is the heap block that
holds it, terminator included. -/
structure TxField where
  config : FieldConfig
  value : Option Bytes
  matched : Bool
  display : Bool
  storeFailed : Bool
deriving Repr, DecidableEq

/-- What `strlen`, `strcmp` and `%s` read at the start of a heap block: up to the
first NUL, which may lie past the end of the block. -/
def blockText (d : Device) (block : Bytes) : Bytes :=
  if 0 ∈ block then cstr block else block ++ cstr (d.heapAfter block)

/-! ## Tables -/

private def dsoDevnet : Bytes :=
  str "DSO::1220be58c29e65de40bf273be1dc2b266d43a9a002ea5b18955aeef7aac881bb471a"
private def dsoTestnet : Bytes :=
  str "DSO::1220f22a8b8f2d813c25b9a684dc4dd52b532a0174d8e73a13cdf2baabfff7518337"
private def dsoMainnet : Bytes :=
  str "DSO::1220b1431ef217342db44d516bb9befde802be7d8899637d290895fa58880f19accc"
private def partyMainnet : Bytes :=
  str ("party-28dc4516-b5ca-44ff-86c7-2107e90a6807::" ++
    "1220b8301e18aa8a401d6e34e6c20f8b0243183c514373bca8f1b6b9270246341a9e")

/-- `INSTRUMENT_TO_TICKER_MAPPINGS`. -/
def instrumentToTickerMappings : List TickerMapping := [
  ⟨dsoDevnet, str "Amulet", nativeCoinTicker⟩,
  ⟨dsoDevnet, str "amulet", nativeCoinTicker⟩,
  ⟨str "cbtc-network::12202a83c6f4082217c175e29bc53da5f2703ba2675778ab99217a5a881a949203ff",
    str "CBTC", str "CBTC"⟩,
  ⟨dsoTestnet, str "Amulet", nativeCoinTicker⟩,
  ⟨dsoTestnet, str "amulet", nativeCoinTicker⟩,
  ⟨str "cbtc-network::12201b1741b63e2494e4214cf0bedc3d5a224da53b3bf4d76dba468f8e97eb15508f",
    str "CBTC", str "CBTC"⟩,
  ⟨dsoMainnet, str "Amulet", nativeCoinTicker⟩,
  ⟨dsoMainnet, str "amulet", nativeCoinTicker⟩,
  ⟨str "cbtc-network::12205af3b949a04776fc48cdcc05a060f6bda2e470632935f375d1049a8546a3b262",
    str "CBTC", str "CBTC"⟩,
  ⟨partyMainnet, str "f29bdd7a-1469-498a-ba2a-796bf5387b31", str "SBC"⟩,
  ⟨str ("decentralized-usdc-interchain-rep::" ++
      "122049e2af8a725bd19759320fc83c638e7718973eac189d8f201309c512d1ffec61"),
    str "USDCx", str "USDCx"⟩,
  ⟨str ("decentralized-usdc-interchain-rep::" ++
      "12208115f1e168dd7e792320be9c4ca720c751a02a3053c7606e1c1cd3dad9bf60ef"),
    str "USDCx", str "USDCx"⟩,
  ⟨partyMainnet, str "481871d4-ca56-42a8-b2d3-4b7d28742946", str "CUSD"⟩]

/-- `INSTRUMENT_ID_FIELD.path`. -/
def instrumentIdPath : Bytes := str "transfer.instrumentId.id"
/-- `PROXY_INSTRUMENT_ID_FIELD.path`. -/
def proxyInstrumentIdPath : Bytes := str "proxyArg.choiceArg.transfer.instrumentId.id"
/-- `INSTRUMENT_ID_ADMIN_FIELD.path`. -/
def instrumentIdAdminPath : Bytes := str "transfer.instrumentId.admin"
/-- `INSTRUMENT_ID_PROXY_ADMIN_FIELD.path`. -/
def instrumentIdProxyAdminPath : Bytes := str "proxyArg.choiceArg.transfer.instrumentId.admin"
/-- `PREAPPROVAL_ASSET_FIELD`. -/
def preapprovalAssetField : FieldConfig :=
  ⟨str "asset", some (str "For asset"), none, true, .other⟩

private def amountField : FieldConfig :=
  ⟨str "transfer.amount", some (str "Amount"), some .tokenAmount, true, .amount⟩
private def tokenField : FieldConfig :=
  ⟨instrumentIdPath, some (str "Token"), none, true, .instrument⟩
private def adminField : FieldConfig := ⟨instrumentIdAdminPath, none, none, true, .admin⟩
private def memoField : FieldConfig :=
  ⟨str "transfer.meta.values.splice\\.lfdecentralizedtrust\\.org/reason", some (str "Memo"), none,
    false, .other⟩

/-- `TOKEN_TRANSFER_FIELDS`. -/
def tokenTransferFields : List FieldConfig := [
  ⟨str "transfer.sender", some (str "From"), none, true, .sender⟩,
  amountField,
  ⟨str "transfer.receiver", some (str "To"), none, true, .receiver⟩,
  tokenField, adminField, memoField]

/-- `TOKEN_TRANSFER_V2_FIELDS`. -/
def tokenTransferV2Fields : List FieldConfig := [
  ⟨str "transfer.sender.owner", some (str "From"), none, true, .sender⟩,
  amountField,
  ⟨str "transfer.receiver.owner", some (str "To"), none, true, .receiver⟩,
  tokenField, adminField, memoField]

/-- `TOKEN_TRANSFER_ACCEPT_FIELDS`. -/
def tokenTransferAcceptFields : List FieldConfig := [
  ⟨str "transfer.sender", some (str "From"), none, true, .sender⟩,
  amountField,
  ⟨str "transfer.receiver", some (str "To"), none, true, .receiver⟩,
  tokenField, adminField,
  ⟨str "transfer.executeBefore", some (str "Expiration time"), some .timestamp, true, .other⟩,
  memoField]

/-- `TOKEN_TRANSFER_WITHDRAW_FIELDS`. -/
def tokenTransferWithdrawFields : List FieldConfig := [
  ⟨str "transfer.sender", some (str "Withdraw to"), none, true, .sender⟩,
  amountField, tokenField, adminField]

/-- `NATIVE_COIN_TRANSFER_FIELDS`. -/
def nativeCoinTransferFields : List FieldConfig := [
  ⟨str "sender", some (str "From"), none, true, .sender⟩,
  ⟨str "amount", some (str "Amount"), some .nativeAmount, true, .amount⟩,
  ⟨str "receiver", some (str "To"), none, true, .receiver⟩,
  ⟨str "description", some (str "Memo"), none, false, .other⟩]

/-- `PREAPPROVAL_PROPOSAL_FIELDS`. -/
def preapprovalProposalFields : List FieldConfig := [
  ⟨str "receiver", some (str "Pre-approve for account"), none, true, .receiver⟩,
  ⟨str "asset", some (str "For asset"), none, true, .other⟩,
  ⟨str "provider", some (str "By validator"), none, true, .other⟩]

/-- `META_ID_TRANSFER_INSTRUCTION`. -/
def metaIdTransferInstruction : IdentifierConfig :=
  ⟨str "Splice.AmuletTransferInstruction", str "AmuletTransferInstruction"⟩
/-- `META_ID_TRANSFER_OFFER`. -/
def metaIdTransferOffer : IdentifierConfig :=
  ⟨str "Utility.Registry.App.V0.Model.Transfer", str "TransferOffer"⟩
/-- `TRANSFER_OFFER_META_ID_LIST`. -/
def transferOfferMetaIdList : List IdentifierConfig :=
  [metaIdTransferInstruction, metaIdTransferOffer]

/-- `NODE_ID_EXTERNAL_PARTY_AMULET_RULES`. -/
def nodeIdExternalPartyAmuletRules : IdentifierConfig :=
  ⟨str "Splice.ExternalPartyAmuletRules", str "ExternalPartyAmuletRules"⟩
/-- `NODE_ID_REGISTRY_ALLOCATION_FACTORY`. -/
def nodeIdRegistryAllocationFactory : IdentifierConfig :=
  ⟨str "Utility.Registry.App.V0.Service.AllocationFactory", str "AllocationFactory"⟩
/-- `TRANSFER_FACTORY_NODE_ID_LIST`. -/
def transferFactoryNodeIdList : List IdentifierConfig :=
  [nodeIdExternalPartyAmuletRules, nodeIdRegistryAllocationFactory]

/-- The module of the version 1 transfer instruction interface. -/
def transferInstructionV1 : Bytes := str "Splice.Api.Token.TransferInstructionV1"
/-- The module of the version 2 transfer instruction interface. -/
def transferInstructionV2 : Bytes := str "Splice.Api.Token.TransferInstructionV2"

/-- A `DISPLAY_CONFIGS` entry of a choice on the disclosed transfer offer
(accept, reject, withdraw). -/
private def offerConfig (moduleName entityName : Bytes) (fields : List FieldConfig)
    (title finish : Bytes) (dest : Destination) (chk : AmountCheck) : DisplayConfig :=
  ⟨⟨moduleName, entityName⟩, transferOfferMetaIdList, fields, title, finish,
    transferOfferMetaIdList, dest, chk⟩

/-- `DISPLAY_CONFIGS` (pb_node_display_config.c:230–322). -/
def displayConfigs : List DisplayConfig := [
  ⟨⟨transferInstructionV1, str "TransferFactory_Transfer"⟩, transferFactoryNodeIdList,
    tokenTransferFields, tokenTransferReviewTitle, tokenTransferReviewFinish, [],
    .receiver, .comparable⟩,
  ⟨⟨transferInstructionV2, str "TransferFactory_Transfer"⟩, transferFactoryNodeIdList,
    tokenTransferV2Fields, tokenTransferReviewTitle, tokenTransferReviewFinish, [],
    .receiver, .comparable⟩,
  ⟨⟨str "Splice.ExternalPartyAmuletRules", str "ExternalPartyAmuletRules_CreateTransferCommand"⟩,
    [nodeIdExternalPartyAmuletRules], nativeCoinTransferFields, nativeCoinTransferReviewTitle,
    nativeCoinTransferReviewFinish, [], .receiver, .comparable⟩,
  ⟨⟨str "Splice.Wallet.TransferPreapproval", str "TransferPreapprovalProposal"⟩, [],
    preapprovalProposalFields, preapprovalProposalReviewTitle, preapprovalProposalReviewFinish, [],
    .none, .notComparable⟩,
  offerConfig transferInstructionV1 (str "TransferInstruction_Accept") tokenTransferAcceptFields
    tokenTransferAcceptReviewTitle tokenTransferAcceptReviewFinish .receiver .comparable,
  offerConfig transferInstructionV2 (str "TransferInstruction_Accept") tokenTransferAcceptFields
    tokenTransferAcceptReviewTitle tokenTransferAcceptReviewFinish .receiver .comparable,
  offerConfig transferInstructionV1 (str "TransferInstruction_Reject") tokenTransferAcceptFields
    tokenTransferRejectReviewTitle tokenTransferRejectReviewFinish .sender .notComparable,
  offerConfig transferInstructionV2 (str "TransferInstruction_Reject") tokenTransferAcceptFields
    tokenTransferRejectReviewTitle tokenTransferRejectReviewFinish .sender .notComparable,
  offerConfig transferInstructionV1 (str "TransferInstruction_Withdraw")
    tokenTransferWithdrawFields tokenTransferWithdrawReviewTitle tokenTransferWithdrawReviewFinish
    .sender .notComparable,
  offerConfig transferInstructionV2 (str "TransferInstruction_Withdraw")
    tokenTransferWithdrawFields tokenTransferWithdrawReviewTitle tokenTransferWithdrawReviewFinish
    .sender .notComparable]

end CantonSigner
