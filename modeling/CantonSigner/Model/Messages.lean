import CantonSigner.Lib.Bytes

/-!
# The messages a host sends

The decoded form of the protobuf messages of `proto/device.proto`,
`proto/interactive_submission_data_cb.proto` and `proto/value_cb.proto`.

The parsers walk a message field by field through callbacks, so what they do
depends on the order of the fields on the wire and on repeats of a field. The
trees below keep both: a message with callback fields is the sequence of its
field occurrences in wire order, one constructor per occurrence. Fields nanopb
stores in a struct (plain strings, repeated strings, flags) are kept as the
struct keeps them after the whole message is read: the last occurrence of a
singular field, all occurrences of a repeated one. `none` is a NULL pointer.
-/

namespace CantonSigner

open ByteCodec

/-- `Identifier`: the names are NULL when the host leaves them out. -/
structure Identifier where
  packageId : Option Bytes
  moduleName : Option Bytes
  entityName : Option Bytes
deriving Repr, DecidableEq

/-- The zeroed identifier. -/
def Identifier.zero : Identifier := ⟨none, none, none⟩

/-- The alternatives of `Value` that nanopb stores without a callback. -/
inductive Prim where
  | bool (b : Bool)
  | int64 (v : Int)
  | date (v : Int)
  | timestamp (v : Int)
  | numeric (s : Bytes)
  | party (s : Bytes)
  | text (s : Bytes)
  | contractId (s : Bytes)
deriving Repr, DecidableEq

/-- `Enum`. -/
structure EnumMsg where
  enumId : Option Identifier
  constructor : Option Bytes
deriving Repr, DecidableEq

mutual

/-- `Value`: the occurrences of its `sum` alternatives. A well-behaved host
sends exactly one. -/
inductive Value where
  | nil
  | prim (p : Prim) (rest : Value)
  | unit (rest : Value)
  | optional (values : Values) (rest : Value)
  | list (elements : Values) (rest : Value)
  | textMap (entries : TextMap) (rest : Value)
  | genMap (entries : GenMap) (rest : Value)
  | record (r : Record) (rest : Value)
  | variant (v : Variant) (rest : Value)
  | enum (e : EnumMsg) (rest : Value)

/-- The occurrences of a callback field that carries values: `elements` of a
list, `value` of an optional. -/
inductive Values where
  | nil
  | cons (v : Value) (rest : Values)

/-- A record field (`label`, `value`) or a TextMap entry (`key`, `value`). -/
inductive NamedValue where
  | nil
  | name (s : Bytes) (rest : NamedValue)
  | value (v : Value) (rest : NamedValue)

/-- `Record`. -/
inductive Record where
  | nil
  | recordId (id : Identifier) (rest : Record)
  | field (f : NamedValue) (rest : Record)

/-- `TextMap`. -/
inductive TextMap where
  | nil
  | entry (e : NamedValue) (rest : TextMap)

/-- `GenMap.Entry`. -/
inductive GenMapEntry where
  | nil
  | key (v : Value) (rest : GenMapEntry)
  | value (v : Value) (rest : GenMapEntry)

/-- `GenMap`. -/
inductive GenMap where
  | nil
  | entry (e : GenMapEntry) (rest : GenMap)

/-- `Variant`. -/
inductive Variant where
  | nil
  | variantId (id : Identifier) (rest : Variant)
  | constructor (s : Bytes) (rest : Variant)
  | value (v : Value) (rest : Variant)

end

/-- `which_sum` of a `Value` struct, with the primitive it stores. -/
inductive Which where
  | none
  | unit
  | prim (p : Prim)
  | optional
  | list
  | textMap
  | genMap
  | record
  | variant
  | enum
deriving Repr, DecidableEq

/-- `which_sum` after decoding the occurrences into a struct that held `w`
before: the last occurrence wins. -/
def Value.which : Which → Value → Which
  | w, .nil => w
  | _, .prim p rest => rest.which (.prim p)
  | _, .unit rest => rest.which .unit
  | _, .optional _ rest => rest.which .optional
  | _, .list _ rest => rest.which .list
  | _, .textMap _ rest => rest.which .textMap
  | _, .genMap _ rest => rest.which .genMap
  | _, .record _ rest => rest.which .record
  | _, .variant _ rest => rest.which .variant
  | _, .enum _ rest => rest.which .enum

/-- `which_sum` of the static `value` of a record field or TextMap entry, which
all occurrences are decoded into. -/
def NamedValue.which : Which → NamedValue → Which
  | w, .nil => w
  | w, .name _ rest => rest.which w
  | w, .value v rest => rest.which (v.which w)

/-- `which_sum` of the static `key` of a GenMap entry. -/
def GenMapEntry.whichKey : Which → GenMapEntry → Which
  | w, .nil => w
  | w, .key v rest => rest.whichKey (v.which w)
  | w, .value _ rest => rest.whichKey w

/-- `which_sum` of the static `value` of a GenMap entry. -/
def GenMapEntry.whichValue : Which → GenMapEntry → Which
  | w, .nil => w
  | w, .key _ rest => rest.whichValue w
  | w, .value v rest => rest.whichValue (v.which w)

/-! ## Node parts -/

/-- `Create`. `argumentIsMessage` is false when some `argument` arrived with a
scalar wire type: a callback field accepts that, the display parser's static
field does not. -/
structure Create where
  lfVersion : Option Bytes
  contractId : Option Bytes
  packageName : Option Bytes
  templateId : Option Identifier
  argument : List Value
  argumentIsMessage : Bool
  signatories : List Bytes
  stakeholders : List Bytes

/-- `Exercise`. `chosenValueIsMessage` is to `chosenValue` what
`argumentIsMessage` is to `Create.argument`. -/
structure Exercise where
  lfVersion : Option Bytes
  contractId : Option Bytes
  packageName : Option Bytes
  templateId : Option Identifier
  signatories : List Bytes
  stakeholders : List Bytes
  actingParties : List Bytes
  interfaceId : Option Identifier
  choiceId : Option Bytes
  chosenValue : List Value
  chosenValueIsMessage : Bool
  consuming : Bool
  children : List Bytes
  exerciseResult : List Value
  choiceObservers : List Bytes

/-- `Fetch`. -/
structure Fetch where
  lfVersion : Option Bytes
  contractId : Option Bytes
  packageName : Option Bytes
  templateId : Option Identifier
  signatories : List Bytes
  stakeholders : List Bytes
  actingParties : List Bytes
  interfaceId : Option Identifier

/-- `Rollback`. -/
structure Rollback where
  children : List Bytes

/-- One occurrence of the `node_type` oneof of a v1 node. -/
inductive NodeKind where
  | create (c : Create)
  | fetch (f : Fetch)
  | exercise (e : Exercise)
  | rollback (r : Rollback)
  | queryByKey

/-- One field occurrence of a node part. -/
inductive NodeItem where
  | nodeId (s : Bytes)
  | v1 (kinds : List NodeKind)

/-- `DeviceDamlTransaction.Node`: a node part, as its field occurrences. -/
abbrev NodePart := List NodeItem

/-- The node kinds of a part in wire order, over all its v1 occurrences. -/
def nodeKinds : NodePart → List NodeKind
  | [] => []
  | .nodeId _ :: rest => nodeKinds rest
  | .v1 ks :: rest => ks ++ nodeKinds rest

/-- The `node_id` strings of a part in wire order. -/
def nodeIds : NodePart → List Bytes
  | [] => []
  | .nodeId s :: rest => s :: nodeIds rest
  | .v1 _ :: rest => nodeIds rest

/-- `DeviceMetadata.InputContract`: the occurrences of `contract.v1`, and
`created_at`. -/
structure InputContract where
  v1 : List Create
  createdAt : Nat

/-! ## Header and metadata -/

/-- `DeviceDamlTransaction.NodeSeed`. -/
structure NodeSeed where
  nodeId : Int
  seed : Option Bytes
deriving Repr, DecidableEq

/-- `DeviceDamlTransaction`: the transaction header. -/
structure DamlTransaction where
  version : Option Bytes
  roots : List Bytes
  nodesCount : Int
  nodeSeeds : List NodeSeed
deriving Repr, DecidableEq

/-- `DeviceMetadata`, with `submitter_info` in line. -/
structure Metadata where
  actAs : List Bytes
  commandId : Option Bytes
  synchronizerId : Option Bytes
  mediatorGroup : Nat
  transactionUuid : Option Bytes
  preparationTime : Nat
  inputContractsCount : Int
  minLedgerEffectiveTime : Option Nat
  maxLedgerEffectiveTime : Option Nat
deriving Repr, DecidableEq

/-! ## Topology messages

The fields the onboarding checks read. -/

/-- `SigningPublicKey`: the `CryptoKeyFormat` number and the key bytes. -/
structure SigningPublicKey where
  format : Nat
  publicKey : Bytes
deriving Repr, DecidableEq

/-- `NamespaceDelegation`. -/
structure NamespaceDelegation where
  targetKey : Option SigningPublicKey
deriving Repr, DecidableEq

/-- `PartyToKeyMapping`. -/
structure PartyToKeyMapping where
  party : Option Bytes
  threshold : Nat
  signingKeys : List SigningPublicKey
deriving Repr, DecidableEq

/-- `PartyToParticipant`; a participant is its `participant_uid`. -/
structure PartyToParticipant where
  party : Option Bytes
  threshold : Nat
  participants : List (Option Bytes)
  hasPartySigningKeys : Bool
deriving Repr, DecidableEq

/-- `TopologyMapping.which_mapping`. -/
inductive TopologyMapping where
  | namespaceDelegation (d : NamespaceDelegation)
  | partyToKeyMapping (m : PartyToKeyMapping)
  | partyToParticipant (m : PartyToParticipant)
  | other
deriving Repr, DecidableEq

/-- `TopologyTransaction`: the `TopologyChangeOp` number and the mapping. -/
structure TopologyTransaction where
  operation : Nat
  mapping : Option TopologyMapping
deriving Repr, DecidableEq

end CantonSigner
