import CantonSigner.Model.Messages

/-!
# What a host sends

The encoding of the messages on the host's side, field by field in the order of
`proto/`. A concrete run of the model starts from the messages; these functions
turn them into the bytes of the APDUs.
-/

namespace CantonSigner

open ByteCodec

namespace Host

/-! ## Wire format -/

/-- A varint, with `fuel` more groups of seven bits allowed. -/
def varintUpTo : Nat → Nat → Bytes
  | 0, n => [UInt8.ofNat n]
  | fuel + 1, n =>
    if n < 128 then [UInt8.ofNat n] else UInt8.ofNat (n % 128 + 128) :: varintUpTo fuel (n / 128)

/-- A varint of at most 64 bits. -/
def varint (n : Nat) : Bytes := varintUpTo 9 n

/-- A length-delimited field. -/
def lenField (tag : Nat) (content : Bytes) : Bytes :=
  varint (tag * 8 + 2) ++ varint content.length ++ content

/-- A varint field. -/
def varintField (tag n : Nat) : Bytes := varint (tag * 8) ++ varint n

/-- The low 64 bits of an integer. -/
def low64 (v : Int) : Nat := (v % 2 ^ 64).toNat

/-- A string that may be absent. -/
def optField (tag : Nat) : Option Bytes → Bytes
  | none => []
  | some s => lenField tag s

/-- A repeated string. -/
def repeatedField (tag : Nat) (ss : List Bytes) : Bytes := ss.flatMap (lenField tag)

/-! ## Values -/

/-- `Identifier`. -/
def identifier (id : Identifier) : Bytes :=
  optField 1 id.packageId ++ optField 2 id.moduleName ++ optField 3 id.entityName

/-- A primitive alternative of `Value`. -/
def prim : Prim → Bytes
  | .bool b => varintField 2 (if b then 1 else 0)
  | .int64 v => varintField 3 (low64 (if 0 ≤ v then 2 * v else -2 * v - 1))
  | .date v => varintField 4 (low64 v)
  | .timestamp v => varint (5 * 8 + 1) ++ (beBytes 8 (low64 v)).reverse
  | .numeric s => lenField 6 s
  | .party s => lenField 7 s
  | .text s => lenField 8 s
  | .contractId s => lenField 9 s

/-- `Enum`. -/
def enumMsg (e : EnumMsg) : Bytes :=
  optField 1 (e.enumId.map identifier) ++ optField 2 e.constructor

mutual

/-- `Value`. -/
def value : Value → Bytes
  | .nil => []
  | .prim p rest => prim p ++ value rest
  | .unit rest => lenField 1 [] ++ value rest
  | .optional vs rest => lenField 10 (values vs) ++ value rest
  | .list vs rest => lenField 11 (values vs) ++ value rest
  | .textMap m rest => lenField 12 (textMap m) ++ value rest
  | .genMap m rest => lenField 13 (genMap m) ++ value rest
  | .record r rest => lenField 14 (record r) ++ value rest
  | .variant v rest => lenField 15 (variant v) ++ value rest
  | .enum e rest => lenField 16 (enumMsg e) ++ value rest

/-- The values of an optional or a list. -/
def values : Values → Bytes
  | .nil => []
  | .cons v rest => lenField 1 (value v) ++ values rest

/-- A record field or a TextMap entry. -/
def namedValue : NamedValue → Bytes
  | .nil => []
  | .name s rest => lenField 1 s ++ namedValue rest
  | .value v rest => lenField 2 (value v) ++ namedValue rest

/-- `Record`. -/
def record : Record → Bytes
  | .nil => []
  | .recordId id rest => lenField 1 (identifier id) ++ record rest
  | .field f rest => lenField 2 (namedValue f) ++ record rest

/-- `TextMap`. -/
def textMap : TextMap → Bytes
  | .nil => []
  | .entry e rest => lenField 1 (namedValue e) ++ textMap rest

/-- `GenMap.Entry`. -/
def genMapEntry : GenMapEntry → Bytes
  | .nil => []
  | .key v rest => lenField 1 (value v) ++ genMapEntry rest
  | .value v rest => lenField 2 (value v) ++ genMapEntry rest

/-- `GenMap`. -/
def genMap : GenMap → Bytes
  | .nil => []
  | .entry e rest => lenField 1 (genMapEntry e) ++ genMap rest

/-- `Variant`. -/
def variant : Variant → Bytes
  | .nil => []
  | .variantId id rest => lenField 1 (identifier id) ++ variant rest
  | .constructor s rest => lenField 2 s ++ variant rest
  | .value v rest => lenField 3 (value v) ++ variant rest

end

/-! ## Parts -/

/-- `Create`. -/
def create (c : Create) : Bytes :=
  optField 1 c.lfVersion ++ optField 2 c.contractId ++ optField 3 c.packageName ++
    optField 4 (c.templateId.map identifier) ++ repeatedField 5 (c.argument.map value) ++
    repeatedField 6 c.signatories ++ repeatedField 7 c.stakeholders

/-- `Exercise`. -/
def exercise (e : Exercise) : Bytes :=
  optField 1 e.lfVersion ++ optField 2 e.contractId ++ optField 3 e.packageName ++
    optField 4 (e.templateId.map identifier) ++ repeatedField 5 e.signatories ++
    repeatedField 6 e.stakeholders ++ repeatedField 7 e.actingParties ++
    optField 8 (e.interfaceId.map identifier) ++ optField 9 e.choiceId ++
    repeatedField 10 (e.chosenValue.map value) ++ varintField 11 (if e.consuming then 1 else 0) ++
    repeatedField 12 e.children ++ repeatedField 13 (e.exerciseResult.map value) ++
    repeatedField 14 e.choiceObservers

/-- `Fetch`. -/
def fetch (f : Fetch) : Bytes :=
  optField 1 f.lfVersion ++ optField 2 f.contractId ++ optField 3 f.packageName ++
    optField 4 (f.templateId.map identifier) ++ repeatedField 5 f.signatories ++
    repeatedField 6 f.stakeholders ++ repeatedField 7 f.actingParties ++
    optField 8 (f.interfaceId.map identifier)

/-- A `node_type` alternative. -/
def nodeKind : NodeKind → Bytes
  | .create c => lenField 1 (create c)
  | .fetch f => lenField 2 (fetch f)
  | .exercise e => lenField 3 (exercise e)
  | .rollback r => lenField 4 (repeatedField 1 r.children)
  | .queryByKey => lenField 5 []

/-- A node part. -/
def node (part : NodePart) : Bytes :=
  part.flatMap fun
    | .nodeId s => lenField 1 s
    | .v1 kinds => lenField 1000 (kinds.flatMap nodeKind)

/-- An input contract. -/
def inputContract (ic : InputContract) : Bytes :=
  ic.v1.flatMap (fun c => lenField 1 (create c)) ++ varintField 1000 ic.createdAt

/-- The transaction header. -/
def damlTransaction (tx : DamlTransaction) : Bytes :=
  optField 1 tx.version ++ repeatedField 2 tx.roots ++ varintField 3 (low64 tx.nodesCount) ++
    tx.nodeSeeds.flatMap fun s =>
      lenField 4 (varintField 1 (low64 s.nodeId) ++ optField 2 s.seed)

/-- The metadata. -/
def metadata (m : Metadata) : Bytes :=
  lenField 2 (repeatedField 1 m.actAs ++ optField 2 m.commandId) ++ optField 3 m.synchronizerId ++
    varintField 4 m.mediatorGroup ++ optField 5 m.transactionUuid ++
    varintField 6 m.preparationTime ++ varintField 7 (low64 m.inputContractsCount) ++
    (m.minLedgerEffectiveTime.toList.flatMap fun t => varintField 9 t) ++
    (m.maxLedgerEffectiveTime.toList.flatMap fun t => varintField 10 t)

/-! ## Messages of a plain host

One field occurrence of each kind, in the order of the schema. -/

/-- An identifier of a package. -/
def ident (moduleName entityName : String) : Identifier :=
  ⟨some (str "pkg"), some (str moduleName), some (str entityName)⟩

/-- A value with one alternative. -/
def text (s : String) : Value := .prim (.text (str s)) .nil
def party (s : String) : Value := .prim (.party (str s)) .nil
def numeric (s : String) : Value := .prim (.numeric (str s)) .nil
def timestamp (t : Int) : Value := .prim (.timestamp t) .nil

/-- The fields of a record. -/
def fieldsOf : List (String × Value) → Record
  | [] => .nil
  | (label, v) :: fs => .field (.name (str label) (.value v .nil)) (fieldsOf fs)

/-- A record with its id. -/
def recordOf (id : Identifier) (fs : List (String × Value)) : Value :=
  .record (.recordId id (fieldsOf fs)) .nil

/-- A contract of a template. -/
def createOf (contractId : String) (template : Identifier) (argument : Value) : Create :=
  ⟨some (str "2.1"), some (str contractId), some (str "p"), some template, [argument], true, [], []⟩

/-- A choice exercised on a contract. -/
def exerciseOf (contractId : String) (template : Identifier) (choice : String) (argument : Value)
    (children : List String) : Exercise :=
  ⟨some (str "2.1"), some (str contractId), some (str "p"), some template, [], [], [], none,
    some (str choice), [argument], true, true, children.map str, [.unit .nil], []⟩

/-- A node part. -/
def nodeOf (id : String) (kind : NodeKind) : Bytes := node [.nodeId (str id), .v1 [kind]]

/-- A header with a seed for each of some nodes. -/
def headerOf (roots : List String) (nodesCount : Int) (seeds : List Int) : Bytes :=
  damlTransaction ⟨some (str "2.1"), roots.map str, nodesCount,
    seeds.map fun id => ⟨id, some (List.replicate 32 5)⟩⟩

/-- Metadata that announces a number of input contracts. -/
def metadataOf (inputContractsCount : Int) : Bytes :=
  metadata ⟨[str "alice"], some (str "cmd"), some (str "sync"), 0, some (str "uuid"), 1,
    inputContractsCount, none, none⟩

/-! ## Token transfers -/

/-- The administrator of Canton Coin on the development network. -/
def dso : String := "DSO::1220be58c29e65de40bf273be1dc2b266d43a9a002ea5b18955aeef7aac881bb471a"

/-- An amulet of an owner. -/
def amulet (contractId owner amount : String) : Create :=
  createOf contractId (ident "Splice.Amulet" "Amulet")
    (recordOf (ident "Splice.Amulet" "Amulet") [
      ("dso", party dso), ("owner", party owner),
      ("amount", recordOf (ident "Splice.Fees" "ExpiringAmount")
        [("initialAmount", numeric amount)])])

/-- The template of a transfer offer in amulets. -/
def offerTemplate : Identifier :=
  ident "Splice.AmuletTransferInstruction" "AmuletTransferInstruction"

/-- An offer to transfer amulets. -/
def offer (contractId sender receiver amount : String) : Create :=
  createOf contractId offerTemplate (recordOf offerTemplate [
    ("transfer", recordOf (ident "Splice.Api.Token.TransferInstructionV1" "Transfer") [
      ("sender", party sender), ("receiver", party receiver), ("amount", numeric amount),
      ("instrumentId", recordOf (ident "Splice.Api.Token.HoldingV1" "InstrumentId")
        [("admin", party dso), ("id", text "Amulet")]),
      ("executeBefore", timestamp 0)])])

/-- The acceptance of an offer. -/
def accept (contractId : String) (children : List String) : Exercise :=
  exerciseOf contractId offerTemplate "TransferInstruction_Accept"
    (recordOf (ident "Splice.Api.Token.TransferInstructionV1" "TransferInstruction_Accept") [])
    children

/-! ## Topology messages -/

/-- A key in the form `format`. -/
def signingKey (format : Nat) (key : Bytes) : Bytes := varintField 2 format ++ lenField 3 key

/-- A mapping under its tag, as an `ADD_REPLACE` message. -/
def topologyMessage (mappingTag : Nat) (mapping : Bytes) : Bytes :=
  lenField 1 (varintField 1 1 ++ varintField 2 1 ++ lenField 3 (lenField mappingTag mapping)) ++
    varintField 2 30

/-- A delegation to a raw key. -/
def namespaceDelegation (key : Bytes) : Bytes := topologyMessage 1 (lenField 2 (signingKey 3 key))

/-- One raw key as the signing key of a party. -/
def partyToKeyMapping (party key : Bytes) : Bytes :=
  topologyMessage 16 (lenField 1 party ++ varintField 3 1 ++ lenField 4 (signingKey 3 key))

/-- A party hosted by two participants. -/
def partyToParticipant (party first second : Bytes) : Bytes :=
  topologyMessage 9 (lenField 1 party ++ varintField 2 2 ++ lenField 3 (lenField 1 first) ++
    lenField 3 (lenField 1 second))

end Host

end CantonSigner
