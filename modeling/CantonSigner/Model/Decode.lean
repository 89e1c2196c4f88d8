import CantonSigner.Lib.Wire
import CantonSigner.Model.Messages

/-!
# Decoding the messages

The schemas of `proto/` applied to the wire format: `decodeX` is what
`pb_decode` reads with the field list of `X`. Unknown tags are skipped. The
nesting of values is bounded by the length of the message, so `decodeValue`
recurses on that bound.
-/

namespace CantonSigner

open ByteCodec Wire

/-- Read every field of a message into a struct, one occurrence at a time. -/
def decodeInto {σ : Type} (step : σ → Field → Option σ) (init : σ) (b : Bytes) : Option σ :=
  (parseFields b).bind (List.foldlM step init)

/-- `Identifier`, decoded into a struct that may hold an earlier occurrence. -/
def decodeIdentifierInto (init : Identifier) : Bytes → Option Identifier :=
  decodeInto (fun id f =>
    match f.tag with
    | 1 => f.payload.string.map fun s => { id with packageId := some s }
    | 2 => f.payload.string.map fun s => { id with moduleName := some s }
    | 3 => f.payload.string.map fun s => { id with entityName := some s }
    | _ => some id) init

/-- `Identifier`, decoded into a fresh struct. -/
def decodeIdentifier : Bytes → Option Identifier := decodeIdentifierInto .zero

/-- `Enum`. -/
def decodeEnumMsg : Bytes → Option EnumMsg :=
  decodeInto (fun e f =>
    match f.tag with
    | 1 => do
      let b ← f.payload.content
      let id ← decodeIdentifierInto (e.enumId.getD .zero) b
      some { e with enumId := some id }
    | 2 => f.payload.string.map fun s => { e with constructor := some s }
    | _ => some e) ⟨none, none⟩

/-! ## Values

`dv` decodes a nested value. -/

section Values

variable (dv : Bytes → Option Value)

/-- The occurrences of the callback field with tag 1 of `Optional` and `List`. -/
def decodeValues : List Field → Option Values
  | [] => some .nil
  | f :: fs => do
    let rest ← decodeValues fs
    match f.tag with
    | 1 => do
      let v ← f.payload.callbackBytes.bind dv
      some (.cons v rest)
    | _ => some rest

/-- `RecordField` and `TextMap.Entry`: a callback name and a static value. -/
def decodeNamedValue : List Field → Option NamedValue
  | [] => some .nil
  | f :: fs => do
    let rest ← decodeNamedValue fs
    match f.tag with
    | 1 => f.payload.callbackBytes.map fun s => .name s rest
    | 2 => do
      let v ← f.payload.content.bind dv
      some (.value v rest)
    | _ => some rest

/-- `Record`. -/
def decodeRecord : List Field → Option Record
  | [] => some .nil
  | f :: fs => do
    let rest ← decodeRecord fs
    match f.tag with
    | 1 => do
      let id ← f.payload.callbackBytes.bind decodeIdentifier
      some (.recordId id rest)
    | 2 => do
      let nv ← (f.payload.callbackBytes.bind parseFields).bind (decodeNamedValue dv)
      some (.field nv rest)
    | _ => some rest

/-- `TextMap`. -/
def decodeTextMap : List Field → Option TextMap
  | [] => some .nil
  | f :: fs => do
    let rest ← decodeTextMap fs
    match f.tag with
    | 1 => do
      let nv ← (f.payload.callbackBytes.bind parseFields).bind (decodeNamedValue dv)
      some (.entry nv rest)
    | _ => some rest

/-- `GenMap.Entry`: static key and value. -/
def decodeGenMapEntry : List Field → Option GenMapEntry
  | [] => some .nil
  | f :: fs => do
    let rest ← decodeGenMapEntry fs
    match f.tag with
    | 1 => do
      let v ← f.payload.content.bind dv
      some (.key v rest)
    | 2 => do
      let v ← f.payload.content.bind dv
      some (.value v rest)
    | _ => some rest

/-- `GenMap`. -/
def decodeGenMap : List Field → Option GenMap
  | [] => some .nil
  | f :: fs => do
    let rest ← decodeGenMap fs
    match f.tag with
    | 1 => do
      let e ← (f.payload.callbackBytes.bind parseFields).bind (decodeGenMapEntry dv)
      some (.entry e rest)
    | _ => some rest

/-- `Variant`: callback fields. -/
def decodeVariant : List Field → Option Variant
  | [] => some .nil
  | f :: fs => do
    let rest ← decodeVariant fs
    match f.tag with
    | 1 => do
      let id ← f.payload.callbackBytes.bind decodeIdentifier
      some (.variantId id rest)
    | 2 => f.payload.callbackBytes.map fun s => .constructor s rest
    | 3 => do
      let v ← f.payload.callbackBytes.bind dv
      some (.value v rest)
    | _ => some rest

/-- The `sum` occurrences of a `Value` (value_cb.proto). -/
def decodeValueFields : List Field → Option Value
  | [] => some .nil
  | f :: fs => do
    let rest ← decodeValueFields fs
    match f.tag with
    | 1 => do
      let _ ← f.payload.content.bind parseFields
      some (.unit rest)
    | 2 => f.payload.bool.map fun b => .prim (.bool b) rest
    | 3 => f.payload.sint64.map fun v => .prim (.int64 v) rest
    | 4 => f.payload.int32.map fun v => .prim (.date v) rest
    | 5 => f.payload.sfixed64.map fun v => .prim (.timestamp v) rest
    | 6 => f.payload.string.map fun s => .prim (.numeric s) rest
    | 7 => f.payload.string.map fun s => .prim (.party s) rest
    | 8 => f.payload.string.map fun s => .prim (.text s) rest
    | 9 => f.payload.string.map fun s => .prim (.contractId s) rest
    | 10 => do
      let vs ← (f.payload.content.bind parseFields).bind (decodeValues dv)
      some (.optional vs rest)
    | 11 => do
      let vs ← (f.payload.content.bind parseFields).bind (decodeValues dv)
      some (.list vs rest)
    | 12 => do
      let m ← (f.payload.content.bind parseFields).bind (decodeTextMap dv)
      some (.textMap m rest)
    | 13 => do
      let m ← (f.payload.content.bind parseFields).bind (decodeGenMap dv)
      some (.genMap m rest)
    | 14 => do
      let r ← (f.payload.content.bind parseFields).bind (decodeRecord dv)
      some (.record r rest)
    | 15 => do
      let v ← (f.payload.content.bind parseFields).bind (decodeVariant dv)
      some (.variant v rest)
    | 16 => do
      let e ← f.payload.content.bind decodeEnumMsg
      some (.enum e rest)
    | _ => some rest

end Values

/-- `Value`, up to `n` levels of nesting. -/
def decodeValueUpTo : Nat → Bytes → Option Value
  | 0, _ => none
  | n + 1, b => (parseFields b).bind (decodeValueFields (decodeValueUpTo n))

/-- `Value`. Each level of nesting takes at least two bytes, so the bound of the
message's length is never met. -/
def decodeValue (b : Bytes) : Option Value := decodeValueUpTo (b.length + 1) b

/-! ## Nodes and contracts -/

/-- `template_id`: a static submessage, merged over its occurrences. -/
def mergeIdentifier (old : Option Identifier) (p : Payload) : Option Identifier :=
  p.content.bind (decodeIdentifierInto (old.getD .zero))

/-- `interface_id`: a pointer submessage, replaced by a later occurrence. -/
def replaceIdentifier (p : Payload) : Option Identifier := p.content.bind decodeIdentifier

/-- `Create` (interactive_submission_data_cb.proto:94–103). -/
def decodeCreate : Bytes → Option Create :=
  decodeInto (fun c f =>
    match f.tag with
    | 1 => f.payload.string.map fun s => { c with lfVersion := some s }
    | 2 => f.payload.string.map fun s => { c with contractId := some s }
    | 3 => f.payload.string.map fun s => { c with packageName := some s }
    | 4 => (mergeIdentifier c.templateId f.payload).map fun id => { c with templateId := some id }
    | 5 => (f.payload.callbackBytes.bind decodeValue).map fun v =>
        { c with argument := c.argument ++ [v]
                 argumentIsMessage := c.argumentIsMessage && f.payload.isLen }
    | 6 => f.payload.string.map fun s => { c with signatories := c.signatories ++ [s] }
    | 7 => f.payload.string.map fun s => { c with stakeholders := c.stakeholders ++ [s] }
    | _ => some c) ⟨none, none, none, none, [], true, [], []⟩

/-- A field of `Exercise` (interactive_submission_data_cb.proto:55–73); `dv` decodes a value. -/
def exerciseField (dv : Bytes → Option Value) (e : Exercise) (f : Field) : Option Exercise :=
  match f.tag with
  | 1 => f.payload.string.map fun s => { e with lfVersion := some s }
  | 2 => f.payload.string.map fun s => { e with contractId := some s }
  | 3 => f.payload.string.map fun s => { e with packageName := some s }
  | 4 => (mergeIdentifier e.templateId f.payload).map fun id => { e with templateId := some id }
  | 5 => f.payload.string.map fun s => { e with signatories := e.signatories ++ [s] }
  | 6 => f.payload.string.map fun s => { e with stakeholders := e.stakeholders ++ [s] }
  | 7 => f.payload.string.map fun s => { e with actingParties := e.actingParties ++ [s] }
  | 8 => (replaceIdentifier f.payload).map fun id => { e with interfaceId := some id }
  | 9 => f.payload.string.map fun s => { e with choiceId := some s }
  | 10 => (f.payload.callbackBytes.bind dv).map fun v =>
      { e with chosenValue := e.chosenValue ++ [v]
               chosenValueIsMessage := e.chosenValueIsMessage && f.payload.isLen }
  | 11 => f.payload.bool.map fun b => { e with consuming := b }
  | 12 => f.payload.string.map fun s => { e with children := e.children ++ [s] }
  | 13 => (f.payload.callbackBytes.bind dv).map fun v =>
      { e with exerciseResult := e.exerciseResult ++ [v] }
  | 14 => f.payload.string.map fun s => { e with choiceObservers := e.choiceObservers ++ [s] }
  | _ => some e

/-- `Exercise`. -/
def decodeExercise : Bytes → Option Exercise :=
  decodeInto (exerciseField decodeValue)
    ⟨none, none, none, none, [], [], [], none, none, [], true, false, [], [], []⟩

/-! ### The key of a fetch

`Fetch` is decoded with the plain schemas: its key is a nested message that nobody reads, but
that must decode. -/

/-- The messages under the key of a `Fetch` (interactive_submission_common_data.proto,
value.proto). -/
inductive KeyMessage where
  | globalKeyWithMaintainers | globalKey | identifier
  | value | empty | optional | list | textMap | textMapEntry | genMap | genMapEntry
  | record | recordField | variant | enum

/-- How nanopb reads a field of these messages. -/
inductive KeyField where
  | bytes | bool | sint64 | int32 | sfixed64
  /-- A callback that is not set: any payload of a scalar or of bytes is read over. -/
  | callback
  | message (m : KeyMessage)

/-- The field lists of value.pb.h and interactive_submission_common_data.pb.h; `none` for a tag
that is skipped. -/
def KeyMessage.field : KeyMessage → Nat → Option KeyField
  | .globalKeyWithMaintainers, 1 => some (.message .globalKey)
  | .globalKeyWithMaintainers, 2 => some .callback
  | .globalKey, 1 => some (.message .identifier)
  | .globalKey, 2 => some .bytes
  | .globalKey, 3 => some (.message .value)
  | .globalKey, 4 => some .bytes
  | .identifier, 1 | .identifier, 2 | .identifier, 3 => some .bytes
  | .value, 1 => some (.message .empty)
  | .value, 2 => some .bool
  | .value, 3 => some .sint64
  | .value, 4 => some .int32
  | .value, 5 => some .sfixed64
  | .value, 6 | .value, 7 | .value, 8 | .value, 9 => some .bytes
  | .value, 10 => some (.message .optional)
  | .value, 11 => some (.message .list)
  | .value, 12 => some (.message .textMap)
  | .value, 13 => some (.message .genMap)
  | .value, 14 => some (.message .record)
  | .value, 15 => some (.message .variant)
  | .value, 16 => some (.message .enum)
  | .optional, 1 | .list, 1 => some (.message .value)
  | .textMap, 1 => some (.message .textMapEntry)
  | .textMapEntry, 1 | .recordField, 1 => some .bytes
  | .textMapEntry, 2 | .recordField, 2 => some (.message .value)
  | .genMap, 1 => some (.message .genMapEntry)
  | .genMapEntry, 1 | .genMapEntry, 2 => some (.message .value)
  | .record, 1 | .variant, 1 | .enum, 1 => some (.message .identifier)
  | .record, 2 => some (.message .recordField)
  | .variant, 2 | .enum, 2 => some .bytes
  | .variant, 3 => some (.message .value)
  | _, _ => none

/-- The message decodes, up to `n` levels of nesting. -/
def KeyMessage.decodesUpTo : Nat → KeyMessage → Bytes → Bool
  | 0, _, _ => false
  | n + 1, m, b => (parseFields b).any fun fs => fs.all fun f =>
    match m.field f.tag with
    | none => true
    | some .bytes => f.payload.content.isSome
    | some .bool => f.payload.bool.isSome
    | some .sint64 => f.payload.sint64.isSome
    | some .int32 => f.payload.int32.isSome
    | some .sfixed64 => f.payload.sfixed64.isSome
    | some .callback => f.payload.callbackBytes.isSome
    | some (.message m) => f.payload.content.any (decodesUpTo n m)

/-- The message decodes. Each level of nesting takes at least two bytes, so the bound of its
length is never met. -/
def KeyMessage.decodes (m : KeyMessage) (b : Bytes) : Bool := m.decodesUpTo (b.length + 1) b

/-- `Fetch` (interactive_submission_data.pb.h:251–261). -/
def decodeFetch : Bytes → Option Fetch :=
  decodeInto (fun e f =>
    match f.tag with
    | 1 => f.payload.string.map fun s => { e with lfVersion := some s }
    | 2 => f.payload.string.map fun s => { e with contractId := some s }
    | 3 => f.payload.string.map fun s => { e with packageName := some s }
    | 4 => (mergeIdentifier e.templateId f.payload).map fun id => { e with templateId := some id }
    | 5 => f.payload.string.map fun s => { e with signatories := e.signatories ++ [s] }
    | 6 => f.payload.string.map fun s => { e with stakeholders := e.stakeholders ++ [s] }
    | 7 => f.payload.string.map fun s => { e with actingParties := e.actingParties ++ [s] }
    | 8 => (replaceIdentifier f.payload).map fun id => { e with interfaceId := some id }
    | 9 => if f.payload.content.any KeyMessage.globalKeyWithMaintainers.decodes then some e
      else none
    | 10 => f.payload.bool.map fun _ => e
    | _ => some e) ⟨none, none, none, none, [], [], [], none⟩

/-- `Rollback`. -/
def decodeRollback : Bytes → Option Rollback :=
  decodeInto (fun r f =>
    match f.tag with
    | 1 => f.payload.string.map fun s => { r with children := r.children ++ [s] }
    | _ => some r) ⟨[]⟩

/-- The `node_type` occurrences of a v1 node
(interactive_submission_data.pb.h:325–330). The callback refuses a query-by-key node before its
contents are read. -/
def decodeNodeKinds : Bytes → Option (List NodeKind) :=
  decodeInto (fun ks f =>
    match f.tag with
    | 1 => (f.payload.content.bind decodeCreate).map fun c => ks ++ [.create c]
    | 2 => (f.payload.content.bind decodeFetch).map fun e => ks ++ [.fetch e]
    | 3 => (f.payload.content.bind decodeExercise).map fun e => ks ++ [.exercise e]
    | 4 => (f.payload.content.bind decodeRollback).map fun r => ks ++ [.rollback r]
    | 5 => f.payload.content.map fun _ => ks ++ [.queryByKey]
    | _ => some ks) []

/-- `DeviceDamlTransaction.Node`. -/
def decodeNode : Bytes → Option NodePart :=
  decodeInto (fun is f =>
    match f.tag with
    | 1 => f.payload.callbackBytes.map fun s => is ++ [.nodeId s]
    | 1000 => (f.payload.content.bind decodeNodeKinds).map fun ks => is ++ [.v1 ks]
    | _ => some is) []

/-- `DeviceMetadata.InputContract`. -/
def decodeInputContract : Bytes → Option InputContract :=
  decodeInto (fun ic f =>
    match f.tag with
    | 1 => (f.payload.content.bind decodeCreate).map fun c => { ic with v1 := ic.v1 ++ [c] }
    | 1000 => f.payload.uint64.map fun t => { ic with createdAt := t }
    | _ => some ic) ⟨[], 0⟩

/-! ## Header and metadata -/

/-- `NodeSeed`. -/
def decodeNodeSeed : Bytes → Option NodeSeed :=
  decodeInto (fun s f =>
    match f.tag with
    | 1 => f.payload.int32.map fun v => { s with nodeId := v }
    | 2 => f.payload.content.map fun b => { s with seed := some b }
    | _ => some s) ⟨0, none⟩

/-- `DeviceDamlTransaction`. -/
def decodeDamlTransaction : Bytes → Option DamlTransaction :=
  decodeInto (fun tx f =>
    match f.tag with
    | 1 => f.payload.string.map fun s => { tx with version := some s }
    | 2 => f.payload.string.map fun s => { tx with roots := tx.roots ++ [s] }
    | 3 => f.payload.int32.map fun v => { tx with nodesCount := v }
    | 4 => (f.payload.content.bind decodeNodeSeed).map fun s =>
        { tx with nodeSeeds := tx.nodeSeeds ++ [s] }
    | _ => some tx) ⟨none, [], 0, []⟩

/-- `DeviceMetadata.SubmitterInfo`, merged into the metadata. -/
def decodeSubmitterInfo (md : Metadata) : Bytes → Option Metadata :=
  decodeInto (fun md f =>
    match f.tag with
    | 1 => f.payload.string.map fun s => { md with actAs := md.actAs ++ [s] }
    | 2 => f.payload.string.map fun s => { md with commandId := some s }
    | _ => some md) md

/-- `DeviceMetadata`. -/
def decodeMetadata : Bytes → Option Metadata :=
  decodeInto (fun md f =>
    match f.tag with
    | 2 => f.payload.content.bind (decodeSubmitterInfo md)
    | 3 => f.payload.string.map fun s => { md with synchronizerId := some s }
    | 4 => f.payload.uint32.map fun v => { md with mediatorGroup := v }
    | 5 => f.payload.string.map fun s => { md with transactionUuid := some s }
    | 6 => f.payload.uint64.map fun v => { md with preparationTime := v }
    | 7 => f.payload.int32.map fun v => { md with inputContractsCount := v }
    | 9 => f.payload.uint64.map fun v => { md with minLedgerEffectiveTime := some v }
    | 10 => f.payload.uint64.map fun v => { md with maxLedgerEffectiveTime := some v }
    | _ => some md) ⟨[], none, none, 0, none, 0, 0, none, none⟩

end CantonSigner
