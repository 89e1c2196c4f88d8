import CantonSigner.Model.CanonicalHash
import CantonSigner.Model.NodeTreeCheck
import CantonSigner.Model.NodeValuesCheck

/-!
# Hashing parser (pb_hashing_parser.c)

The pass that hashes a node part or an input contract while decoding it. The
callbacks write to the node hasher as nanopb reaches each field, so the model
walks the field occurrences in wire order and threads what the callbacks share:
the hasher with its error state and `value_elem_count`.

`stack` holds the calls on the way to the value being opened, for the stack
guard.
-/

namespace CantonSigner

open ByteCodec

namespace HashingParser

/-- What the value callbacks share: the node hasher and `value_elem_count`
(`VALUE_ELEM_COUNT_NONE` is -1). -/
structure VState where
  hw : Hw
  count : Int
deriving Repr, DecidableEq

namespace VState

/-- Apply an encoder to the node hasher. -/
def enc (s : VState) (f : Hw → Hw) : VState := { s with hw := f s.hw }

/-- Write bytes to the node hasher. -/
def put (s : VState) (b : Bytes) : VState := { s with hw := s.hw.put b }

/-- Use up the element count. -/
def clearCount (s : VState) : VState := { s with count := -1 }

end VState

/-! ## Counting -/

/-- Elements of an optional or a list. -/
def countValues : Values → Int
  | .nil => 0
  | .cons _ rest => countValues rest + 1

/-- Fields of a record. -/
def countRecordFields : Record → Int
  | .nil => 0
  | .recordId _ rest => countRecordFields rest
  | .field _ rest => countRecordFields rest + 1

/-- Entries of a TextMap. -/
def countTextMapEntries : TextMap → Int
  | .nil => 0
  | .entry _ rest => countTextMapEntries rest + 1

/-- Entries of a GenMap. -/
def countGenMapEntries : GenMap → Int
  | .nil => 0
  | .entry _ rest => countGenMapEntries rest + 1

/-- `variant_id` occurrences of a variant. -/
def countVariantIds : Variant → Int
  | .nil => 0
  | .variantId _ rest => countVariantIds rest + 1
  | .constructor _ rest => countVariantIds rest
  | .value _ rest => countVariantIds rest

/-- `count_value` (pb_hashing_parser.c:135–189) over the occurrences of a value:
`value_elem_count` afterwards. It runs for submessage alternatives only, so a
primitive leaves the count it found. -/
def countValue : Int → Value → Int
  | n, .nil => n
  | n, .prim _ rest => countValue n rest
  | _, .unit rest => countValue 0 rest
  | _, .optional vs rest => countValue (countValues vs) rest
  | _, .list vs rest => countValue (countValues vs) rest
  | _, .textMap m rest => countValue (countTextMapEntries m) rest
  | _, .genMap m rest => countValue (countGenMapEntries m) rest
  | _, .record r rest => countValue (countRecordFields r) rest
  | _, .variant v rest => countValue (countVariantIds v) rest
  | _, .enum _ rest => countValue 0 rest

/-- `count_record_field_helper` and `count_text_map_helper`. -/
def countNamedValue : Int → NamedValue → Int
  | n, .nil => n
  | n, .name _ rest => countNamedValue n rest
  | n, .value v rest => countNamedValue (countValue n v) rest

/-- `count_gen_map_helper`: the callback is set on the value only. -/
def countGenMapEntry : Int → GenMapEntry → Int
  | n, .nil => n
  | n, .key _ rest => countGenMapEntry n rest
  | n, .value v rest => countGenMapEntry (countValue n v) rest

/-! ## Leaves -/

/-- `decode_value_primitive_variants` (pb_hashing_parser.c:278–335). -/
def putPrimitive (w : Hw) : Which → Hw
  | .unit => w.put [0x00]
  | .prim (.bool b) => encodeBool (w.put [0x01]) b
  | .prim (.int64 v) => encodeInt64 (w.put [0x02]) v
  | .prim (.date v) => encodeInt32 (w.put [0x05]) v
  | .prim (.timestamp v) => encodeInt64 (w.put [0x04]) v
  | .prim (.numeric s) => encodeString (w.put [0x03]) (some s)
  | .prim (.party s) => encodeString (w.put [0x06]) (some s)
  | .prim (.text s) => encodeString (w.put [0x07]) (some s)
  | .prim (.contractId s) => encodeHexString (w.put [0x08]) (some s)
  | _ => w

/-- The pieces a string callback with a 64-byte buffer is handed: nanopb calls
it again while it leaves bytes of the string unread. `fuel` bounds the calls. -/
def stringPieces : Nat → Bytes → List Bytes
  | 0, _ => []
  | fuel + 1, s =>
    if s.length < defaultDecodeBufferSize then [s]
    else
      s.take (defaultDecodeBufferSize - 1) ::
        stringPieces fuel (s.drop (defaultDecodeBufferSize - 1))

/-- `decode_record_field_label`. -/
def putLabel (w : Hw) (s : Bytes) : Hw :=
  (stringPieces (s.length + 1) s).foldl
    (fun w piece => encodeString (w.put [0x01]) (some (cstr piece))) w

/-- `decode_textmap_key` and `decode_variant_constructor`. -/
def putName (w : Hw) (s : Bytes) : Hw :=
  (stringPieces (s.length + 1) s).foldl (fun w piece => encodeString w (some (cstr piece))) w

/-- `decode_enum` (pb_hashing_parser.c:604–634). -/
def putEnum (w : Hw) (e : EnumMsg) : Hw :=
  encodeString (encodeOptional w encodeIdentifier e.enumId) e.constructor

/-- `decode_record_id` (pb_hashing_parser.c:667–681): the count of the record's
fields follows its id, if it has not been used up. -/
def putRecordId (s : VState) (id : Identifier) : VState :=
  let s := s.enc fun w => encodeIdentifier (w.put [0x01]) id
  if s.count ≠ -1 then (s.enc fun w => encodeInt32 w s.count).clearCount else s

/-- Tag byte and element count of a list, TextMap or GenMap. -/
def putCounted (s : VState) (tag : UInt8) : VState :=
  (s.enc fun w => encodeInt32 (w.put [tag]) s.count).clearCount

/-- Tag byte and presence byte of an optional or a variant. -/
def putPresence (s : VState) (tag : UInt8) : VState :=
  (s.put [tag, if s.count = 0 then 0x00 else 0x01]).clearCount

/-! ## Values -/

section Values

variable (d : Device)

mutual

/-- `decode_value_variant` (pb_hashing_parser.c:683–755) over the occurrences of
a value below the calls `stack`. Primitives are written by the caller, once the whole
struct is decoded. -/
def hashValue (stack : List Frame) : Value → VState → Option VState
  | .nil, s => some s
  | .prim _ rest, s => hashValue stack rest s
  | .unit rest, s => hashValue stack rest s
  | .optional vs rest, s => do
    let s ← hashElems (.optional :: stack) vs (putPresence s 0x09)
    hashValue stack rest s
  | .list vs rest, s => do
    let s ← hashElems (.list :: stack) vs (putCounted s 0x0A)
    hashValue stack rest s
  | .textMap m rest, s => do
    let s ← hashTextMap (.textMap :: stack) m (putCounted s 0x0B)
    hashValue stack rest s
  | .genMap m rest, s => do
    let s ← hashGenMap (.genMap :: stack) m (putCounted s 0x0F)
    hashValue stack rest s
  | .record r rest, s => do
    let s ← hashRecord (.record :: stack) r (s.put [0x0C])
    hashValue stack rest s
  | .variant v rest, s => do
    let s ← hashVariant (.variant :: stack) v (putPresence s 0x0D)
    hashValue stack rest s
  | .enum e rest, s => hashValue stack rest (s.enc fun w => putEnum (w.put [0x0E]) e)

/-- `decode_list_elem` and `decode_value` on each occurrence. -/
def hashElems (stack : List Frame) : Values → VState → Option VState
  | .nil, s => some s
  | .cons v rest, s =>
    if !d.stackHasRoom stack then none
    else do
      let s ← hashValue stack v { s with count := countValue s.count v }
      hashElems stack rest (s.enc fun w => putPrimitive w (v.which .none))

/-- The field occurrences of a record field. -/
def hashRecordFieldItems (stack : List Frame) : NamedValue → VState → Option VState
  | .nil, s => some s
  | .name l rest, s => hashRecordFieldItems stack rest (s.enc fun w => putLabel w l)
  | .value v rest, s => do
    let s ← hashValue stack v s
    hashRecordFieldItems stack rest s

/-- The field occurrences of a TextMap entry. -/
def hashTextMapEntryItems (stack : List Frame) : NamedValue → VState → Option VState
  | .nil, s => some s
  | .name k rest, s => hashTextMapEntryItems stack rest (s.enc fun w => putName w k)
  | .value v rest, s => do
    let s ← hashValue stack v s
    hashTextMapEntryItems stack rest s

/-- `decode_record_id` and `decode_record_field` on each occurrence. -/
def hashRecord (stack : List Frame) : Record → VState → Option VState
  | .nil, s => some s
  | .recordId id rest, s => hashRecord stack rest (putRecordId s id)
  | .field f rest, s =>
    if !d.stackHasRoom stack then none
    else do
      let s ← hashRecordFieldItems stack f { s with count := countNamedValue s.count f }
      hashRecord stack rest (s.enc fun w => putPrimitive w (f.which .none))

/-- `decode_text_map_entry` on each occurrence. -/
def hashTextMap (stack : List Frame) : TextMap → VState → Option VState
  | .nil, s => some s
  | .entry e rest, s =>
    if !d.stackHasRoom stack then none
    else do
      let s ← hashTextMapEntryItems stack e { s with count := countNamedValue s.count e }
      hashTextMap stack rest (s.enc fun w => putPrimitive w (e.which .none))

/-- The keys of a GenMap entry, in the decode that has the key callback set. -/
def hashGenMapKeys (stack : List Frame) : GenMapEntry → VState → Option VState
  | .nil, s => some s
  | .key v rest, s => do
    let s ← hashValue stack v s
    hashGenMapKeys stack rest s
  | .value _ rest, s => hashGenMapKeys stack rest s

/-- The values of a GenMap entry, in the decode that has the value callback set. -/
def hashGenMapValues (stack : List Frame) : GenMapEntry → VState → Option VState
  | .nil, s => some s
  | .key _ rest, s => hashGenMapValues stack rest s
  | .value v rest, s => do
    let s ← hashValue stack v s
    hashGenMapValues stack rest s

/-- `decode_gen_map_entry` (pb_hashing_parser.c:559–602) on each occurrence. -/
def hashGenMap (stack : List Frame) : GenMap → VState → Option VState
  | .nil, s => some s
  | .entry e rest, s =>
    if !d.stackHasRoom stack then none
    else do
      let s ← hashGenMapKeys stack e { s with count := countGenMapEntry s.count e }
      let s := s.enc fun w => putPrimitive w (e.whichKey .none)
      let s ← hashGenMapValues stack e s
      hashGenMap stack rest (s.enc fun w => putPrimitive w (e.whichValue .none))

/-- `decode_identifier`, `decode_variant_constructor` and `decode_value` on the
occurrences of a variant. -/
def hashVariant (stack : List Frame) : Variant → VState → Option VState
  | .nil, s => some s
  | .variantId id rest, s => hashVariant stack rest (s.enc fun w => encodeIdentifier w id)
  | .constructor c rest, s => hashVariant stack rest (s.enc fun w => putName w c)
  | .value v rest, s =>
    if !d.stackHasRoom stack then none
    else do
      let s ← hashValue stack v { s with count := countValue s.count v }
      hashVariant stack rest (s.enc fun w => putPrimitive w (v.which .none))

end

/-- `decode_value_field` (pb_hashing_parser.c:761–788), for the field `field` of the message. -/
def decodeValueField (field : Frame) (s : VState) (v : Value) : Option VState := do
  let s ← hashValue d [field] v { s with count := countValue s.count v }
  some (s.enc fun w => putPrimitive w (v.which .none))

end Values

/-! ## Presence checks -/

/-- `require_identifier`. -/
def requireIdentifier : Option Identifier → Bool
  | none => false
  | some id => id.packageId.isSome && id.moduleName.isSome && id.entityName.isSome

/-- `optional_interface_is_complete`. -/
def optionalInterfaceIsComplete : Option Identifier → Bool
  | none => true
  | some id => requireIdentifier (some id)

/-- `create_is_complete`; the decoder leaves no NULL in a repeated string. -/
def createIsComplete (c : Create) : Bool :=
  c.lfVersion.isSome && c.contractId.isSome && c.packageName.isSome &&
    requireIdentifier c.templateId

/-- `exercise_is_complete`. -/
def exerciseIsComplete (e : Exercise) : Bool :=
  e.lfVersion.isSome && e.contractId.isSome && e.packageName.isSome && e.choiceId.isSome &&
    requireIdentifier e.templateId

/-- `fetch_is_complete`. -/
def fetchIsComplete (f : Fetch) : Bool :=
  f.lfVersion.isSome && f.contractId.isSome && f.packageName.isSome &&
    requireIdentifier f.templateId

/-- The seed lookup of `decode_create` and `decode_exercise`: the first seed with
the node's id, which must be 32 bytes long. The outer `none` is the refusal. -/
def findSeed (tx : DamlTransaction) (nodeId : Int) : Option (Option Bytes) :=
  if nodeId < 0 then some none
  else
    match tx.nodeSeeds.find? (·.nodeId == nodeId) with
    | none => some none
    | some ns =>
      match ns.seed with
      | none => none
      | some seed => if seed.length = 32 then some (some seed) else none

/-! ## Nodes -/

/-- `cb_parser_ctx_t` with the state the callbacks reach from it: the tree check
and the value store. -/
structure Ctx where
  nodeId : Int
  isRootNode : Bool
  treeChildrenClaimed : Bool
  v : VState
  tree : TreeCheck
  values : ValuesStore

section Nodes

variable (d : Device)

/-- Hash a sequence of values. -/
def decodeValueFields (field : Frame) (s : VState) (vs : List Value) : Option VState :=
  vs.foldlM (decodeValueField d field) s

/-- The hashing part of `decode_create`, for a node or for an input contract. -/
def hashCreate (field : Frame) (s : VState) (c : Create) (seed : Option Bytes) :
    Option VState := do
  let s ← decodeValueFields d field (s.enc fun w => encodeCreateStart w c seed) c.argument
  some (s.enc fun w => encodeCreateEnd w c)

/-- `decode_create` (pb_hashing_parser.c:895–973) for a create node. -/
def decodeCreate (tx : DamlTransaction) (ctx : Ctx) (c : Create) : Option Ctx :=
  if !createIsComplete c then none
  else do
    let seed ← findSeed tx ctx.nodeId
    let v ← hashCreate d .createArgument ctx.v c seed
    some { ctx with v := v, values := valuesRecordUsedContract d ctx.values c.contractId }

/-- The children a node declares are claimed once per part. -/
def claimChildren (ctx : Ctx) (children : List Bytes) : Ctx :=
  if ctx.treeChildrenClaimed then ctx
  else
    { ctx with
      tree := treeClaimChildren ctx.tree ctx.nodeId children
      treeChildrenClaimed := true }

/-- The hashing part of `decode_exercise`. -/
def hashExercise (lookup : Bytes → Option Bytes) (s : VState) (e : Exercise) (seed : Bytes) :
    Option VState := do
  let s ← decodeValueFields d .chosenValue
    (s.enc fun w => encodeExerciseStart w e (some seed)) e.chosenValue
  let s := s.enc fun w => (encodeExerciseMiddle w e).put [0x01]
  let s ← decodeValueFields d .exerciseResult s e.exerciseResult
  some (s.enc fun w => encodeExerciseEnd lookup w e)

/-- `decode_exercise` (pb_hashing_parser.c:975–1066). -/
def decodeExercise (lookup : Bytes → Option Bytes) (tx : DamlTransaction) (ctx : Ctx)
    (e : Exercise) : Option Ctx :=
  if !exerciseIsComplete e || !optionalInterfaceIsComplete e.interfaceId then none
  else
    let ctx := { ctx with values := valuesRecordUsedContract d ctx.values e.contractId }
    let ctx := claimChildren ctx e.children
    match findSeed tx ctx.nodeId with
    | none | some none => none
    | some (some seed) =>
      (hashExercise d lookup ctx.v e seed).map fun v => { ctx with v := v }

/-- `decode_fetch` (pb_hashing_parser.c:1068–1095). -/
def decodeFetch (ctx : Ctx) (f : Fetch) : Option Ctx :=
  if !fetchIsComplete f || !optionalInterfaceIsComplete f.interfaceId then none
  else
    some { ctx with
      v := ctx.v.enc fun w => encodeFetch w f
      values := valuesRecordUsedContract d ctx.values f.contractId }

/-- `decode_rollback` (pb_hashing_parser.c:1097–1128). -/
def decodeRollback (lookup : Bytes → Option Bytes) (ctx : Ctx) (r : Rollback) : Ctx :=
  let ctx := claimChildren ctx r.children
  { ctx with v := ctx.v.enc fun w => encodeRollback lookup w r }

/-- `node_decode_callback`. -/
def nodeDecodeCallback (lookup : Bytes → Option Bytes) (tx : DamlTransaction) (ctx : Ctx) :
    NodeKind → Option Ctx
  | .create c => decodeCreate d tx ctx c
  | .fetch f => decodeFetch d ctx f
  | .exercise e => decodeExercise d lookup tx ctx e
  | .rollback r => some (decodeRollback lookup ctx r)
  | .queryByKey => none

/-- `decode_node_id_field` (pb_hashing_parser.c:406–440). An occurrence that is
a root leaves the root flag set. -/
def decodeNodeIdField (tx : DamlTransaction) (ctx : Ctx) (s : Bytes) : Option Ctx :=
  if 4 ≤ s.length then none
  else
    some { ctx with
      isRootNode := ctx.isRootNode || tx.roots.contains (cstr s)
      nodeId := atoint (cstr s) }

/-- One field occurrence of a node part. -/
def decodeNodeItem (lookup : Bytes → Option Bytes) (tx : DamlTransaction) (ctx : Ctx) :
    NodeItem → Option Ctx
  | .nodeId s => decodeNodeIdField tx ctx s
  | .v1 kinds => kinds.foldlM (nodeDecodeCallback d lookup tx) ctx

/-- The decode of `proto_deserialize_node`: from the fresh parser context to the
context after the last field. -/
def decodeNodePart (lookup : Bytes → Option Bytes) (tx : DamlTransaction) (tree : TreeCheck)
    (values : ValuesStore) (err : HashError) (part : NodePart) : Option Ctx :=
  part.foldlM (decodeNodeItem d lookup tx) ⟨-1, false, false, ⟨⟨[], err⟩, -1⟩, tree, values⟩

/-- One occurrence of an input contract: `decode_create` with
`is_input_contract` set, so no seed. -/
def decodeContract (st : VState × ValuesStore) (c : Create) : Option (VState × ValuesStore) :=
  if !createIsComplete c then none
  else
    (hashCreate d .contractArgument st.1 c none).map fun v =>
      (v, valuesCheckDisclosedContract d st.2 c.contractId)

/-- The decode of `proto_deserialize_input_contract`. -/
def decodeInputContractPart (values : ValuesStore) (err : HashError) (ic : InputContract) :
    Option (VState × ValuesStore) :=
  ic.v1.foldlM (decodeContract d) (⟨⟨[], err⟩, -1⟩, values)

end Nodes

end HashingParser

end CantonSigner
