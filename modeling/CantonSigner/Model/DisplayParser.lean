import CantonSigner.Model.NodeValuesCheck

/-!
# Display parser (pb_node_display_parser.c)

The pass that looks for a screen in a node part or an input contract: the
outermost record of the argument selects a configuration, the walk stores the
values found at the configured paths, and the formatting step turns them into
the rows of the review.

- `Globals`: the deferred match carried from a node to the input contracts;
- `Review`: what the pass leaves in `G_context.tx_info`;
- `Ctx`: `pb_callback_context_t` with the `tx_fields` array. `fields` is `none`
  until a configuration is set. The array is empty whenever a parse starts and
  is emptied when it ends, so it is part of the context.
-/

namespace CantonSigner

open ByteCodec

/-- A row of the review: item and value. -/
abbrev Pair := Bytes × Bytes

/-- The display part of `transaction_ctx_t`. `pairs` is `none` when the array is
not allocated, and otherwise its first `pairs_count` rows. -/
structure Review where
  pairs : Option (List Pair)
  clearSigningAvailable : Bool
  displayFailed : Bool
  reviewTitle : Option Bytes
  reviewFinish : Option Bytes
deriving Repr, DecidableEq

/-- `cleanup_display_items`. -/
def cleanupDisplayItems (r : Review) : Review := { r with pairs := none }

/-- The fields of `transaction_ctx_t` that the signing flows share. `signature`
holds the device's public key while topology messages are checked. -/
structure TxInfo where
  review : Review
  mHash : Bytes
  mHashLen : Nat
  signature : Bytes
  challengeSignature : Option Bytes
deriving Repr, DecidableEq

/-- The zeroed `tx_info`. -/
def TxInfo.zero : TxInfo := ⟨⟨none, false, false, none, none⟩, [], 0, [], none⟩

namespace DisplayParser

/-- The deferred match: `global_tx_metadata_display_conf`, whose
`metadata_contract_identifiers` are the list searched, and
`global_expected_contract_id`. -/
structure Deferred where
  conf : DisplayConfig
  expectedContractId : Option Bytes
deriving Repr, DecidableEq

/-- The static globals: `none` when
`global_tx_metadata_contract_identifiers` is NULL. -/
abbrev Globals := Option Deferred

/-- `pb_callback_context_t`, with the globals and the review it writes to. -/
structure Ctx where
  path : Bytes
  fields : Option (List TxField)
  conf : Option DisplayConfig
  reviewTitle : Option Bytes
  reviewFinish : Option Bytes
  unknownToken : Bool
  unreadable : Bool
  lastParsedContractId : Option Bytes
  nodeModule : Option Bytes
  nodeEntity : Option Bytes
  nodeChoiceId : Option Bytes
  recordDepth : UInt8
  valuesOpened : Nat
  globals : Globals
  review : Review
deriving Repr, DecidableEq

/-- The zeroed context of `process_display_parsing`. -/
def Ctx.start (g : Globals) (r : Review) : Ctx where
  path := []
  fields := none
  conf := none
  reviewTitle := none
  reviewFinish := none
  unknownToken := false
  unreadable := false
  lastParsedContractId := none
  nodeModule := none
  nodeEntity := none
  nodeChoiceId := none
  recordDepth := 0
  valuesOpened := 0
  globals := g
  review := r

/-! ## Storing values -/

/-- The value a matched field is given: text taken from the decoder or a
timestamp in a block of 8 bytes. -/
inductive Shown where
  | text (s : Bytes)
  | timestamp (t : Int)

/-- `set_field_value` and `take_field_value` (pb_node_display_parser.c:313–390).
A second match, or a text that is too long, cannot be shown. -/
def storeValue (f : TxField) (v : Shown) : TxField :=
  if f.matched then { f with storeFailed := true }
  else
    let f := { f with matched := true }
    match v with
    | .timestamp t => { f with value := some (beBytes 8 (t % 2 ^ 64).toNat) }
    | .text s =>
      if s.isEmpty then f
      else if maxFieldValueLen < s.length then { f with storeFailed := true }
      else { f with value := some (s ++ [0]) }

/-- Apply a function to the first field at a path (`find_field_by_path`). -/
def updateFieldAt (path : Bytes) (g : TxField → TxField) : List TxField → List TxField
  | [] => []
  | f :: fs => if f.config.path = path then g f :: fs else f :: updateFieldAt path g fs

/-- What `find_tx_field` does with the field at the current path. -/
def matchField (w : Which) (f : TxField) : TxField :=
  match w with
  | .prim (.party s) | .prim (.numeric s) | .prim (.text s) => storeValue f (.text s)
  | .prim (.timestamp t) => storeValue f (.timestamp t)
  | .optional => f
  | _ => { f with storeFailed := true }

/-- `find_tx_field` (pb_node_display_parser.c:590–630). -/
def findTxField (s : Ctx) (w : Which) : Ctx :=
  { s with fields := s.fields.map (updateFieldAt s.path (matchField w)) }

/-! ## Selecting a screen -/

/-- A field before anything was found for it. -/
def freshField (c : FieldConfig) : TxField := ⟨c, none, false, true, false⟩

/-- The static asset row of the pre-approval screen. -/
def setPreapprovalAsset (title : Bytes) (fs : List TxField) : List TxField :=
  if title = preapprovalProposalReviewTitle then
    fs.modify preapprovalAssetFieldIndex fun f =>
      storeValue { f with config := preapprovalAssetField } (.text preapprovalAssetFieldValue)
  else fs

/-- `set_display_config` (pb_node_display_parser.c:393–427); it also allocates
the rows of the review. -/
def setDisplayConfig (s : Ctx) (c : DisplayConfig) : Ctx :=
  { s with
    fields := some (setPreapprovalAsset c.reviewTitle (c.fields.map freshField))
    conf := some c
    reviewTitle := some c.reviewTitle
    reviewFinish := some c.reviewFinish
    review := { s.review with pairs := some [] } }

/-- `set_node_identity`. -/
def setNodeIdentity (s : Ctx) (contractId : Option Bytes) (templateId : Option Identifier)
    (choiceId : Option Bytes) : Ctx :=
  { s with
    lastParsedContractId := contractId
    nodeModule := templateId.bind (·.moduleName)
    nodeEntity := templateId.bind (·.entityName)
    nodeChoiceId := choiceId }

/-- `is_node_template`. -/
def isNodeTemplate (s : Ctx) (moduleName entityName : Option Bytes) : Bool :=
  moduleName.isSome && entityName.isSome && s.nodeModule == moduleName &&
    s.nodeEntity == entityName

/-- `config_matches_node_action` (pb_node_display_parser.c:497–525). -/
def configMatchesNodeAction (s : Ctx) (c : DisplayConfig) (id : Identifier) : Bool :=
  match s.nodeChoiceId with
  | none => isNodeTemplate s id.moduleName id.entityName
  | some choice =>
    (c.nodeIdentifiers.any fun n => isNodeTemplate s (some n.moduleName) (some n.entityName)) &&
      id.entityName == some choice

/-- `match_identifier`. -/
def matchIdentifier (id : Identifier) (c : IdentifierConfig) : Bool :=
  id.moduleName == some c.moduleName && id.entityName == some c.entityName

/-- The deferred match of `find_tx_type_and_config`: this contract is of a type
the deferred screen reads and is the one the exercise targeted. -/
def deferredMatches (s : Ctx) (g : Deferred) (id : Identifier) : Bool :=
  (g.conf.metadataContractIdentifiers.any (matchIdentifier id)) &&
    (s.lastParsedContractId.isSome && s.lastParsedContractId == g.expectedContractId) &&
    isNodeTemplate s id.moduleName id.entityName

/-- The table search of `find_tx_type_and_config`. A configuration with metadata
contracts is recorded in the globals instead of being set. -/
def findInTable (s : Ctx) (id : Identifier) : Ctx :=
  match displayConfigs.find? fun c =>
      matchIdentifier id c.identifier && configMatchesNodeAction s c id with
  | none => s
  | some c =>
    if c.metadataContractIdentifiers.isEmpty then setDisplayConfig s c
    else { s with globals := some ⟨c, s.lastParsedContractId⟩ }

/-- `find_tx_type_and_config` (pb_node_display_parser.c:538–587). -/
def findTxTypeAndConfig (s : Ctx) (id : Identifier) : Ctx :=
  if s.fields.isSome then s
  else
    match s.globals with
    | none => findInTable s id
    | some g => if deferredMatches s g id then setDisplayConfig s g.conf else findInTable s id

/-! ## Field paths -/

/-- A path segment with its dots escaped. -/
def escapeSegment : Bytes → Bytes
  | [] => []
  | c :: cs => if c = 46 then 92 :: c :: escapeSegment cs else c :: escapeSegment cs

/-- `push_path` (pb_node_display_parser.c:676–705). -/
def pushPath (s : Ctx) (segment : Bytes) : Ctx :=
  if s.fields.isNone then s
  else if maxFieldPathLen ≤ s.path.length + 1 + (escapeSegment segment).length then
    { s with unreadable := true }
  else
    { s with path := s.path ++ (if 0 < s.path.length then [46] else []) ++ escapeSegment segment }

/-- `read_path_segment` (pb_node_display_parser.c:720–745). -/
def readPathSegment (s : Ctx) (label : Bytes) : Ctx :=
  if defaultDecodeBufferSize ≤ label.length then { s with unreadable := true }
  else if label.isEmpty || label.contains 0 then { s with unreadable := true }
  else pushPath s label

/-- `decode_record_field_label` and `decode_textmap_key`: a value read before its
label was matched under the parent's path. -/
def decodeLabel (valuesBefore : Nat) (s : Ctx) (label : Bytes) : Ctx :=
  let s := if s.valuesOpened ≠ valuesBefore then { s with unreadable := true } else s
  readPathSegment s label

/-! ## The walk -/

section Walk

variable (d : Device)

mutual

/-- `decode_value_variant` (pb_node_display_parser.c:926–989) over the
occurrences of a value. -/
def walkValue (stack : List Frame) : Value → Ctx → Option Ctx
  | .nil, s => some s
  | .prim _ rest, s => walkValue stack rest s
  | .record r rest, s => do
    let s := { s with valuesOpened := s.valuesOpened + 1, recordDepth := s.recordDepth + 1 }
    let s ← walkRecord (.record :: stack) r s
    walkValue stack rest { s with recordDepth := s.recordDepth - 1 }
  | .optional vs rest, s => do
    let s ← walkElems (.optional :: stack) vs { s with valuesOpened := s.valuesOpened + 1 }
    walkValue stack rest s
  | .textMap m rest, s => do
    let s ← walkTextMap (.textMap :: stack) m { s with valuesOpened := s.valuesOpened + 1 }
    walkValue stack rest s
  | .unit rest, s => walkValue stack rest { s with valuesOpened := s.valuesOpened + 1 }
  | .list _ rest, s => walkValue stack rest { s with valuesOpened := s.valuesOpened + 1 }
  | .genMap _ rest, s => walkValue stack rest { s with valuesOpened := s.valuesOpened + 1 }
  | .variant _ rest, s => walkValue stack rest { s with valuesOpened := s.valuesOpened + 1 }
  | .enum _ rest, s => walkValue stack rest { s with valuesOpened := s.valuesOpened + 1 }

/-- `decode_value` (pb_node_display_parser.c:841–868) on each occurrence. -/
def walkElems (stack : List Frame) : Values → Ctx → Option Ctx
  | .nil, s => some s
  | .cons v rest, s =>
    if !d.stackHasRoom stack then none
    else do
      let s ← walkValue stack v s
      walkElems stack rest (findTxField s (v.which .none))

/-- `decode_record_id_field` and `decode_record_field`
(pb_node_display_parser.c:769–838) on each occurrence. Only the outermost record
may select a screen, and fields are skipped until one is selected. -/
def walkRecord (stack : List Frame) : Record → Ctx → Option Ctx
  | .nil, s => some s
  | .recordId id rest, s =>
    walkRecord stack rest (if s.recordDepth = 1 then findTxTypeAndConfig s id else s)
  | .field f rest, s =>
    if s.fields.isNone then walkRecord stack rest s
    else if !d.stackHasRoom stack then none
    else do
      let (s', seen) ← walkNamedItems stack s.valuesOpened f s false
      let s' := if !seen then { s' with unreadable := true } else s'
      let s' := findTxField s' (f.which .none)
      walkRecord stack rest { s' with path := s'.path.take s.path.length }

/-- `decode_value_text_map` (pb_node_display_parser.c:886–923) on each entry. -/
def walkTextMap (stack : List Frame) : TextMap → Ctx → Option Ctx
  | .nil, s => some s
  | .entry e rest, s =>
    if !d.stackHasRoom stack then none
    else do
      let (s', seen) ← walkNamedItems stack s.valuesOpened e s false
      let s' := if !seen && s'.fields.isSome then { s' with unreadable := true } else s'
      let s' := findTxField s' (e.which .none)
      walkTextMap stack rest { s' with path := s'.path.take s.path.length }

/-- The occurrences of a record field or TextMap entry, with `label_read_t`. -/
def walkNamedItems (stack : List Frame) (valuesBefore : Nat) : NamedValue → Ctx → Bool →
    Option (Ctx × Bool)
  | .nil, s, seen => some (s, seen)
  | .name l rest, s, _ => walkNamedItems stack valuesBefore rest (decodeLabel valuesBefore s l) true
  | .value v rest, s, seen => do
    let s ← walkValue stack v s
    walkNamedItems stack valuesBefore rest s seen

end

/-- Walk the occurrences of `argument` or `chosen_value` of a node. -/
def walkValues (field : Frame) (s : Ctx) (vs : List Value) : Option Ctx :=
  vs.foldlM (fun s v => walkValue d [field] v s) s

/-- `node_decode_callback` (pb_node_display_parser.c:992–1017): read the node's
identity, then walk its argument. -/
def nodeDecodeCallback (s : Ctx) : NodeKind → Option Ctx
  | .exercise e =>
    if !e.chosenValueIsMessage then none
    else
      walkValues d .displayChosenValue (setNodeIdentity s e.contractId e.templateId e.choiceId)
        e.chosenValue
  | .create c =>
    if !c.argumentIsMessage then none
    else
      walkValues d .displayArgument (setNodeIdentity s c.contractId c.templateId none) c.argument
  | _ => some s

/-- The decode of a node part. -/
def walkNode (s : Ctx) (part : NodePart) : Option Ctx :=
  (nodeKinds part).foldlM (nodeDecodeCallback d) s

/-- `decode_create` (pb_node_display_parser.c:1132–1164): the argument of an
input contract is opened by `decode_value`. -/
def decodeCreate (s : Ctx) (c : Create) : Option Ctx :=
  c.argument.foldlM (fun s v => walkElems d [.displayContractArgument] (.cons v .nil) s)
    (setNodeIdentity s c.contractId c.templateId none)

/-- The decode of an input contract. -/
def walkInputContract (s : Ctx) (ic : InputContract) : Option Ctx := ic.v1.foldlM (decodeCreate d) s

end Walk

end DisplayParser

end CantonSigner
