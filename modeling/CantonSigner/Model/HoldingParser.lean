import CantonSigner.Model.NodeValuesCheck

/-!
# Holding parser (pb_holding_parser.c)

The pass that finds the holding a create node writes: its template says at which
label paths the owner, the amount, the admin and the instrument stand, and a
walk down the records of its argument reads them.
-/

namespace CantonSigner

open ByteCodec

namespace HoldingParser

/-- `MAX_LABEL_PATH_LEN`. -/
def maxLabelPathLen : Nat := 64
/-- `MAX_LABEL_DEPTH`. -/
def maxLabelDepth : Nat := 6

/-- `holding_path_config_t`. -/
structure HoldingPathConfig where
  moduleName : Bytes
  entityName : Bytes
  ownerPath : Bytes
  amountPath : Bytes
  adminPath : Bytes
  idPath : Option Bytes
deriving Repr, DecidableEq

/-- `HOLDING_TEMPLATES` (pb_holding_parser.c:34–67). -/
def holdingTemplates : List HoldingPathConfig := [
  ⟨str "Splice.Amulet", str "Amulet", str "owner", str "amount.initialAmount", str "dso", none⟩,
  ⟨str "Splice.Amulet", str "LockedAmulet", str "amulet.owner", str "amulet.amount.initialAmount",
    str "amulet.dso", none⟩,
  ⟨str "Utility.Registry.Holding.V0.Holding", str "Holding", str "owner", str "amount",
    str "instrument.source", some (str "instrument.id")⟩,
  ⟨str "Splice.AmuletTransferInstruction", str "AmuletTransferInstruction",
    str "transfer.receiver", str "transfer.amount", str "transfer.instrumentId.admin",
    some (str "transfer.instrumentId.id")⟩,
  ⟨str "Splice.ExternalPartyAmuletRules", str "TransferCommand", str "receiver", str "amount",
    str "dso", none⟩,
  ⟨str "Utility.Registry.App.V0.Model.Transfer", str "TransferOffer", str "transfer.receiver",
    str "transfer.amount", str "transfer.instrumentId.admin",
    some (str "transfer.instrumentId.id")⟩]

/-- `NON_HOLDING_TEMPLATES` (pb_holding_parser.c:72–79). -/
def nonHoldingTemplates : List IdentifierConfig := [
  ⟨str "Splice.Amulet", str "AppRewardCoupon"⟩,
  ⟨str "Splice.Amulet", str "ValidatorRewardCoupon"⟩,
  ⟨str "Splice.Amulet", str "FeaturedAppActivityMarker"⟩,
  ⟨str "Utility.Registry.V0.Holding.Transfer", str "ExecutedTransfer"⟩,
  ⟨str "Splice.Wallet.TransferPreapproval", str "TransferPreapprovalProposal"⟩,
  ⟨str "Splice.AmuletEventLog", str "AmuletEventLog"⟩]

/-- `names_match`: a missing name matches nothing. -/
def namesMatch (id : Identifier) (moduleName entityName : Bytes) : Bool :=
  id.moduleName == some moduleName && id.entityName == some entityName

/-- `find_holding`. -/
def findHolding (id : Identifier) : Option HoldingPathConfig :=
  holdingTemplates.find? fun cfg => namesMatch id cfg.moduleName cfg.entityName

/-- `is_non_holding`. -/
def isNonHolding (id : Identifier) : Bool :=
  nonHoldingTemplates.any fun cfg => namesMatch id cfg.moduleName cfg.entityName

/-- The walk's `ctx`. `cfg` is `none` once a path did not fit; the digests with
their `has_…` flags are `Option`s. -/
structure Ctx where
  cfg : Option HoldingPathConfig
  path : Bytes
  recordsOpened : Nat
  owner : Option Bytes
  amount : Option Bytes
  admin : Option Bytes
  instrument : Option Bytes
  unreadable : Bool
deriving Repr, DecidableEq

/-- The context `decode_create` starts a walk with. -/
def Ctx.start (cfg : HoldingPathConfig) : Ctx := ⟨some cfg, [], 0, none, none, none, none, false⟩

/-- `path_push` (pb_holding_parser.c:150–165). -/
def pathPush (s : Ctx) (label : Bytes) : Ctx :=
  if maxLabelPathLen ≤ s.path.length + (if 0 < s.path.length then 1 else 0) + label.length then
    { s with cfg := none }
  else { s with path := s.path ++ (if 0 < s.path.length then [46] else []) ++ label }

/-- `find_holding_field` (pb_holding_parser.c:181–223). -/
def findHoldingField (d : Device) (s : Ctx) (w : Which) : Ctx :=
  match s.cfg with
  | none => s
  | some cfg =>
    match w with
    | .prim (.text t) =>
      if cfg.idPath = some s.path then
        { s with unreadable := s.unreadable || s.instrument.isSome, instrument := some (d.sha t) }
      else s
    | .prim (.party t) | .prim (.numeric t) =>
      if s.path = cfg.ownerPath then
        { s with unreadable := s.unreadable || s.owner.isSome, owner := some (d.sha t) }
      else if s.path = cfg.amountPath then
        { s with unreadable := s.unreadable || s.amount.isSome, amount := some (d.sha t) }
      else if s.path = cfg.adminPath then
        { s with unreadable := s.unreadable || s.admin.isSome, admin := some (d.sha t) }
      else s
    | _ => s

/-- `decode_label` (pb_holding_parser.c:231–261). -/
def decodeLabel (recordsBefore : Nat) (s : Ctx) (label : Bytes) : Ctx :=
  let s := if s.recordsOpened ≠ recordsBefore then { s with unreadable := true } else s
  if defaultDecodeBufferSize ≤ label.length then { s with unreadable := true }
  else if label.isEmpty || label.contains 0 then { s with unreadable := true }
  else pathPush s label

/-- The calls on the way to a record at this depth. -/
def stackAt (depth : Nat) : List Frame := List.replicate depth .record ++ [.holdingArgument]

section Walk

variable (d : Device)

mutual

/-- `decode_value` (pb_holding_parser.c:293–314) over the occurrences of a value:
only records are opened, down to `MAX_LABEL_DEPTH`. -/
def walkValue (depth : Nat) : Value → Ctx → Option Ctx
  | .nil, s => some s
  | .record r rest, s =>
    if maxLabelDepth ≤ depth then walkValue depth rest s
    else if !d.stackHasRoom (stackAt depth) then none
    else do
      let s ← walkRecord (depth + 1) r { s with recordsOpened := s.recordsOpened + 1 }
      walkValue depth rest s
  | .prim _ rest, s => walkValue depth rest s
  | .unit rest, s => walkValue depth rest s
  | .optional _ rest, s => walkValue depth rest s
  | .list _ rest, s => walkValue depth rest s
  | .textMap _ rest, s => walkValue depth rest s
  | .genMap _ rest, s => walkValue depth rest s
  | .variant _ rest, s => walkValue depth rest s
  | .enum _ rest, s => walkValue depth rest s

/-- `decode_record_field` (pb_holding_parser.c:263–289) on each field. -/
def walkRecord (depth : Nat) : Record → Ctx → Option Ctx
  | .nil, s => some s
  | .recordId _ rest, s => walkRecord depth rest s
  | .field f rest, s => do
    let (s', labelled) ← walkFieldItems depth s.recordsOpened f s false
    let s' := if !labelled && s'.cfg.isSome then { s' with unreadable := true } else s'
    let s' := findHoldingField d s' (f.which .none)
    walkRecord depth rest { s' with path := s'.path.take s.path.length }

/-- The occurrences of a record field, with `label_seen_t`. -/
def walkFieldItems (depth recordsBefore : Nat) : NamedValue → Ctx → Bool → Option (Ctx × Bool)
  | .nil, s, labelled => some (s, labelled)
  | .name l rest, s, _ =>
    walkFieldItems depth recordsBefore rest (decodeLabel recordsBefore s l) true
  | .value v rest, s, labelled => do
    let s ← walkValue depth v s
    walkFieldItems depth recordsBefore rest s labelled

end

/-- What `decode_create` reports of a finished walk. -/
def reportWalk (cfg : HoldingPathConfig) (store : ValuesStore) (s : Ctx) : ValuesStore :=
  match s.owner, s.amount, s.admin with
  | some owner, some amount, some admin =>
    if s.unreadable || (cfg.idPath.isSome && s.instrument.isNone) then store.giveUp
    else
      valuesReportHolding store ⟨owner, amount, admin⟩
        (if cfg.idPath.isSome then s.instrument else none)
  | _, _, _ => store.giveUp

/-- `decode_create` (pb_holding_parser.c:332–394). The flag is false when the
decode failed. -/
def decodeCreate (store : ValuesStore) (c : Create) : ValuesStore × Bool :=
  match c.templateId with
  | none => (store.giveUp, true)
  | some id =>
    match findHolding id with
    | none => if isNonHolding id then (store, true) else (store.giveUp, true)
    | some cfg =>
      match c.argument.foldlM (fun s v => walkValue d 0 v s) (Ctx.start cfg) with
      | none => (store, false)
      | some s => (reportWalk cfg store s, true)

/-- `decode_node_type` on each node kind of a part, until one fails. -/
def decodeNodeKinds : ValuesStore → List NodeKind → ValuesStore × Bool
  | store, [] => (store, true)
  | store, .create c :: ks =>
    match decodeCreate d store c with
    | (store, false) => (store, false)
    | (store, true) => decodeNodeKinds store ks
  | store, _ :: ks => decodeNodeKinds store ks

/-- `values_collect_from_node` (pb_holding_parser.c:412–431). -/
def valuesCollectFromNode (store : ValuesStore) (part : NodePart) : ValuesStore :=
  if !store.ok then store
  else
    match decodeNodeKinds d store (nodeKinds part) with
    | (store, true) => store
    | (store, false) => store.giveUp

end Walk

end HoldingParser

end CantonSigner
