import CantonSigner.Model.DisplayConfig

/-!
# Value check (node_values_check.c)

The store of what the transaction moves, collected while its parts arrive, and
the verdict that compares it with the bound screen. Values are kept as digests;
a digest with its `has_…` flag is an `Option`.
-/

namespace CantonSigner

open ByteCodec

/-- `holding_t`: digests of owner, amount and admin. -/
structure Holding where
  owner : Bytes
  amount : Bytes
  admin : Bytes
deriving Repr, DecidableEq

/-- The static `store`. `used_contracts` is the list of its first
`used_contracts_count` digests, `holdings` likewise. -/
structure ValuesStore where
  holdings : List Holding
  usedContracts : List Bytes
  destination : Option Bytes
  amount : Option Bytes
  admin : Option Bytes
  instrument : Option Bytes
  sender : Option Bytes
  holdingsInstrument : Option Bytes
  bound : Bool
  boundDestination : Destination
  ok : Bool
deriving Repr, DecidableEq

/-- `values_check_reset`. -/
def valuesCheckReset : ValuesStore where
  holdings := []
  usedContracts := []
  destination := none
  amount := none
  admin := none
  instrument := none
  sender := none
  holdingsInstrument := none
  bound := false
  boundDestination := .none
  ok := true

namespace ValuesStore

/-- `give_up`. -/
def giveUp (s : ValuesStore) : ValuesStore := { s with ok := false }

end ValuesStore

/-! ## Collecting -/

/-- `values_release_used_contracts`. -/
def valuesReleaseUsedContracts (s : ValuesStore) : ValuesStore := { s with usedContracts := [] }

/-- `contract_digest`: the first `USED_CONTRACT_LEN` bytes of the hash. -/
def contractDigest (d : Device) (contractId : Bytes) : Bytes :=
  (d.sha contractId).take usedContractLen

/-- `values_record_used_contract` (node_values_check.c:93–118). -/
def valuesRecordUsedContract (d : Device) (s : ValuesStore) : Option Bytes → ValuesStore
  | none => s
  | some contractId =>
    if !s.ok then s
    else if contractDigest d contractId ∈ s.usedContracts then s
    else if maxUsedContracts ≤ s.usedContracts.length then s.giveUp
    else { s with usedContracts := s.usedContracts ++ [contractDigest d contractId] }

/-- `values_check_disclosed_contract` (node_values_check.c:122–136). -/
def valuesCheckDisclosedContract (d : Device) (s : ValuesStore) : Option Bytes → ValuesStore
  | none => s
  | some contractId =>
    if !s.ok then s
    else if contractDigest d contractId ∈ s.usedContracts then s
    else s.giveUp

/-- `values_report_holding` (node_values_check.c:146–175). -/
def valuesReportHolding (s : ValuesStore) (h : Holding) (instrument : Option Bytes) :
    ValuesStore :=
  if maxHoldings ≤ s.holdings.length then s.giveUp
  else
    let s := { s with holdings := s.holdings ++ [h] }
    match instrument, s.holdingsInstrument with
    | none, _ => s
    | some i, none => { s with holdingsInstrument := some i }
    | some i, some j => if i = j then s else s.giveUp

/-! ## Binding the screen -/

/-- The raw text of the last field shown in a role, as `values_bind_from_display`
picks it. -/
def shownText (d : Device) (fields : List TxField) (role : ShownAs) : Option Bytes :=
  fields.foldl (fun acc f =>
    if f.config.shownAs = role then (f.value.map (blockText d)).or acc else acc) none

/-- `values_bind_from_display` (node_values_check.c:194–274). -/
def valuesBindFromDisplay (d : Device) (s : ValuesStore) (fields : List TxField)
    (destination : Destination) (amountCheck : AmountCheck) : ValuesStore :=
  let shownDestination := match destination with
    | .sender => shownText d fields .sender
    | .receiver => shownText d fields .receiver
    | .none => none
  let shownAmount := if amountCheck = .comparable then shownText d fields .amount else none
  { s with
    destination := shownDestination.map d.sha
    amount := shownAmount.map d.sha
    admin := (shownText d fields .admin).map d.sha
    sender := (shownText d fields .sender).map d.sha
    instrument := (shownText d fields .instrument).map d.sha
    bound := true
    boundDestination := destination }

/-! ## The verdict -/

/-- `is_transfer_to_self`. -/
def isTransferToSelf (s : ValuesStore) : Bool :=
  s.boundDestination = .receiver && s.sender.isSome && s.destination.isSome &&
    s.sender == s.destination

/-- The loop of `destination_holds_value`: how many holdings the destination
owns and whether one carries the amount shown, or `none` at a holding of an
account the screen does not show. -/
def countOwned (s : ValuesStore) (dest : Bytes) :
    List Holding → Nat → Bool → Option (Nat × Bool)
  | [], owned, amountSeen => some (owned, amountSeen)
  | h :: hs, owned, amountSeen =>
    if h.owner ≠ dest then
      if s.sender = some h.owner then countOwned s dest hs owned amountSeen else none
    else
      countOwned s dest hs (owned + 1)
        (amountSeen || s.amount.isNone || s.amount == some h.amount)

/-- `destination_holds_value` (node_values_check.c:294–343). -/
def destinationHoldsValue (s : ValuesStore) (dest : Bytes) : Bool :=
  match countOwned s dest s.holdings 0 false with
  | none => false
  | some (owned, amountSeen) =>
    if owned = 0 then false
    else if 1 < owned && !isTransferToSelf s then false
    else if 2 < owned then false
    else amountSeen

/-- `holdings_match_displayed_instrument`, for a bound admin. -/
def holdingsMatchDisplayedInstrument (s : ValuesStore) (admin : Bytes) : Bool :=
  s.holdings.all fun h => h.admin == admin

/-- `holdings_match_displayed_id` (node_values_check.c:362–373). -/
def holdingsMatchDisplayedId (s : ValuesStore) : Bool :=
  match s.holdingsInstrument, s.instrument with
  | none, _ => true
  | some _, none => false
  | some i, some j => i == j

/-- The value of `values_can_clear_sign` (node_values_check.c:375–415). -/
def valuesVerdict (s : ValuesStore) : Bool :=
  if !s.ok then false
  else if !s.bound then false
  else if s.boundDestination = .none then s.holdings.isEmpty
  else
    match s.destination with
    | none => false
    | some dest =>
      destinationHoldsValue s dest &&
        (match s.admin with
          | none => true
          | some admin => holdingsMatchDisplayedInstrument s admin) &&
        holdingsMatchDisplayedId s

/-- `values_can_clear_sign`: every refusal of a bound screen also gives up. -/
def valuesCanClearSign (s : ValuesStore) : ValuesStore × Bool :=
  if valuesVerdict s then (s, true)
  else if s.ok && !s.bound then (s, false)
  else (s.giveUp, false)

end CantonSigner
