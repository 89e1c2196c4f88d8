import CantonSigner.Model.DisplayParser

/-!
# From matched fields to rows (pb_node_display_parser.c)

The formatting callbacks, `format_and_populate_display_items`, and the two entry
points `parse_node_for_display` and `parse_input_contract_for_display`.
-/

namespace CantonSigner

open ByteCodec

namespace DisplayParser

/-! ## Amounts -/

/-- `format_amount_field` (pb_node_display_parser.c:76–104) on the text of the
field: trailing zeros of the fraction are dropped, and the dot with them when
nothing of the fraction is left. -/
def formatAmountText (s : Bytes) : Bytes :=
  if s.contains 46 then
    let whole := s.takeWhile (· != 46)
    let fraction := ((s.dropWhile (· != 46)).drop 1).reverse.dropWhile (· == 48)
    if fraction.isEmpty then whole else whole ++ [46] ++ fraction.reverse
  else s

/-- The last field at one of two paths, as `format_token_amount_field` looks
fields up. -/
def lastFieldAt (p q : Bytes) (fs : List TxField) : Option TxField :=
  fs.foldl (fun acc f => if f.config.path = p || f.config.path = q then some f else acc) none

/-- Hide the fields at one of two paths that the lookup above returns: the last
one. -/
def hideLastFieldAt (p q : Bytes) (fs : List TxField) : List TxField :=
  (fs.foldr (fun f (acc : List TxField × Bool) =>
    if !acc.2 && (f.config.path = p || f.config.path = q) then
      ({ f with display := false } :: acc.1, true)
    else (f :: acc.1, acc.2)) ([], false)).1

/-- The ticker of an instrument. -/
def findTicker (admin id : Bytes) : Option Bytes :=
  (instrumentToTickerMappings.find? fun m => m.id == id && m.admin == admin).map (·.ticker)

/-- Store a text in the `i`-th field. -/
def setFieldText (fs : List TxField) (i : Nat) (text : Bytes) : List TxField :=
  fs.modify i fun f => { f with value := some (text ++ [0]) }

/-- `format_token_amount_field` (pb_node_display_parser.c:106–168) on the field at
index `i` whose formatted amount is `amount`. -/
def formatTokenAmount (d : Device) (s : Ctx) (fs : List TxField) (i : Nat) (amount : Bytes) : Ctx :=
  let fs := setFieldText fs i amount
  match (lastFieldAt instrumentIdPath proxyInstrumentIdPath fs).bind (·.value),
      (lastFieldAt instrumentIdAdminPath instrumentIdProxyAdminPath fs).bind (·.value) with
  | some instrument, some admin =>
    match findTicker (blockText d admin) (blockText d instrument) with
    | none => { s with fields := some fs, unknownToken := true }
    | some ticker =>
      let fs := setFieldText fs i (amount ++ [32] ++ ticker)
      let fs := hideLastFieldAt instrumentIdPath proxyInstrumentIdPath fs
      let fs := hideLastFieldAt instrumentIdAdminPath instrumentIdProxyAdminPath fs
      let s := { s with fields := some fs }
      if ticker = nativeCoinTicker && s.reviewTitle == some tokenTransferReviewTitle then
        { s with
          reviewTitle := some nativeCoinTransferReviewTitle
          reviewFinish := some nativeCoinTransferReviewFinish }
      else s
  | _, _ => { s with fields := some fs }

/-! ## Timestamps -/

/-- A decimal number of at least `width` digits, padded with zeros. -/
def decimal (width n : Nat) : Bytes :=
  ((Nat.toDigits 10 n).map fun c => UInt8.ofNat c.toNat).leftpad width 48

/-- `struct tm`, the fields the formatter reads. -/
structure Tm where
  year : Nat
  month : Nat
  day : Nat
  hour : Nat
  minute : Nat
  second : Nat
deriving Repr, DecidableEq

/-- `gmtime_r`: the civil date and time of a number of seconds since
1970-01-01, in the proleptic Gregorian calendar. -/
def gmtime (secs : Nat) : Tm :=
  -- Days are counted from 0000-03-01, so that the leap day ends its year.
  let z := secs / 86400 + 719468
  let era := z / 146097
  let doe := z % 146097
  let yoe := (doe - doe / 1460 + doe / 36524 - doe / 146096) / 365
  let doy := doe - (365 * yoe + yoe / 4 - yoe / 100)
  let mp := (5 * doy + 2) / 153
  let month := if mp < 10 then mp + 3 else mp - 9
  { year := yoe + era * 400 + (if month ≤ 2 then 1 else 0)
    month := month
    day := doy - (153 * mp + 2) / 5 + 1
    hour := secs % 86400 / 3600
    minute := secs % 3600 / 60
    second := secs % 60 }

/-- `read_u64_be` at the start of a heap block. -/
def readU64 (d : Device) (block : Bytes) : Nat :=
  ((block ++ d.heapAfter block).take 8).foldl (fun n b => n * 256 + b.toNat) 0

/-- `format_timestamp_field` (pb_node_display_parser.c:197–258). -/
def formatTimestampText (d : Device) (block : Bytes) : Bytes :=
  let tm := gmtime (readU64 d block / 1000000)
  let hour := if tm.hour % 12 = 0 then 12 else tm.hour % 12
  let amPm := if 12 ≤ tm.hour then str "PM" else str "AM"
  let date := decimal 4 tm.year ++ str "-" ++ decimal 2 tm.month ++ str "-" ++ decimal 2 tm.day
  let time := decimal 2 hour ++ str ":" ++ decimal 2 tm.minute ++ str ":" ++ decimal 2 tm.second
  if d.screenSizeWallet then date ++ str " " ++ time ++ str "\n" ++ amPm ++ str " UTC"
  else date ++ str "\n" ++ time ++ str " " ++ amPm ++ str " UTC"

/-! ## Formatting and populating -/

/-- Run the format callback of the `i`-th field, which holds `block`. -/
def runFormatCallback (d : Device) (s : Ctx) (fs : List TxField) (i : Nat) (block : Bytes) :
    Option FormatCallback → Ctx
  | none => s
  | some .tokenAmount => formatTokenAmount d s fs i (formatAmountText (blockText d block))
  | some .nativeAmount =>
    let text := formatAmountText (blockText d block) ++ [32] ++ nativeCoinTicker
    { s with fields := some (setFieldText fs i text) }
  | some .timestamp => { s with fields := some (setFieldText fs i (formatTimestampText d block)) }

/-- How the first loop of `format_and_populate_display_items` ends. -/
inductive FormatResult where
  /-- Every field was formatted. -/
  | formatted (s : Ctx)
  /-- A value cannot be shown: `display_failed`. -/
  | failed (s : Ctx)
  /-- A mandatory field is missing: the part is refused. -/
  | missing

/-- The first loop of `format_and_populate_display_items`, from field `i` on with
`n` fields left. -/
def formatLoop (d : Device) : Nat → Nat → Ctx → FormatResult
  | 0, _, s => .formatted s
  | n + 1, i, s =>
    let fs := s.fields.getD []
    match fs[i]? with
    | none => .formatted s
    | some f =>
      if f.storeFailed then .failed s
      else
        match f.value with
        | none => if f.config.mandatory then .missing else formatLoop d n (i + 1) s
        | some block =>
          let s := if f.display then runFormatCallback d s fs i block f.config.formatCallback else s
          if s.unknownToken then .failed s else formatLoop d n (i + 1) s

/-- The rows of the second loop. -/
def populateRows (d : Device) (fs : List TxField) : List Pair :=
  fs.filterMap fun f =>
    match f.display, f.value, f.config.itemName with
    | true, some block, some item => some (item, blockText d block)
    | _, _, _ => none

/-- Clear signing is off for good in this flow. -/
def failReview (r : Review) : Review :=
  cleanupDisplayItems { r with clearSigningAvailable := false, displayFailed := true }

/-- `format_and_populate_display_items` (pb_node_display_parser.c:1042–1130) after
the bind, and the titles its caller stores; `none` is the refusal. -/
def formatAndPopulate (d : Device) (s : Ctx) (fs : List TxField) : Option Review :=
  let titled (r : Review) (s : Ctx) :=
    { r with reviewTitle := s.reviewTitle, reviewFinish := s.reviewFinish }
  if s.unreadable then some (titled (failReview s.review) s)
  else
    match formatLoop d fs.length 0 s with
    | .failed s' => some (titled (failReview s'.review) s')
    | .missing => none
    | .formatted s' =>
      some (titled { s'.review with
        pairs := some (populateRows d (s'.fields.getD []))
        clearSigningAvailable := true } s')

/-- The end of `process_display_parsing` (pb_node_display_parser.c:1202–1218) on a
finished walk: the globals, the review and the value store, or the refusal. -/
def finishParsing (d : Device) (values : ValuesStore) (s : Ctx) :
    Option (Globals × Review × ValuesStore) :=
  match s.fields, s.conf with
  | some fs, some c => do
    let values := valuesBindFromDisplay d values fs c.destination c.amountCheck
    let review ← formatAndPopulate d s fs
    some (none, review, values)
  | _, _ => some (s.globals, { s.review with clearSigningAvailable := false }, values)

/-- `parse_node_for_display` (pb_node_display_parser.c:1220–1237). -/
def parseNodeForDisplay (d : Device) (g : Globals) (r : Review) (values : ValuesStore)
    (part : NodePart) : Option (Globals × Review × ValuesStore) :=
  if r.clearSigningAvailable || r.displayFailed || g.isSome then some (g, r, values)
  else (walkNode d (Ctx.start none r) part).bind (finishParsing d values)

/-- `parse_input_contract_for_display` (pb_node_display_parser.c:1239–1260). -/
def parseInputContractForDisplay (d : Device) (g : Globals) (r : Review) (values : ValuesStore)
    (ic : InputContract) : Option (Globals × Review × ValuesStore) :=
  if r.clearSigningAvailable || r.displayFailed || g.isNone then some (g, r, values)
  else (walkInputContract d (Ctx.start g r) ic).bind (finishParsing d values)

end DisplayParser

end CantonSigner
