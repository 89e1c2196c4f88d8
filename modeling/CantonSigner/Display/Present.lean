import CantonSigner.Display.Checked

/-!
# Absent strings

The passes that follow the hashing pass test for an absent string in most places, but
`match_identifier` compares the names of a record id as they are: it relies on the hashing pass
having encoded them.

- `Checked`: the rest of the display pass and the holding pass with their comparisons;
- `second_pass_present`: after a hashing pass without an error, no comparison meets a NULL.
-/

namespace CantonSigner

open ByteCodec

namespace DisplayParser

namespace Checked

open CantonSigner.Checked

variable {d : Device} {s : Ctx} {id : Identifier}

/-! ## Formatting

A field that holds no value is passed over, and so is a callback that looks for one. What is left
is the title that a known ticker is compared for. -/

/-- `format_token_amount_field` (pb_node_display_parser.c:106–168). -/
def formatTokenAmount (d : Device) (s : Ctx) (fs : List TxField) (i : Nat) (amount : Bytes) :
    Checked Ctx :=
  let fs := setFieldText fs i amount
  match (lastFieldAt instrumentIdPath proxyInstrumentIdPath fs).bind (·.value),
      (lastFieldAt instrumentIdAdminPath instrumentIdProxyAdminPath fs).bind (·.value) with
  | some instrument, some admin =>
    match findTicker (blockText d admin) (blockText d instrument) with
    | none => some { s with fields := some fs, unknownToken := true }
    | some ticker =>
      let fs := setFieldText fs i (amount ++ [32] ++ ticker)
      let fs := hideLastFieldAt instrumentIdPath proxyInstrumentIdPath fs
      let fs := hideLastFieldAt instrumentIdAdminPath instrumentIdProxyAdminPath fs
      let s := { s with fields := some fs }
      (both (some (ticker = nativeCoinTicker))
        (strcmpEq s.reviewTitle (some tokenTransferReviewTitle))).map fun renamed =>
          if renamed then
            { s with
              reviewTitle := some nativeCoinTransferReviewTitle
              reviewFinish := some nativeCoinTransferReviewFinish }
          else s
  | _, _ => some { s with fields := some fs }

/-- Run the format callback of the `i`-th field, which holds `block`. -/
def runFormatCallback (d : Device) (s : Ctx) (fs : List TxField) (i : Nat) (block : Bytes) :
    Option FormatCallback → Checked Ctx
  | some .tokenAmount => formatTokenAmount d s fs i (formatAmountText (blockText d block))
  | callback => some (DisplayParser.runFormatCallback d s fs i block callback)

/-- The first loop of `format_and_populate_display_items`. -/
def formatLoop (d : Device) : Nat → Nat → Ctx → Checked FormatResult
  | 0, _, s => some (.formatted s)
  | n + 1, i, s =>
    let fs := s.fields.getD []
    match fs[i]? with
    | none => some (.formatted s)
    | some f =>
      if f.storeFailed then some (.failed s)
      else
        match f.value with
        | none => if f.config.mandatory then some .missing else formatLoop d n (i + 1) s
        | some block =>
          (if f.display then runFormatCallback d s fs i block f.config.formatCallback
            else some s).bind fun s =>
              if s.unknownToken then some (.failed s) else formatLoop d n (i + 1) s

/-- `format_and_populate_display_items` after the bind. -/
def formatAndPopulate (d : Device) (s : Ctx) (fs : List TxField) : Checked (Option Review) :=
  let titled (r : Review) (s : Ctx) :=
    { r with reviewTitle := s.reviewTitle, reviewFinish := s.reviewFinish }
  if s.unreadable then some (some (titled (failReview s.review) s))
  else
    (formatLoop d fs.length 0 s).map fun
      | .failed s' => some (titled (failReview s'.review) s')
      | .missing => none
      | .formatted s' =>
        some (titled { s'.review with
          pairs := some (populateRows d (s'.fields.getD []))
          clearSigningAvailable := true } s')

/-- The end of `process_display_parsing` (pb_node_display_parser.c:1202–1218). -/
def finishParsing (d : Device) (values : ValuesStore) (s : Ctx) :
    Checked (Option (Globals × Review × ValuesStore)) :=
  match s.fields, s.conf with
  | some fs, some c =>
    let values := valuesBindFromDisplay d values fs c.destination c.amountCheck
    (formatAndPopulate d s fs).map fun review => review.map fun review => (none, review, values)
  | _, _ => some (some (s.globals, { s.review with clearSigningAvailable := false }, values))

/-- `parse_node_for_display` (pb_node_display_parser.c:1220–1237). -/
def parseNodeForDisplay (d : Device) (g : Globals) (r : Review) (values : ValuesStore)
    (part : NodePart) : Checked (Option (Globals × Review × ValuesStore)) :=
  if r.clearSigningAvailable || r.displayFailed || g.isSome then some (some (g, r, values))
  else andThen (walkNode d (Ctx.start none r) part) (finishParsing d values)

/-- `parse_input_contract_for_display` (pb_node_display_parser.c:1239–1260). -/
def parseInputContractForDisplay (d : Device) (g : Globals) (r : Review) (values : ValuesStore)
    (ic : InputContract) : Checked (Option (Globals × Review × ValuesStore)) :=
  if r.clearSigningAvailable || r.displayFailed || g.isNone then some (some (g, r, values))
  else andThen (walkInputContract d (Ctx.start g r) ic) (finishParsing d values)

theorem formatTokenAmount_eq (h : s.reviewTitle.isSome = true) (fs : List TxField) (i : Nat)
    (amount : Bytes) : formatTokenAmount d s fs i amount =
      some (DisplayParser.formatTokenAmount d s fs i amount) := by
  obtain ⟨title, htitle⟩ := Option.isSome_iff_exists.mp h
  unfold formatTokenAmount DisplayParser.formatTokenAmount
  dsimp only
  cases (lastFieldAt instrumentIdPath proxyInstrumentIdPath (setFieldText fs i amount)).bind
      (·.value) with
  | none => rfl
  | some instrument =>
    cases (lastFieldAt instrumentIdAdminPath instrumentIdProxyAdminPath
        (setFieldText fs i amount)).bind (·.value) with
    | none => rfl
    | some admin =>
      dsimp only
      cases findTicker (blockText d admin) (blockText d instrument) with
      | none => rfl
      | some ticker =>
        dsimp only
        rw [htitle, strcmpEq, both_some, Option.map_some]
        rfl

theorem formatField_eq (h : s.reviewTitle.isSome = true) (i : Nat) (f : TxField) (block : Bytes) :
    (if f.display then runFormatCallback d s (s.fields.getD []) i block f.config.formatCallback
      else some s) = some (formatField d s i f block) := by
  unfold formatField
  split
  · cases f.config.formatCallback with
    | none => rfl
    | some cb =>
      cases cb with
      | tokenAmount => exact formatTokenAmount_eq h _ i _
      | nativeAmount => rfl
      | timestamp => rfl
  · rfl

theorem formatLoop_eq (h : s.reviewTitle.isSome = true) (n i : Nat) :
    formatLoop d n i s = some (DisplayParser.formatLoop d n i s) := by
  induction n generalizing i s with
  | zero => rfl
  | succ n ih =>
    rw [formatLoop, formatLoop_succ]
    cases (s.fields.getD [])[i]? with
    | none => rfl
    | some f =>
      dsimp only
      split
      · rfl
      · cases f.value with
        | none =>
          dsimp only
          split
          · rfl
          · exact ih h (i + 1)
        | some block =>
          dsimp only
          rw [formatField_eq h, Option.bind_some]
          split
          · rfl
          · -- A title is only replaced by another one.
            refine ih ?_ (i + 1)
            rcases formatField_title (d := d) s i f block with hkept | ⟨-, hafter⟩
            · rw [hkept]
              exact h
            · rw [hafter]
              rfl

theorem formatAndPopulate_eq (h : s.reviewTitle.isSome = true) (fs : List TxField) :
    formatAndPopulate d s fs = some (DisplayParser.formatAndPopulate d s fs) := by
  unfold formatAndPopulate DisplayParser.formatAndPopulate
  dsimp only
  split
  · rfl
  · rw [formatLoop_eq h]
    cases DisplayParser.formatLoop d fs.length 0 s <;> rfl

theorem finishParsing_eq (h : Titled s) (values : ValuesStore) :
    finishParsing d values s = some (DisplayParser.finishParsing d values s) := by
  unfold finishParsing DisplayParser.finishParsing
  cases s.fields with
  | none => rfl
  | some fs =>
    cases hc : s.conf with
    | none => rfl
    | some c =>
      have htitle : s.reviewTitle.isSome = true := by
        rw [h c hc]
        rfl
      dsimp only
      rw [formatAndPopulate_eq htitle]
      cases DisplayParser.formatAndPopulate d s fs <;> rfl

theorem parseNodeForDisplay_eq {part : NodePart} (h : ∀ k ∈ nodeKinds part, KindNamed k)
    (g : Globals) (r : Review) (values : ValuesStore) :
    parseNodeForDisplay d g r values part =
      some (DisplayParser.parseNodeForDisplay d g r values part) := by
  unfold parseNodeForDisplay DisplayParser.parseNodeForDisplay
  split
  · rfl
  · rw [walkNode_eq h]
    cases hwalk : DisplayParser.walkNode d (Ctx.start none r) part with
    | none => rfl
    | some s =>
      exact finishParsing_eq
        (titled_walk.node (fun _ _ _ _ h => h) part (titled_start none r) hwalk) values

theorem parseInputContractForDisplay_eq {ic : InputContract}
    (h : ∀ c ∈ ic.v1, ∀ v ∈ c.argument, ValueNamed v) (g : Globals) (r : Review)
    (values : ValuesStore) : parseInputContractForDisplay d g r values ic =
      some (DisplayParser.parseInputContractForDisplay d g r values ic) := by
  unfold parseInputContractForDisplay DisplayParser.parseInputContractForDisplay
  split
  · rfl
  · rw [walkInputContract_eq h]
    cases hwalk : DisplayParser.walkInputContract d (Ctx.start g r) ic with
    | none => rfl
    | some s =>
      exact finishParsing_eq
        (titled_walk.inputContract (fun _ _ _ _ h => h) ic (titled_start g r) hwalk) values

end Checked

end DisplayParser

/-! ## The holding pass -/

namespace HoldingParser

namespace Checked

open CantonSigner.Checked

/-- `names_match`, which tests its strings. -/
def namesMatch (id : Identifier) (moduleName entityName : Bytes) : Checked Bool :=
  if id.moduleName.isNone || id.entityName.isNone then some false
  else both (strcmpEq id.moduleName (some moduleName)) (strcmpEq id.entityName (some entityName))

/-- `find_holding`. -/
def findHolding (id : Identifier) : Checked (Option HoldingPathConfig) :=
  firstOf (fun cfg => namesMatch id cfg.moduleName cfg.entityName) holdingTemplates

/-- `is_non_holding`. -/
def isNonHolding (id : Identifier) : Checked Bool :=
  (firstOf (fun cfg => namesMatch id cfg.moduleName cfg.entityName) nonHoldingTemplates).map
    (·.isSome)

/-- `decode_create` (pb_holding_parser.c:332–394). -/
def decodeCreate (d : Device) (store : ValuesStore) (c : Create) : Checked (ValuesStore × Bool) :=
  match c.templateId with
  | none => some (store.giveUp, true)
  | some id =>
    (findHolding id).bind fun
      | none => (isNonHolding id).map fun known => (if known then store else store.giveUp, true)
      | some cfg =>
        match c.argument.foldlM (fun s v => walkValue d 0 v s) (Ctx.start cfg) with
        | none => some (store, false)
        | some s => some (reportWalk cfg store s, true)

/-- `decode_node_type` on each node kind of a part, until one fails. -/
def decodeNodeKinds (d : Device) : ValuesStore → List NodeKind → Checked (ValuesStore × Bool)
  | store, [] => some (store, true)
  | store, .create c :: ks =>
    (decodeCreate d store c).bind fun
      | (store, false) => some (store, false)
      | (store, true) => decodeNodeKinds d store ks
  | store, _ :: ks => decodeNodeKinds d store ks

/-- `values_collect_from_node` (pb_holding_parser.c:412–431). -/
def valuesCollectFromNode (d : Device) (store : ValuesStore) (part : NodePart) :
    Checked ValuesStore :=
  if !store.ok then some store
  else
    (decodeNodeKinds d store (nodeKinds part)).map fun
      | (store, true) => store
      | (store, false) => store.giveUp

variable {d : Device}

/-- A name that is missing is not compared. -/
theorem namesMatch_eq (id : Identifier) (moduleName entityName : Bytes) :
    namesMatch id moduleName entityName =
      some (HoldingParser.namesMatch id moduleName entityName) := by
  unfold namesMatch HoldingParser.namesMatch
  cases id.moduleName with
  | none => rfl
  | some m =>
    cases id.entityName with
    | none => simp
    | some e => exact both_some _ _

theorem findHolding_eq (id : Identifier) : findHolding id = some (HoldingParser.findHolding id) :=
  firstOf_eq fun cfg => namesMatch_eq id cfg.moduleName cfg.entityName

theorem isNonHolding_eq (id : Identifier) :
    isNonHolding id = some (HoldingParser.isNonHolding id) := by
  have hnames : ∀ cfg : IdentifierConfig, namesMatch id cfg.moduleName cfg.entityName =
      some (HoldingParser.namesMatch id cfg.moduleName cfg.entityName) :=
    fun cfg => namesMatch_eq id _ _
  unfold isNonHolding HoldingParser.isNonHolding
  rw [firstOf_eq hnames, Option.map_some, List.isSome_find?]

theorem decodeCreate_eq (store : ValuesStore) (c : Create) :
    decodeCreate d store c = some (HoldingParser.decodeCreate d store c) := by
  unfold decodeCreate HoldingParser.decodeCreate
  cases c.templateId with
  | none => rfl
  | some id =>
    dsimp only
    rw [findHolding_eq, Option.bind_some]
    cases HoldingParser.findHolding id with
    | none =>
      dsimp only
      rw [isNonHolding_eq, Option.map_some]
      cases HoldingParser.isNonHolding id <;> rfl
    | some cfg =>
      dsimp only
      cases c.argument.foldlM (fun s v => walkValue d 0 v s) (Ctx.start cfg) <;> rfl

theorem decodeNodeKinds_eq (store : ValuesStore) (ks : List NodeKind) :
    decodeNodeKinds d store ks = some (HoldingParser.decodeNodeKinds d store ks) := by
  induction ks generalizing store with
  | nil => rfl
  | cons k ks ih =>
    cases k with
    | create c =>
      rw [decodeNodeKinds, HoldingParser.decodeNodeKinds, decodeCreate_eq, Option.bind_some]
      obtain ⟨store', ok⟩ := HoldingParser.decodeCreate d store c
      cases ok with
      | false => rfl
      | true => exact ih store'
    | exercise e => exact ih store
    | fetch f => exact ih store
    | rollback r => exact ih store
    | queryByKey => exact ih store

theorem valuesCollectFromNode_eq (store : ValuesStore) (part : NodePart) :
    valuesCollectFromNode d store part =
      some (HoldingParser.valuesCollectFromNode d store part) := by
  unfold valuesCollectFromNode HoldingParser.valuesCollectFromNode
  split
  · rfl
  · rw [decodeNodeKinds_eq]
    obtain ⟨store', ok⟩ := HoldingParser.decodeNodeKinds d store (nodeKinds part)
    cases ok <;> rfl

end Checked

end HoldingParser

/-- **The passes after the hashing pass hand no absent string to a comparison**: on a part that
was hashed without an error they do what they do with every pointer checked. -/
theorem second_pass_present (d : Device) :
    (∀ lookup tx tree values err part ctx,
      HashingParser.decodeNodePart d lookup tx tree values err part = some ctx →
        ctx.v.hw.err = .ok → (∀ k ∈ nodeKinds part, KindNamed k) ∧ ∀ g r store,
          DisplayParser.Checked.parseNodeForDisplay d g r store part =
            some (DisplayParser.parseNodeForDisplay d g r store part) ∧
          HoldingParser.Checked.valuesCollectFromNode d store part =
            some (HoldingParser.valuesCollectFromNode d store part)) ∧
    ∀ values err ic st,
      HashingParser.decodeInputContractPart d values err ic = some st →
        st.1.hw.err = .ok → (∀ c ∈ ic.v1, ∀ v ∈ c.argument, ValueNamed v) ∧ ∀ g r store,
          DisplayParser.Checked.parseInputContractForDisplay d g r store ic =
            some (DisplayParser.parseInputContractForDisplay d g r store ic) := by
  constructor
  · intro lookup tx tree values err part ctx h hok
    have hnamed := HashingParser.named_of_decodeNodePart h hok
    refine ⟨hnamed, fun g r store => ⟨?_, ?_⟩⟩
    · exact DisplayParser.Checked.parseNodeForDisplay_eq hnamed g r store
    · exact HoldingParser.Checked.valuesCollectFromNode_eq store part
  · intro values err ic st h hok
    have hnamed := HashingParser.named_of_decodeInputContractPart h hok
    exact ⟨hnamed, fun g r store =>
      DisplayParser.Checked.parseInputContractForDisplay_eq hnamed g r store⟩

/-- A holding of Canton Coin. -/
theorem second_pass_present_amulet :
    let part : NodePart := [.nodeId (str "0"), .v1 [.create (Host.amulet "c0" "alice" "1.0")]]
    DisplayParser.Checked.parseNodeForDisplay testDevice none TxInfo.zero.review valuesCheckReset
        part =
      some (DisplayParser.parseNodeForDisplay testDevice none TxInfo.zero.review valuesCheckReset
        part) := by
  intro part
  have hash : (HashingParser.decodeNodePart testDevice (fun _ => none) ⟨none, [], 1, []⟩
      (treeCheckInit [str "0"] 1) valuesCheckReset .ok part).any (·.v.hw.err = .ok) = true := by
    decide +kernel
  obtain ⟨ctx, hctx, hok⟩ := (Option.any_eq_true ..).mp hash
  have hpresent := ((second_pass_present testDevice).1 _ _ _ _ _ part ctx hctx
    (of_decide_eq_true hok)).2 none TxInfo.zero.review valuesCheckReset
  exact hpresent.1

/-- Without the hashing pass, a record id that has no names would be compared. -/
example : DisplayParser.Checked.walkNode testDevice (.start none TxInfo.zero.review)
    [.v1 [.create ⟨none, none, none, none, [.record (.recordId .zero .nil) .nil], true, [], []⟩]] =
      none := by
  decide +kernel

end CantonSigner
