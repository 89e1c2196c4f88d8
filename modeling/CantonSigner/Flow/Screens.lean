import CantonSigner.Display.Screens
import CantonSigner.Display.Values
import CantonSigner.Flow.Completion
import CantonSigner.Flow.Received

/-!
# Where a clear screen comes from

The flag `clear_signing_available` is set by one parse, of a node part or of an input
contract, and the parses after it are skipped. `Shows` ties a review to the walk that
filled it. `ScreenInv` says of every run that the part behind a clear screen is one the
flow received, and that a node of the flow performs the action on display.

The invariant needs a condition on what is received (`ScreensGuarded`): an input contract
that does not fit the deferred screen is looked up in the table of all screens, so its own
template must not be there (`offered_preapproval_reviewed`).
-/

namespace CantonSigner

open ByteCodec DisplayParser

/-! ## One parse -/

/-- A review shows the screen that a finished walk selected. Its rows may have been
replaced since. -/
structure Shows (d : Device) (s : DisplayParser.Ctx) (c : DisplayConfig) (r : Review) : Prop where
  conf : s.conf = some c
  populated : ∃ fs r₁, s.fields = some fs ∧ formatAndPopulate d s fs = some r₁ ∧
    r₁.clearSigningAvailable = true ∧ r.reviewTitle = r₁.reviewTitle ∧
    r.reviewFinish = r₁.reviewFinish

variable {d : Device}

theorem Shows.congr {s : DisplayParser.Ctx} {c : DisplayConfig} {r r' : Review}
    (h : Shows d s c r) (htitle : r'.reviewTitle = r.reviewTitle)
    (hfinish : r'.reviewFinish = r.reviewFinish) : Shows d s c r' := by
  obtain ⟨fs, r₁, hfs, hpop, hclear, ht, hf⟩ := h.populated
  exact ⟨h.conf, fs, r₁, hfs, hpop, hclear, htitle.trans ht, hfinish.trans hf⟩

/-- A screen is reviewed under its title. -/
theorem Shows.title {s : DisplayParser.Ctx} {c : DisplayConfig} {r : Review} (h : Shows d s c r)
    (hs : Titled s) : ScreenTitle c r.reviewTitle := by
  obtain ⟨fs, r₁, hfs, hpop, hclear, ht, -⟩ := h.populated
  rw [ht]
  unfold formatAndPopulate at hpop
  dsimp only at hpop
  split at hpop
  · cases hpop
    cases hclear
  · split at hpop
    · cases hpop
      cases hclear
    · cases hpop
    · rename_i s' hloop
      cases hpop
      show ScreenTitle c s'.reviewTitle
      have htitle := hs c h.conf
      rcases formatLoop_title hloop with hkept | ⟨htoken, hnative⟩
      · exact .inl (hkept.trans htitle)
      · exact .inr ⟨Option.some.inj (htitle.symm.trans htoken), hnative⟩

/-- The end of a parse: a screen was selected, or the search goes on. -/
theorem finishParsing_cases {values values' : ValuesStore} {s : DisplayParser.Ctx} {g' : Globals}
    {r' : Review} (h : finishParsing d values s = some (g', r', values')) :
    (∃ fs c, s.fields = some fs ∧ s.conf = some c ∧ formatAndPopulate d s fs = some r' ∧
      g' = none ∧ values' = valuesBindFromDisplay d values fs c.destination c.amountCheck) ∨
    (g' = s.globals ∧ r'.clearSigningAvailable = false ∧ values' = values) := by
  unfold finishParsing at h
  split at h
  · rename_i fs c hfs hc
    obtain ⟨review, hreview, heq⟩ := Option.bind_eq_some_iff.mp h
    cases heq
    exact .inl ⟨fs, c, hfs, hc, hreview, rfl, rfl⟩
  · cases h
    exact .inr ⟨rfl, rfl, rfl⟩

/-- No screen has been found for the flow, and none was given up. -/
def Searching (r : Review) : Prop := r.clearSigningAvailable = false ∧ r.displayFailed = false

/-- The parse of a node part skips it, or walks it from a search without a deferred
match. -/
theorem parseNodeForDisplay_cases {g g' : Globals} {r r' : Review} {values values' : ValuesStore}
    {part : NodePart} (h : parseNodeForDisplay d g r values part = some (g', r', values')) :
    (g' = g ∧ r' = r ∧ values' = values) ∨
    (Searching r ∧ g = none ∧ ∃ s, walkNode d (.start none r) part = some s ∧
      finishParsing d values s = some (g', r', values')) := by
  unfold parseNodeForDisplay at h
  split at h
  · cases h
    exact .inl ⟨rfl, rfl, rfl⟩
  · rename_i hskip
    obtain ⟨s, hwalk, hfinish⟩ := Option.bind_eq_some_iff.mp h
    simp only [Bool.or_eq_true, not_or, Bool.not_eq_true, Option.isSome_eq_false_iff,
      Option.isNone_iff_eq_none] at hskip
    exact .inr ⟨hskip.1, hskip.2, s, hwalk, hfinish⟩

/-- The parse of an input contract skips it, or walks it for a deferred match. -/
theorem parseInputContractForDisplay_cases {g g' : Globals} {r r' : Review}
    {values values' : ValuesStore} {ic : InputContract}
    (h : parseInputContractForDisplay d g r values ic = some (g', r', values')) :
    (g' = g ∧ r' = r ∧ values' = values) ∨
    (Searching r ∧ ∃ m, g = some m ∧ ∃ s, walkInputContract d (.start (some m) r) ic = some s ∧
      finishParsing d values s = some (g', r', values')) := by
  unfold parseInputContractForDisplay at h
  split at h
  · cases h
    exact .inl ⟨rfl, rfl, rfl⟩
  · rename_i hskip
    obtain ⟨s, hwalk, hfinish⟩ := Option.bind_eq_some_iff.mp h
    cases g with
    | none => simp at hskip
    | some m =>
      simp only [Bool.or_eq_true, not_or, Bool.not_eq_true] at hskip
      exact .inr ⟨hskip.1, m, rfl, s, hwalk, hfinish⟩

/-! ## One step of a flow -/

variable {st st' : Prepared}

/-- Finalising leaves a screen alone, or turns it off. -/
theorem finalized_clear (h : (st.finalized d).review.clearSigningAvailable = true) :
    st.review.clearSigningAvailable = true ∧ (st.finalized d).review = st.review := by
  rw [finalized_eq] at h ⊢
  dsimp only at h ⊢
  split at h
  · cases h
  · rename_i hif
    rw [if_neg hif]
    exact ⟨h, rfl⟩

/-- So does the verdict on the node tree. -/
theorem verdict_clear (hv : (applyNodeTreeVerdict st).2 = 0)
    (h : (applyNodeTreeVerdict st).1.review.clearSigningAvailable = true) :
    st.review.clearSigningAvailable = true ∧ (applyNodeTreeVerdict st).1.review = st.review := by
  rw [applyNodeTreeVerdict_accepted hv] at h ⊢
  dsimp only at h ⊢
  split at h
  · rename_i hok
    rw [if_pos hok]
    exact ⟨h, rfl⟩
  · cases h

/-- A step that looks for no screen: it leaves the one that is there alone but for its
rows, or turns it off. -/
structure ScreenKept (st : Prepared) (e : PartEvent) (st' : Prepared) : Prop where
  values : st'.values.screen = st.values.screen
  globals : ∀ m, st'.globals = some m → st.globals = some m
  review : st'.review.clearSigningAvailable = true → st.review.clearSigningAvailable = true ∧
    (st'.review = st.review ∨
      ∃ pairs signature, e = .rows pairs signature ∧ st'.review = { st.review with pairs := pairs })

theorem ScreenKept.title {e : PartEvent} (h : ScreenKept st e st')
    (hclear : st'.review.clearSigningAvailable = true) :
    st'.review.reviewTitle = st.review.reviewTitle ∧
      st'.review.reviewFinish = st.review.reviewFinish := by
  rcases (h.review hclear).2 with heq | ⟨pairs, signature, -, heq⟩
  · rw [heq]
    exact ⟨rfl, rfl⟩
  · rw [heq]
    exact ⟨rfl, rfl⟩

/-- A step that ends a walk: the globals and the review are those of the finished parse,
unless finalising turned them off, and so are the bound values. -/
def WalkFinished (d : Device) (s : DisplayParser.Ctx) (st' : Prepared) : Prop :=
  ∃ values g' r' values', finishParsing d values s = some (g', r', values') ∧
    (∀ m, st'.globals = some m → g' = some m) ∧
    (st'.review.clearSigningAvailable = true → st'.review = r') ∧ UseKept values' st'.values

theorem WalkFinished.globals {s : DisplayParser.Ctx} (h : WalkFinished d s st') (m : Deferred)
    (hm : st'.globals = some m) : s.globals = some m := by
  obtain ⟨values, g', r', values', hfinish, hglobals, -, -⟩ := h
  have hg' := hglobals m hm
  rcases finishParsing_cases hfinish with ⟨fs, c, -, -, -, hg, -⟩ | ⟨hg, -, -⟩
  · rw [hg] at hg'
    cases hg'
  · exact hg ▸ hg'

/-- What a finished walk leaves on display is the screen it selected, with its rows. -/
theorem WalkFinished.populated {s : DisplayParser.Ctx} (h : WalkFinished d s st')
    (hclear : st'.review.clearSigningAvailable = true) : ∃ fs c, s.fields = some fs ∧
      s.conf = some c ∧ formatAndPopulate d s fs = some st'.review := by
  obtain ⟨values, g', r', values', hfinish, -, hreview, -⟩ := h
  have hr := hreview hclear
  rcases finishParsing_cases hfinish with ⟨fs, c, hfs, hc, hpop, -⟩ | ⟨-, hoff, -⟩
  · exact ⟨fs, c, hfs, hc, hr ▸ hpop⟩
  · rw [hr, hoff] at hclear
    cases hclear

theorem WalkFinished.shows {s : DisplayParser.Ctx} (h : WalkFinished d s st')
    (hclear : st'.review.clearSigningAvailable = true) : ∃ c, Shows d s c st'.review := by
  obtain ⟨fs, c, hfs, hc, hpop⟩ := h.populated hclear
  exact ⟨c, hc, fs, _, hfs, hpop, hclear, rfl, rfl⟩

/-- A step that walks a node part. -/
def NodeWalked (d : Device) (st : Prepared) (e : PartEvent) (st' : Prepared)
    (new : List Received) : Prop :=
  ∃ parsed buf part s, e = .part parsed buf ∧ new = [.node part] ∧ st.txState = .damlNodes ∧
    decodeNode buf = some part ∧ Searching st.review ∧ st.globals = none ∧
    (∀ k ∈ nodeKinds part, HashingParser.NodeComplete k) ∧
    walkNode d (.start none st.review) part = some s ∧ WalkFinished d s st'

/-- A step that walks an input contract. -/
def ContractWalked (d : Device) (st : Prepared) (e : PartEvent) (st' : Prepared)
    (new : List Received) : Prop :=
  ∃ parsed buf ic m s, e = .part parsed buf ∧ new = [.contract ic] ∧
    st.txState = .metadataInputContracts ∧ decodeInputContract buf = some ic ∧
    Searching st.review ∧ st.globals = some m ∧
    walkInputContract d (.start (some m) st.review) ic = some s ∧ WalkFinished d s st'

/-- Finalising may give up and releases the used contracts. -/
theorem useKept_finalized (st : Prepared) : UseKept st.values (st.finalized d).values := by
  rw [finalized_eq]
  dsimp only
  split
  · exact (useKept_canClearSign _).trans (useKept_release _)
  · exact useKept_release _

theorem screenKept_metadata {buf : Bytes} {parsed : Bool} {md : Metadata} {e : PartEvent}
    (hs : MetadataStep d st parsed buf st' md) : ScreenKept st e st' := by
  have hglobals : (applyNodeTreeVerdict st).1.globals = st.globals := by
    rw [applyNodeTreeVerdict_accepted hs.verdict]
  have hvalues : (applyNodeTreeVerdict st).1.values = st.values := by
    rw [applyNodeTreeVerdict_accepted hs.verdict]
  rcases hs.result with ⟨-, -, rfl⟩ | ⟨-, rfl⟩
  · constructor
    · rw [(useKept_finalized _).screen]
      exact congrArg ValuesStore.screen hvalues
    · intro m hm
      rw [finalized_eq] at hm
      cases hm
    · intro hclear
      obtain ⟨hclear₁, hr₁⟩ := finalized_clear hclear
      obtain ⟨hclear₂, hr₂⟩ := verdict_clear hs.verdict hclear₁
      exact ⟨hclear₂, .inl (hr₁.trans hr₂)⟩
  · constructor
    · exact congrArg ValuesStore.screen hvalues
    · intro m hm
      exact hglobals ▸ hm
    · intro hclear
      obtain ⟨hclear', hr⟩ := verdict_clear hs.verdict hclear
      exact ⟨hclear', .inl hr⟩

/-- The passes before the display pass of a node part leave the bound screen alone. -/
theorem withNode_screen {buf : Bytes} {part : NodePart} {ctx : HashingParser.Ctx}
    (hs : NodeStep d st buf st' part ctx) :
    (st.withNode d ctx part).values.screen = st.values.screen := by
  rw [withNode_values, HoldingParser.valuesCollectFromNode_screen]
  exact (HashingParser.decodeNodePart_values hs.hashed).screen

theorem displayStep_node {buf : Bytes} {parsed : Bool} {part : NodePart}
    {ctx : HashingParser.Ctx} (hs : NodeStep d st buf st' part ctx) :
    ScreenKept st (.part parsed buf) st' ∨ NodeWalked d st (.part parsed buf) st' [.node part] := by
  have hvalues := withNode_screen hs
  obtain ⟨shown, hdisplay, rfl⟩ := hs.result
  rcases displayNodePart_cases hdisplay with ⟨-, rfl⟩ | ⟨-, ⟨g', r', values'⟩, hparse, rfl⟩
  · left
    constructor
    · exact hvalues
    · intro m hm
      have hglobals : (st.withNode d ctx part).globals = st.globals := withNode_globals ctx part
      exact hglobals ▸ hm
    · intro hclear
      have hr : (advanceNode (st.withNode d ctx part)).review = st.review :=
        withNode_review ctx part
      rw [hr] at hclear ⊢
      exact ⟨hclear, .inl rfl⟩
  · rw [withNode_globals, withNode_review] at hparse
    rcases parseNodeForDisplay_cases hparse with ⟨rfl, rfl, rfl⟩ | ⟨hsearch, hg, s, hwalk, hfinish⟩
    · exact .inl ⟨hvalues, fun m hm => hm, fun hclear => ⟨hclear, .inl rfl⟩⟩
    · exact .inr ⟨parsed, buf, part, s, rfl, rfl, hs.state, hs.decoded, hsearch, hg,
        HashingParser.nodeComplete_of_items hs.hashed, hwalk, _, g', r', values', hfinish,
        fun m hm => hm, fun _ => rfl, .refl _⟩

theorem displayStep_contract {buf : Bytes} {parsed : Bool} {ic : InputContract}
    {v : HashingParser.VState} {values : ValuesStore} {shown : Globals × Review × ValuesStore}
    (hs : ContractStep d st parsed buf st' ic v values shown) :
    ScreenKept st (.part parsed buf) st' ∨
      ContractWalked d st (.part parsed buf) st' [.contract ic] := by
  obtain ⟨g', r', values'⟩ := shown
  -- Finalising comes after the parse, and keeps its screen or turns it off.
  have hafter : (∀ m, st'.globals = some m → g' = some m) ∧
      (st'.review.clearSigningAvailable = true → st'.review = r') ∧ UseKept values' st'.values := by
    rcases hs.result with ⟨-, -, rfl⟩ | ⟨-, rfl⟩
    · refine ⟨?_, ?_, ?_⟩
      · intro m hm
        rw [finalized_eq] at hm
        cases hm
      · intro hclear
        exact (finalized_clear hclear).2
      · exact useKept_finalized (d := d) (st.withContract d ic v (g', r', values'))
    · exact ⟨fun m hm => hm, fun _ => rfl, .refl _⟩
  rcases parseInputContractForDisplay_cases hs.displayed with ⟨rfl, rfl, rfl⟩ |
    ⟨hsearch, m, hm, s, hwalk, hfinish⟩
  · refine .inl ⟨?_, hafter.1, fun hclear => ?_⟩
    · rw [hafter.2.2.screen]
      exact (HashingParser.decodeInputContractPart_values hs.hashed).screen
    have hr := hafter.2.1 hclear
    exact ⟨hr ▸ hclear, .inl hr⟩
  · exact .inr ⟨parsed, buf, ic, m, s, rfl, rfl, hs.state, hs.decoded, hsearch, hm, hwalk, values,
      g', r', values', hfinish, hafter⟩

/-- What a step does to the screen: it keeps it, or it walks a part for one. -/
theorem displayStep_of_recorded {e : PartEvent} {new : List Received}
    (hs : RecordedStep d st e st' new) :
    ScreenKept st e st' ∨ NodeWalked d st e st' new ∨ ContractWalked d st e st' new := by
  cases hs with
  | header hs =>
    rw [hs.result]
    exact .inl ⟨rfl, fun m hm => hm, fun hclear => ⟨hclear, .inl rfl⟩⟩
  | node hs => exact (displayStep_node hs).imp_right .inl
  | metadata hs => exact .inl (screenKept_metadata hs)
  | contract hs => exact (displayStep_contract hs).imp_right .inr
  | rows => exact .inl ⟨rfl, fun m hm => hm, fun hclear => ⟨hclear, .inr ⟨_, _, rfl, rfl⟩⟩⟩

/-! ## The invariant -/

/-- The screen was read from a node part of the flow, and a node of it performs the
action. -/
def ReadFromNode (d : Device) (hist : List Received) (c : DisplayConfig) (r : Review) : Prop :=
  c ∈ displayConfigs ∧ ∃ part ∈ nodesOf hist, (∃ s r₀, walkNode d (.start none r₀) part = some s ∧
    Shows d s c r) ∧
    ∃ k ∈ nodeKinds part, PerformsAction c k

/-- An exercise of the flow that performs the action of a deferred screen. -/
structure DeferredBy (hist : List Received) (m : Deferred) (e : Exercise) : Prop where
  screen : IsDeferred m.conf
  received : ∃ part ∈ nodesOf hist, .exercise e ∈ nodeKinds part
  action : PerformsAction m.conf (.exercise e)
  contractId : m.expectedContractId = e.contractId

/-- The screen was read from an input contract of the flow: it is the deferred screen of
an exercise, and the contract is the one exercised. -/
def ReadFromContract (d : Device) (hist : List Received) (c : DisplayConfig) (r : Review) : Prop :=
  ∃ ic ∈ contractsOf hist, ∃ m : Deferred, m.conf = c ∧
    (∃ s r₀, walkInputContract d (.start (some m) r₀) ic = some s ∧ Shows d s c r) ∧
    ∃ e, DeferredBy hist m e ∧
      ∃ cr ∈ ic.v1, cr.contractId.isSome = true ∧ cr.contractId = e.contractId

theorem ReadFromNode.title {hist : List Received} {c : DisplayConfig} {r : Review}
    (h : ReadFromNode d hist c r) : ScreenTitle c r.reviewTitle := by
  obtain ⟨-, part, -, ⟨s, r₀, hwalk, hshows⟩, -⟩ := h
  exact hshows.title (titled_walk.node (fun _ _ _ _ h => h) part (titled_start _ _) hwalk)

theorem ReadFromContract.title {hist : List Received} {c : DisplayConfig} {r : Review}
    (h : ReadFromContract d hist c r) : ScreenTitle c r.reviewTitle := by
  obtain ⟨ic, -, m, -, ⟨s, r₀, hwalk, hshows⟩, -⟩ := h
  exact hshows.title (titled_walk.inputContract (fun _ _ _ _ h => h) ic (titled_start _ _) hwalk)

/-- Where deferred matches and clear screens come from. -/
structure ScreenInv (d : Device) (st : Prepared) (hist : List Received) : Prop where
  deferred : ∀ m, st.globals = some m → ∃ e, DeferredBy hist m e
  shown : st.review.clearSigningAvailable = true →
    ∃ c, ReadFromNode d hist c st.review ∨ ReadFromContract d hist c st.review

variable {hist : List Received}

theorem mem_nodesOf_append {part : NodePart} (new : List Received) (h : part ∈ nodesOf hist) :
    part ∈ nodesOf (hist ++ new) := by
  rw [nodesOf_append]
  exact List.mem_append_left _ h

theorem DeferredBy.append {m : Deferred} {e : Exercise} (h : DeferredBy hist m e)
    (new : List Received) : DeferredBy (hist ++ new) m e := by
  obtain ⟨part, hpart, he⟩ := h.received
  exact ⟨h.screen, ⟨part, mem_nodesOf_append new hpart, he⟩, h.action, h.contractId⟩

/-- Steps that change no more of the screen than its rows, or turn it off. -/
theorem ScreenInv.kept (h : ScreenInv d st hist) (new : List Received)
    (hglobals : ∀ m, st'.globals = some m → st.globals = some m)
    (hreview : st'.review.clearSigningAvailable = true →
      st.review.clearSigningAvailable = true ∧ st'.review.reviewTitle = st.review.reviewTitle ∧
        st'.review.reviewFinish = st.review.reviewFinish) : ScreenInv d st' (hist ++ new) := by
  constructor
  · intro m hm
    obtain ⟨e, he⟩ := h.deferred m (hglobals m hm)
    exact ⟨e, he.append new⟩
  · intro hclear
    obtain ⟨hbefore, htitle, hfinish⟩ := hreview hclear
    obtain ⟨c, ⟨htable, part, hpart, ⟨s, r₀, hwalk, hshows⟩, hact⟩ |
      ⟨ic, hic, m, hm, ⟨s, r₀, hwalk, hshows⟩, e, he, hcr⟩⟩ := h.shown hbefore
    · exact ⟨c, .inl ⟨htable, part, mem_nodesOf_append new hpart,
        ⟨s, r₀, hwalk, hshows.congr htitle hfinish⟩, hact⟩⟩
    · refine ⟨c, .inr ⟨ic, ?_, m, hm, ⟨s, r₀, hwalk, hshows.congr htitle hfinish⟩, e,
        he.append new, hcr⟩⟩
      rw [contractsOf_append]
      exact List.mem_append_left _ hic

/-! ## The steps -/

/-- The condition on what is received while a screen is looked for: a created contract
defers no screen, and a contract read for a deferred screen offers none of its own. -/
def ScreensGuarded (st : Prepared) (_parsed : Bool) (buf : Bytes) : Prop :=
  Searching st.review →
    (st.txState = .damlNodes → st.globals = none → ∀ part, decodeNode buf = some part →
      ∀ cr, .create cr ∈ nodeKinds part → DefersNoScreen cr) ∧
    (st.txState = .metadataInputContracts → st.globals ≠ none →
      ∀ ic, decodeInputContract buf = some ic → ∀ cr ∈ ic.v1, OffersNoScreen cr)

/-- One step of a recorded run. -/
theorem screenInv_step {e : PartEvent} {new : List Received} (h : ScreenInv d st hist)
    (hok : onParts ScreensGuarded st e) (hs : RecordedStep d st e st' new) :
    ScreenInv d st' (hist ++ new) := by
  rcases displayStep_of_recorded hs with hkept | hwalk | hwalk
  · -- nothing is walked: screen and deferred screen stay
    exact h.kept new hkept.globals fun hclear => ⟨(hkept.review hclear).1, hkept.title hclear⟩
  · -- A node part: what it selects is an action of its own nodes.
    obtain ⟨parsed, buf, part, s, rfl, rfl, hstate, hdec, hsearch, hg, hcomplete, hwalk, hfinish⟩ :=
      hwalk
    have hok : ScreensGuarded st parsed buf := hok
    have hsel : ∀ k ∈ nodeKinds part, NodeSelects k := by
      intro k hk
      cases k with
      | exercise e =>
        have hcomplete : HashingParser.exerciseIsComplete e = true := hcomplete _ hk
        simp only [HashingParser.exerciseIsComplete, Bool.and_eq_true] at hcomplete
        exact hcomplete.1.2
      | create cr => exact (hok hsearch).1 hstate hg part hdec cr hk
      | fetch f => trivial
      | rollback r => trivial
      | queryByKey => trivial
    have hselected := walkNode_selected hsel hwalk
    have hpart : part ∈ nodesOf (hist ++ [.node part]) := by simp [nodesOf]
    constructor
    · intro m hm
      obtain ⟨hdef, e, he, hperf, hcid⟩ := hselected.deferred m (hfinish.globals m hm)
      exact ⟨e, hdef, ⟨part, hpart, he⟩, hperf, hcid⟩
    · intro hclear
      obtain ⟨c, hshows⟩ := hfinish.shows hclear
      obtain ⟨htable, hact⟩ := hselected.conf c hshows.conf
      exact ⟨c, .inl ⟨htable, part, hpart, ⟨s, _, hwalk, hshows⟩, hact⟩⟩
  · -- An input contract: it selects the deferred screen only.
    obtain ⟨parsed, buf, ic, m, s, rfl, rfl, hstate, hdec, hsearch, hm, hwalk, hfinish⟩ := hwalk
    have hok : ScreensGuarded st parsed buf := hok
    have hselected := walkInputContract_selected
      ((hok hsearch).2 hstate (by simp [hm]) ic hdec) hwalk
    obtain ⟨e, he⟩ := h.deferred m hm
    have he' := he.append [.contract ic]
    constructor
    · intro m' hm'
      have hsame : some m = some m' := hselected.globals.symm.trans (hfinish.globals m' hm')
      cases hsame
      exact ⟨e, he'⟩
    · intro hclear
      obtain ⟨c, hshows⟩ := hfinish.shows hclear
      obtain ⟨rfl, cr, hcr, hsome, hcid⟩ := hselected.conf c hshows.conf
      exact ⟨m.conf, .inr ⟨ic, by simp [contractsOf], m, rfl, ⟨s, _, hwalk, hshows⟩, e, he', cr,
        hcr, hsome, hcid.trans he.contractId⟩⟩

theorem screenInv_of_reach {es : List PartEvent}
    (h : (recorded d).Reach (fun s e => onParts ScreensGuarded s.1 e) es (st, hist)) :
    ScreenInv d st hist := by
  refine recorded_invariant h ?_ ?_
  · rintro _ ⟨p, rfl⟩
    exact ⟨fun m hm => (by cases hm), fun hclear => (by cases hclear)⟩
  · intro st hist e st' new hinv hok hs
    exact screenInv_step hinv hok hs

instance (templateId : Option Identifier) (c : IdentifierConfig) :
    Decidable (TemplateIs templateId c) :=
  decidable_of_iff (templateId.any fun id =>
      decide (id.moduleName = some c.moduleName ∧ id.entityName = some c.entityName))
    (by simp [TemplateIs, Option.any_eq_true])

/-- `ScreensGuarded`, computed for creates that are in no table at all. -/
def screensGuardedStep (d : Device) (s : App × List PartEvent) (e : Event) : Bool :=
  (messageOf d s.1 e).all fun (_, buf) =>
    (decodeNode buf).all (fun part => (nodeKinds part).all fun
      | .create cr => displayConfigs.all fun c => !decide (TemplateIs cr.templateId c.identifier)
      | _ => true) &&
    (decodeInputContract buf).all fun ic => ic.v1.all fun cr =>
      displayConfigs.all fun c => !decide (TemplateIs cr.templateId c.identifier)

theorem onMessages_of_screensGuardedStep (s : App × List PartEvent) (e : Event)
    (h : screensGuardedStep d s e = true) :
    onMessages d (fun st _ parsed buf => ScreensGuarded st parsed buf) s e := by
  intro _ parsed buf hmsg _
  simp only [screensGuardedStep, hmsg, Option.all_some, Bool.and_eq_true] at h
  constructor
  · rintro - - part hpart cr hcr c hc
    have hall := h.1
    rw [hpart, Option.all_some, List.all_eq_true] at hall
    have := List.all_eq_true.mp (hall _ hcr) c hc.1
    simpa using this
  · rintro - - ic hic cr hcr c hc
    have hall := h.2
    rw [hic, Option.all_some, List.all_eq_true] at hall
    have := List.all_eq_true.mp (hall cr hcr) c hc
    simpa using this

/-- An acceptance that creates nothing, up to the metadata. -/
def emptyAcceptance : List Bytes := [
  Host.headerOf ["0"] 1 [0],
  Host.nodeOf "0" (.exercise (Host.accept "aa" [])),
  Host.metadataOf 1]

/-- A proposal for pre-approval, disclosed as the contract that is accepted. -/
def offeredPreapproval : Bytes :=
  let template := Host.ident "Splice.Wallet.TransferPreapproval" "TransferPreapprovalProposal"
  Host.inputContract ⟨[Host.createOf "aa" template (Host.recordOf template
    [("receiver", Host.party "mallory"), ("provider", Host.party "mallory")])], 7⟩

/-- The choice of every exercise in the history is the acceptance. -/
def acceptsOnly (hist : List Received) : Bool :=
  (nodesOf hist).all fun part => (nodeKinds part).all fun
    | .exercise e => decide (e.choiceId = some (str "TransferInstruction_Accept"))
    | _ => false

theorem not_preapproval_of_acceptsOnly {part : NodePart} {k : NodeKind} {c : DisplayConfig}
    (h : acceptsOnly hist = true) (hpart : part ∈ nodesOf hist) (hk : k ∈ nodeKinds part)
    (hc : c ∈ displayConfigs) (htitle : c.reviewTitle = preapprovalProposalReviewTitle) :
    ¬ PerformsAction c k := by
  have htable : ∀ c ∈ displayConfigs, c.reviewTitle = preapprovalProposalReviewTitle →
      c.identifier.entityName ≠ str "TransferInstruction_Accept" := by decide +kernel
  have hkind := List.all_eq_true.mp (List.all_eq_true.mp h part hpart) k hk
  cases k with
  | exercise e =>
    rintro ⟨-, hchoice⟩
    rw [of_decide_eq_true hkind] at hchoice
    exact htable c hc htitle (Option.some.inj hchoice).symm
  | create cr => cases hkind
  | fetch f => cases hkind
  | rollback r => cases hkind
  | queryByKey => cases hkind

end CantonSigner
