import CantonSigner.Flow.Bound
import CantonSigner.Flow.Withdrawal
import CantonSigner.Topology.AppRuns

/-!
# The rows of a prepared transaction

A screen is filled with the rows of the walk that selected it. The rows are freed by every
decision, also one on a review that is still on display from an earlier flow, and a decision
touches neither the flag nor the flow. `freedApp` records that this has happened to the rows of
the current flow, and `RowsInv` says what the rows are until then.
-/

namespace CantonSigner

open ByteCodec DisplayParser

variable {d : Device} {st st' : Prepared} {hist new : List Received} {e : PartEvent}

/-! ## Filled screens -/

/-- The rows of the screen `c` with the fields of the walk `s`. -/
structure RowsOf (d : Device) (s : DisplayParser.Ctx) (c : DisplayConfig) (fs : List TxField)
    (rows : List Pair) : Prop where
  populated : ∃ r, formatAndPopulate d s fs = some r ∧ r.clearSigningAvailable = true ∧
    r.pairs = some rows
  complete : CompleteRows d c fs rows

/-- Title, finish and rows are those of one screen that a part of the flow selected and
filled. -/
def FilledFrom (d : Device) (hist : List Received) (title finish : Option Bytes)
    (rows : List Pair) : Prop :=
  ∃ s c fs r, WalkOf d hist s ∧ s.conf = some c ∧ s.fields = some fs ∧
    formatAndPopulate d s fs = some r ∧ ScreenTitle c title ∧ r.reviewTitle = title ∧
    r.reviewFinish = finish ∧ r.pairs = some rows ∧ CompleteRows d c fs rows

theorem filledFrom_of_bound {s : DisplayParser.Ctx} {c : DisplayConfig} {fs : List TxField}
    {rows : List Pair} (h : BoundTo d st hist s c fs) (hrows : RowsOf d s c fs rows) :
    FilledFrom d hist st.review.reviewTitle st.review.reviewFinish rows := by
  obtain ⟨r, hpop, -, hpairs⟩ := hrows.populated
  obtain ⟨fs₁, r₁, hfs₁, hpop₁, -, htitle, hfinish⟩ := h.shows.populated
  obtain rfl : fs = fs₁ := Option.some.inj (h.fields.symm.trans hfs₁)
  obtain rfl : r = r₁ := Option.some.inj (hpop.symm.trans hpop₁)
  exact ⟨s, c, fs, r, h.walk, h.shows.conf, h.fields, hpop, h.shows.title h.walk.titled,
    htitle.symm, hfinish.symm, hpairs, hrows.complete⟩

/-- A screen with its flag on was formatted to the end. -/
theorem loop_of_clear {s : DisplayParser.Ctx} {fs : List TxField} {r : Review}
    (hpop : formatAndPopulate d s fs = some r) (hclear : r.clearSigningAvailable = true) :
    ∃ s', formatLoop d fs.length 0 s = .formatted s' ∧
      r.pairs = some (populateRows d (s'.fields.getD [])) := by
  unfold formatAndPopulate at hpop
  dsimp only at hpop
  split at hpop
  · cases hpop
    cases hclear
  · split at hpop
    · cases hpop
      cases hclear
    · cases hpop
    · rename_i s' hloop
      cases hpop
      exact ⟨s', hloop, rfl⟩

theorem formatAndPopulate_complete {s : DisplayParser.Ctx} {c : DisplayConfig} {fs : List TxField}
    {r : Review} (hinv : FieldsInv s) (hc : s.conf = some c) (hfs : s.fields = some fs)
    (hpop : formatAndPopulate d s fs = some r) (hclear : r.clearSigningAvailable = true) :
    ∃ rows, r.pairs = some rows ∧ CompleteRows d c fs rows := by
  obtain ⟨htable, fs', hfs', hconf, hshown⟩ := hinv.1 c hc
  obtain rfl : fs = fs' := Option.some.inj (hfs.symm.trans hfs')
  obtain ⟨s', hloop, hpairs⟩ := loop_of_clear hpop hclear
  exact ⟨_, hpairs, populateRows_complete htable hconf hshown hfs hloop⟩

/-- The screen of a finished walk ends the deferred match. -/
theorem WalkFinished.settled {s : DisplayParser.Ctx} (h : WalkFinished d s st')
    (hclear : st'.review.clearSigningAvailable = true) : st'.globals = none := by
  obtain ⟨values, g', r', values', hfinish, hglobals, hreview, -⟩ := h
  have hr := hreview hclear
  rcases finishParsing_cases hfinish with ⟨fs, c, -, -, -, hg, -⟩ | ⟨-, hoff, -⟩
  · cases hm : st'.globals with
    | none => rfl
    | some m =>
      have hsome := hglobals m hm
      rw [hg] at hsome
      cases hsome
  · rw [hr, hoff] at hclear
    cases hclear

/-! ## A prepared transaction -/

/-- The screen of a flow and its rows; `freed` tells that a decision was taken since the
screen was filled. -/
structure RowsInv (d : Device) (st : Prepared) (hist : List Received) (freed : Bool) : Prop where
  deferred : ∀ m, st.globals = some m → m.conf ∈ displayConfigs
  settled : st.review.clearSigningAvailable = true → st.globals = none
  filled : freed = false → st.review.clearSigningAvailable = true →
    ∃ rows s c fs, st.review.pairs = some rows ∧ BoundTo d st hist s c fs ∧ RowsOf d s c fs rows
  freed : freed = true → st.globals = none ∧
    ((st.review.clearSigningAvailable = true ∧ st.review.pairs = none) ∨
      (st.review.clearSigningAvailable = false ∧ PastNodes st))

theorem rowsInv_fresh (h : st.Fresh) : RowsInv d st [] false := by
  obtain ⟨p, rfl⟩ := h
  refine ⟨?_, ?_, ?_, ?_⟩
  · intro m hm
    cases hm
  · intro hclear
    cases hclear
  · intro _ hclear
    cases hclear
  · intro hfreed
    cases hfreed

theorem pastNodes_finalized (h : PastNodes st) : PastNodes (st.finalized d) := by
  rw [finalized_eq]
  exact h

/-- A part after the nodes leaves the flow there; the flag of a screen is not turned off
before. -/
theorem pastNodes_of_part {parsed : Bool} {buf : Bytes}
    (hs : RecordedStep d st (.part parsed buf) st' new)
    (h : PastNodes st ∨ (st.review.clearSigningAvailable = true ∧
      st'.review.clearSigningAvailable = false)) : PastNodes st' := by
  -- the stages up to the nodes are not past them
  have hstate : st.txState = .damlTxPart ∨ st.txState = .damlNodes → ¬ PastNodes st := by
    rintro (hst | hst) (hpast | hpast) <;> exact absurd (hst.symm.trans hpast) (by decide)
  cases hs with
  | header hs =>
    rcases h with hpast | ⟨hon, hoff⟩
    · exact absurd hpast (hstate (.inl hs.state))
    · rw [hs.result] at hoff
      exact absurd (hon.symm.trans hoff) (by decide)
  | node hs =>
    rcases h with hpast | ⟨hon, hoff⟩
    · exact absurd hpast (hstate (.inr hs.state))
    · -- A node part leaves a screen that is there alone.
      obtain ⟨shown, hdisplay, rfl⟩ := hs.result
      have hr : shown.review = st.review := by
        rcases displayNodePart_cases hdisplay with ⟨-, rfl⟩ | ⟨-, r, hparse, rfl⟩
        · exact withNode_review _ _
        · rw [withNode_review] at hparse
          unfold parseNodeForDisplay at hparse
          rw [if_pos (by simp [hon])] at hparse
          cases hparse
          rfl
      have hoff : shown.review.clearSigningAvailable = false := hoff
      rw [hr, hon] at hoff
      cases hoff
  -- from the metadata on the nodes are past in any case
  | metadata hs =>
    rcases hs.result with ⟨-, -, rfl⟩ | ⟨-, rfl⟩
    · refine pastNodes_finalized (.inl ?_)
      rw [applyNodeTreeVerdict_accepted hs.verdict]
      exact hs.state
    · exact .inr rfl
  | contract hs =>
    rcases hs.result with ⟨-, -, rfl⟩ | ⟨-, rfl⟩
    · exact pastNodes_finalized (.inr hs.state)
    · exact .inr hs.state

/-- What a walk leaves, if no decision has been taken since a screen was filled. -/
theorem rowsInv_walked {s : DisplayParser.Ctx} (hinv : FieldsInv s) (hwalk : WalkOf d hist s)
    (hfinish : WalkFinished d s st') : RowsInv d st' hist false := by
  refine ⟨?_, hfinish.settled, ?_, nofun⟩
  · intro m hm
    exact hinv.2 m (hfinish.globals m hm)
  · intro _ hclear
    obtain ⟨c, fs, hbound, hpop⟩ := boundTo_walked hinv hwalk hfinish hclear
    obtain ⟨rows, hpairs, hcomplete⟩ :=
      formatAndPopulate_complete hinv hbound.shows.conf hbound.fields hpop hclear
    exact ⟨rows, s, c, fs, hpairs, hbound, ⟨_, hpop, hclear, hpairs⟩, hcomplete⟩

/-- One part of a flow. -/
theorem rowsInv_part {parsed freed : Bool} {buf : Bytes} (h : RowsInv d st hist freed)
    (hs : RecordedStep d st (.part parsed buf) st' new) : RowsInv d st' (hist ++ new) freed := by
  rcases displayStep_of_recorded hs with hkept | hwalk | hwalk
  · -- The part looks for no screen: what it keeps, it keeps with its rows.
    have hsame : st'.review.clearSigningAvailable = true → st'.review = st.review := by
      intro hclear
      rcases (hkept.review hclear).2 with heq | ⟨pairs, signature, hne, -⟩
      · exact heq
      · cases hne
    have hnone : st.globals = none → st'.globals = none := by
      intro hg
      cases hm : st'.globals with
      | none => rfl
      | some m => exact absurd (hg.symm.trans (hkept.globals m hm)) nofun
    refine ⟨?_, ?_, ?_, ?_⟩
    · intro m hm
      exact h.deferred m (hkept.globals m hm)
    · intro hclear
      exact hnone (h.settled (hkept.review hclear).1)
    · intro hfreed hclear
      obtain ⟨rows, s, c, fs, hpairs, hbound, hrows⟩ := h.filled hfreed (hkept.review hclear).1
      obtain ⟨htitle, hfinish⟩ := hkept.title hclear
      refine ⟨rows, s, c, fs, ?_, hbound.kept new hkept.values htitle hfinish, hrows⟩
      rw [hsame hclear]
      exact hpairs
    · intro hfreed
      obtain ⟨hg, hrows⟩ := h.freed hfreed
      refine ⟨hnone hg, ?_⟩
      cases hclear : st'.review.clearSigningAvailable with
      | true =>
        left
        rw [hsame hclear]
        rcases hrows with ⟨-, hpairs⟩ | ⟨hoff, -⟩
        · exact ⟨rfl, hpairs⟩
        · exact absurd (hoff.symm.trans (hkept.review hclear).1) (by decide)
      | false =>
        refine .inr ⟨rfl, pastNodes_of_part hs ?_⟩
        rcases hrows with ⟨hon, -⟩ | ⟨-, hpast⟩
        · exact .inr ⟨hon, hclear⟩
        · exact .inl hpast
  · obtain ⟨_, _, part, s, -, rfl, hstate, -, hsearch, hg, -, hwalk, hfinish⟩ := hwalk
    -- A node part is walked only while no screen was ever filled.
    have hnot : freed = false := by
      cases freed with
      | false => rfl
      | true =>
        rcases (h.freed rfl).2 with ⟨hon, -⟩ | ⟨-, hpast | hpast⟩
        · exact absurd (hon.symm.trans hsearch.1) (by decide)
        · exact absurd (hstate.symm.trans hpast) (by decide)
        · exact absurd (hstate.symm.trans hpast) (by decide)
    subst hnot
    exact rowsInv_walked (fieldsInv_node hwalk) (.inl ⟨part, by simp [nodesOf], _, hwalk⟩) hfinish
  · obtain ⟨_, _, ic, m, s, -, rfl, -, -, -, hm, hwalk, hfinish⟩ := hwalk
    -- A contract is walked for a deferred match, and a filled screen ends the match.
    have hnot : freed = false := by
      cases freed with
      | false => rfl
      | true => exact absurd ((h.freed rfl).1.symm.trans hm) nofun
    subst hnot
    exact rowsInv_walked (fieldsInv_contract (h.deferred m hm) hwalk)
      (.inr ⟨ic, by simp [contractsOf], m, _, hwalk⟩) hfinish

/-- The rows are replaced while the flag is off. -/
theorem rowsInv_rows {freed : Bool} (h : RowsInv d st hist freed)
    (hoff : st.review.clearSigningAvailable = false) (pairs : Option (List Pair))
    (signature : Bytes) : RowsInv d (st.setRows pairs signature) hist freed := by
  have hon : ¬ (st.setRows pairs signature).review.clearSigningAvailable = true := by
    show ¬ st.review.clearSigningAvailable = true
    simp [hoff]
  refine ⟨h.deferred, fun hclear => absurd hclear hon, fun _ hclear => absurd hclear hon, ?_⟩
  intro hfreed
  obtain ⟨hg, ⟨hclear, -⟩ | hpast⟩ := h.freed hfreed
  · exact absurd hclear hon
  · exact ⟨hg, .inr hpast⟩

/-- A decision frees the rows. -/
theorem rowsInv_decide {freed : Bool} (h : RowsInv d st hist freed) (signature : Bytes) :
    RowsInv d (st.setRows none signature) hist (freed || st.review.clearSigningAvailable) := by
  cases hclear : st.review.clearSigningAvailable with
  | false =>
    rw [Bool.or_false]
    exact rowsInv_rows h hclear none signature
  | true =>
    rw [Bool.or_true]
    refine ⟨h.deferred, h.settled, nofun, fun _ => ?_⟩
    exact ⟨h.settled hclear, .inl ⟨hclear, rfl⟩⟩

/-! ## The app -/

/-- The flow keeps rows: a topology flow from its first APDU on, a prepared transaction
once its screen was filled. -/
def App.keepsRows (a : App) : Bool :=
  a.signingType = .untypedVersionedMessage || a.tx.review.clearSigningAvailable

/-- Whether a decision freed the rows of the flow, after an event. -/
def nextFreed (a : App) (e : Event) (freed : Bool) : Bool :=
  match request a e with
  | .first .. | .getPublicKey .. => false
  | .decide _ => freed || a.keepsRows
  | .next .. | .untouched => freed

/-- The app with the log of its flow and the fate of its rows. -/
def freedApp (d : Device) : Machine ((App × List PartEvent) × Bool) Event where
  init s := (loggedApp d).init s.1 ∧ s.2 = false
  step s e := some (((step d s.1.1 e).1, nextLog d s.1.1 e s.1.2), nextFreed s.1.1 e s.2)

variable {a : App} {log : List PartEvent} {freed : Bool} {ev : Event}

theorem loggedApp_of_freedApp {es : List Event}
    (h : (freedApp d).Reach anyEvent es ((a, log), freed)) :
    (loggedApp d).Reach anyEvent es (a, log) := by
  refine h.invariant (P := fun es s => (loggedApp d).Reach anyEvent es s.1) ?_ ?_
  · rintro s ⟨hinit, -⟩
    exact .start hinit
  · rintro es ⟨⟨a, log⟩, freed⟩ e s' hreach - hstep
    cases hstep
    exact .step hreach trivial rfl

/-- The state of a prepared transaction, its history, and its rows. -/
def RowsState (d : Device) (a : App) (log : List PartEvent) (freed : Bool) : Prop :=
  a.Receiving → ∃ hist, (recorded d).Reach anyEvent log (a.prepared, hist) ∧
    RowsInv d a.prepared hist freed

/-- A part that the flow accepts. -/
theorem rowsInv_accepted {parsed : Bool} {buf : Bytes} (h : RowsInv d st hist freed)
    (hreach : (recorded d).Reach anyEvent log (st, hist))
    (hacc : processPreparedTxPart d parsed st buf = (st', 0)) :
    ∃ hist', (recorded d).Reach anyEvent (log ++ [.part parsed buf]) (st', hist') ∧
      RowsInv d st' hist' freed := by
  have hstep : (recorded d).step (st, hist) (.part parsed buf) =
      some (st', nextHistory st hist (.part parsed buf)) := by simp [recorded, receiving, hacc]
  obtain ⟨new, hnew, hs⟩ := recorded_step_cases hstep
  refine ⟨_, .step hreach trivial hstep, ?_⟩
  rw [hnew]
  exact rowsInv_part h hs

theorem rowsState_step (h : RowsState d a log freed) :
    RowsState d (step d a ev).1 (nextLog d a ev log) (nextFreed a ev freed) := by
  intro hr
  cases hreq : request a ev with
  | untouched =>
    have hsame := (step_untouched (d := d) hreq).1
    have hprep : (step d a ev).1.prepared = a.prepared := by
      simp [App.prepared, hsame.tx, hsame.prep]
    simp only [nextLog, nextFreed, hreq, hprep]
    exact h ⟨hsame.reqType ▸ hr.1, hsame.signingType ▸ hr.2⟩
  | getPublicKey data display =>
    exact absurd ((getPublicKey_reqType hreq).symm.trans hr.1) (by decide)
  | first type data =>
    simp only [nextLog, nextFreed, hreq]
    have hfresh := fresh_of_first hreq hr
    exact ⟨[], .start ⟨hfresh, rfl⟩, rowsInv_fresh hfresh⟩
  | next more msgEnd data =>
    have hfreed : nextFreed a ev freed = freed := by simp [nextFreed, hreq]
    rw [hfreed]
    rcases step_next_cases (d := d) hreq with ⟨-, heq⟩ | ⟨hnone, hconf, heq⟩ |
      ⟨hconf, parsed, raw, buf, hmsg, heq⟩
    · rw [heq] at hr
      exact absurd hr.1 (by simp [refuseTx])
    · have hlog : nextLog d a ev log = log := by simp [nextLog, hreq, hnone]
      rw [heq] at hr
      rw [hlog, heq]
      exact h ⟨hconf, hr.2⟩
    · have htype : a.signingType = .preparedTransaction := by
        rw [heq] at hr
        exact (processAndAnswer_signingType hr.1).symm.trans hr.2
      obtain ⟨st', hacc, hprep, hkept⟩ := prepared_of_message (d := d) htype hconf (heq ▸ hr)
      obtain ⟨hist, hreach, hinv⟩ := h ⟨hconf, htype⟩
      obtain ⟨hist', hreach', hinv'⟩ := rowsInv_accepted hinv hreach hacc
      simp only [nextLog, hreq, hmsg, heq]
      cases parsed with
      | false =>
        rw [hprep]
        exact ⟨hist', hreach', hinv'⟩
      | true =>
        -- The review that follows changes the rows of a blind one only.
        simp only [if_true] at hprep ⊢
        refine ⟨hist', ?_, ?_⟩
        · rw [hprep]
          have hrows : (recorded d).Reach anyEvent (log ++ [.part true buf] ++ [.rows
              (processAndAnswer d (a.atMessage raw true) buf).1.tx.review.pairs
              (processAndAnswer d (a.atMessage raw true) buf).1.tx.signature]) (_, hist') :=
            .step hreach' trivial rfl
          simpa using hrows
        · cases hclear : st'.review.clearSigningAvailable with
          | true =>
            rw [hkept hclear]
            exact hinv'
          | false =>
            rw [hprep]
            exact rowsInv_rows hinv' hclear _ _
  | decide confirm =>
    have hframe := decide_frame (d := d) hreq
    have hpairs : (step d a ev).1.tx.review.pairs = none := by rw [hframe]; rfl
    have hprep : (step d a ev).1.prepared =
        a.prepared.setRows none (step d a ev).1.tx.signature := by
      rw [hframe]
      rfl
    have hopen : a.Receiving := by
      rw [hframe] at hr
      exact hr
    obtain ⟨hist, hreach, hinv⟩ := h hopen
    simp only [nextLog, nextFreed, hreq, hpairs, hprep]
    have hkeeps : a.keepsRows = a.prepared.review.clearSigningAvailable := by
      simp [App.keepsRows, hopen.2, App.prepared]
    rw [hkeeps]
    refine ⟨hist, ?_, rowsInv_decide hinv _⟩
    exact .step hreach trivial rfl

end CantonSigner
