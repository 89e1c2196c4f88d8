import CantonSigner.Display.Agreement
import CantonSigner.Flow.Texts

/-!
# A token screen and what the transaction writes

`CheckedInv` follows a finalised flow: its nodes are over, and a screen that is still clear
has passed the value check over all create nodes. With the rows of the screen
(`amountRow_of_loop`) this gives `token_screen_agrees_iff`: what a clear review of a token
screen shows agrees with the create nodes of the flow exactly if no decision has freed its
rows.
-/

namespace CantonSigner

open ByteCodec DisplayParser HoldingParser

variable {d : Device} {st st' : Prepared} {hist new : List Received} {e : PartEvent}

/-! ## Finalised flows -/

/-- The store at the time of a verdict that let the screen pass. -/
def PassedCheck (d : Device) (st : Prepared) (hist : List Received) : Prop :=
  ∃ v, Collects d valuesCheckReset (createsOf hist) v ∧ v.screen = st.values.screen ∧
    valuesVerdict v = true

/-- A finalised flow. -/
structure CheckedInv (d : Device) (st : Prepared) (hist : List Received) : Prop where
  ended : st.mHashLen = 32 → PastNodes st ∧ st.globals = none
  checked : st.mHashLen = 32 → st.review.clearSigningAvailable = true → PassedCheck d st hist

theorem PassedCheck.kept (h : PassedCheck d st hist) (hnew : createsOf new = [])
    (hscreen : st'.values.screen = st.values.screen) : PassedCheck d st' (hist ++ new) := by
  obtain ⟨v, hcollects, hv, hverdict⟩ := h
  refine ⟨v, ?_, hv.trans hscreen.symm, hverdict⟩
  rw [createsOf_append, hnew, List.append_nil]
  exact hcollects

/-- Finalising checks a screen before it leaves it clear. -/
theorem checkedInv_finalized (hpast : PastNodes st)
    (hcollects : Collects d valuesCheckReset (createsOf hist) st.values) :
    CheckedInv d (st.finalized d) hist := by
  constructor
  · intro _
    refine ⟨pastNodes_finalized hpast, ?_⟩
    rw [finalized_eq]
  · intro _ hclear
    refine ⟨st.values, hcollects, (useKept_finalized st).screen.symm, ?_⟩
    have hbefore := (finalized_clear hclear).1
    rw [finalized_eq] at hclear
    dsimp only at hclear
    rw [hbefore, Bool.true_and, valuesCanClearSign_verdict] at hclear
    by_contra hrefused
    rw [Bool.not_eq_true] at hrefused
    rw [hrefused] at hclear
    cases hclear

/-- One step of a recorded run. -/
theorem checkedInv_step (hcollects : Collects d valuesCheckReset (createsOf hist) st.values)
    (h : CheckedInv d st hist) (hs : RecordedStep d st e st' new) :
    CheckedInv d st' (hist ++ new) := by
  have hnodes : st.mHashLen = 32 → st.txState ≠ .damlTxPart ∧ st.txState ≠ .damlNodes := by
    intro hlen
    rcases (h.ended hlen).1 with hpast | hpast
    · rw [hpast]
      exact ⟨by decide, by decide⟩
    · rw [hpast]
      exact ⟨by decide, by decide⟩
  cases hs with
  | header hs =>
    have hopen : st'.mHashLen = 32 → False := by
      intro hlen
      rw [hs.result] at hlen
      exact (hnodes hlen).1 hs.state
    exact ⟨fun hlen => (hopen hlen).elim, fun hlen => (hopen hlen).elim⟩
  | @node _ _ _ part ctx hs =>
    have hopen : st'.mHashLen = 32 → False := by
      intro hlen
      obtain ⟨shown, hdisplay, rfl⟩ := hs.result
      refine (hnodes ?_).2 hs.state
      rcases displayNodePart_cases hdisplay with ⟨-, rfl⟩ | ⟨-, r, -, rfl⟩
      · exact (withNode_mHashLen ctx part).symm.trans hlen
      · exact (withNode_mHashLen ctx part).symm.trans hlen
    exact ⟨fun hlen => (hopen hlen).elim, fun hlen => (hopen hlen).elim⟩
  | @metadata _ _ _ md hs =>
    -- The verdict on the tree leaves all of this alone, but for the flag.
    have htree := applyNodeTreeVerdict_accepted hs.verdict
    have hvalues : (applyNodeTreeVerdict st).1.values = st.values := by rw [htree]
    rcases hs.result with ⟨-, -, rfl⟩ | ⟨-, rfl⟩
    · refine checkedInv_finalized (.inl ?_) ?_
      · show (applyNodeTreeVerdict st).1.txState = .metadata
        rw [htree]
        exact hs.state
      · show Collects d valuesCheckReset _ (applyNodeTreeVerdict st).1.values
        rw [hvalues, createsOf_append]
        simpa [createsOf, nodesOf] using hcollects
    · have hlen : (applyNodeTreeVerdict st).1.mHashLen = st.mHashLen := by rw [htree]
      have hglobals : (applyNodeTreeVerdict st).1.globals = st.globals := by rw [htree]
      constructor
      · intro h32
        exact ⟨.inr rfl, hglobals.trans (h.ended (hlen.symm.trans h32)).2⟩
      · intro h32 hclear
        exact (h.checked (hlen.symm.trans h32) (verdict_clear hs.verdict hclear).1).kept rfl
          (congrArg ValuesStore.screen hvalues)
  | @contract parsed buf _ ic v values shown hs =>
    rcases hs.result with ⟨-, -, rfl⟩ | ⟨-, rfl⟩
    · refine checkedInv_finalized (.inr hs.state) ?_
      rw [createsOf_append]
      simpa [createsOf, nodesOf] using collects_contract hcollects hs
    · -- No screen is looked for any more: the deferred match has ended.
      have hkept : st.mHashLen = 32 →
          ScreenKept st (.part parsed buf) (st.withContract d ic v shown) := by
        intro h32
        rcases displayStep_contract hs with hkept | hwalk
        · exact hkept
        · obtain ⟨_, _, _, m, _, -, -, -, -, -, hm, -⟩ := hwalk
          cases (h.ended h32).2.symm.trans hm
      constructor
      · intro h32
        obtain ⟨hpast, hnone⟩ := h.ended h32
        refine ⟨hpast, ?_⟩
        cases hm : (st.withContract d ic v shown).globals with
        | none => rfl
        | some m => cases hnone.symm.trans ((hkept h32).globals m hm)
      · intro h32 hclear
        have hk := hkept h32
        exact (h.checked h32 (hk.review hclear).1).kept rfl hk.values
  | rows => exact ⟨h.ended, fun hlen hclear => (h.checked hlen hclear).kept rfl rfl⟩

theorem checkedInv_of_reach {ok : Prepared × List Received → PartEvent → Prop}
    {es : List PartEvent} (h : (recorded d).Reach ok es (st, hist)) : CheckedInv d st hist := by
  have hboth : Collects d valuesCheckReset (createsOf hist) st.values ∧ CheckedInv d st hist := by
    refine recorded_invariant (P := fun st hist =>
      Collects d valuesCheckReset (createsOf hist) st.values ∧ CheckedInv d st hist) h ?_ ?_
    · rintro _ ⟨p, rfl⟩
      exact ⟨.refl _, nofun, nofun⟩
    · rintro st hist e st' new ⟨hcollects, hinv⟩ - hs
      exact ⟨collects_step hcollects hs, checkedInv_step hcollects hinv hs⟩
  exact hboth.2

/-! ## Token screens -/

/-- The store of a token screen is bound to the strings that were found for it. -/
theorem tokenBound_of_bound {s : DisplayParser.Ctx} {c : DisplayConfig} {fs : List TxField}
    {v : ValuesStore} {F A T adm id : Bytes} (hbound : BoundTo d st hist s c fs)
    (htoken : TokenScreen c) (hstrings : TokenStrings d fs F A T adm id)
    (hv : v.screen = st.values.screen) : TokenBound d v F A T adm id := by
  have hscreen : v.screen = (some (d.sha T), some (d.sha A), some (d.sha adm), some (d.sha id),
      some (d.sha F), true, .receiver) := by
    rw [hv, hbound.screen, boundScreen, htoken.destination, htoken.amountCheck]
    simp [valuesBindFromDisplay, ValuesStore.screen, hstrings.sender, hstrings.amount,
      hstrings.receiver, hstrings.admin, hstrings.instrument]
  simp only [ValuesStore.screen, Prod.mk.injEq] at hscreen
  obtain ⟨hdestination, hamount, hadmin, hinstrument, hsender, hb, hdest⟩ := hscreen
  exact ⟨hdestination, hamount, hadmin, hinstrument, hsender, hb, hdest⟩

/-- The strings of a token screen, and its amount row. -/
theorem tokenStrings_of_bound {s : DisplayParser.Ctx} {c : DisplayConfig} {fs : List TxField}
    (hbound : BoundTo d st hist s c fs) (htoken : TokenScreen c) :
    ∃ F A T adm id, TokenStrings d fs F A T adm id ∧
      ∀ rows, RowsOf d s c fs rows → AmountRow rows A adm id := by
  obtain ⟨fs₁, r₁, hfs₁, hpop, hclear, -, -⟩ := hbound.shows.populated
  obtain rfl : fs = fs₁ := Option.some.inj (hbound.fields.symm.trans hfs₁)
  obtain ⟨-, fs₂, hfs₂, hconf, hshown⟩ := hbound.inv.1 c hbound.shows.conf
  obtain rfl : fs = fs₂ := Option.some.inj (hbound.fields.symm.trans hfs₂)
  obtain ⟨s', hloop, hpairs⟩ := loop_of_clear hpop hclear
  obtain ⟨F, A, T, adm, id, hstrings, hrow⟩ :=
    amountRow_of_loop htoken hconf hshown hbound.fields hloop
  refine ⟨F, A, T, adm, id, hstrings, ?_⟩
  intro rows hrows
  obtain ⟨r, hr, -, hrpairs⟩ := hrows.populated
  obtain rfl : r₁ = r := Option.some.inj (hpop.symm.trans hr)
  obtain rfl : populateRows d (s'.fields.getD []) = rows :=
    Option.some.inj (hpairs.symm.trans hrpairs)
  exact hrow

/-- The create nodes and the row of the amount agree with the strings of the screen. -/
def ScreenAgrees (cs : List Create) (rows : List Pair) (F A T adm id : Bytes) : Prop :=
  HoldingsAgree cs F A T adm id ∧ AmountRow rows A adm id

/-- The state after the last part of a flow, by its log. -/
theorem tx_of_clear {a : App} {ev : Event} {title finish : Option Bytes} {rows : List Pair}
    {buf : Bytes} (htype : a.signingType = .preparedTransaction)
    (hshown : (step d a ev).2 = .shown (.clearReview title finish rows))
    (hmsg : messageOf d a ev = some (true, buf))
    (hacc : processPreparedTxPart d true a.prepared buf = (st, 0)) :
    (step d a ev).1.tx = st.toTxInfo := by
  obtain ⟨-, raw, buf₁, a₁, hmsg₁, hm, -, hstep, -⟩ := shown_clear hshown
  have htx : (step d a ev).1.tx = a₁.tx := by rw [hstep]
  obtain rfl : buf = buf₁ := (Prod.mk.inj (Option.some.inj (hmsg.symm.trans hmsg₁))).2
  unfold processMessage at hm
  have hsign : (a.atMessage raw true).signingType = .preparedTransaction := htype
  rw [hsign] at hm
  have ha₁ := (Prod.mk.inj (Option.some.inj hm)).1
  rw [htx, ← ha₁]
  exact congrArg (fun r : PartResult => r.1.toTxInfo) hacc

/-- **A token screen agrees with what the transaction writes exactly if no decision has
freed its rows.** -/
theorem token_screen_agrees_iff {es : List Event} {a : App} {log : List PartEvent} {freed : Bool}
    {ev : Event} {title finish : Option Bytes} {rows : List Pair}
    (h : (freedApp d).Reach anyEvent es ((a, log), freed))
    (htype : a.signingType = .preparedTransaction)
    (hshown : (step d a ev).2 = .shown (.clearReview title finish rows))
    (hfinal : (step d a ev).1.tx.mHashLen = 32) :
    ∃ buf st hist s c fs, messageOf d a ev = some (true, buf) ∧
      (recorded d).Reach anyEvent (log ++ [.part true buf]) (st, hist) ∧
      title = st.review.reviewTitle ∧ BoundTo d st hist s c fs ∧
      (freed = false → RowsOf d s c fs rows) ∧
      (TokenScreen c → ∃ F A T adm id, TokenStrings d fs F A T adm id ∧
        (Set.InjOn d.sha (comparedStrings (createsOf hist) F A T adm id) →
          (ScreenAgrees (createsOf hist) rows F A T adm id ↔ freed = false))) := by
  obtain ⟨hconf, buf, st, hmsg, hacc, hflag, rfl, rfl, rfl⟩ := clear_of_review htype hshown
  rw [tx_of_clear htype hshown hmsg hacc] at hfinal
  obtain ⟨hist, hreach, hinv⟩ := (states_of_reach h).1 ⟨hconf, htype⟩
  obtain ⟨hist', hreach', hinv'⟩ := rowsInv_accepted hinv hreach hacc
  have hchecked := (checkedInv_of_reach hreach').checked hfinal hflag
  -- The holdings agree in any case: only the rows may be gone.
  have hagree : ∀ {s c fs F A T adm id}, BoundTo d st hist' s c fs → TokenScreen c →
      TokenStrings d fs F A T adm id →
      Set.InjOn d.sha (comparedStrings (createsOf hist') F A T adm id) →
      HoldingsAgree (createsOf hist') F A T adm id := by
    intro s c fs F A T adm id hbound htoken hstrings hinj
    obtain ⟨v, hcollects, hv, hverdict⟩ := hchecked
    exact holdingsAgree_of_verdict hcollects (tokenBound_of_bound hbound htoken hstrings hv)
      hverdict hinj
  cases freed with
  | false =>
    obtain ⟨rows, s, c, fs, hpairs, hbound, hrows⟩ := hinv'.filled rfl hflag
    rw [hpairs, Option.getD_some]
    refine ⟨buf, st, hist', s, c, fs, hmsg, hreach', rfl, hbound, fun _ => hrows, ?_⟩
    intro htoken
    obtain ⟨F, A, T, adm, id, hstrings, hrow⟩ := tokenStrings_of_bound hbound htoken
    refine ⟨F, A, T, adm, id, hstrings, fun hinj => iff_of_true ?_ rfl⟩
    exact ⟨hagree hbound htoken hstrings hinj, hrow rows hrows⟩
  | true =>
    obtain ⟨s, c, fs, -, hbound⟩ := (screenBound_of_reach hreach').bound hflag
    obtain ⟨-, ⟨-, hpairs⟩ | ⟨hoff, -⟩⟩ := hinv'.freed rfl
    · rw [hpairs, Option.getD_none]
      refine ⟨buf, st, hist', s, c, fs, hmsg, hreach', rfl, hbound, nofun, ?_⟩
      intro htoken
      obtain ⟨F, A, T, adm, id, hstrings, -⟩ := tokenStrings_of_bound hbound htoken
      refine ⟨F, A, T, adm, id, hstrings, fun _ => iff_of_false ?_ nofun⟩
      rintro ⟨-, trimmed, ticker, -, -, hrow⟩
      exact absurd ((hrow _).mpr rfl) List.not_mem_nil
    · exact absurd (hoff.symm.trans hflag) (by decide)

/-! ## An acceptance -/

/-- The screen of an acceptance is a token screen. -/
theorem tokenScreen_of_title {c : DisplayConfig} (hc : c ∈ displayConfigs)
    (h : ScreenTitle c (some tokenTransferAcceptReviewTitle)) : TokenScreen c := by
  have htable : ∀ c ∈ displayConfigs, c.reviewTitle = tokenTransferAcceptReviewTitle →
      c.destination = .receiver ∧ c.amountCheck = .comparable ∧
        ∃ f ∈ c.fields, f.shownAs = .admin := by decide +kernel
  rcases h with htitle | ⟨-, hnative⟩
  · obtain ⟨hdest, hamount, hadmin⟩ := htable c hc (Option.some.inj htitle).symm
    exact ⟨hc, hdest, hamount, hadmin⟩
  · exact absurd (Option.some.inj hnative) (by decide +kernel)

/-- Digests that tell the texts of the messages apart are injective on what is compared. -/
theorem injOn_comparedStrings {s : DisplayParser.Ctx} {c : DisplayConfig} {fs : List TxField}
    {F A T adm id : Bytes} {ok : Prepared × List Received → PartEvent → Prop}
    {es : List PartEvent} (hapart : TextsApart d es) (h : (recorded d).Reach ok es (st', hist))
    (hbound : BoundTo d st hist s c fs) (hstrings : TokenStrings d fs F A T adm id) :
    Set.InjOn d.sha (comparedStrings (createsOf hist) F A T adm id) := by
  have hc : c ∈ displayConfigs := (hbound.inv.1 c hbound.shows.conf).1
  have hshown : ∀ role ≠ .other, ∀ t, shownText d fs role = some t → t ∈ sentTexts es :=
    fun role hrole t ht => shown_sent h hbound (hapart.legible c hc) hrole ht
  refine hapart.injOn.mono fun t ht => ?_
  rcases ht with ht | ⟨cr, hcr, slot, ht⟩
  · simp only [List.mem_cons, List.not_mem_nil, or_false] at ht
    rcases ht with rfl | rfl | rfl | rfl | rfl
    · exact hshown .sender (by decide) _ hstrings.sender
    · exact hshown .amount (by decide) _ hstrings.amount
    · exact hshown .receiver (by decide) _ hstrings.receiver
    · exact hshown .admin (by decide) _ hstrings.admin
    · exact hshown .instrument (by decide) _ hstrings.instrument
  · exact created_sent h hcr ht

theorem token_screen_agrees_iff_acceptance : ∃ a log finish rows,
    (freedApp testDevice).Reach anyEvent (preparedFlow acceptance) ((a, log), false) ∧
      (step testDevice a (lastPart acceptedOffer)).2 =
        .shown (.clearReview (some tokenTransferAcceptReviewTitle) finish rows) ∧
      ∃ st hist s c fs F A T adm id,
        (recorded testDevice).Reach anyEvent (log ++ [.part true acceptedOffer]) (st, hist) ∧
        BoundTo testDevice st hist s c fs ∧ TokenScreen c ∧ RowsOf testDevice s c fs rows ∧
        TokenStrings testDevice fs F A T adm id ∧
        ScreenAgrees (createsOf hist) rows F A T adm id := by
  obtain ⟨a, log, freed, hreach, hp⟩ := exists_reach_freedApp testDevice (preparedFlow acceptance)
    (fun s => !s.2 && decide (s.1.1.signingType = .preparedTransaction) &&
      decide (s.1.2 = acceptance.map (.part false)) &&
      decide ((step testDevice s.1.1 (lastPart acceptedOffer)).1.tx.mHashLen = 32) &&
      decide (messageOf testDevice s.1.1 (lastPart acceptedOffer) = some (true, acceptedOffer)) &&
      ((step testDevice s.1.1 (lastPart acceptedOffer)).2.screen.bind Screen.clear).any
        fun shown : ClearScreen => decide (shown.1 = some tokenTransferAcceptReviewTitle))
    (by decide +kernel)
  simp only [Bool.and_eq_true, Bool.not_eq_true', decide_eq_true_eq] at hp
  obtain ⟨⟨⟨⟨⟨rfl, htype⟩, rfl⟩, hfinal⟩, hmsg⟩, hshown⟩ := hp
  obtain ⟨title, finish, rows, hs, hrev⟩ := Output.exists_clear hshown
  obtain rfl : title = some tokenTransferAcceptReviewTitle := of_decide_eq_true hrev
  obtain ⟨buf, st, hist, s, c, fs, hbuf, hrec, htitle, hbound, hrows, hscreen⟩ :=
    token_screen_agrees_iff hreach htype hs hfinal
  obtain rfl : acceptedOffer = buf := (Prod.mk.inj (Option.some.inj (hmsg.symm.trans hbuf))).2
  have htoken : TokenScreen c := by
    refine tokenScreen_of_title (hbound.inv.1 c hbound.shows.conf).1 ?_
    rw [htitle]
    exact hbound.shows.title hbound.walk.titled
  obtain ⟨F, A, T, adm, id, hstrings, hagree⟩ := hscreen htoken
  have hinj := injOn_comparedStrings textsApart_acceptance hrec hbound hstrings
  exact ⟨a, _, finish, rows, hreach, hs, st, hist, s, c, fs, F, A, T, adm, id, hrec, hbound,
    htoken, hrows rfl, hstrings, (hagree hinj).mpr rfl⟩

/-- The accepted offer sent again after its approval: the transaction is finalised and its
tree is in order, and the review of the acceptance shows no amount at all. -/
theorem approved_acceptance_shows_no_amount : ∃ a log finish,
    (freedApp testDevice).Reach anyEvent
      (preparedFlow acceptance ++ [lastPart acceptedOffer, .choice true]) ((a, log), true) ∧
      (step testDevice a (lastPart acceptedOffer)).2 =
        .shown (.clearReview (some tokenTransferAcceptReviewTitle) finish []) ∧
      (step testDevice a (lastPart acceptedOffer)).1.tx.mHashLen = 32 ∧
      (step testDevice a (lastPart acceptedOffer)).1.prep.tree.err = .ok ∧
      ∀ cs F A T adm id, ¬ ScreenAgrees cs [] F A T adm id := by
  obtain ⟨a, log, freed, hreach, hp⟩ := exists_reach_freedApp testDevice
    (preparedFlow acceptance ++ [lastPart acceptedOffer, .choice true])
    (fun s => s.2 &&
      decide ((step testDevice s.1.1 (lastPart acceptedOffer)).1.tx.mHashLen = 32) &&
      decide ((step testDevice s.1.1 (lastPart acceptedOffer)).1.prep.tree.err = .ok) &&
      ((step testDevice s.1.1 (lastPart acceptedOffer)).2.screen.bind Screen.clear).any
        fun shown : ClearScreen =>
          decide (shown.1 = some tokenTransferAcceptReviewTitle ∧ shown.2.2 = []))
    (by decide +kernel)
  simp only [Bool.and_eq_true, decide_eq_true_eq] at hp
  obtain ⟨⟨⟨rfl, hfinal⟩, htree⟩, hshown⟩ := hp
  obtain ⟨title, finish, rows, hs, hrev⟩ := Output.exists_clear hshown
  obtain ⟨rfl, rfl⟩ : title = some tokenTransferAcceptReviewTitle ∧ rows = [] :=
    of_decide_eq_true hrev
  refine ⟨a, log, finish, hreach, hs, hfinal, htree, ?_⟩
  rintro cs F A T adm id ⟨-, trimmed, ticker, -, -, hrow⟩
  exact absurd ((hrow _).mpr rfl) List.not_mem_nil

end CantonSigner
