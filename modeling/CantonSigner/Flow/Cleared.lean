import CantonSigner.Flow.Calls

/-!
# What clears a transaction

`ClearedBy` says of the parts of a transaction alone, for every kind of screen, what the value
check asks of them; and `finalised_review_iff` that a transaction with a filled screen is
reviewed in clear exactly then.
-/

namespace CantonSigner

open ByteCodec DisplayParser

variable {d : Device} {st st' pre : Prepared} {hist new : List Received} {e : PartEvent}

/-! ## What the check asks -/

/-- What a screen with these fields shows in the roles that are compared. -/
def boundScreenOf (d : Device) (c : DisplayConfig) (fs : List TxField) : BoundScreen where
  destination := c.destination
  account := match c.destination with
    | .sender => shownText d fs .sender
    | .receiver => shownText d fs .receiver
    | .none => none
  amount := if c.amountCheck = .comparable then shownText d fs .amount else none
  admin := shownText d fs .admin
  sender := shownText d fs .sender
  instrument := shownText d fs .instrument

/-- What the parts of a transaction say for a screen: every create node can be read, the few
holdings they write are of one instrument and are what the screen shows, and what was disclosed
is used. -/
structure ClearedBy (d : Device) (hist : List Received) (x : BoundScreen) : Prop where
  readable : ∀ c ∈ createsOf hist, (HoldingParser.readCreate d c).isSome = true
  few : (holdingTextsOf hist).length ≤ 4
  instrument : ∀ i ∈ (holdingTextsOf hist).filterMap HoldingText.instrument,
    ∀ j ∈ (holdingTextsOf hist).filterMap HoldingText.instrument, i = j
  contracts : (usedContractsOf hist).toFinset.card ≤ 32
  disclosed : ∀ id ∈ disclosedOf hist, id ∈ usedContractsOf hist
  allows : x.Allows (holdingTextsOf hist)

/-- The bind of a screen. -/
def bindCall (c : DisplayConfig) (fs : List TxField) : ValuesCall :=
  .bind fs c.destination c.amountCheck

theorem recordedOf_append (cs cs' : List ValuesCall) :
    recordedOf (cs ++ cs') = recordedOf cs ++ recordedOf cs' := List.filterMap_append

theorem holdingsOf_append (cs cs' : List ValuesCall) :
    holdingsOf (cs ++ cs') = holdingsOf cs ++ holdingsOf cs' := List.filterMap_append

theorem recordedOf_createCalls (cs : List Create) :
    recordedOf (cs.flatMap (createCalls d)) = [] := by
  induction cs with
  | nil => rfl
  | cons c cs ih =>
    rw [List.flatMap_cons, recordedOf_append, ih, List.append_nil]
    unfold createCalls
    split
    · rfl
    · cases holdingTextOf c <;> rfl

/-- The contracts that the calls record are those that the nodes use. -/
theorem recordedOf_history (hist : List Received) :
    recordedOf (historyCalls d hist) = usedContractsOf hist := by
  induction hist with
  | nil => rfl
  | cons r hist ih =>
    rw [historyCalls_cons, recordedOf_append, ih]
    cases r with
    | header | metadata => rfl
    | contract ic =>
      have hnone : recordedOf (contractCalls ic) = [] := by
        simp [recordedOf, contractCalls, List.filterMap_map, Function.comp_def,
          ValuesCall.recorded?]
      rw [receivedCalls, hnone]
      rfl
    | node part =>
      have hused : recordedOf (partCalls d part) =
          (nodeKinds part).filterMap NodeKind.usedContract := by
        rw [partCalls, recordedOf_append, recordedOf_createCalls, List.append_nil, recordedOf,
          List.filterMap_map]
        rfl
      rw [receivedCalls, hused]
      rfl

theorem createsOf_cons (r : Received) (hist : List Received) :
    createsOf (r :: hist) = createsOf [r] ++ createsOf hist := createsOf_append [r] hist

/-- The holdings that are reported, if every create node can be read. -/
theorem holdingsOf_history
    (hread : ∀ c ∈ createsOf hist, (HoldingParser.readCreate d c).isSome = true) :
    holdingsOf (historyCalls d hist) = holdingTextsOf hist := by
  have hcreates : ∀ cs : List Create, (∀ c ∈ cs, (HoldingParser.readCreate d c).isSome = true) →
      holdingsOf (cs.flatMap (createCalls d)) = cs.filterMap holdingTextOf := by
    intro cs hcs
    induction cs with
    | nil => rfl
    | cons c cs ih =>
      obtain ⟨r, hr⟩ := Option.isSome_iff_exists.mp (hcs c List.mem_cons_self)
      rw [List.flatMap_cons, holdingsOf_append, ih fun x hx => hcs x (List.mem_cons_of_mem _ hx),
        createCalls, hr]
      cases hc : holdingTextOf c <;> simp [holdingsOf, hc, HoldingText.call, ValuesCall.holding?]
  induction hist with
  | nil => rfl
  | cons r hist ih =>
    rw [createsOf_cons] at hread
    rw [historyCalls_cons, holdingsOf_append,
      ih fun c hc => hread c (List.mem_append_right _ hc)]
    show _ = (createsOf (r :: hist)).filterMap holdingTextOf
    rw [createsOf_cons, List.filterMap_append]
    refine congrArg (· ++ holdingTextsOf hist) ?_
    cases r with
    | header | metadata => rfl
    | contract ic =>
      simp [receivedCalls, contractCalls, holdingsOf, List.filterMap_map, Function.comp_def,
        ValuesCall.holding?, createsOf, nodesOf]
    | node part =>
      have hpart : createsOf [.node part] = HoldingParser.createNodes (nodeKinds part) := by
        simp [createsOf, nodesOf]
      have hused : holdingsOf ((nodeKinds part).map fun k => .recordUsed k.usedContract) = [] := by
        simp [holdingsOf, List.filterMap_map, Function.comp_def, ValuesCall.holding?]
      rw [hpart] at hread ⊢
      rw [receivedCalls, partCalls, holdingsOf_append, hused, List.nil_append]
      exact hcreates _ fun c hc => hread c (List.mem_append_left _ hc)

/-- The calls report no failure if every create node can be read. -/
theorem accounted_history :
    (∀ x ∈ historyCalls d hist, x.isFailure = false) ↔
      ∀ c ∈ createsOf hist, (HoldingParser.readCreate d c).isSome = true := by
  -- only a create node that cannot be read makes a call that is a failure
  have hcreate : ∀ c : Create, (∀ x ∈ createCalls d c, x.isFailure = false) ↔
      (HoldingParser.readCreate d c).isSome = true := by
    intro c
    unfold createCalls
    cases hr : HoldingParser.readCreate d c with
    | none => simp [ValuesCall.isFailure]
    | some r => cases holdingTextOf c <;> simp [HoldingText.call, ValuesCall.isFailure]
  have hreceived : ∀ r : Received, (∀ x ∈ receivedCalls d r, x.isFailure = false) ↔
      ∀ c ∈ createsOf [r], (HoldingParser.readCreate d c).isSome = true := by
    intro r
    cases r with
    | header | metadata => simp [receivedCalls, createsOf, nodesOf]
    | contract ic => simp [receivedCalls, contractCalls, createsOf, nodesOf, ValuesCall.isFailure]
    | node part =>
      simp only [receivedCalls, partCalls, createsOf, nodesOf, List.mem_append, List.mem_map,
        List.mem_flatMap, List.filterMap_cons, List.filterMap_nil, List.flatMap_cons,
        List.flatMap_nil, List.append_nil]
      constructor
      · exact fun h c hc => (hcreate c).mp fun x hx => h x (.inr ⟨c, hc, hx⟩)
      · rintro h x (⟨k, -, rfl⟩ | ⟨c, hc, hx⟩)
        · rfl
        · exact (hcreate c).mpr (h c hc) x hx
  have hsplit : createsOf hist = hist.flatMap fun r => createsOf [r] := by
    induction hist with
    | nil => rfl
    | cons r hist ih =>
      rw [List.flatMap_cons, ← ih]
      exact createsOf_cons r hist
  rw [hsplit]
  simp only [historyCalls, List.mem_flatMap, forall_exists_index, and_imp]
  constructor
  · exact fun h c r hr hc => (hreceived r).mp (fun x hx => h x r hr hx) c hc
  · exact fun h x r hr hx => (hreceived r).mpr (fun c hc => h c r hr hc) x hx

/-- The contracts that the calls check are the disclosed ones. -/
theorem disclosed_mem {id : Bytes} :
    .disclosed (some id) ∈ historyCalls d hist ↔ id ∈ disclosedOf hist := by
  have hnode : ∀ part, ValuesCall.disclosed (some id) ∉ partCalls d part := by
    intro part hmem
    rcases List.mem_append.mp hmem with hmem | hmem
    · obtain ⟨k, -, hk⟩ := List.mem_map.mp hmem
      cases hk
    · obtain ⟨c, -, hc⟩ := List.mem_flatMap.mp hmem
      unfold createCalls at hc
      split at hc
      · cases List.mem_singleton.mp hc
      · obtain ⟨h, -, hh⟩ := List.mem_map.mp hc
        cases hh
  simp only [historyCalls, List.mem_flatMap, disclosedOf, contractsOf, List.mem_filterMap]
  constructor
  · rintro ⟨r, hr, hid⟩
    cases r with
    | header | metadata => cases hid
    | node part => exact absurd hid (hnode part)
    | contract ic =>
      obtain ⟨c, hc, heq⟩ := List.mem_map.mp hid
      exact ⟨ic, ⟨_, hr, rfl⟩, c, hc, ValuesCall.disclosed.inj heq⟩
  · rintro ⟨ic, ⟨r, hr, hic⟩, c, hc, hid⟩
    cases r with
    | header | metadata | node => cases hic
    | contract ic' =>
      cases hic
      exact ⟨_, hr, List.mem_map.mpr ⟨c, hc, congrArg _ hid⟩⟩

/-- Calls that check nothing come before the first check. -/
theorem recorded_before {cs cs' before after : List ValuesCall} {x : ValuesCall}
    (h : cs ++ cs' = before ++ x :: after) (hx : x ∉ cs) {id : Bytes} (hid : id ∈ recordedOf cs) :
    id ∈ recordedOf before := by
  rcases List.append_eq_append_iff.mp h with ⟨l, rfl, -⟩ | ⟨l, rfl, hl⟩
  · rw [recordedOf_append]
    exact List.mem_append_left _ hid
  · cases l with
    | nil => simpa using hid
    | cons y l =>
      obtain ⟨rfl, -⟩ := List.cons.inj hl
      exact absurd (by simp) hx

/-- The calls of a flow with its screen are fine exactly if its parts are. -/
theorem fine_history (c : DisplayConfig) (fs : List TxField)
    (horder : ∃ before after, hist = before ++ after ∧ contractsOf before = [] ∧
      nodesOf after = []) :
    Fine (historyCalls d hist ++ [bindCall c fs]) ↔
      (∀ c ∈ createsOf hist, (HoldingParser.readCreate d c).isSome = true) ∧
      (holdingTextsOf hist).length ≤ 4 ∧
      (∀ i ∈ (holdingTextsOf hist).filterMap HoldingText.instrument,
        ∀ j ∈ (holdingTextsOf hist).filterMap HoldingText.instrument, i = j) ∧
      (usedContractsOf hist).toFinset.card ≤ 32 ∧
      ∀ id ∈ disclosedOf hist, id ∈ usedContractsOf hist := by
  rw [fine_concat, and_iff_left (show Admits _ (bindCall c fs) from trivial)]
  -- contracts are checked after all nodes, so it makes no difference where a contract was
  -- recorded
  have hdisclosed : (∀ before id after, historyCalls d hist =
      before ++ .disclosed (some id) :: after → id ∈ recordedOf before) ↔
      ∀ id ∈ disclosedOf hist, id ∈ usedContractsOf hist := by
    constructor
    · intro h id hid
      obtain ⟨before, after, heq⟩ := List.append_of_mem ((disclosed_mem (d := d)).mpr hid)
      rw [← recordedOf_history (d := d), heq, recordedOf_append]
      exact List.mem_append_left _ (h before id after heq)
    · rintro h before id after heq
      obtain ⟨nodes, contracts, rfl, hcontracts, hnodes⟩ := horder
      have hid : id ∈ disclosedOf (nodes ++ contracts) := by
        rw [← disclosed_mem (d := d), heq]
        simp
      have hused : id ∈ recordedOf (historyCalls d nodes) := by
        have hmem := h id hid
        rw [usedContractsOf, nodesOf_append, hnodes, List.append_nil] at hmem
        rw [recordedOf_history]
        exact hmem
      rw [historyCalls_append] at heq
      refine recorded_before heq (fun hmem => ?_) hused
      rw [disclosed_mem, disclosedOf, hcontracts] at hmem
      cases hmem
  constructor
  · intro h
    -- each clause of `Fine` is one of the parts, read through the calls
    have hread := accounted_history.mp h.accounted
    refine ⟨hread, ?_, ?_, ?_, hdisclosed.mp h.disclosed⟩
    · rw [← holdingsOf_history hread]
      exact h.few
    · rw [← holdingsOf_history hread]
      exact h.instrument
    · rw [← recordedOf_history (d := d)]
      exact h.contracts
  · rintro ⟨hread, hfew, hinstrument, hcontracts, hused⟩
    refine ⟨accounted_history.mpr hread, ?_, ?_, ?_, hdisclosed.mpr hused⟩
    · rw [holdingsOf_history hread]
      exact hfew
    · rw [instrumentsOf, holdingsOf_history hread]
      exact hinstrument
    · rw [recordedOf_history]
      exact hcontracts

/-- Only holdings that create nodes write are reported. -/
theorem holdingsOf_subset {x : HoldingText} (hx : x ∈ holdingsOf (historyCalls d hist)) :
    x ∈ holdingTextsOf hist := by
  obtain ⟨call, hcall, hholding⟩ := List.mem_filterMap.mp hx
  obtain ⟨r, hr, hcall⟩ := List.mem_flatMap.mp hcall
  cases r with
  | header | metadata => cases hcall
  | contract ic =>
    obtain ⟨c, -, rfl⟩ := List.mem_map.mp hcall
    cases hholding
  | node part =>
    rcases List.mem_append.mp hcall with hcall | hcall
    · obtain ⟨k, -, rfl⟩ := List.mem_map.mp hcall
      cases hholding
    · obtain ⟨c, hc, hcall⟩ := List.mem_flatMap.mp hcall
      unfold createCalls at hcall
      split at hcall
      · rw [List.mem_singleton.mp hcall] at hholding
        cases hholding
      · obtain ⟨t, ht, rfl⟩ := List.mem_map.mp hcall
        obtain rfl : t = x := Option.some.inj hholding
        refine List.mem_filterMap.mpr ⟨c, ?_, Option.mem_toList.mp ht⟩
        exact List.mem_flatMap.mpr ⟨part, List.mem_filterMap.mpr ⟨_, hr, rfl⟩, hc⟩

/-! ## The verdict -/

/-- Digests separate the contracts of a transaction, and the texts of its holdings and its
screen. -/
structure Separates (d : Device) (hist : List Received) (x : BoundScreen) : Prop where
  contracts : Set.InjOn (contractDigest d) {id | id ∈ usedContractsOf hist ∨ id ∈ disclosedOf hist}
  texts : Set.InjOn d.sha {t | (∃ h ∈ holdingTextsOf hist, t ∈ h.texts) ∨ t ∈ x.texts}

variable {values : ValuesStore} {c : DisplayConfig} {fs : List TxField}

/-- The verdict is that of the calls and one bind of the screen. -/
theorem Follows.verdict {calls : List ValuesCall} (h : Follows d calls values)
    (hscreen : values.screen = boundScreen d fs c) :
    valuesVerdict values = valuesVerdict (valuesAfter d (calls ++ [bindCall c fs])) := by
  rw [valuesAfter_concat]
  cases hok : values.ok with
  | false =>
    have hstop : ((bindCall c fs).run d (valuesAfter d calls)).ok = false := h.ok.symm.trans hok
    simp [valuesVerdict, hok, hstop]
  | true =>
    refine congrArg valuesVerdict ?_
    have hused := h.used hok
    have hcollected := h.collected hok
    have hsame := h.ok
    cases values
    simp only [ValuesStore.screen, ValuesStore.collected, boundScreen, valuesBindFromDisplay,
      Prod.mk.injEq] at hscreen hcollected
    simp_all [bindCall, ValuesCall.run, valuesBindFromDisplay]

theorem lastScreen_bindCall (calls : List ValuesCall) :
    lastScreen d (calls ++ [bindCall c fs]) = some (boundScreenOf d c fs) := lastScreen_concat

theorem Separates.injOn_contractIds (h : Separates d hist (boundScreenOf d c fs)) :
    Set.InjOn (contractDigest d) (contractIdsOf (historyCalls d hist ++ [bindCall c fs])) := by
  refine h.contracts.mono fun id hid => ?_
  rcases hid with hid | hid
  · left
    rw [← recordedOf_history (d := d)]
    refine List.mem_filterMap.mpr ⟨.recordUsed (some id), ?_, rfl⟩
    simpa [bindCall] using hid
  · right
    rw [← disclosed_mem (d := d)]
    simpa [bindCall] using hid

theorem holdingsOf_bindCall (calls : List ValuesCall) :
    holdingsOf (calls ++ [bindCall c fs]) = holdingsOf calls := by
  rw [holdingsOf_concat]
  exact List.append_nil _

theorem Separates.injOn_texts (h : Separates d hist (boundScreenOf d c fs)) :
    Set.InjOn d.sha (textsOf d (historyCalls d hist ++ [bindCall c fs])) := by
  refine h.texts.mono fun t ht => ?_
  rcases ht with ⟨x, hx, ht⟩ | ⟨x, hx, ht⟩
  · rw [holdingsOf_bindCall] at hx
    exact .inl ⟨x, holdingsOf_subset hx, ht⟩
  · rw [lastScreen_bindCall] at hx
    cases hx
    exact .inr ht

/-- **The verdict on a screen is what the parts say**, where digests separate their strings. -/
theorem verdict_history (horder : ∃ before after, hist = before ++ after ∧
      contractsOf before = [] ∧ nodesOf after = [])
    (hsep : Separates d hist (boundScreenOf d c fs)) :
    valuesVerdict (valuesAfter d (historyCalls d hist ++ [bindCall c fs])) = true ↔
      ClearedBy d hist (boundScreenOf d c fs) := by
  have htexts := hsep.injOn_texts
  obtain ⟨htracks, hfine⟩ :=
    run_tracks hsep.injOn_contractIds (htexts.mono instrumentTexts_subset)
  have hshows : HoldsScreen d _ (valuesAfter d (historyCalls d hist ++ [bindCall c fs])) :=
    run_shows
  rw [lastScreen_bindCall] at hshows
  have hallows : ∀ h : Fine (historyCalls d hist ++ [bindCall c fs]),
      valuesVerdict (valuesAfter d (historyCalls d hist ++ [bindCall c fs])) = true ↔
        (boundScreenOf d c fs).Allows (holdingsOf (historyCalls d hist)) := by
    intro h
    rw [← @holdingsOf_bindCall c fs]
    exact allows_iff h (htracks h) (lastScreen_bindCall _) hshows htexts
  constructor
  · intro hverdict
    -- A store that has given up allows nothing, so no call was refused.
    have hok : (valuesAfter d (historyCalls d hist ++ [bindCall c fs])).ok = true := by
      by_contra hok
      simp [valuesVerdict, hok] at hverdict
    obtain ⟨hread, hfew, hinstrument, hcontracts, hused⟩ :=
      (fine_history c fs horder).mp (hfine hok)
    refine ⟨hread, hfew, hinstrument, hcontracts, hused, ?_⟩
    rw [← holdingsOf_history hread]
    exact (hallows (hfine hok)).mp hverdict
  · intro h
    have hcalls : Fine (historyCalls d hist ++ [bindCall c fs]) := (fine_history c fs horder).mpr
      ⟨h.readable, h.few, h.instrument, h.contracts, h.disclosed⟩
    rw [hallows hcalls, holdingsOf_history h.readable]
    exact h.allows

/-! ## In the app -/

/-- A last part that is accepted starts the review. -/
theorem startReview_of_accepted {a : App} {e : Event} {buf : Bytes}
    (htype : a.signingType = .preparedTransaction) (hopen : a.tx.mHashLen ≠ 32)
    (hmsg : messageOf d a e = some (true, buf))
    (hacc : processPreparedTxPart d true a.prepared buf = (st', 0)) :
    a.reqType = .confirmTransaction ∧
      ∃ raw, step d a e = startReview ((a.atMessage raw true).setPrepared st') := by
  cases hreq : request a e with
  | next more msgEnd data =>
    rcases step_next_cases (d := d) hreq with ⟨h, -⟩ | ⟨h, -⟩ |
      ⟨hconf, parsed, raw, buf₁, hmsg₁, hstep⟩
    · cases hmsg.symm.trans h
    · cases hmsg.symm.trans h
    · obtain ⟨rfl, rfl⟩ := Prod.mk.inj (Option.some.inj (hmsg.symm.trans hmsg₁))
      have hprocess := @processMessage_atMessage d a raw buf true htype
      rw [hacc] at hprocess
      refine ⟨hconf, raw, ?_⟩
      have hheader : (a.atMessage raw true).headerOverwritten = false :=
        headerOverwritten_of_open hopen
      rw [hstep, processAndAnswer_eq hheader, hprocess]
      rfl
  | untouched | getPublicKey | first | decide =>
    rw [messageOf_eq_none (by simp [hreq])] at hmsg
    cases hmsg

/-- **What clears a transaction**: the part that finalises a transaction with a filled screen ends
in a clear review if and only if the parts of the transaction say what the screen shows, where
digests separate their strings; and without a screen it does not. -/
theorem finalised_review_iff {es : List Event} {a : App} {log : List PartEvent} {e : Event}
    {buf : Bytes} (h : (loggedApp d).Reach anyEvent es (a, log))
    (htype : a.signingType = .preparedTransaction) (hmsg : messageOf d a e = some (true, buf))
    (hacc : processPreparedTxPart d true a.prepared buf = (st', 0))
    (hopen : a.tx.mHashLen ≠ 32) (hfinal : st'.mHashLen = 32) :
    ∃ hist pre, (recorded d).Reach anyEvent (log ++ [.part true buf]) (st', hist) ∧
      FinalisedFrom d a.prepared buf pre ∧ st' = pre.finalized d ∧
      (pre.review.clearSigningAvailable = false → (step d a e).2.isClearReview = false) ∧
      (pre.review.clearSigningAvailable = true → ∃ s c fs, BoundTo d pre hist s c fs ∧
        (Separates d hist (boundScreenOf d c fs) →
          ((step d a e).2.isClearReview = true ↔ ClearedBy d hist (boundScreenOf d c fs)))) := by
  obtain ⟨hconf, raw, hstart⟩ := startReview_of_accepted htype hopen hmsg hacc
  have hclear : (step d a e).2.isClearReview = st'.review.clearSigningAvailable := by
    rw [hstart]
    exact startReview_isClear hconf rfl
  have hlogged : (loggedApp d).Reach (onMessages d fun _ _ _ _ => True) es (a, log) :=
    h.mono fun _ _ _ _ _ _ _ => trivial
  -- the history of the flow, with the message that finalises it
  obtain ⟨hist, hreach⟩ := recorded_of_loggedApp hlogged ⟨hconf, htype⟩
  have hstep : (recorded d).step (a.prepared, hist) (.part true buf) =
      some (st', nextHistory a.prepared hist (.part true buf)) := by
    simp [recorded, receiving, hacc]
  obtain ⟨new, hnew, hrecorded⟩ := recorded_step_cases hstep
  rw [hnew] at hstep
  have hreach' : (recorded d).Reach anyEvent (log ++ [.part true buf]) (st', hist ++ new) :=
    .step (hreach.mono fun _ _ _ => trivial) trivial hstep
  obtain ⟨pre, hfrom, hresult, hfollows, hscreen⟩ :=
    finalised_from hreach hrecorded hopen hfinal
  -- the clear review is the verdict of the values, and this the one on the calls
  have hiff := finalized_review_iff (d := d) pre
  rw [← hresult, ← hclear] at hiff
  refine ⟨hist ++ new, pre, hreach', hfrom, hresult, fun hoff => ?_, fun hon => ?_⟩
  · rw [← Bool.not_eq_true, hiff, hoff]
    exact fun h => Bool.false_ne_true h.1
  · obtain ⟨s, c, fs, hbound⟩ := hscreen hon
    refine ⟨s, c, fs, hbound, fun hsep => ?_⟩
    rw [hiff, and_iff_right hon, hfollows.verdict hbound.screen]
    exact verdict_history (callsInv_of_reach hreach').order hsep

/-- A text of a holding is that of a slot. -/
theorem holdingTextOf_slot {cr : Create} {x : HoldingText} (h : holdingTextOf cr = some x)
    {t : Bytes} (ht : t ∈ x.texts) : ∃ slot, createString slot cr = some t := by
  obtain ⟨owner, howner, h⟩ := Option.bind_eq_some_iff.mp h
  obtain ⟨amount, hamount, h⟩ := Option.bind_eq_some_iff.mp h
  obtain ⟨admin, hadmin, h⟩ := Option.bind_eq_some_iff.mp h
  obtain rfl := Option.some.inj h
  simp only [HoldingText.texts, List.mem_append, List.mem_cons, List.not_mem_nil, or_false,
    Option.mem_toList] at ht
  rcases ht with (rfl | rfl | rfl) | ht
  · exact ⟨.owner, howner⟩
  · exact ⟨.amount, hamount⟩
  · exact ⟨.admin, hadmin⟩
  · exact ⟨.instrument, ht⟩

/-- A text that is bound is shown in a role. -/
theorem boundScreenOf_role {t : Bytes} (ht : t ∈ (boundScreenOf d c fs).texts) :
    ∃ role, role ≠ .other ∧ shownText d fs role = some t := by
  simp only [BoundScreen.texts, boundScreenOf, List.mem_append, Option.mem_toList] at ht
  rcases ht with (((ht | ht) | ht) | ht) | ht
  · cases hdest : c.destination with
    | sender => exact ⟨.sender, by decide, by simpa [hdest] using ht⟩
    | receiver => exact ⟨.receiver, by decide, by simpa [hdest] using ht⟩
    | none => simp [hdest] at ht
  · split_ifs at ht
    exact ⟨.amount, by decide, ht⟩
  · exact ⟨.admin, by decide, ht⟩
  · exact ⟨.sender, by decide, ht⟩
  · exact ⟨.instrument, by decide, ht⟩

/-- The contracts that the messages use and disclose. -/
def sentContractIds (es : List PartEvent) : List Bytes :=
  ((sentNodes es).flatMap fun part => (nodeKinds part).filterMap NodeKind.usedContract) ++
    (sentContracts es).flatMap fun ic => ic.v1.filterMap (·.contractId)

/-- Digests that tell the texts and the contracts of the messages apart separate the strings of
a transaction. -/
theorem separates_of_apart {s : DisplayParser.Ctx}
    {ok : Prepared × List Received → PartEvent → Prop}
    {es : List PartEvent} (hapart : TextsApart d es)
    (hids : ((sentContractIds es).dedup.map (contractDigest d)).Nodup)
    (h : (recorded d).Reach ok es (st', hist)) (hbound : BoundTo d st hist s c fs) :
    Separates d hist (boundScreenOf d c fs) := by
  have hc : c ∈ displayConfigs := (hbound.inv.1 c hbound.shows.conf).1
  have hshown : ∀ role ≠ .other, ∀ t, shownText d fs role = some t → t ∈ sentTexts es :=
    fun role hrole t ht => shown_sent h hbound (hapart.legible c hc) hrole ht
  constructor
  · have hsent : ∀ id, id ∈ usedContractsOf hist ∨ id ∈ disclosedOf hist →
        id ∈ (sentContractIds es).dedup := by
      intro id hid
      rw [List.mem_dedup]
      rcases hid with hid | hid
      · obtain ⟨part, hpart, hid⟩ := List.mem_flatMap.mp hid
        exact List.mem_append_left _ (List.mem_flatMap.mpr ⟨part, nodesOf_subset_sent h hpart, hid⟩)
      · obtain ⟨ic, hic, hid⟩ := List.mem_flatMap.mp hid
        exact List.mem_append_right _ (List.mem_flatMap.mpr ⟨ic, contractsOf_subset_sent h hic,
          hid⟩)
    exact fun id hid id' hid' heq =>
      List.inj_on_of_nodup_map hids (hsent id hid) (hsent id' hid') heq
  · refine hapart.injOn.mono fun t ht => ?_
    rcases ht with ⟨x, hx, ht⟩ | ht
    · obtain ⟨cr, hcr, htext⟩ := List.mem_filterMap.mp hx
      obtain ⟨slot, hslot⟩ := holdingTextOf_slot htext ht
      exact created_sent h hcr hslot
    · obtain ⟨role, hrole, hrolet⟩ := boundScreenOf_role ht
      exact hshown role hrole t hrolet

/-- The acceptance of an offer is cleared by its parts. -/
theorem finalised_review_iff_acceptance : ∃ a log st hist pre s c fs,
    (loggedApp testDevice).Reach anyEvent (preparedFlow acceptance) (a, log) ∧
      (step testDevice a (lastPart acceptedOffer)).2.isClearReview = true ∧
      (recorded testDevice).Reach anyEvent (log ++ [.part true acceptedOffer]) (st, hist) ∧
      FinalisedFrom testDevice a.prepared acceptedOffer pre ∧ st = pre.finalized testDevice ∧
      BoundTo testDevice pre hist s c fs ∧
      ClearedBy testDevice hist (boundScreenOf testDevice c fs) := by
  obtain ⟨a, log, hreach, hp⟩ := exists_reach_loggedApp testDevice (preparedFlow acceptance)
    (fun s => decide (s.1.signingType = .preparedTransaction) &&
      decide (s.2 = acceptance.map (.part false)) &&
      decide (messageOf testDevice s.1 (lastPart acceptedOffer) = some (true, acceptedOffer)) &&
      decide ((processPreparedTxPart testDevice true s.1.prepared acceptedOffer).2 = 0) &&
      decide (s.1.tx.mHashLen ≠ 32) &&
      decide ((processPreparedTxPart testDevice true s.1.prepared acceptedOffer).1.mHashLen = 32) &&
      (step testDevice s.1 (lastPart acceptedOffer)).2.isClearReview) (by decide +kernel)
  simp only [Bool.and_eq_true, decide_eq_true_eq] at hp
  obtain ⟨⟨⟨⟨⟨⟨htype, rfl⟩, hmsg⟩, hword⟩, hopen⟩, hfinal⟩, hclear⟩ := hp
  obtain ⟨hist, pre, hrec, hfrom, hresult, hoff, hon⟩ :=
    finalised_review_iff hreach htype hmsg (Prod.ext rfl hword) hopen hfinal
  have hscreen : pre.review.clearSigningAvailable = true := by
    by_contra hnone
    rw [Bool.not_eq_true] at hnone
    exact absurd (hclear.symm.trans (hoff hnone)) (by decide)
  obtain ⟨s, c, fs, hbound, hiff⟩ := hon hscreen
  have hids : ((sentContractIds acceptanceParts).dedup.map (contractDigest testDevice)).Nodup := by
    decide +kernel
  have hsep := separates_of_apart textsApart_acceptance hids hrec hbound
  exact ⟨a, _, _, hist, pre, s, c, fs, hreach, hclear, hrec, hfrom, hresult, hbound,
    (hiff hsep).mp hclear⟩

end CantonSigner
