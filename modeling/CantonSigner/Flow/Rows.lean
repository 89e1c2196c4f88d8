import CantonSigner.Flow.Filled

/-!
# The rows of a clear review

A clear review is started on the flag `clear_signing_available` and shows `pairs`. A topology
flow sets the rows with its mapping and the flag with its last message, a prepared transaction
both with its screen.

`own_rows_iff` says of every clear review of every run whether it shows complete rows of
its own flow: exactly if no decision has freed them.
-/

namespace CantonSigner

open ByteCodec DisplayParser

variable {d : Device} {st st' : Prepared} {hist new : List Received} {e : PartEvent}
variable {a : App} {log : List PartEvent} {freed : Bool} {ev : Event}

/-! ## Topology flows -/

/-- The rows are those of a mapping that the flow received. -/
def MappingRows (d : Device) (log : List PartEvent) (rows : List Pair) : Prop :=
  ∃ parsed buf m key first second, PartEvent.part parsed buf ∈ log ∧
    d.decodeTopologyTransaction buf = some (adds (.partyToParticipant m)) ∧
    ParticipantsChecked d key m first second ∧
    rows = onboardingRows (partyIdFromPubkey d key) first second

theorem MappingRows.append {rows : List Pair} (h : MappingRows d log rows)
    (log' : List PartEvent) : MappingRows d (log ++ log') rows := by
  obtain ⟨parsed, buf, m, key, first, second, hmem, hrest⟩ := h
  exact ⟨parsed, buf, m, key, first, second, List.mem_append_left _ hmem, hrest⟩

/-- The rows of an open topology flow. -/
structure TopologyRows (d : Device) (t : Topology) (log : List PartEvent) : Prop where
  flag : t.review.clearSigningAvailable = false
  before : t.hasParsedPartyToParticipant = false → NoRows t
  after : t.hasParsedPartyToParticipant = true → t.review.pairs = none ∨
    ∃ rows, t.review.pairs = some rows ∧ MappingRows d log rows

theorem topologyRows_started (key : Bytes) (challenge : Option Bytes) :
    TopologyRows d (.start key challenge) [] :=
  ⟨rfl, fun _ => .inr rfl, nofun⟩

variable {t t' : Topology}

theorem TopologyRows.append (h : TopologyRows d t log) (log' : List PartEvent) :
    TopologyRows d t (log ++ log') := by
  refine ⟨h.flag, h.before, fun hparsed => ?_⟩
  rcases h.after hparsed with hnone | ⟨rows, hpairs, hrows⟩
  · exact .inl hnone
  · exact .inr ⟨rows, hpairs, hrows.append log'⟩

/-- A message that is accepted. -/
theorem topologyRows_parse {parsed : Bool} {buf : Bytes} (h : TopologyRows d t log)
    (hparse : parseTopologyTransactionForDisplay d t buf = .ok t') :
    TopologyRows d t' (log ++ [.part parsed buf]) := by
  have hlater := h.append [.part parsed buf]
  unfold parseTopologyTransactionForDisplay at hparse
  split at hparse
  · cases hparse
  · rename_i tt hdec
    split at hparse
    · cases hparse
      exact hlater
    · rename_i m hm
      split at hparse
      · cases hparse
      · rename_i hop
        split at hparse
        · obtain ⟨rfl, -⟩ := processNamespaceDelegation_ok hparse
          exact ⟨hlater.flag, hlater.before, hlater.after⟩
        · rename_i m
          obtain ⟨first, second, hchecked, ht'⟩ :=
            processPartyToParticipant_ok (emptyRows_of_mapping h.before hparse) hparse
          rw [ht']
          refine ⟨h.flag, nofun, fun _ => .inr ⟨_, rfl, parsed, buf, m, t.signature.take 32, first,
            second, by simp, ?_, hchecked, by rw [partyIdFromPubkey_take]⟩⟩
          obtain ⟨op, mapping⟩ := tt
          have hop : op = topologyChangeOpAddReplace := by simpa using hop
          have hm : mapping = some (.partyToParticipant m) := hm
          rw [hdec, hop, hm]
          rfl
        · obtain ⟨rfl, -⟩ := processPartyToKeyMapping_ok hparse
          exact ⟨hlater.flag, hlater.before, hlater.after⟩
        · cases hparse

/-- A clear onboarding review needs the mapping, and shows the rows as they are. -/
theorem finishTopology_clear {hashes : List Bytes} (h : finishTopology d t hashes = .ok t')
    (hoff : t.review.clearSigningAvailable = false)
    (hclear : t'.review.clearSigningAvailable = true) :
    t.hasParsedPartyToParticipant = true ∧ t'.review.pairs = t.review.pairs ∧
      t'.review.reviewTitle = some onboardingReviewTitle ∧
      t'.review.reviewFinish = some onboardingReviewFinish := by
  have hsign : ∀ s : Topology, (signChallenge d s).review = s.review ∧
      (signChallenge d s).hasParsedPartyToParticipant = s.hasParsedPartyToParticipant := by
    intro s
    unfold signChallenge
    split <;> exact ⟨rfl, rfl⟩
  unfold finishTopology at h
  dsimp only at h
  split at h
  · rename_i hall
    split at h
    · cases h
    · cases h
      simp only [Bool.and_eq_true] at hall
      refine ⟨?_, ?_, rfl, rfl⟩
      · rw [(hsign _).2] at hall
        exact hall.2
      · show (signChallenge d _).review.pairs = _
        rw [(hsign _).1]
        rfl
  · cases h
    rw [(hsign _).1] at hclear
    exact absurd (hoff.symm.trans hclear) (by decide)

/-- A message of an open flow: the rows after its mapping, and after the last message. -/
theorem topologyRows_message {parsed : Bool} {buf : Bytes} (h : TopologyRows d t log)
    (hok : processUntypedVersionedMsgTx d parsed t buf = .ok t') :
    ∃ t₁, TopologyRows d t₁ (log ++ [.part parsed buf]) ∧
      (t₁.review.pairs = none ↔ t.review.pairs = none) ∧
      if parsed then ∃ hashes, finishTopology d t₁ hashes = .ok t' else t' = t₁ := by
  unfold processUntypedVersionedMsgTx at hok
  split at hok
  · cases hok
  · rename_i hashes _
    split at hok
    · cases hok
    · dsimp only at hok
      split at hok
      · cases hok
      · cases hok
      · rename_i t₁ hparse
        have hrows : TopologyRows d
            { t with txHashes := some (hashes ++ [cantonHash d 11 buf]) } log :=
          ⟨h.flag, h.before, h.after⟩
        refine ⟨t₁, topologyRows_parse hrows hparse,
          (parseTopologyTransactionForDisplay_ok hrows.before hparse).2.1, ?_⟩
        cases parsed with
        | true => exact ⟨_, hok⟩
        | false =>
          cases hok
          rfl

theorem not_finished_of_append {log' : List PartEvent} (h : ¬ Finished (log ++ log')) :
    ¬ Finished log := fun hfin => h (finished_append.mpr (.inl hfin))

theorem topologyRelation_rows :
    TopologyRelation d fun _ t log => ¬ Finished log → TopologyRows d t log := by
  refine ⟨fun _ key challenge _ _ => topologyRows_started key.1 challenge, ?_, ?_⟩
  · intro path t log parsed buf t' h hok hopen
    obtain ⟨t₁, hrows, -, hend⟩ := topologyRows_message (h (not_finished_of_append hopen)) hok
    cases parsed with
    | true => exact absurd ⟨buf, by simp⟩ hopen
    | false =>
      simp only [Bool.false_eq_true, if_false] at hend
      exact hend ▸ hrows
  · intro path t log pairs signature h hpairs hopen
    have hopen' := not_finished_of_append hopen
    have hnone := hpairs hopen'
    subst hnone
    exact ⟨(h hopen').flag, fun _ => .inl rfl, fun _ => .inl rfl⟩

/-- The decisions of an open topology flow are those that freed its rows. -/
def FreedState (a : App) (log : List PartEvent) (freed : Bool) : Prop :=
  a.ReceivingTopology → ¬ Finished log → (freed = true ↔ Decided log)

theorem freedState_step (h : FreedState a log freed) :
    FreedState (step d a ev).1 (nextLog d a ev log) (nextFreed a ev freed) := by
  intro hr hopen
  cases hreq : request a ev with
  | untouched =>
    have hsame := (step_untouched (d := d) hreq).1
    simp only [nextLog, nextFreed, hreq] at hopen ⊢
    exact h ⟨hsame.reqType ▸ hr.1, hsame.signingType ▸ hr.2⟩ hopen
  | getPublicKey data display =>
    exact absurd ((getPublicKey_reqType hreq).symm.trans hr.1) (by decide)
  -- a first command has freed nothing
  | first type data =>
    simp only [nextLog, nextFreed, hreq]
    exact iff_of_false Bool.false_ne_true not_decided_nil
  | next more msgEnd data =>
    have hfreed : nextFreed a ev freed = freed := by simp [nextFreed, hreq]
    rw [hfreed]
    rcases step_next_cases (d := d) hreq with ⟨-, heq⟩ | ⟨hnone, hconf, heq⟩ |
      ⟨hconf, parsed, raw, buf, hmsg, heq⟩
    · rw [heq] at hr
      exact absurd hr.1 (by simp [refuseTx])
    · have hlog : nextLog d a ev log = log := by simp [nextLog, hreq, hnone]
      rw [heq] at hr
      rw [hlog] at hopen ⊢
      exact h ⟨hconf, hr.2⟩ hopen
    · have htype : a.signingType = .untypedVersionedMessage := by
        rw [heq] at hr
        exact (processAndAnswer_signingType hr.1).symm.trans hr.2
      simp only [nextLog, hreq, hmsg] at hopen ⊢
      -- a message that is not the last one takes no decision
      cases parsed with
      | true => exact absurd ⟨buf, by simp⟩ hopen
      | false =>
        have hdecided : Decided (log ++ [.part false buf]) ↔ Decided log := by simp [Decided]
        simp only [Bool.false_eq_true, if_false] at hopen ⊢
        rw [hdecided]
        exact h ⟨hconf, htype⟩ (not_finished_of_append hopen)
  -- a decision frees the rows and is logged
  | decide confirm =>
    have hframe := decide_frame (d := d) hreq
    have htype : a.signingType = .untypedVersionedMessage := by
      rw [hframe] at hr
      exact hr.2
    simp only [nextLog, nextFreed, hreq, App.keepsRows, htype]
    exact iff_of_true (by simp) (decided_append.mpr (.inr ⟨_, _, List.mem_singleton_self _⟩))

/-! ## Hash flows -/

/-- A hash is never signed on a clear review. -/
def HashState (a : App) : Prop :=
  a.reqType = .confirmTransaction → a.signingType = .hash →
    a.tx.review.clearSigningAvailable = false

theorem processTransactionHash_review (a : App) (buf : Bytes) :
    (processTransactionHash a buf).1.tx.review = a.tx.review := by
  unfold processTransactionHash
  split
  · rfl
  · split <;> rfl

/-- A first APDU leaves the flag off. -/
theorem startFlow_flag (type : SigningType) (data : Bytes) :
    (startFlow d a type data).1.tx.review.clearSigningAvailable = false := by
  unfold startFlow processFirstChunk
  dsimp only
  cases readBip32Path data with
  | none => rfl
  | some r =>
    obtain ⟨path, rest⟩ := r
    cases type with
    | hash => rfl
    | preparedTransaction => rfl
    | untypedVersionedMessage =>
      dsimp only [processUntypedVersionedMsgTxInit]
      cases derivePublicKey d path with
      | error e => rfl
      | ok key =>
        dsimp only
        cases (readChallengeAndDeadline rest).isSome <;> rfl

theorem hashState_step (h : HashState a) : HashState (step d a ev).1 := by
  intro hconf htype
  cases hreq : request a ev with
  | untouched =>
    have hsame := (step_untouched (d := d) hreq).1
    rw [hsame.tx]
    exact h (hsame.reqType ▸ hconf) (hsame.signingType ▸ htype)
  | getPublicKey data display =>
    exact absurd ((getPublicKey_reqType hreq).symm.trans hconf) (by decide)
  | first type data =>
    rw [step_first hreq]
    exact startFlow_flag type data
  | next more msgEnd data =>
    rcases step_next_cases (d := d) hreq with ⟨-, heq⟩ | ⟨-, hopen, heq⟩ |
      ⟨hopen, parsed, raw, buf, -, heq⟩
    · rw [heq] at hconf
      exact absurd hconf (by simp [refuseTx])
    · rw [heq] at htype ⊢
      exact h hopen htype
    · have hsign : a.signingType = .hash := by
        rw [heq] at hconf htype
        exact (processAndAnswer_signingType hconf).symm.trans htype
      have hoff := h hopen hsign
      -- The processor stores the hash, and the review of it is blind.
      have hreview : ∀ a₁, processMessage d (a.atMessage raw parsed) buf = some (a₁, 0) →
          a₁.tx.review = a.tx.review := by
        intro a₁ hm
        unfold processMessage at hm
        have hsign' : (a.atMessage raw parsed).signingType = .hash := hsign
        rw [hsign'] at hm
        have hfst : (processTransactionHash (a.atMessage raw parsed) buf).1 = a₁ :=
          congrArg Prod.fst (Option.some.inj hm)
        rw [← hfst, processTransactionHash_review]
        rfl
      rw [heq] at hconf ⊢
      rcases processAndAnswer_cases (d := d) (a.atMessage raw parsed) buf with
        (⟨-, hans⟩ | ⟨-, hans⟩) | ⟨a₁, sw, -, -, hans⟩ | ⟨a₁, hm, hp, hans⟩ | ⟨a₁, hm, -, hans⟩
      · rw [hans] at hconf
        cases hconf
      · rw [hans] at hconf
        cases hconf
      · rw [hans] at hconf
        cases hconf
      · have hframe := processMessage_frame hm
        have hopen₁ : a₁.reqType = .confirmTransaction := by rw [hframe]; exact hopen
        have hstate₁ : a₁.state = .parsed := by rw [hframe]; exact hp
        have hoff₁ : a₁.tx.review.clearSigningAvailable = false := by rw [hreview a₁ hm]; exact hoff
        rw [hans]
        rcases startReview_cases hopen₁ hstate₁ with ⟨hon, -⟩ | ⟨-, hs⟩ | ⟨-, hs⟩
        · exact absurd (hoff₁.symm.trans hon) (by decide)
        · rw [hs]
          exact hoff₁
        · rw [hs]
          exact hoff₁
      · rw [hans]
        show a₁.tx.review.clearSigningAvailable = false
        rw [hreview a₁ hm]
        exact hoff
  | decide confirm =>
    have hframe := decide_frame (d := d) hreq
    rw [hframe] at hconf htype ⊢
    exact h hconf htype

/-! ## Every clear review -/

/-- A clear review shows complete rows of its own flow under their title: rows are there, and
they were filled from a part of the flow, or set by its mapping. -/
def OwnRows (d : Device) (a : App) (log : List PartEvent) (ev : Event)
    (title finish : Option Bytes) (rows : List Pair) : Prop :=
  (step d a ev).1.tx.review.pairs = some rows ∧ rows ≠ [] ∧
    ∃ buf, messageOf d a ev = some (true, buf) ∧
      match a.signingType with
      | .preparedTransaction => ∃ st hist,
          (recorded d).Reach anyEvent (log ++ [.part true buf]) (st, hist) ∧
            FilledFrom d hist title finish rows
      | .untypedVersionedMessage => title = some onboardingReviewTitle ∧
          finish = some onboardingReviewFinish ∧ MappingRows d (log ++ [.part true buf]) rows
      | .hash => False

theorem states_of_reach {es : List Event} (h : (freedApp d).Reach anyEvent es ((a, log), freed)) :
    RowsState d a log freed ∧ FreedState a log freed ∧ HashState a := by
  refine h.invariant (P := fun _ s => RowsState d s.1.1 s.1.2 s.2 ∧ FreedState s.1.1 s.1.2 s.2 ∧
    HashState s.1.1) ?_ ?_
  · rintro ⟨⟨a, log⟩, freed⟩ ⟨⟨allow, hinit⟩, -⟩
    cases hinit
    have hclosed : (App.powerUp allow).reqType ≠ .confirmTransaction := nofun
    exact ⟨fun hr => absurd hr.1 hclosed, fun hr => absurd hr.1 hclosed,
      fun hr => absurd hr hclosed⟩
  · rintro es ⟨⟨a, log⟩, freed⟩ e s' ⟨hrows, hfreed, hhash⟩ - hstep
    cases hstep
    exact ⟨rowsState_step hrows, freedState_step hfreed, hashState_step hhash⟩

section Message

variable {raw buf : Bytes} {a₁ : App}

/-- The processor of a hash does not touch the flag. -/
theorem hash_unclear (h : HashState a) (hconf : a.reqType = .confirmTransaction)
    (htype : a.signingType = .hash)
    (hm : processMessage d (a.atMessage raw true) buf = some (a₁, 0)) :
    a₁.tx.review.clearSigningAvailable = false := by
  unfold processMessage at hm
  have hsign : (a.atMessage raw true).signingType = .hash := htype
  rw [hsign] at hm
  have hfst : (processTransactionHash (a.atMessage raw true) buf).1 = a₁ :=
    congrArg Prod.fst (Option.some.inj hm)
  rw [← hfst, processTransactionHash_review]
  exact h hconf htype

/-- The last part of a prepared flow: freed rows are gone, others are of a part of the flow. -/
theorem preparedRows (h : RowsState d a log freed) (hconf : a.reqType = .confirmTransaction)
    (htype : a.signingType = .preparedTransaction)
    (hm : processMessage d (a.atMessage raw true) buf = some (a₁, 0))
    (hflag : a₁.tx.review.clearSigningAvailable = true) :
    (freed = true → a₁.tx.review.pairs = none) ∧
      (freed = false → ∃ rows, a₁.tx.review.pairs = some rows ∧ rows ≠ [] ∧ ∃ st hist,
        (recorded d).Reach anyEvent (log ++ [.part true buf]) (st, hist) ∧
          FilledFrom d hist a₁.tx.review.reviewTitle a₁.tx.review.reviewFinish rows) := by
  obtain ⟨hist, hreach, hinv⟩ := h ⟨hconf, htype⟩
  unfold processMessage at hm
  have hsign : (a.atMessage raw true).signingType = .preparedTransaction := htype
  rw [hsign] at hm
  obtain ⟨ha₁, hzero⟩ := Prod.mk.inj (Option.some.inj hm)
  have hacc : processPreparedTxPart d true a.prepared buf =
      ((processPreparedTxPart d true a.prepared buf).1, 0) := Prod.ext rfl hzero
  obtain ⟨hist', hreach', hinv'⟩ := rowsInv_accepted hinv hreach hacc
  have hreview : a₁.tx.review = (processPreparedTxPart d true a.prepared buf).1.review := by
    rw [← ha₁]
    rfl
  rw [hreview] at hflag ⊢
  constructor
  · intro hfreed
    obtain ⟨-, ⟨-, hnone⟩ | ⟨hoff, -⟩⟩ := hinv'.freed hfreed
    · exact hnone
    · exact absurd (hoff.symm.trans hflag) Bool.false_ne_true
  · intro hkept
    obtain ⟨rows, s, c, fs, hpairs, hbound, hfilled⟩ := hinv'.filled hkept hflag
    exact ⟨rows, hpairs, hfilled.complete.nonempty, _, hist', hreach',
      filledFrom_of_bound hbound hfilled⟩

/-- The last message of a topology flow: freed rows are gone, others are of its mapping. -/
theorem topologyRows (h : (freedApp d).Reach anyEvent es ((a, log), freed))
    (hfreed : FreedState a log freed) (hconf : a.reqType = .confirmTransaction)
    (htype : a.signingType = .untypedVersionedMessage)
    (hm : processMessage d (a.atMessage raw true) buf = some (a₁, 0))
    (hflag : a₁.tx.review.clearSigningAvailable = true) :
    (freed = true → a₁.tx.review.pairs = none) ∧
      (freed = false → ∃ rows, a₁.tx.review.pairs = some rows ∧ rows ≠ [] ∧
        a₁.tx.review.reviewTitle = some onboardingReviewTitle ∧
        a₁.tx.review.reviewFinish = some onboardingReviewFinish ∧
        MappingRows d (log ++ [.part true buf]) rows) := by
  have hlogged := loggedApp_of_freedApp h
  have hr : a.ReceivingTopology := ⟨hconf, htype⟩
  rw [processMessage_topology raw buf true htype] at hm
  split at hm
  · cases hm
  · rename_i t sw hout
    have hansw := processUntypedVersionedMsgTx_nonzero hout
    cases hm
    exact absurd rfl hansw
  · rename_i t' hok
    have hinv := topoInv_of_reach hlogged hr
    have hopen : ¬ Finished log := by
      intro hfin
      obtain ⟨hashes, t₁, hhashes, -⟩ := processUntypedVersionedMsgTx_ok hok
      have hnone : a.topology.txHashes = none := hinv.finished hfin
      rw [hnone] at hhashes
      cases hhashes
    obtain ⟨t₁, hrows₁, hfreed₁, hashes, hend⟩ :=
      topologyRows_message (topologyRelation_rows.of_reach hlogged hr hopen) hok
    have hreview : a₁.tx.review = t'.review := by
      cases hm
      rfl
    rw [hreview] at hflag ⊢
    obtain ⟨hparsed, hpairs, hname, hlast⟩ := finishTopology_clear hend hrows₁.flag hflag
    -- The rows are gone exactly if a decision was taken in this flow.
    have hgone : t'.review.pairs = none ↔ freed = true := by
      rw [hpairs, hfreed₁, hfreed hr hopen]
      exact hinv.freed hopen
    refine ⟨hgone.mpr, fun hkept => ?_⟩
    have hne : t₁.review.pairs ≠ none := by
      rw [← hpairs]
      intro hnone
      rw [hgone.mp hnone] at hkept
      cases hkept
    obtain ⟨rows, hsome, hmapping⟩ := (hrows₁.after hparsed).resolve_left hne
    refine ⟨rows, hpairs.trans hsome, ?_, hname, hlast, hmapping⟩
    obtain ⟨_, _, _, _, _, _, -, -, -, rfl⟩ := hmapping
    exact List.cons_ne_nil _ _

end Message

/-- Rows that are there have not been freed. -/
theorem kept_of_some {pairs : Option (List Pair)} {rows : List Pair}
    (hgone : freed = true → pairs = none) (hsome : pairs = some rows) : freed = false := by
  rw [← Bool.not_eq_true]
  intro hfreed
  rw [hgone hfreed] at hsome
  cases hsome

/-- **A clear review shows complete rows of its own flow exactly if no decision has freed
them.** -/
theorem own_rows_iff {es : List Event} {title finish : Option Bytes} {rows : List Pair}
    (h : (freedApp d).Reach anyEvent es ((a, log), freed))
    (hshown : (step d a ev).2 = .shown (.clearReview title finish rows)) :
    OwnRows d a log ev title finish rows ↔ freed = false := by
  obtain ⟨hprepared, htopology, hhash⟩ := states_of_reach h
  obtain ⟨hconf, raw, buf, a₁, hmsg, hm, hflag, hstep, hscreen⟩ := shown_clear hshown
  have htx : (step d a ev).1.tx = a₁.tx := by rw [hstep]
  obtain ⟨rfl, rfl, hrows⟩ : title = a₁.tx.review.reviewTitle ∧
      finish = a₁.tx.review.reviewFinish ∧ rows = a₁.tx.review.pairs.getD [] := by
    unfold clearScreen at hscreen
    cases hscreen
    exact ⟨rfl, rfl, rfl⟩
  unfold OwnRows
  rw [htx]
  cases htype : a.signingType with
  | hash => exact absurd ((hash_unclear hhash hconf htype hm).symm.trans hflag) Bool.false_ne_true
  | preparedTransaction =>
    obtain ⟨hgone, hkept⟩ := preparedRows hprepared hconf htype hm hflag
    refine ⟨fun hown => kept_of_some hgone hown.1, fun hfreed => ?_⟩
    obtain ⟨rows', hsome, hne, hfilled⟩ := hkept hfreed
    obtain rfl : rows' = rows := by rw [hrows, hsome]; rfl
    exact ⟨hsome, hne, buf, hmsg, hfilled⟩
  | untypedVersionedMessage =>
    obtain ⟨hgone, hkept⟩ := topologyRows h htopology hconf htype hm hflag
    refine ⟨fun hown => kept_of_some hgone hown.1, fun hfreed => ?_⟩
    obtain ⟨rows', hsome, hne, hfilled⟩ := hkept hfreed
    obtain rfl : rows' = rows := by rw [hrows, hsome]; rfl
    exact ⟨hsome, hne, buf, hmsg, hfilled⟩

/-- A computed run of the app reaches a tested state. -/
theorem exists_reach_freedApp (d : Device) (es : List Event)
    (p : (App × List PartEvent) × Bool → Bool)
    (h : ((freedApp d).run (fun _ _ => true) ((App.powerUp true, []), false) es).any p = true) :
    ∃ a log freed, (freedApp d).Reach anyEvent es ((a, log), freed) ∧
      p ((a, log), freed) = true := by
  have h₀ : (freedApp d).init ((App.powerUp true, []), false) := ⟨⟨true, rfl⟩, rfl⟩
  obtain ⟨⟨⟨a, log⟩, freed⟩, hreach, hp⟩ := Machine.exists_reach_of_run h₀ h
  exact ⟨a, log, freed, hreach.mono fun _ _ _ => trivial, hp⟩

theorem own_rows_iff_acceptance : ∃ a log freed title finish rows,
    (freedApp testDevice).Reach anyEvent (preparedFlow acceptance) ((a, log), freed) ∧
      (step testDevice a (lastPart acceptedOffer)).2 = .shown (.clearReview title finish rows) ∧
      OwnRows testDevice a log (lastPart acceptedOffer) title finish rows := by
  obtain ⟨a, log, freed, hreach, hp⟩ := exists_reach_freedApp testDevice (preparedFlow acceptance)
    (fun s => !s.2 &&
      ((step testDevice s.1.1 (lastPart acceptedOffer)).2.screen.bind Screen.clear).any
        fun _ => true) (by decide +kernel)
  simp only [Bool.and_eq_true, Bool.not_eq_true'] at hp
  obtain ⟨hfreed, hshown⟩ := hp
  obtain ⟨title, finish, rows, hs, -⟩ := Output.exists_clear hshown
  exact ⟨a, log, freed, title, finish, rows, hreach, hs, (own_rows_iff hreach hs).mpr hfreed⟩

/-- Bob accepts an offer and approves it; the flow stays open, and the offer sent again is
reviewed under the same title without a row. -/
theorem approved_offer_reviewed_empty : ∃ a log freed title finish,
    (freedApp testDevice).Reach anyEvent
      (preparedFlow acceptance ++ [lastPart acceptedOffer, .choice true]) ((a, log), freed) ∧
      (step testDevice a (lastPart acceptedOffer)).2 = .shown (.clearReview title finish []) ∧
      (step testDevice a (lastPart acceptedOffer)).1.tx.review.pairs = none ∧
      ¬ OwnRows testDevice a log (lastPart acceptedOffer) title finish [] := by
  obtain ⟨a, log, freed, hreach, hp⟩ := exists_reach_freedApp testDevice
    (preparedFlow acceptance ++ [lastPart acceptedOffer, .choice true])
    (fun s => decide ((step testDevice s.1.1 (lastPart acceptedOffer)).1.tx.review.pairs = none) &&
      ((step testDevice s.1.1 (lastPart acceptedOffer)).2.screen.bind Screen.clear).any
        fun shown : ClearScreen => decide (shown.2.2 = [])) (by decide +kernel)
  simp only [Bool.and_eq_true, decide_eq_true_eq] at hp
  obtain ⟨hnone, hshown⟩ := hp
  obtain ⟨title, finish, rows, hs, hrows⟩ := Output.exists_clear hshown
  obtain rfl : rows = [] := of_decide_eq_true hrows
  exact ⟨a, log, freed, title, finish, hreach, hs, hnone, fun hown => hown.2.1 rfl⟩

end CantonSigner
