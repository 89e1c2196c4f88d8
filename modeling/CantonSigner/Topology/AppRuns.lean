import CantonSigner.Flow.AppRuns
import CantonSigner.Flow.Ending
import CantonSigner.Topology.Onboarding

/-!
# Topology messages in the app

What a topology message can meet in a run of the app. The hash storage is there until
the last message of a flow has been accepted, and the rows are there unless a decision
was taken since the first APDU: a review that is still on display from an earlier flow
frees the rows of this one. `TopologyRelation` is the rule by which a fact about a flow and
its log is carried to every run of the app, and `topoInv_of_reach` its first use.
-/

namespace CantonSigner

open ByteCodec

/-! ## The log of a flow -/

/-- The last message of the flow has been processed. -/
def Finished (log : List PartEvent) : Prop := ∃ buf, PartEvent.part true buf ∈ log

/-- A decision was taken in the flow. -/
def Decided (log : List PartEvent) : Prop := ∃ pairs signature, PartEvent.rows pairs signature ∈ log

/-- The number of messages of the flow. -/
def messageCount (log : List PartEvent) : Nat :=
  log.countP fun e => match e with
    | .part .. => true
    | .rows .. => false

theorem not_finished_nil : ¬ Finished [] := by
  rintro ⟨buf, hmem⟩
  cases hmem

theorem not_decided_nil : ¬ Decided [] := by
  rintro ⟨pairs, signature, hmem⟩
  cases hmem

theorem finished_append {log log' : List PartEvent} :
    Finished (log ++ log') ↔ Finished log ∨ Finished log' := by
  simp [Finished, List.mem_append, exists_or]

theorem decided_append {log log' : List PartEvent} :
    Decided (log ++ log') ↔ Decided log ∨ Decided log' := by
  simp [Decided, List.mem_append, exists_or]

/-! ## Messages of a topology flow -/

theorem refused_ne_assertion {t : Topology} {sw : Int} : Outcome.refused t sw ≠ .assertion := by
  intro h
  cases h

theorem ok_ne_assertion {t : Topology} : Outcome.ok t ≠ .assertion := by
  intro h
  cases h

variable {d : Device} {t t' : Topology} {buf : Bytes} {a : App} {e : Event} {log : List PartEvent}

/-- The rows of a mapping on an empty array always fit. -/
theorem setParticipantRows_isSome {t₁ : Topology} {party : Bytes} {names : List Bytes}
    (hpairs : t.review.pairs = some []) (h : setFieldValue t 0 party = some t₁)
    (hnames : names.length = 2) : (setParticipantRows t₁ names 2 2).isSome = true := by
  obtain ⟨first, second, rfl⟩ := List.length_eq_two.mp hnames
  simp only [setFieldValue, hpairs, onboardingFlowDisplayFieldsNb] at h
  cases h
  simp [setParticipantRows, setFieldValue, onboardingFlowDisplayFieldsNb, List.zipIdx]

/-- Nothing was written to the rows of the flow yet. -/
def NoRows (t : Topology) : Prop := t.review.pairs = none ∨ t.review.pairs = some []

/-- A mapping stops the session exactly if its rows have been freed. -/
theorem processPartyToParticipant_assertion_iff {m : PartyToParticipant}
    (hrows : t.hasParsedPartyToParticipant = false → NoRows t) :
    processPartyToParticipant d t m = .assertion ↔
      (∃ party, SetsRows d t m party) ∧ t.review.pairs = none := by
  rcases processPartyToParticipant_cases (d := d) t m with ⟨hnot, t₁, sw, heq⟩ | ⟨party, hsets, heq⟩
  · rw [heq]
    refine iff_of_false refused_ne_assertion ?_
    rintro ⟨⟨party, hsets⟩, -⟩
    exact hnot party hsets
  rw [heq, setMappingRows, and_iff_right ⟨party, hsets⟩]
  rcases hrows hsets.first with hnone | hempty
  · refine iff_of_true ?_ hnone
    simp [setFieldValue, hnone]
  · -- Four rows at most are set, and the array holds four.
    refine iff_of_false ?_ (by simp [hempty])
    cases hfield : setFieldValue t 0 party with
    | none => simp [setFieldValue, hempty, onboardingFlowDisplayFieldsNb] at hfield
    | some t₁ =>
      cases hnames : findParticipants m.participants validParticipantsConfigs with
      | error sw => exact refused_ne_assertion
      | ok names =>
        obtain ⟨hthr, hlen, x, y, -, hin⟩ := hsets.names hnames
        have htwo : names.length = 2 := by
          rcases hin with ⟨-, rfl⟩ | ⟨-, rfl⟩ <;> rfl
        obtain ⟨t₂, ht₂⟩ := Option.isSome_iff_exists.mp
          (setParticipantRows_isSome hempty hfield htwo)
        simp only [hthr, hlen, ht₂]
        exact ok_ne_assertion

/-- A mapping is accepted on an empty array only: without one it stops the session. -/
theorem emptyRows_of_mapping {m : PartyToParticipant}
    (hrows : t.hasParsedPartyToParticipant = false → NoRows t)
    (h : processPartyToParticipant d t m = .ok t') : t.review.pairs = some [] := by
  rcases processPartyToParticipant_cases (d := d) t m with ⟨-, t₁, sw, heq⟩ | ⟨party, hsets, -⟩
  · rw [heq] at h
    cases h
  · rcases hrows hsets.first with hnone | hempty
    · rw [(processPartyToParticipant_assertion_iff hrows).mpr ⟨⟨party, hsets⟩, hnone⟩] at h
      cases h
    · exact hempty

/-- The message carries a mapping that passes every check before its first row. -/
def WritesRows (d : Device) (t : Topology) (buf : Bytes) : Prop :=
  ∃ m party, d.decodeTopologyTransaction buf = some (adds (.partyToParticipant m)) ∧
    SetsRows d t m party

/-- The checks before the rows do not look at the hash storage. -/
theorem writesRows_txHashes {hashes : Option (List Bytes)} :
    WritesRows d { t with txHashes := hashes } buf ↔ WritesRows d t buf := by
  constructor <;> rintro ⟨m, party, hdec, hsets⟩ <;>
    exact ⟨m, party, hdec, hsets.first, hsets.named, hsets.device, hsets.participants,
      hsets.threshold, hsets.signingKeys⟩

theorem parseTopologyTransactionForDisplay_assertion_iff (buf : Bytes)
    (hrows : t.hasParsedPartyToParticipant = false → NoRows t) :
    parseTopologyTransactionForDisplay d t buf = .assertion ↔
      WritesRows d t buf ∧ t.review.pairs = none := by
  unfold parseTopologyTransactionForDisplay WritesRows
  cases hdec : d.decodeTopologyTransaction buf with
  | none => simp
  | some tt =>
    obtain ⟨op, mapping⟩ := tt
    cases mapping with
    | none => simp [adds]
    | some m =>
      dsimp only
      by_cases hop : op = topologyChangeOpAddReplace
      · subst hop
        rw [if_neg (by simp)]
        cases m with
        -- the only mapping that writes rows
        | partyToParticipant m =>
          dsimp only
          rw [processPartyToParticipant_assertion_iff hrows]
          simp [adds]
        -- the other mappings are checked without a row
        | namespaceDelegation m =>
          dsimp only
          refine iff_of_false ?_ (by simp [adds])
          unfold processNamespaceDelegation
          dsimp only
          split_ifs <;> simp
        | partyToKeyMapping m =>
          dsimp only
          refine iff_of_false ?_ (by simp [adds])
          unfold processPartyToKeyMapping refuseMapping
          dsimp only
          split
          · exact refused_ne_assertion
          · split
            · exact refused_ne_assertion
            · split
              · exact refused_ne_assertion
              · split
                · split
                  · exact ok_ne_assertion
                  · exact refused_ne_assertion
                · exact refused_ne_assertion
        | other =>
          dsimp only
          exact iff_of_false refused_ne_assertion (by simp [adds])
      · -- a removal is refused before its mapping is looked at
        rw [if_pos hop]
        exact iff_of_false refused_ne_assertion (by simp [adds, hop])

/-- What an accepted message leaves of the storage and the rows. -/
theorem parseTopologyTransactionForDisplay_ok
    (hrows : t.hasParsedPartyToParticipant = false → NoRows t)
    (h : parseTopologyTransactionForDisplay d t buf = .ok t') :
    t'.txHashes = t.txHashes ∧ (t'.review.pairs = none ↔ t.review.pairs = none) ∧
      (t'.hasParsedPartyToParticipant = false → NoRows t') := by
  unfold parseTopologyTransactionForDisplay at h
  split at h
  · cases h
  · split at h
    · cases h
      exact ⟨rfl, .rfl, hrows⟩
    · split at h
      · cases h
      · split at h
        · obtain ⟨rfl, -⟩ := processNamespaceDelegation_ok h
          exact ⟨rfl, .rfl, hrows⟩
        · have hempty := emptyRows_of_mapping hrows h
          obtain ⟨first, second, -, ht'⟩ := processPartyToParticipant_ok hempty h
          rw [ht']
          exact ⟨rfl, by simp [hempty], nofun⟩
        · obtain ⟨rfl, -⟩ := processPartyToKeyMapping_ok h
          exact ⟨rfl, .rfl, hrows⟩
        · cases h

theorem finishTopology_txHashes {hashes : List Bytes} (h : finishTopology d t hashes = .ok t') :
    t'.txHashes = none := by
  have hsign : ∀ s : Topology, (signChallenge d s).txHashes = s.txHashes := by
    intro s
    unfold signChallenge
    split <;> rfl
  unfold finishTopology at h
  dsimp only at h
  split at h
  · split at h
    · cases h
    · cases h
      exact hsign _
  · cases h
    exact hsign _

/-- An accepted message: there was room for its hash, and its mapping was accepted. -/
theorem processUntypedVersionedMsgTx_ok {parsed : Bool}
    (h : processUntypedVersionedMsgTx d parsed t buf = .ok t') :
    ∃ hashes t₁, t.txHashes = some hashes ∧
      parseTopologyTransactionForDisplay d
        { t with txHashes := some (hashes ++ [cantonHash d 11 buf]) } buf = .ok t₁ ∧
      if parsed then t'.txHashes = none else t' = t₁ := by
  unfold processUntypedVersionedMsgTx at h
  split at h
  · cases h
  · rename_i hashes hhashes
    split at h
    · cases h
    · dsimp only at h
      split at h
      · cases h
      · cases h
      · rename_i t₁ hparse
        refine ⟨hashes, t₁, hhashes, hparse, ?_⟩
        cases parsed with
        | true => exact finishTopology_txHashes h
        | false =>
          cases h
          rfl

/-! ## The flow in the app -/

/-- A topology flow is open. -/
def App.ReceivingTopology (a : App) : Prop :=
  a.reqType = .confirmTransaction ∧ a.signingType = .untypedVersionedMessage

/-- The storage and the rows of an open flow, by its log. -/
structure TopoInv (a : App) (log : List PartEvent) : Prop where
  finished : Finished log → a.topo.txHashes = none
  storage : ¬ Finished log →
    ∃ hashes, a.topo.txHashes = some hashes ∧ hashes.length = messageCount log
  freed : ¬ Finished log → (a.tx.review.pairs = none ↔ Decided log)
  rows : ¬ Finished log → a.topo.hasParsedPartyToParticipant = false → NoRows a.topology

theorem topoInv_started {key : Bytes} {challenge : Option Bytes}
    (ht : a.topology = .start key challenge) : TopoInv a [] := by
  have htx : a.tx = (Topology.start key challenge).toTxInfo := congrArg Topology.toTxInfo ht
  have hstate : a.topo = (Topology.start key challenge).toTopologyState :=
    congrArg Topology.toTopologyState ht
  refine ⟨fun h => absurd h not_finished_nil, fun _ => ⟨[], by rw [hstate]; rfl, rfl⟩, fun _ => ?_,
    fun _ _ => .inr ?_⟩
  · rw [htx]
    exact iff_of_false nofun not_decided_nil
  · show a.tx.review.pairs = some []
    rw [htx]
    rfl

/-- The processor of an open topology flow. -/
theorem processMessage_topology (raw buf : Bytes) (parsed : Bool)
    (htype : a.signingType = .untypedVersionedMessage) :
    processMessage d (a.atMessage raw parsed) buf =
      match processUntypedVersionedMsgTx d parsed a.topology buf with
      | .assertion => none
      | .refused t sw => some ((a.atMessage raw parsed).setTopology t, sw)
      | .ok t => some ((a.atMessage raw parsed).setTopology t, 0) := by
  have hstate : decide ((a.atMessage raw parsed).state = .parsed) = parsed := by
    cases parsed <;> rfl
  have hsign : (a.atMessage raw parsed).signingType = .untypedVersionedMessage := htype
  unfold processMessage
  rw [hsign]
  dsimp only
  rw [hstate]
  rfl

/-- Replace the rows on display and the signature. -/
def Topology.setRows (t : Topology) (pairs : Option (List Pair)) (signature : Bytes) : Topology :=
  { t with review := { t.review with pairs := pairs }, signature := signature }

/-- A topology flow that goes on accepted the message; the last one may change the rows,
but not those of a clear review. -/
theorem topology_of_message {raw : Bytes} {parsed : Bool}
    (htype : a.signingType = .untypedVersionedMessage) (hreq : a.reqType = .confirmTransaction)
    (hr : (processAndAnswer d (a.atMessage raw parsed) buf).1.ReceivingTopology) :
    ∃ t', processUntypedVersionedMsgTx d parsed a.topology buf = .ok t' ∧
      (processAndAnswer d (a.atMessage raw parsed) buf).1.topology =
        if parsed then
          let tx := (processAndAnswer d (a.atMessage raw parsed) buf).1.tx
          t'.setRows tx.review.pairs tx.signature
        else t' := by
  have hmsg := processMessage_topology (d := d) raw buf parsed htype
  -- A message that the processor accepts was not refused: a refusal has a word of its own.
  have haccepted : ∀ a₁, processMessage d (a.atMessage raw parsed) buf = some (a₁, 0) →
      ∃ t', processUntypedVersionedMsgTx d parsed a.topology buf = .ok t' ∧
        a₁ = (a.atMessage raw parsed).setTopology t' := by
    intro a₁ hm
    rw [hmsg] at hm
    split at hm
    · cases hm
    · rename_i t sw hout
      have hansw := processUntypedVersionedMsgTx_nonzero hout
      cases hm
      exact absurd rfl hansw
    · rename_i t' hok
      exact ⟨t', hok, (Prod.mk.inj (Option.some.inj hm)).1.symm⟩
  rcases processAndAnswer_cases (d := d) (a.atMessage raw parsed) buf with
    (⟨-, heq⟩ | ⟨-, heq⟩) | ⟨a₁, sw, -, -, heq⟩ | ⟨a₁, hm, hp, heq⟩ | ⟨a₁, hm, hp, heq⟩
  · rw [heq] at hr
    exact absurd hr.1 (by simp [assertFailed, App.powerUp])
  · rw [heq] at hr
    exact absurd hr.1 (by simp [App.powerUp])
  · rw [heq] at hr
    exact absurd hr.1 (by simp [refuseTx])
  · obtain ⟨t', hok, rfl⟩ := haccepted a₁ hm
    refine ⟨t', hok, ?_⟩
    have hparsed : parsed = true := by
      cases parsed with
      | true => rfl
      | false => cases hp
    subst hparsed
    rw [heq]
    rcases startReview_cases (a := (a.atMessage raw true).setTopology t') hreq hp with
      ⟨-, h⟩ | ⟨-, h⟩ | ⟨-, h⟩ <;> (rw [h]; rfl)
  · obtain ⟨t', hok, rfl⟩ := haccepted a₁ hm
    refine ⟨t', hok, ?_⟩
    have hparsed : parsed = false := by
      cases parsed with
      | false => rfl
      | true => exact absurd rfl hp
    subst hparsed
    rw [heq]
    rfl

/-- A relation between an open topology flow, by the path of its key, and its log that
messages and decisions keep. Rows are replaced only by freeing them, until the last
message. -/
structure TopologyRelation (d : Device) (Q : List Nat → Topology → List PartEvent → Prop) :
    Prop where
  started : ∀ path key challenge, derivePublicKey d path = .ok key →
    Q path (.start key.1 challenge) []
  part : ∀ path t log parsed buf t', Q path t log →
    processUntypedVersionedMsgTx d parsed t buf = .ok t' → Q path t' (log ++ [.part parsed buf])
  rows : ∀ path t log pairs signature, Q path t log → (¬ Finished log → pairs = none) →
    Q path (t.setRows pairs signature) (log ++ [.rows pairs signature])

/-- One step of the app carries such a relation along. -/
theorem TopologyRelation.step {Q : List Nat → Topology → List PartEvent → Prop}
    (hQ : TopologyRelation d Q) (h : a.ReceivingTopology → Q a.bip32Path a.topology log)
    (hr : (CantonSigner.step d a e).1.ReceivingTopology) :
    Q (CantonSigner.step d a e).1.bip32Path (CantonSigner.step d a e).1.topology
      (nextLog d a e log) := by
  cases hreq : request a e with
  -- nothing of the flow changes
  | untouched =>
    have hsame := (step_untouched (d := d) hreq).1
    have hlog : nextLog d a e log = log := by simp [nextLog, hreq]
    have htopo : (CantonSigner.step d a e).1.topology = a.topology := by
      simp [App.topology, hsame.tx, hsame.topo]
    rw [hlog, htopo, hsame.bip32Path]
    exact h ⟨hsame.reqType ▸ hr.1, hsame.signingType ▸ hr.2⟩
  | getPublicKey data display =>
    exact absurd ((getPublicKey_reqType hreq).symm.trans hr.1) (by decide)
  -- a first command starts the flow afresh or leaves none open
  | first type data =>
    have hlog : nextLog d a e log = [] := by simp [nextLog, hreq]
    rw [hlog]
    rw [step_first hreq] at hr ⊢
    rcases startFlow_cases (d := d) (a := a) type data with heq | ⟨a₁, heq⟩ | ⟨a₁, heq, hstart⟩
    · rw [heq] at hr
      exact absurd hr.1 (by simp [assertFailed, App.powerUp])
    · rw [heq] at hr
      exact absurd hr.1 (by simp [refuseTx])
    · rw [heq] at hr ⊢
      obtain ⟨key, challenge, hkey, htopo⟩ :=
        hstart.topology (hstart.signingType.symm.trans hr.2)
      show Q a₁.bip32Path a₁.topology []
      rw [htopo]
      exact hQ.started _ key challenge hkey
  -- a chunk: refused, kept for later, or the end of a message
  | next more msgEnd data =>
    rcases step_next_cases (d := d) hreq with ⟨-, heq⟩ | ⟨hnone, hconf, heq⟩ |
      ⟨hconf, parsed, raw, buf, hmsg, heq⟩
    · rw [heq] at hr
      exact absurd hr.1 (by simp [refuseTx])
    · have hlog : nextLog d a e log = log := by simp [nextLog, hreq, hnone]
      rw [heq] at hr
      rw [hlog, heq]
      exact h ⟨hconf, hr.2⟩
    · have htype : a.signingType = .untypedVersionedMessage := by
        rw [heq] at hr
        exact (processAndAnswer_signingType hr.1).symm.trans hr.2
      obtain ⟨t', hok, htopo⟩ := topology_of_message (d := d) htype hconf (heq ▸ hr)
      have hpart := hQ.part _ _ _ _ _ _ (h ⟨hconf, htype⟩) hok
      have hpath := processAndAnswer_path (d := d) (a := a) (heq ▸ hr.1)
      rw [heq, htopo, hpath]
      simp only [nextLog, hreq, hmsg, heq]
      -- after the last message the rows are those of the review
      cases parsed with
      | false => exact hpart
      | true =>
        have hfin : Finished (log ++ [.part true buf]) := ⟨buf, by simp⟩
        have := hQ.rows _ _ _ (processAndAnswer d (a.atMessage raw true) buf).1.tx.review.pairs
          (processAndAnswer d (a.atMessage raw true) buf).1.tx.signature hpart
          (fun hopen => absurd hfin hopen)
        simpa using this
  -- a decision frees the rows, of whatever flow they are
  | decide confirm =>
    have hframe := decide_frame (d := d) hreq
    have hpairs : (CantonSigner.step d a e).1.tx.review.pairs = none := by rw [hframe]; rfl
    have htopo : (CantonSigner.step d a e).1.topology = a.topology.setRows
        (CantonSigner.step d a e).1.tx.review.pairs
        (CantonSigner.step d a e).1.tx.signature := by
      rw [hframe]
      rfl
    have hlog : nextLog d a e log = log ++ [.rows (CantonSigner.step d a e).1.tx.review.pairs
        (CantonSigner.step d a e).1.tx.signature] := by simp [nextLog, hreq]
    have hopen : a.ReceivingTopology := by
      rw [hframe] at hr
      exact hr
    have hpath : (CantonSigner.step d a e).1.bip32Path = a.bip32Path := by rw [hframe]
    rw [hlog, htopo, hpath]
    exact hQ.rows _ _ _ _ _ (h hopen) fun _ => hpairs

/-- It holds of every open topology flow of a run. -/
theorem TopologyRelation.of_reach {Q : List Nat → Topology → List PartEvent → Prop}
    (hQ : TopologyRelation d Q) {es : List Event} (h : (loggedApp d).Reach anyEvent es (a, log))
    (hr : a.ReceivingTopology) : Q a.bip32Path a.topology log := by
  refine h.invariant
    (P := fun _ s => s.1.ReceivingTopology → Q s.1.bip32Path s.1.topology s.2) ?_ ?_ hr
  · rintro s ⟨allow, rfl⟩ hr
    exact absurd hr.1 (by simp [App.powerUp])
  · rintro es ⟨a, log⟩ e s' hinv _ hstep hr
    cases hstep
    exact hQ.step hinv hr

theorem messageCount_append {log log' : List PartEvent} :
    messageCount (log ++ log') = messageCount log + messageCount log' :=
  List.countP_append ..

/-- A message that is accepted in an open flow. -/
theorem topoInv_message {parsed : Bool} {a₁ : App} (h : TopoInv a log)
    (hok : processUntypedVersionedMsgTx d parsed a.topology buf = .ok t')
    (htopology : a₁.topology = t') : TopoInv a₁ (log ++ [.part parsed buf]) := by
  obtain ⟨hashes, t₁, hhashes, hparse, hend⟩ := processUntypedVersionedMsgTx_ok hok
  have htopo : a₁.topo = t'.toTopologyState := congrArg Topology.toTopologyState htopology
  -- after the last message there is no storage, so the message would not be accepted
  have hopen : ¬ Finished log := by
    intro hfin
    have hnone : a.topology.txHashes = none := h.finished hfin
    rw [hnone] at hhashes
    cases hhashes
  cases parsed with
  | true =>
    have hfin : Finished (log ++ [.part true buf]) := ⟨buf, by simp⟩
    -- the last message drops the storage
    refine ⟨fun _ => ?_, fun hnot => absurd hfin hnot, fun hnot => absurd hfin hnot,
      fun hnot => absurd hfin hnot⟩
    rw [htopo]
    exact hend
  | false =>
    simp only [Bool.false_eq_true, if_false] at hend
    subst hend
    -- any other one adds its hash
    obtain ⟨hstore, hfreed, hrows⟩ := parseTopologyTransactionForDisplay_ok
      (t := { a.topology with txHashes := some (hashes ++ [cantonHash d 11 buf]) })
      (h.rows hopen) hparse
    have hopen' : ¬ Finished (log ++ [.part false buf]) := by
      rintro ⟨b, hmem⟩
      simp only [List.mem_append, List.mem_singleton] at hmem
      rcases hmem with hmem | hmem
      · exact hopen ⟨b, hmem⟩
      · cases hmem
    have hdecided : Decided (log ++ [.part false buf]) ↔ Decided log := by simp [Decided]
    refine ⟨fun hf => absurd hf hopen', fun _ => ?_, fun _ => ?_, fun _ hfirst => ?_⟩
    · obtain ⟨hashes', hhashes', hlen⟩ := h.storage hopen
      have hsame : hashes = hashes' := Option.some.inj (hhashes.symm.trans hhashes')
      refine ⟨hashes ++ [cantonHash d 11 buf], ?_, ?_⟩
      · rw [htopo]
        exact hstore
      · rw [messageCount_append, List.length_append, hsame, hlen]
        rfl
    · -- the rows stay freed, or stay there, as they were
      rw [hdecided, ← h.freed hopen]
      have htx : a₁.tx.review.pairs = t'.review.pairs :=
        congrArg (fun t : Topology => t.review.pairs) htopology
      rw [htx]
      exact hfreed
    · rw [htopology]
      refine hrows ?_
      rw [htopo] at hfirst
      exact hfirst

/-- Rows that are replaced: before the last message they are freed. -/
theorem topoInv_rows {a₁ : App} {pairs : Option (List Pair)} {signature : Bytes}
    (h : TopoInv a log) (hopen : ¬ Finished log → pairs = none)
    (htopology : a₁.topology = a.topology.setRows pairs signature) :
    TopoInv a₁ (log ++ [.rows pairs signature]) := by
  have htopo : a₁.topo = a.topo := congrArg Topology.toTopologyState htopology
  have hpairs : a₁.tx.review.pairs = pairs :=
    congrArg (fun t : Topology => t.review.pairs) htopology
  have hfin : Finished (log ++ [.rows pairs signature]) ↔ Finished log := by simp [Finished]
  have hcount : messageCount (log ++ [.rows pairs signature]) = messageCount log := by
    rw [messageCount_append]
    rfl
  have hdecided : Decided (log ++ [.rows pairs signature]) :=
    decided_append.mpr (.inr ⟨_, _, List.mem_singleton_self _⟩)
  refine ⟨?_, ?_, fun hnot => ?_, fun hnot _ => .inl ?_⟩
  · rw [hfin, htopo]
    exact h.finished
  · rw [hfin, htopo, hcount]
    exact h.storage
  · rw [hfin] at hnot
    rw [hpairs]
    exact iff_of_true (hopen hnot) hdecided
  · rw [hfin] at hnot
    exact hpairs.trans (hopen hnot)

/-- An app with this topology state. -/
def Topology.inApp (t : Topology) : App := (App.powerUp true).setTopology t

theorem topologyRelation_topoInv :
    TopologyRelation d fun _ t log => ∀ a : App, a.topology = t → TopoInv a log := by
  refine ⟨?_, ?_, ?_⟩
  · rintro path key challenge - a ha
    exact topoInv_started ha
  · intro path t log parsed buf t' h hok a ha
    exact topoInv_message (h t.inApp rfl) hok ha
  · intro path t log pairs signature h hopen a ha
    exact topoInv_rows (h t.inApp rfl) hopen ha

theorem topoInv_of_reach {es : List Event} (h : (loggedApp d).Reach anyEvent es (a, log))
    (hr : a.ReceivingTopology) : TopoInv a log :=
  topologyRelation_topoInv.of_reach h hr a rfl

end CantonSigner
