import CantonSigner.Topology.ClearReview

/-!
# Answers and assertions

What a run of the app can answer, read off the log of the flow.

- `assertion_iff`: the events that stop the session by an assertion;
- `answer_documented_iff`: the `SIGN_TX` commands that are answered with a documented
  status word.
-/

namespace CantonSigner

open ByteCodec

variable {d : Device} {t t' : Topology} {buf : Bytes} {a : App} {e : Event} {log : List PartEvent}

/-! ## Events that stop the session -/

/-- A message that finds the hash storage gone, or the rows it writes to. -/
structure StopsSession (d : Device) (a : App) (log : List PartEvent) (e : Event) : Prop where
  topology : a.signingType = .untypedVersionedMessage
  message : ∃ parsed buf, messageOf d a e = some (parsed, buf) ∧
    (Finished log ∨
      (Decided log ∧ messageCount log < maxHashes ∧ WritesRows d a.topology buf))

theorem processUntypedVersionedMsgTx_assertion_iff {parsed : Bool} (h : TopoInv a log) :
    processUntypedVersionedMsgTx d parsed a.topology buf = .assertion ↔
      (Finished log ∨
        (Decided log ∧ messageCount log < maxHashes ∧ WritesRows d a.topology buf)) := by
  -- after the last message the storage is gone
  by_cases hfin : Finished log
  · refine iff_of_true ?_ (.inl hfin)
    unfold processUntypedVersionedMsgTx
    have hnone : a.topology.txHashes = none := h.finished hfin
    rw [hnone]
  · obtain ⟨hashes, hhashes, hlen⟩ := h.storage hfin
    have hstore : a.topology.txHashes = some hashes := hhashes
    unfold processUntypedVersionedMsgTx
    rw [hstore, ← hlen, ← h.freed hfin, or_iff_right hfin]
    dsimp only
    -- before it, a full storage refuses the message, and any other one parses it
    by_cases hroom : maxHashes ≤ hashes.length
    · rw [if_pos hroom]
      exact iff_of_false nofun fun hc => absurd hc.2.1 (Nat.not_lt.mpr hroom)
    · rw [if_neg hroom]
      have hparse := parseTopologyTransactionForDisplay_assertion_iff (d := d) buf
        (t := { a.topology with txHashes := some (hashes ++ [cantonHash d 11 buf]) }) (h.rows hfin)
      rw [writesRows_txHashes] at hparse
      have hlt : hashes.length < maxHashes := Nat.lt_of_not_le hroom
      constructor
      · intro hassert
        split at hassert
        · rename_i heq
          exact ⟨(hparse.mp heq).2, hlt, (hparse.mp heq).1⟩
        · cases hassert
        · split at hassert
          · unfold finishTopology at hassert
            dsimp only at hassert
            split_ifs at hassert
          · cases hassert
      · rintro ⟨hnone, -, hwrites⟩
        rw [hparse.mpr ⟨hwrites, hnone⟩]

theorem processAndAnswer_overwritten {raw : Bytes} {parsed : Bool}
    (h : a.headerOverwritten = true) :
    (processAndAnswer d (a.atMessage raw parsed) buf).2 = .fault := by
  have h : (a.atMessage raw parsed).headerOverwritten = true := h
  rw [processAndAnswer, if_pos h]

/-- Only a message of a topology flow stops the session. -/
theorem processAndAnswer_assertion_iff {raw : Bytes} {parsed : Bool} :
    (processAndAnswer d (a.atMessage raw parsed) buf).2 = .assertion ↔
      a.signingType = .untypedVersionedMessage ∧
        processUntypedVersionedMsgTx d parsed a.topology buf = .assertion := by
  -- with the header overwritten the session is stopped in another way
  by_cases hover : a.headerOverwritten = true
  · have htype : a.signingType = .preparedTransaction := by
      simp only [App.headerOverwritten, Bool.and_eq_true, decide_eq_true_eq] at hover
      exact hover.1.1
    rw [processAndAnswer_overwritten hover, htype]
    exact iff_of_false (by simp) fun h => absurd h.1 (by simp)
  -- of the ends of a message, only the missing result is an assertion
  have hnone : (processAndAnswer d (a.atMessage raw parsed) buf).2 = .assertion ↔
      processMessage d (a.atMessage raw parsed) buf = none := by
    rcases processAndAnswer_cases (d := d) (a.atMessage raw parsed) buf with
      (⟨hm, h⟩ | ⟨h, -⟩) | ⟨a₁, sw, hm, -, h⟩ | ⟨a₁, hm, hp, h⟩ | ⟨a₁, hm, -, h⟩
    · rw [h]
      exact iff_of_true rfl hm
    · exact absurd h hover
    · rw [h, hm]
      exact iff_of_false (by simp [refuseTx]) (by simp)
    · rw [h, hm]
      refine iff_of_false ?_ (by simp)
      unfold startReview uiDisplayTransaction uiDisplayBlindSignedTransaction
        uiDisplayTransactionBsChoice uiErrorBlindSigning
      dsimp only
      split_ifs <;> simp
    · rw [h, hm]
      exact iff_of_false (by simp) (by simp)
  rw [hnone]
  by_cases htype : a.signingType = .untypedVersionedMessage
  · rw [processMessage_topology raw buf parsed htype, and_iff_right htype]
    cases processUntypedVersionedMsgTx d parsed a.topology buf <;> simp
  · refine iff_of_false ?_ (fun h => htype h.1)
    unfold processMessage
    have hsign : (a.atMessage raw parsed).signingType = a.signingType := rfl
    rw [hsign]
    cases hs : a.signingType with
    | untypedVersionedMessage => exact absurd hs htype
    | hash => exact Option.some_ne_none _
    | preparedTransaction => exact Option.some_ne_none _

/-- The first APDU stops the session only if no key can be derived. -/
theorem startFlow_ne_assertion (hkey : ∀ path, ∃ key, derivePublicKey d path = .ok key)
    (type : SigningType) (data : Bytes) : (startFlow d a type data).2 ≠ .assertion := by
  unfold startFlow processFirstChunk
  dsimp only
  cases readBip32Path data with
  | none => nofun
  | some r =>
    obtain ⟨path, rest⟩ := r
    cases type with
    | hash => nofun
    | preparedTransaction => nofun
    | untypedVersionedMessage =>
      obtain ⟨key, hk⟩ := hkey path
      dsimp only [processUntypedVersionedMsgTxInit]
      rw [hk]
      dsimp only
      cases (readChallengeAndDeadline rest).isSome <;> nofun

theorem assertionIff_of_reach (hkey : ∀ path, ∃ key, derivePublicKey d path = .ok key)
    {es : List Event}
    (h : (loggedApp d).Reach anyEvent es (a, log)) (e : Event) :
    (step d a e).2 = .assertion ↔ StopsSession d a log e := by
  -- an event that completes no message neither asserts nor is in the condition
  have hquiet (hout : (step d a e).2 ≠ .assertion) (hmsg : messageOf d a e = none) :
      (step d a e).2 = .assertion ↔ StopsSession d a log e := by
    refine iff_of_false hout ?_
    rintro ⟨-, parsed, buf, hsome, -⟩
    rw [hmsg] at hsome
    cases hsome
  cases hreq : request a e with
  | untouched =>
    exact hquiet (step_untouched_ne_assertion hreq) (messageOf_eq_none (by simp [hreq]))
  | getPublicKey data display =>
    refine hquiet ?_ (messageOf_eq_none (by simp [hreq]))
    rw [step_getPublicKey hreq]
    unfold handlerGetPublicKey
    dsimp only
    split
    · nofun
    · split
      · nofun
      · split <;> nofun
  | first type data =>
    refine hquiet ?_ (messageOf_eq_none (by simp [hreq]))
    rw [step_first hreq]
    exact startFlow_ne_assertion hkey type data
  | decide confirm =>
    refine hquiet ?_ (messageOf_eq_none (by simp [hreq]))
    rw [step_decide hreq]
    unfold validateTransaction
    dsimp only
    split
    · split <;> nofun
    · nofun
  -- the invariant of the flow says when its message asserts
  | next more msgEnd data =>
    rcases step_next_cases (d := d) hreq with ⟨hnone, heq⟩ | ⟨hnone, -, heq⟩ |
      ⟨hconf, parsed, raw, buf, hmsg, heq⟩
    · exact hquiet (by rw [heq]; nofun) hnone
    · exact hquiet (by rw [heq]; nofun) hnone
    · rw [heq, processAndAnswer_assertion_iff]
      constructor
      · rintro ⟨htype, hassert⟩
        have hinv := topoInv_of_reach h ⟨hconf, htype⟩
        exact ⟨htype, parsed, buf, hmsg, (processUntypedVersionedMsgTx_assertion_iff hinv).mp
          hassert⟩
      · rintro ⟨htype, parsed', buf', hmsg', hcond⟩
        have hinv := topoInv_of_reach h ⟨hconf, htype⟩
        rw [hmsg] at hmsg'
        cases hmsg'
        exact ⟨htype, (processUntypedVersionedMsgTx_assertion_iff hinv).mpr hcond⟩

/-- **Which events stop the session**: exactly the topology messages after the last one of
their flow, and those that write rows after a decision freed them. -/
theorem assertion_iff (hkey : ∀ path, ∃ key, derivePublicKey d path = .ok key) {es : List Event}
    (h : (loggedApp d).Reach anyEvent es (a, log)) (e : Event) :
    (step d a e).2 = .assertion ↔ StopsSession d a log e :=
  assertionIff_of_reach hkey h e

theorem testDevice_derives : ∀ path, ∃ key, derivePublicKey testDevice path = .ok key :=
  fun _ => ⟨_, rfl⟩

/-- A topology message without a mapping, marked as the last one or not. -/
def emptyTopologyMessage (last : Bool) : Command :=
  ⟨0x06, 1, if last then 0x04 else 0x06, [0x0A, 0x02, 0x08, 0x01]⟩

theorem assertion_iff_twoMessages : ∃ a log,
    (loggedApp testDevice).Reach anyEvent [topologyFirst, .apdu (emptyTopologyMessage false)]
      (a, log) ∧
      (step testDevice a (.apdu (emptyTopologyMessage true))).2 ≠ .assertion := by
  obtain ⟨a, log, hreach, hlog⟩ := exists_reach_loggedApp testDevice
    [topologyFirst, .apdu (emptyTopologyMessage false)]
    (fun s => decide (s.2 = [.part false [0x0A, 0x02, 0x08, 0x01]])) (by decide +kernel)
  refine ⟨a, log, hreach, fun hassert => ?_⟩
  have hlog' : log = [.part false [0x0A, 0x02, 0x08, 0x01]] := by simpa using hlog
  obtain ⟨-, parsed, buf, -, hcond⟩ := (assertion_iff testDevice_derives hreach _).mp hassert
  rw [hlog'] at hcond
  simp [Finished, Decided] at hcond

/-- A message after the last one of its flow finds no hash storage. -/
theorem message_after_last_asserts : ∃ a log,
    (loggedApp testDevice).Reach anyEvent [topologyFirst, .apdu (emptyTopologyMessage true)]
      (a, log) ∧
      (step testDevice a (.apdu (emptyTopologyMessage true))).2 = .assertion := by
  obtain ⟨a, log, hreach, hp⟩ := exists_reach_loggedApp testDevice
    [topologyFirst, .apdu (emptyTopologyMessage true)]
    (fun s => decide ((step testDevice s.1 (.apdu (emptyTopologyMessage true))).2 = .assertion))
    (by decide +kernel)
  exact ⟨a, log, hreach, by simpa using hp⟩

/-! ## Documented answers -/

/-- A `SIGN_TX` command is accepted, shown for review, or refused with an error row of the
status word table; `io_send_sw` sends 16 bits. -/
def Answered : Output → Prop
  | .sw v => v = Sw.ok ∨ v % 2 ^ 16 ∈ documentedErrors
  | .shown _ => True
  | _ => False

theorem answered_documented {v : Int} (h : v ∈ documentedErrors) : Answered (.sw v) := by
  have hshort : ∀ v ∈ documentedErrors, v % 2 ^ 16 = v := by decide
  right
  rw [hshort v h]
  exact h

/-- A message with room in the hash storage that does not decode. -/
structure Undecodable (d : Device) (a : App) (log : List PartEvent) (e : Event) : Prop where
  topology : a.signingType = .untypedVersionedMessage
  message : ∃ parsed buf, messageOf d a e = some (parsed, buf) ∧ ¬ Finished log ∧
    messageCount log < maxHashes ∧ d.decodeTopologyTransaction buf = none

/-- An undecodable message is answered with the parser's status. -/
theorem processAndAnswer_undecodable {raw : Bytes} {parsed : Bool} (hinv : TopoInv a log)
    (htype : a.signingType = .untypedVersionedMessage) (hopen : ¬ Finished log)
    (hroom : messageCount log < maxHashes) (hdec : d.decodeTopologyTransaction buf = none) :
    (processAndAnswer d (a.atMessage raw parsed) buf).2 = .sw valueParsingError := by
  obtain ⟨hashes, hhashes, hlen⟩ := hinv.storage hopen
  have hstore : a.topology.txHashes = some hashes := hhashes
  have hmsg := processMessage_topology (d := d) raw buf parsed htype
  rw [processUntypedVersionedMsgTx_undecodable parsed hdec, hstore] at hmsg
  dsimp only at hmsg
  rw [if_neg (by omega)] at hmsg
  rw [processAndAnswer_eq (headerOverwritten_of_type (by simp [App.atMessage, htype])), hmsg]
  rfl

/-- The parser's status is answered to nothing else. -/
theorem undecodable_of_word {raw : Bytes} {parsed : Bool}
    (hrun : (processAndAnswer d (a.atMessage raw parsed) buf).2 ≠ .assertion)
    (hword : (processAndAnswer d (a.atMessage raw parsed) buf).2 = .sw valueParsingError)
    (hinv : a.signingType = .untypedVersionedMessage → TopoInv a log) :
    a.signingType = .untypedVersionedMessage ∧ ¬ Finished log ∧ messageCount log < maxHashes ∧
      d.decodeTopologyTransaction buf = none := by
  rcases processAndAnswer_cases (d := d) (a.atMessage raw parsed) buf with
    (⟨-, h⟩ | ⟨-, h⟩) | ⟨a₁, sw, hm, hne, h⟩ | ⟨a₁, hm, hp, h⟩ | ⟨a₁, hm, -, h⟩
  · rw [h] at hrun
    exact absurd rfl hrun
  · -- the answer is the word of a refusal; none of a part's own words is the parser status
    rw [h] at hword
    cases hword
  · rw [h] at hword
    have hsw : sw = valueParsingError := by simpa [refuseTx] using hword
    rcases processMessage_word hm with hpart | ⟨-, htype, hdec⟩
    · rw [hsw] at hpart
      exact absurd hpart (by decide)
    · have hmsg := processMessage_topology (d := d) raw buf parsed
        (show a.signingType = .untypedVersionedMessage from htype)
      have hopen : ¬ Finished log := by
        intro hfin
        have hnone : a.topology.txHashes = none := (hinv htype).finished hfin
        rw [processUntypedVersionedMsgTx_undecodable parsed hdec, hnone, hm] at hmsg
        cases hmsg
      obtain ⟨hashes, hhashes, hlen⟩ := (hinv htype).storage hopen
      have hstore : a.topology.txHashes = some hashes := hhashes
      refine ⟨htype, hopen, ?_, hdec⟩
      -- a full storage is refused before the message is decoded
      by_contra hfull
      rw [processUntypedVersionedMsgTx_undecodable parsed hdec, hstore, hm] at hmsg
      dsimp only at hmsg
      rw [if_pos (by omega)] at hmsg
      obtain ⟨-, hsame⟩ := Prod.mk.inj (Option.some.inj hmsg)
      exact absurd (hsame.symm.trans hsw) (by decide)
  · rw [h] at hword
    unfold startReview uiDisplayTransaction uiDisplayBlindSignedTransaction
      uiDisplayTransactionBsChoice uiErrorBlindSigning at hword
    dsimp only at hword
    split_ifs at hword <;> simp [valueParsingError, Sw.badState, Sw.incorrectData] at hword
  · rw [h] at hword
    simp [valueParsingError, Sw.ok] at hword

/-- Every other refused message is answered with a documented error. -/
theorem processAndAnswer_answered {raw : Bytes} {parsed : Bool}
    (hreq : a.reqType = .confirmTransaction) (hheader : a.headerOverwritten = false)
    (hstop : (processAndAnswer d (a.atMessage raw parsed) buf).2 ≠ .assertion)
    (hword : (processAndAnswer d (a.atMessage raw parsed) buf).2 ≠ .sw valueParsingError) :
    Answered (processAndAnswer d (a.atMessage raw parsed) buf).2 := by
  rcases processAndAnswer_cases (d := d) (a.atMessage raw parsed) buf with
    (⟨-, h⟩ | ⟨h, -⟩) | ⟨a₁, sw, hm, hne, h⟩ | ⟨a₁, hm, hp, h⟩ | ⟨a₁, hm, -, h⟩
  · rw [h] at hstop
    exact absurd rfl hstop
  · exact absurd (hheader.symm.trans h) Bool.false_ne_true
  · rw [h] at hword ⊢
    rcases processMessage_word hm with hpart | ⟨rfl, -⟩
    · exact answered_documented (hpart.resolve_left hne).1
    · exact absurd rfl hword
  · have hframe := processMessage_frame hm
    have hreq₁ : a₁.reqType = .confirmTransaction := by rw [hframe]; exact hreq
    have hst₁ : a₁.state = .parsed := by rw [hframe]; exact hp
    rw [h]
    rcases startReview_cases hreq₁ hst₁ with ⟨-, hs⟩ | ⟨-, hs⟩ | ⟨-, hs⟩
    · rw [hs]
      trivial
    · rw [hs]
      exact answered_documented (by decide)
    · rw [hs]
      trivial
  · rw [h]
    exact .inl rfl

/-- A `SIGN_TX` command that reaches no handler is answered with an error. -/
theorem step_untouched_answered {c : Command} (hins : c.ins = 0x06)
    (h : request a (.apdu c) = .untouched) : Answered (step d a (.apdu c)).2 := by
  have hwords : Answered (.sw Sw.wrongP1P2) ∧ Answered (.sw Sw.wrongDataLength) ∧
      Answered (.sw Sw.badState) :=
    ⟨answered_documented (by decide), answered_documented (by decide),
      answered_documented (by decide)⟩
  simp only [request, requestOfCommand] at h
  simp only [step, apduDispatcher, handlerSignTx]
  grind

/-- A message that comes after a finalisation without input contracts: the header is
released where the metadata is. -/
structure FreesMetadata (d : Device) (a : App) (e : Event) : Prop where
  overwritten : a.headerOverwritten = true
  message : messageOf d a e ≠ none

/-- **Every answer to `SIGN_TX` is documented**, except to a topology message that does not
decode, which gets the parser's status, and to one that ends the session. -/
theorem answer_documented_iff (hkey : ∀ path, ∃ key, derivePublicKey d path = .ok key)
    {es : List Event} (h : (loggedApp d).Reach anyEvent es (a, log)) {c : Command}
    (hins : c.ins = 0x06) :
    Answered (step d a (.apdu c)).2 ↔ ¬ Undecodable d a log (.apdu c) ∧
      ¬ StopsSession d a log (.apdu c) ∧ ¬ FreesMetadata d a (.apdu c) := by
  have hstops := assertionIff_of_reach hkey h (.apdu c)
  -- a command that completes no message is on neither side of the equivalence
  have hquiet (hans : Answered (step d a (.apdu c)).2) (hmsg : messageOf d a (.apdu c) = none) :
      Answered (step d a (.apdu c)).2 ↔ ¬ Undecodable d a log (.apdu c) ∧
        ¬ StopsSession d a log (.apdu c) ∧ ¬ FreesMetadata d a (.apdu c) := by
    refine iff_of_true hans ⟨?_, ?_, fun hfrees => hfrees.message hmsg⟩
    · rintro ⟨-, parsed, buf, hsome, -⟩
      rw [hmsg] at hsome
      cases hsome
    · rintro ⟨-, parsed, buf, hsome, -⟩
      rw [hmsg] at hsome
      cases hsome
  cases hreq : request a (.apdu c) with
  | untouched =>
    exact hquiet (step_untouched_answered hins hreq) (messageOf_eq_none (by simp [hreq]))
  | getPublicKey data display =>
    simp only [request, requestOfCommand] at hreq
    grind
  | decide confirm =>
    simp only [request, requestOfCommand] at hreq
    grind
  -- key derivation succeeds, so a first command is answered or refused
  | first type data =>
    refine hquiet ?_ (messageOf_eq_none (by simp [hreq]))
    rw [step_first hreq]
    rcases startFlow_cases (d := d) (a := a) type data with heq | ⟨a₁, heq⟩ | ⟨a₁, heq, -⟩
    · refine absurd ?_ (startFlow_ne_assertion (a := a) hkey type data)
      rw [heq]
      rfl
    · rw [heq]
      exact answered_documented (by decide)
    · rw [heq]
      exact .inl rfl
  | next more msgEnd data =>
    rcases step_next_cases (d := d) hreq with ⟨hnone, heq⟩ | ⟨hnone, -, heq⟩ |
      ⟨hconf, parsed, raw, buf, hmsg, heq⟩
    · refine hquiet ?_ hnone
      rw [heq]
      refine answered_documented ?_
      split <;> decide
    · refine hquiet ?_ hnone
      rw [heq]
      exact .inl rfl
    · -- a complete message: each exception is read off the state before it
      rw [← hstops]
      constructor
      · intro hans
        refine ⟨?_, fun hassert => ?_, fun hfrees => ?_⟩
        · rintro ⟨htype, parsed', buf', hmsg', hopen, hroom, hdec⟩
          rw [hmsg] at hmsg'
          cases hmsg'
          rw [heq, processAndAnswer_undecodable (topoInv_of_reach h ⟨hconf, htype⟩) htype hopen
            hroom
            hdec] at hans
          exact absurd hans (by rintro (h | h) <;> revert h <;> decide)
        · rw [hassert] at hans
          exact hans
        · rw [heq, processAndAnswer_overwritten hfrees.overwritten] at hans
          exact hans
      · rintro ⟨hdecodable, hrun, hkept⟩
        rw [heq] at hrun ⊢
        have hheader : a.headerOverwritten = false := by
          by_contra hover
          exact hkept ⟨Bool.eq_true_of_not_eq_false hover, by simp [hmsg]⟩
        refine processAndAnswer_answered hconf hheader hrun fun hword => hdecodable ?_
        obtain ⟨htype, hopen, hroom, hdec⟩ := undecodable_of_word hrun hword
          (fun htype => topoInv_of_reach h ⟨hconf, htype⟩)
        exact ⟨htype, parsed, buf, hmsg, hopen, hroom, hdec⟩

/-- A topology message of one byte, which is no message. -/
def truncatedTopologyMessage : Command := ⟨0x06, 1, 0x06, [0x0A]⟩

theorem answer_documented_iff_empty : ∃ a log,
    (loggedApp testDevice).Reach anyEvent [topologyFirst] (a, log) ∧
      Answered (step testDevice a (.apdu (emptyTopologyMessage false))).2 := by
  obtain ⟨a, log, hreach, hp⟩ := exists_reach_loggedApp testDevice [topologyFirst]
    (fun s => decide (s.2 = []) && !s.1.headerOverwritten &&
      decide (messageOf testDevice s.1 (.apdu (emptyTopologyMessage false)) =
        some (false, [0x0A, 0x02, 0x08, 0x01]))) (by decide +kernel)
  simp only [Bool.and_eq_true, decide_eq_true_eq, Bool.not_eq_true'] at hp
  obtain ⟨⟨rfl, hheader⟩, hmsg⟩ := hp
  refine ⟨a, [], hreach, (answer_documented_iff testDevice_derives hreach rfl).mpr ⟨?_, ?_, ?_⟩⟩
  · rintro ⟨-, parsed, buf, hmsg', -, -, hdec⟩
    rw [hmsg] at hmsg'
    cases hmsg'
    exact absurd hdec (by decide +kernel)
  · rintro ⟨-, parsed, buf, -, hcond⟩
    simp [Finished, Decided] at hcond
  · exact fun hfrees => absurd (hheader.symm.trans hfrees.overwritten) Bool.false_ne_true

/-- A topology message that does not decode is answered with -3, sent as `0xFFFD`. -/
theorem truncated_answered_parserStatus : ∃ a log,
    (loggedApp testDevice).Reach anyEvent [topologyFirst] (a, log) ∧
      (step testDevice a (.apdu truncatedTopologyMessage)).2 = .sw (-3) ∧
      (-3 : Int) % 2 ^ 16 = 0xFFFD ∧ ¬ Answered (.sw (-3)) := by
  obtain ⟨a, log, hreach, hp⟩ := exists_reach_loggedApp testDevice [topologyFirst]
    (fun s => decide ((step testDevice s.1 (.apdu truncatedTopologyMessage)).2 = .sw (-3)))
    (by decide +kernel)
  refine ⟨a, log, hreach, by simpa using hp, by decide, ?_⟩
  rintro (h | h) <;> revert h <;> decide

end CantonSigner
