import CantonSigner.Flow.Authorisation
import CantonSigner.Flow.Finalized
import CantonSigner.Topology.AppRuns
import CantonSigner.Topology.MultiHash

/-!
# What a review is about

A review asks for the signature of one hash with the key of one path. `review_of_flow` says
where both come from, for every signing type: the path from the first command of the flow, and
the hash from the messages of this flow. `Commits` is what the hash of a type is of its
messages: the last message itself, their multi-hash, or the hash of the prepared transaction
they make up (`HashOfParts`), which earlier flows have no part in while its node parts have
distinct ids. `signature_of_flow` carries this over to what is signed: as long as no
command arrives under a review, the flow that is approved is the flow that is signed.
-/

namespace CantonSigner

open ByteCodec

variable {d : Device} {a : App} {e : Event} {log : List PartEvent}

/-! ## The first command of a flow -/

/-- The signing type and the data of a first command. -/
def firstCommand : Event → Option (SigningType × Bytes)
  | .apdu c =>
    match signingTypeOfP1 c.p1, signFlags c.p2 with
    | some type, some (true, _, _) =>
      if c.ins = 0x06 && !c.data.isEmpty then some (type, c.data) else none
    | _, _ => none
  | .choice _ | .setBlindSigning _ => none

theorem firstCommand_eq {type : SigningType} {data : Bytes} :
    firstCommand e = some (type, data) ↔ request a e = .first type data := by
  cases e with
  | apdu c =>
    simp only [firstCommand, request, requestOfCommand]
    grind
  | choice confirm =>
    simp only [firstCommand, request]
    grind
  | setBlindSigning allow => simp [firstCommand, request]

/-- The last first command of some events. -/
def lastFirst (es : List Event) : Option (SigningType × Bytes) :=
  (es.filterMap firstCommand).getLast?

theorem lastFirst_first {type : SigningType} {data : Bytes} (es : List Event)
    (h : request a e = .first type data) : lastFirst (es ++ [e]) = some (type, data) := by
  simp [lastFirst, firstCommand_eq.mpr h]

theorem lastFirst_other (es : List Event) (h : ∀ type data, request a e ≠ .first type data) :
    lastFirst (es ++ [e]) = lastFirst es := by
  have hnone : firstCommand e = none := by
    cases hf : firstCommand e with
    | none => rfl
    | some p => exact absurd (firstCommand_eq.mp hf) (h p.1 p.2)
  simp [lastFirst, hnone]

/-- The open flow has the type and the path of its first command. -/
def FromFirst (es : List Event) (a : App) : Prop :=
  a.reqType = .confirmTransaction → ∃ data rest, lastFirst es = some (a.signingType, data) ∧
    readBip32Path data = some (a.bip32Path, rest)

theorem FromFirst.kept {es : List Event} {a' : App} (h : FromFirst es a)
    (hother : ∀ type data, request a e ≠ .first type data)
    (hreq : a'.reqType = .confirmTransaction → a.reqType = .confirmTransaction)
    (htype : a'.signingType = a.signingType) (hpath : a'.bip32Path = a.bip32Path) :
    FromFirst (es ++ [e]) a' := by
  intro hr
  rw [lastFirst_other es hother, htype, hpath]
  exact h (hreq hr)

theorem FromFirst.closed {es : List Event} {a' : App} (hreq : a'.reqType = .confirmAddress) :
    FromFirst es a' := fun hr => absurd (hreq.symm.trans hr) (by decide)

/-- A first command takes the path from its data. -/
theorem fromFirst_startFlow {type : SigningType} {data : Bytes} {es : List Event}
    (hlast : lastFirst es = some (type, data)) : FromFirst es (startFlow d a type data).1 := by
  have hstarted := startFlow_cases (d := d) (a := a) type data
  revert hstarted
  unfold startFlow
  cases hchunk : processFirstChunk d a type data with
  | none => exact fun _ => .closed rfl
  | some r =>
    obtain ⟨a₁, sw⟩ := r
    dsimp only
    split
    · exact fun _ => .closed rfl
    · rename_i hsw
      intro hstarted hr
      obtain ⟨rest, hpath⟩ := (processFirstChunk_frame hchunk).2 (Decidable.of_not_not hsw)
      rcases hstarted with heq | ⟨a₂, heq⟩ | ⟨a₂, heq, hstart⟩
      · rw [heq] at hr
        exact absurd hr (by simp [assertFailed, App.powerUp])
      · rw [heq] at hr
        exact absurd hr (by simp [refuseTx])
      · obtain rfl := (Prod.mk.inj heq).1
        exact ⟨data, rest, hstart.signingType ▸ hlast, hpath⟩

/-- A step keeps the path of the flow. -/
theorem fromFirst_step {es : List Event} (h : FromFirst es a) :
    FromFirst (es ++ [e]) (step d a e).1 := by
  cases hreq : request a e with
  | untouched =>
    have hsame := (step_untouched (d := d) hreq).1
    exact h.kept (by simp [hreq]) (fun hr => hsame.reqType ▸ hr) hsame.signingType hsame.bip32Path
  | getPublicKey data display => exact .closed (getPublicKey_reqType hreq)
  | first type data =>
    rw [step_first hreq]
    exact fromFirst_startFlow (lastFirst_first es hreq)
  | decide confirm =>
    have hframe := decide_frame (d := d) hreq
    rw [hframe]
    exact h.kept (by simp [hreq]) id rfl rfl
  | next more msgEnd data =>
    rcases step_next_cases (d := d) hreq with ⟨-, heq⟩ | ⟨-, -, heq⟩ |
      ⟨hconf, parsed, raw, buf, -, heq⟩
    · rw [heq]
      exact .closed rfl
    · rw [heq]
      exact h.kept (by simp [hreq]) id rfl rfl
    · rw [heq]
      intro hr
      exact h.kept (by simp [hreq]) (fun _ => hconf) (processAndAnswer_signingType hr)
        (processAndAnswer_path hr) hr

theorem fromFirst_of_reach {ok : App × List PartEvent → Event → Prop} {es : List Event}
    (h : (loggedApp d).Reach ok es (a, log)) : FromFirst es a := by
  refine h.invariant (P := fun es s => FromFirst es s.1) ?_ ?_
  · rintro s ⟨allow, rfl⟩
    exact .closed rfl
  · rintro es ⟨a, log⟩ e s' ih - hstep
    cases hstep
    exact fromFirst_step ih

/-! ## The hash of a flow -/

/-- The hash that messages of a signing type have: the last message itself, the multi-hash of
the messages, or the hash of the prepared transaction that they are. -/
def Commits (d : Device) : SigningType → List Bytes → Bytes → Prop
  | .hash, bufs, hash => bufs.getLast? = some hash ∧ (hash.length = 32 ∨ hash.length = 34)
  | .untypedVersionedMessage, bufs, hash => hash = multiHash d (bufs.map (cantonHash d 11))
  | .preparedTransaction, bufs, hash => ∃ tx parts md ics,
    AllSent bufs tx parts md ics ∧ HashOfParts d tx parts md ics hash

/-- The hash that is signed. -/
def App.signedHash (a : App) : Bytes := a.tx.mHash.take a.tx.mHashLen

/-- A review keeps the hash. -/
theorem startReview_signedHash (a : App) : (startReview a).1.signedHash = a.signedHash := by
  obtain ⟨state, screen, review, h⟩ := startReview_frame a
  rw [h]
  rfl

theorem length_multiHash (hashes : List Bytes) : (multiHash d hashes).length = 34 :=
  length_cantonHash 55 _

/-- The last message of a topology flow stores the hash of them all. -/
theorem topology_commits {buf : Bytes} {t t' : Topology} (h : HashesOf d t log)
    (hok : processUntypedVersionedMsgTx d true t buf = .ok t') :
    t'.mHash.take t'.mHashLen = multiHash d ((partBuffers log ++ [buf]).map (cantonHash d 11)) := by
  obtain ⟨hhash, hlen⟩ := multiHash_of_last h hok
  rw [hhash, hlen]
  exact List.take_of_length_le (length_multiHash _).le

/-- The part that completes a prepared transaction leaves the hash of its parts. -/
theorem preparedTransaction_commits {st st' : Prepared} {bufs : List Bytes} {buf : Bytes}
    (hinv : FlowInv d st bufs) (hc : Completes st buf)
    (hacc : processPreparedTxPart d true st buf = (st', 0)) :
    Commits d .preparedTransaction (bufs ++ [buf]) (st'.mHash.take st'.mHashLen) := by
  obtain ⟨st₀, tx, parts, md, ics, hfinal, hsent, hreceived, hcount⟩ :=
    completes_accepted hinv hc hacc
  obtain ⟨store, nodes, habs, htxHash⟩ := hreceived.absorbed
  refine ⟨tx, parts, md, ics, ⟨hsent, hcount⟩,
    hashOfParts (?_ : transactionHash d store tx parts md ics = some _)⟩
  have hhash : st'.mHash.take st'.mHashLen =
      finalizeHash d st₀.partialTxHash (d.sha st₀.hasher) := by
    rw [hfinal, finalized_eq]
    exact List.take_of_length_le (d.length_sha _).le
  simp [transactionHash, habs, hreceived.hasher, htxHash, hhash]

/-! ## The review of a flow -/

/-- A message that starts a review leaves the hash of the flow. -/
theorem commits_of_message {raw buf : Bytes} {a₁ : App} {es : List Event}
    (h : (loggedApp d).Reach (onMessages d MarkedAtEnd) es (a, log))
    (hreq : a.reqType = .confirmTransaction)
    (hok : a.signingType = .preparedTransaction → MarkedAtEnd a.prepared log true buf)
    (hm : processMessage d (a.atMessage raw true) buf = some (a₁, 0)) :
    Commits d a.signingType (partBuffers log ++ [buf]) a₁.signedHash := by
  cases htype : a.signingType with
  -- the message is the hash itself, of 32 or 34 bytes
  | hash =>
    unfold processMessage at hm
    have hsign : (a.atMessage raw true).signingType = .hash := htype
    rw [hsign] at hm
    have hm : processTransactionHash (a.atMessage raw true) buf = (a₁, 0) := Option.some.inj hm
    unfold processTransactionHash at hm
    split at hm
    · cases hm
    · split at hm
      · cases hm
      · rename_i hlen
        cases hm
        have hhash : App.signedHash { a.atMessage raw true with tx :=
            { (a.atMessage raw true).tx with mHash := buf, mHashLen := buf.length } } = buf :=
          List.take_length
        rw [hhash]
        refine ⟨by simp, ?_⟩
        by_cases h32 : buf.length = 32
        · exact .inl h32
        · exact .inr (by simpa [h32] using hlen)
  -- the storage holds the hashes of all messages of the flow
  | untypedVersionedMessage =>
    have hhashes := topologyRelation_hashes.of_reach (h.mono fun _ _ _ => trivial) ⟨hreq, htype⟩
    rw [processMessage_topology raw buf true htype] at hm
    split at hm
    · cases hm
    · rename_i hout
      cases hm
      exact absurd rfl (processUntypedVersionedMsgTx_nonzero hout)
    · rename_i t' hout
      obtain ⟨rfl, -⟩ := Prod.mk.inj (Option.some.inj hm)
      exact topology_commits hhashes hout
  -- the hasher has absorbed all parts of the flow
  | preparedTransaction =>
    obtain ⟨hlog, hcompletes⟩ := hok htype
    have hinv := loggedApp_simulation flowRelation_flowInv h ⟨hreq, htype⟩ hlog
    rw [processMessage_atMessage htype] at hm
    obtain ⟨rfl, hzero⟩ := Prod.mk.inj (Option.some.inj hm)
    exact preparedTransaction_commits hinv (hcompletes rfl) (Prod.ext rfl hzero)

/-- The path and the hash that a last message leaves are those of its flow. -/
theorem flow_of_message {raw buf : Bytes} {a₁ : App} {es : List Event}
    (h : (loggedApp d).Reach (onMessages d MarkedAtEnd) es (a, log))
    (hok : onMessages d MarkedAtEnd (a, log) e) (hreq : a.reqType = .confirmTransaction)
    (hmsg : messageOf d a e = some (true, buf))
    (hm : processMessage d (a.atMessage raw true) buf = some (a₁, 0)) :
    ∃ type data rest, lastFirst es = some (type, data) ∧
      readBip32Path data = some (a₁.bip32Path, rest) ∧
      Commits d type (partBuffers log ++ [buf]) a₁.signedHash := by
  obtain ⟨data, rest, hlast, hpath⟩ := fromFirst_of_reach h hreq
  refine ⟨a.signingType, data, rest, hlast, ?_, ?_⟩
  · rw [(processMessage_screen hm).2.2]
    exact hpath
  · exact commits_of_message h hreq (fun htype => hok htype _ _ hmsg) hm

/-- **A review is of its own flow**: in every run in which parts of a prepared transaction are
marked as the last one only at the end, the path of a review is the one of the last first command,
and the hash to be signed is the one of all the messages since. -/
theorem review_of_flow {es : List Event} {s : Screen}
    (h : (loggedApp d).Reach (onMessages d MarkedAtEnd) es (a, log))
    (hok : onMessages d MarkedAtEnd (a, log) e) (hshown : (step d a e).2 = .shown s)
    (hrev : s.isReview = true) :
    ∃ type data rest buf, lastFirst es = some (type, data) ∧
      readBip32Path data = some ((step d a e).1.bip32Path, rest) ∧
      messageOf d a e = some (true, buf) ∧
      Commits d type (partBuffers log ++ [buf]) (step d a e).1.signedHash := by
  obtain ⟨hreq, raw, buf, hmsg, -, a₁, hm, hstart⟩ := message_of_review hshown hrev
  obtain ⟨type, data, rest, hlast, hpath, hcommits⟩ := flow_of_message h hok hreq hmsg hm
  rw [hstart, (startReview_path a₁).1, startReview_signedHash]
  exact ⟨type, data, rest, buf, hlast, hpath, hmsg, hcommits⟩

theorem review_of_flow_acceptance : ∃ a log type data rest buf,
    (loggedApp testDevice).Reach (onMessages testDevice MarkedAtEnd) acceptanceAfterRefusal
      (a, log) ∧
      lastFirst acceptanceAfterRefusal = some (type, data) ∧
      readBip32Path data = some ((step testDevice a (lastPart acceptedOffer)).1.bip32Path, rest) ∧
      messageOf testDevice a (lastPart acceptedOffer) = some (true, buf) ∧
      Commits testDevice type (partBuffers log ++ [buf])
        (step testDevice a (lastPart acceptedOffer)).1.signedHash := by
  have h₀ : (loggedApp testDevice).init (App.powerUp true, []) := ⟨true, rfl⟩
  have hrun : ((loggedApp testDevice).run (markedAtEndStep testDevice) (App.powerUp true, [])
      acceptanceAfterRefusal).any (fun s => markedAtEndStep testDevice s (lastPart acceptedOffer) &&
        (step testDevice s.1 (lastPart acceptedOffer)).2.screen.any Screen.isReview) = true := by
    decide +kernel
  obtain ⟨⟨a, log⟩, hreach, hp⟩ := Machine.exists_reach_of_run h₀ hrun
  rw [Bool.and_eq_true] at hp
  have hreach' : (loggedApp testDevice).Reach (onMessages testDevice MarkedAtEnd)
      acceptanceAfterRefusal (a, log) := hreach.mono
        fun s e h => onMessages_of_markedAtEndStep s e h
  obtain ⟨s, hs, hrev⟩ := Output.exists_shown hp.2
  obtain ⟨type, data, rest, buf, hflow⟩ :=
    review_of_flow hreach' (onMessages_of_markedAtEndStep _ _ hp.1) hs hrev
  exact ⟨a, log, type, data, rest, buf, hreach', hflow⟩

/-! ## The signature of a flow -/

/-- No command arrives under a review. -/
def Undisturbed (a : App) (e : Event) : Prop := a.screen.isReview = true → ∀ c, e ≠ .apdu c

/-- The review on display is of the flow with these messages: `e` was the last of them, and put
the review up after `before`. -/
structure FlowUnderReview (d : Device) (es : List Event) (a : App) (before : List Event) (e : Event)
    (type : SigningType) (first : Bytes) (msgs : List Bytes) : Prop where
  events : ∃ after, es = before ++ e :: after ∧ ∀ e' ∈ after, ∃ allow, e' = .setBlindSigning allow
  started : lastFirst before = some (type, first)
  path : ∃ rest, readBip32Path first = some (a.bip32Path, rest)
  messages : ∃ a₀ log buf, (loggedApp d).Reach (onMessages d MarkedAtEnd) before (a₀, log) ∧
    messageOf d a₀ e = some (true, buf) ∧ (step d a₀ e).2 = .shown a.screen ∧
    msgs = partBuffers log ++ [buf]
  hash : Commits d type msgs a.signedHash

/-- A review is always of some flow. -/
def ReviewsFlow (d : Device) (es : List Event) (a : App) : Prop :=
  a.screen.isReview = true → ∃ before e type first msgs,
    FlowUnderReview d es a before e type first msgs

/-- The setting does not matter to a review. -/
theorem FlowUnderReview.setting {es before : List Event} {type : SigningType} {first : Bytes}
    {msgs : List Bytes} (h : FlowUnderReview d es a before e type first msgs) (allow : Bool) :
    FlowUnderReview d (es ++ [.setBlindSigning allow]) (step d a (.setBlindSigning allow)).1 before
      e type first msgs where
  events := by
    obtain ⟨after, rfl, hafter⟩ := h.events
    refine ⟨after ++ [.setBlindSigning allow], by simp, fun e' he' => ?_⟩
    rcases List.mem_append.mp he' with hold | hnew
    · exact hafter e' hold
    · exact ⟨allow, List.mem_singleton.mp hnew⟩
  started := h.started
  path := h.path
  messages := h.messages
  hash := h.hash

theorem choice_screen (confirm : Bool) :
    (step d a (.choice confirm)).1.screen.isReview = false := by
  cases hs : a.screen with
  | menu | blindSigningError => simp only [step, userChoice, hs, Screen.isReview]
  | clearReview | blindReview =>
    simp only [step, userChoice, hs]
    rw [(validateTransaction_answer confirm false).1]
    rfl
  | addressReview partyId =>
    simp only [step, userChoice, hs]
    rw [(validatePubkey_answer (d := d) confirm partyId).1]
    rfl

theorem reviewsFlow_step {es : List Event}
    (h : (loggedApp d).Reach (onMessages d MarkedAtEnd) es (a, log)) (hinv : ReviewsFlow d es a)
    (hok : onMessages d MarkedAtEnd (a, log) e) (hquiet : Undisturbed a e) :
    ReviewsFlow d (es ++ [e]) (step d a e).1 := by
  intro hrev
  cases e with
  | choice confirm => exact absurd (hrev.symm.trans (choice_screen confirm)) (by decide)
  | setBlindSigning allow =>
    obtain ⟨before, e, type, first, msgs, hflow⟩ := hinv hrev
    exact ⟨before, e, type, first, msgs, hflow.setting allow⟩
  | apdu c =>
    rcases step_apdu (d := d) (a := a) c with ⟨-, -, hscreen⟩ | ⟨hshown, -⟩
    · -- The screen was there before the command, so no command was allowed.
      rcases hscreen with heq | heq | heq
      · rw [heq] at hrev
        exact absurd rfl (hquiet hrev c)
      · rw [heq] at hrev
        cases hrev
      · rw [heq] at hrev
        cases hrev
    · obtain ⟨hreq, raw, buf, hmsg, -, a₁, hm, hstart⟩ := message_of_review hshown hrev
      obtain ⟨type, first, rest, hlast, hpath, hcommits⟩ := flow_of_message h hok hreq hmsg hm
      refine ⟨es, .apdu c, type, first, partBuffers log ++ [buf], ⟨[], rfl, nofun⟩, hlast,
        ⟨rest, ?_⟩, ⟨a, log, buf, h, hmsg, hshown, rfl⟩, ?_⟩
      · rw [hstart, (startReview_path a₁).1]
        exact hpath
      · rw [hstart, startReview_signedHash]
        exact hcommits

/-- **A signature is of one flow**: in every run in which parts of a prepared transaction are
marked as the last one only at the end and no command arrives under a review, what is signed is
the hash of all messages since the last first command, with the key of the path in that command,
and the approved screen is the one that the last message put up. -/
theorem signature_of_flow {es : List Event} {confirm : Bool} {data : Bytes}
    (h : (loggedApp d).Reach (fun s e => onMessages d MarkedAtEnd s e ∧ Undisturbed s.1 e) es
      (a, log))
    (hrev : a.screen.isReview = true) (hdata : (step d a (.choice confirm)).2 = .response data) :
    ∃ before e type first msgs signature, FlowUnderReview d es a before e type first msgs ∧
      d.signHash a.bip32Path a.signedHash = some signature ∧
      data = [64] ++ signature ++ [0] ++ a.tx.challengeSignature.elim [] fun c => [64] ++ c := by
  have hmarked := h.mono fun _ _ hok => hok.1
  have hinv : ReviewsFlow d es a := by
    refine (h.invariant (P := fun es s => (loggedApp d).Reach (onMessages d MarkedAtEnd) es s ∧
      ReviewsFlow d es s.1) ?_ ?_).2
    · rintro s ⟨allow, rfl⟩
      exact ⟨.start ⟨allow, rfl⟩, nofun⟩
    · rintro es ⟨a, log⟩ e s' ⟨hreach, ih⟩ ⟨hok, hquiet⟩ hstep
      refine ⟨hreach.step hok hstep, ?_⟩
      cases hstep
      exact reviewsFlow_step hreach ih hok hquiet
  obtain ⟨before, e, type, first, msgs, hflow⟩ := hinv hrev
  have hvalidate : step d a (.choice confirm) = validateTransaction d a confirm := by
    cases hs : a.screen <;> simp_all [step, userChoice, Screen.isReview]
  obtain ⟨-, hanswer | hanswer⟩ := validateTransaction_answer (d := d) (a := a) confirm false
  · obtain ⟨data', hdata', signature, hsign, heq⟩ := hanswer
    rw [hvalidate, hdata'] at hdata
    cases hdata
    exact ⟨before, e, type, first, msgs, signature, hflow, hsign, heq⟩
  · obtain ⟨sw, hsw⟩ := hanswer
    rw [hvalidate, hsw] at hdata
    cases hdata

/-- `Undisturbed`, computed. -/
def undisturbedStep (a : App) : Event → Bool
  | .apdu _ => !a.screen.isReview
  | .choice _ | .setBlindSigning _ => true

theorem undisturbed_of_step (h : undisturbedStep a e = true) : Undisturbed a e := by
  rintro hrev c rfl
  simp [undisturbedStep, hrev] at h

/-- The signature of an approved acceptance. -/
theorem signature_of_flow_acceptance : ∃ a log before e type first msgs signature,
    (loggedApp testDevice).Reach (fun s e => onMessages testDevice MarkedAtEnd s e ∧
      Undisturbed s.1 e) (acceptanceAfterRefusal ++ [lastPart acceptedOffer]) (a, log) ∧
    FlowUnderReview testDevice (acceptanceAfterRefusal ++ [lastPart acceptedOffer]) a before e
      type first msgs ∧
    testDevice.signHash a.bip32Path a.signedHash = some signature ∧
    [64] ++ List.replicate 64 1 ++ [0] = [64] ++ signature ++ [0] ++
      a.tx.challengeSignature.elim [] fun c => [64] ++ c := by
  have h₀ : (loggedApp testDevice).init (App.powerUp true, []) := ⟨true, rfl⟩
  have hrun : ((loggedApp testDevice).run (fun s e => markedAtEndStep testDevice s e &&
      undisturbedStep s.1 e) (App.powerUp true, [])
        (acceptanceAfterRefusal ++ [lastPart acceptedOffer])).any
      (fun s => s.1.screen.isReview && decide ((step testDevice s.1 (.choice true)).2 =
        .response ([64] ++ List.replicate 64 1 ++ [0]))) = true := by
    decide +kernel
  obtain ⟨⟨a, log⟩, hreach, hp⟩ := Machine.exists_reach_of_run h₀ hrun
  simp only [Bool.and_eq_true, decide_eq_true_eq] at hp
  have hreach' : (loggedApp testDevice).Reach (fun s e => onMessages testDevice MarkedAtEnd s e ∧
      Undisturbed s.1 e) (acceptanceAfterRefusal ++ [lastPart acceptedOffer]) (a, log) := by
    refine hreach.mono fun s e h => ?_
    obtain ⟨hmarked, hquiet⟩ := Bool.and_eq_true_iff.mp h
    exact ⟨onMessages_of_markedAtEndStep s e hmarked, undisturbed_of_step hquiet⟩
  obtain ⟨before, e, type, first, msgs, signature, hflow⟩ := signature_of_flow hreach' hp.1 hp.2
  exact ⟨a, log, before, e, type, first, msgs, signature, hreach', hflow⟩

end CantonSigner
