import CantonSigner.Flow.Completion
import CantonSigner.Topology.AppRuns

/-!
# Clear onboarding reviews in the app

A clear review of a topology flow stands for the three checked mappings in every run in which
nothing is decided while messages are still to come (`onboarding_clear`). A decision on the
review of an earlier flow that is still on display frees the rows of the new flow, and the flags
that the review waits for stay: the mappings are then signed under an empty list of rows
(`onboarding_after_decision`).
-/

namespace CantonSigner

open ByteCodec

variable {d : Device} {t t' : Topology} {a : App} {e : Event} {log : List PartEvent}

/-! ## Runs without early decisions -/

/-- No decision is taken in a topology flow before its last message. -/
def NoEarlyDecision (s : App × List PartEvent) (e : Event) : Prop :=
  s.1.ReceivingTopology → ¬ Finished s.2 → ∀ confirm, request s.1 e ≠ .decide confirm

/-- An open flow whose last message has not come has seen no decision. -/
theorem not_decided_of_reach {es : List Event} (h : (loggedApp d).Reach NoEarlyDecision es (a, log))
    (hr : a.ReceivingTopology) (hopen : ¬ Finished log) : ¬ Decided log := by
  refine h.invariant
    (P := fun _ s => s.1.ReceivingTopology → ¬ Finished s.2 → ¬ Decided s.2) ?_ ?_ hr hopen
  · rintro s ⟨allow, rfl⟩ - -
    exact not_decided_nil
  · rintro es ⟨a, log⟩ e s' ih hok hstep hr hopen
    cases hstep
    cases hreq : request a e with
    | untouched =>
      have hsame := (step_untouched (d := d) hreq).1
      simp only [nextLog, hreq] at hopen ⊢
      exact ih ⟨hsame.reqType ▸ hr.1, hsame.signingType ▸ hr.2⟩ hopen
    | getPublicKey data display =>
      exact absurd ((getPublicKey_reqType hreq).symm.trans hr.1) (by decide)
    -- a first command empties the log
    | first type data =>
      simp only [nextLog, hreq]
      exact not_decided_nil
    | next more msgEnd data =>
      rcases step_next_cases (d := d) hreq with ⟨-, heq⟩ | ⟨hnone, hconf, heq⟩ |
        ⟨hconf, parsed, raw, buf, hmsg, heq⟩
      · rw [heq] at hr
        exact absurd hr.1 (by simp [refuseTx])
      · simp only [nextLog, hreq, hnone] at hopen ⊢
        rw [heq] at hr
        exact ih ⟨hconf, hr.2⟩ hopen
      · have htype : a.signingType = .untypedVersionedMessage := by
          rw [heq] at hr
          exact (processAndAnswer_signingType hr.1).symm.trans hr.2
        simp only [nextLog, hreq, hmsg] at hopen ⊢
        -- after the last message the flow is finished
        cases parsed with
        | true => exact absurd ⟨buf, by simp⟩ hopen
        | false =>
          have hopen' : ¬ Finished log := fun hfin => hopen (finished_append.mpr (.inl hfin))
          simpa [Decided] using ih ⟨hconf, htype⟩ hopen'
    -- the condition rules out a decision in between
    | decide confirm =>
      have hframe := decide_frame (d := d) hreq
      have hr' : a.ReceivingTopology := by
        rw [hframe] at hr
        exact hr
      simp only [nextLog, hreq] at hopen
      have hopen' : ¬ Finished log := fun hfin => hopen (finished_append.mpr (.inl hfin))
      exact absurd hreq (hok hr' hopen' confirm)

/-- Until a decision is taken, an open flow is an onboarding of its key. -/
def OnboardsKey (d : Device) (path : List Nat) (t : Topology) (log : List PartEvent) : Prop :=
  ¬ Decided log → ∃ key, derivePublicKey d path = .ok key ∧ OnboardState d key.1 (partBuffers log) t

theorem topologyRelation_onboards (hlen : ∀ path key, derivePublicKey d path = .ok key →
    key.1.length = 32) : TopologyRelation d (OnboardsKey d) := by
  refine ⟨fun path key challenge hkey _ => ?_, fun path t log parsed buf t' h hok hnot => ?_, ?_⟩
  · exact ⟨key, hkey, onboardState_start (hlen path key hkey) challenge⟩
  · have hbefore : ¬ Decided log := fun hdec => hnot (decided_append.mpr (.inl hdec))
    obtain ⟨key, hkey, hstate⟩ := h hbefore
    refine ⟨key, hkey, ?_⟩
    rw [partBuffers_append]
    exact onboardState_step hstate hok
  · intro path t log pairs signature h _ hnot
    exact absurd (decided_append.mpr (.inr ⟨pairs, signature, List.mem_singleton_self _⟩)) hnot

/-! ## The review -/

/-- A clear review of a topology flow is the answer to its last message, which is accepted. -/
theorem message_of_topologyReview {title finish : Option Bytes} {rows : List Pair}
    (htype : a.signingType = .untypedVersionedMessage)
    (hshown : (step d a e).2 = .shown (.clearReview title finish rows)) :
    a.ReceivingTopology ∧ ∃ buf t', messageOf d a e = some (true, buf) ∧
      processUntypedVersionedMsgTx d true a.topology buf = .ok t' ∧
      (step d a e).1.topology = t' ∧ t'.review.clearSigningAvailable = true ∧
      (title, finish, rows) =
        (t'.review.reviewTitle, t'.review.reviewFinish, t'.review.pairs.getD []) := by
  obtain ⟨hconf, raw, buf, a₁, hmsg, hm, hclear, hstep, hscreen⟩ := shown_clear hshown
  rw [processMessage_topology raw buf true htype] at hm
  cases hout : processUntypedVersionedMsgTx d true a.topology buf with
  | assertion =>
    rw [hout] at hm
    cases hm
  | refused t sw =>
    rw [hout] at hm
    obtain ⟨-, hzero⟩ := Prod.mk.inj (Option.some.inj hm)
    exact absurd hzero (processUntypedVersionedMsgTx_nonzero hout)
  | ok t' =>
    rw [hout] at hm
    obtain ⟨rfl, -⟩ := Prod.mk.inj (Option.some.inj hm)
    refine ⟨⟨hconf, htype⟩, buf, t', hmsg, hout, by rw [hstep]; rfl, hclear, ?_⟩
    unfold clearScreen at hscreen
    cases hscreen
    rfl

/-- **Clear-signed onboarding is exactly the three checked mappings**, in every run in which no
topology flow meets a decision before its last message. -/
theorem onboarding_clear (hpoint : ∀ path point chainCode,
      d.derivePoint path = .ok (point, chainCode) → point.length = 65)
    {es : List Event} (h : (loggedApp d).Reach NoEarlyDecision es (a, log))
    (htype : a.signingType = .untypedVersionedMessage) {title finish : Option Bytes}
    {rows : List Pair} (hshown : (step d a e).2 = .shown (.clearReview title finish rows)) :
    ∃ buf key delegation keyMapping participants first second,
      messageOf d a e = some (true, buf) ∧ derivePublicKey d a.bip32Path = .ok key ∧
      OnboardingShown d key.1 (partBuffers log ++ [buf]) (step d a e).1.topology delegation
        keyMapping participants first second ∧
      rows = onboardingRows (partyIdFromPubkey d key.1) first second := by
  obtain ⟨hr, buf, t', hmsg, hok, htopo, hclear, hscreen⟩ := message_of_topologyReview htype hshown
  have hany : (loggedApp d).Reach anyEvent es (a, log) := h.mono fun _ _ _ => trivial
  -- The last message is accepted, so no other one came before it.
  have hopen : ¬ Finished log := by
    intro hfin
    obtain ⟨hashes, -, hhashes, -⟩ := processUntypedVersionedMsgTx_ok hok
    have hnone : a.topology.txHashes = none := (topoInv_of_reach hany hr).finished hfin
    rw [hnone] at hhashes
    cases hhashes
  have hlen : ∀ path key, derivePublicKey d path = .ok key → key.1.length = 32 :=
    fun path key => length_derivePublicKey hpoint
  obtain ⟨key, hkey, hstate⟩ := (topologyRelation_onboards hlen).of_reach hany hr
    (not_decided_of_reach h hr hopen)
  rcases onboardState_step hstate hok with ⟨ts, hinv, -⟩ | ⟨-, hshown'⟩
  · exact absurd (hinv.clear.symm.trans hclear) Bool.false_ne_true
  · obtain ⟨delegation, keyMapping, participants, first, second, honboarding⟩ := hshown' hclear
    rw [htopo]
    refine ⟨buf, key, delegation, keyMapping, participants, first, second, hmsg, hkey,
      honboarding, ?_⟩
    rw [(Prod.mk.inj (Prod.mk.inj hscreen).2).2, honboarding.rows]
    rfl

/-! ## On the test device -/

/-- The first APDU of a topology flow. -/
def topologyFirst : Event := .apdu ⟨0x06, 1, 0x03, [1, 0x80, 0, 0, 44]⟩

/-- One message of a topology flow, marked as the last one or not. -/
def topologyPart (m : Bool × Bytes) : Event := .apdu ⟨0x06, 1, if m.1 then 0x04 else 0x06, m.2⟩

/-- A topology flow, one APDU for each message. -/
def topologyFlow (ms : List (Bool × Bytes)) : List Event := topologyFirst :: ms.map topologyPart

/-- The key of every path. -/
def testKey : Bytes := List.replicate 31 7 ++ [0x87]

/-- The three messages of an onboarding on the development network. -/
def devnetOnboarding (key : Bytes) : List (Bool × Bytes) := [
  (false, Host.namespaceDelegation key),
  (false, Host.partyToParticipant (partyIdFromPubkey testDevice key)
    (str ("Ledger-KilnDevnet-2::" ++
      "12203b77e5d74eb787ff0251fd76949379a625368646302a203fea7f7db1dd5402bf"))
    (str ("ledger-ledgeropsdevnet-0::" ++
      "12208f74f551f8c28b68414fc3bb4b8466178055845485878a1af8ac1fe96f88fad2"))),
  (true, Host.partyToKeyMapping (partyIdFromPubkey testDevice key) key)]

instance (a : App) : Decidable a.ReceivingTopology := inferInstanceAs (Decidable (_ ∧ _))

theorem lastMarked_iff : lastMarked log = true ↔ Finished log := by
  unfold lastMarked Finished
  rw [List.any_eq_true]
  constructor
  · rintro ⟨e, hmem, he⟩
    cases e with
    | part parsed buf =>
      obtain rfl : parsed = true := he
      exact ⟨buf, hmem⟩
    | rows pairs signature => cases he
  · rintro ⟨buf, hmem⟩
    exact ⟨_, hmem, rfl⟩

instance (log : List PartEvent) : Decidable (Finished log) := decidable_of_iff _ lastMarked_iff

theorem testDevice_point : ∀ path point chainCode,
    testDevice.derivePoint path = .ok (point, chainCode) → point.length = 65 := by
  rintro path point chainCode ⟨⟩
  rfl

/-- The step of the condition, computed. -/
def noEarlyDecision (s : App × List PartEvent) (e : Event) : Bool :=
  !decide s.1.ReceivingTopology || decide (Finished s.2) ||
    match e with
    | .choice _ => false
    | .apdu _ | .setBlindSigning _ => true

theorem noEarlyDecision_sound (s : App × List PartEvent) (e : Event)
    (h : noEarlyDecision s e = true) : NoEarlyDecision s e := by
  intro hr hopen confirm hreq
  cases e with
  | choice c => simp [noEarlyDecision, hr, hopen] at h
  | apdu c => exact request_command_ne_decide hreq
  | setBlindSigning allow => cases hreq

/-- The onboarding of the development network, up to its review. -/
theorem onboarding_clear_devnet : ∃ a log e title finish rows,
    (loggedApp testDevice).Reach NoEarlyDecision
        (topologyFlow ((devnetOnboarding testKey).take 2)) (a, log) ∧
      (step testDevice a e).2 = .shown (.clearReview title finish rows) ∧
      ∃ buf key delegation keyMapping participants first second,
        messageOf testDevice a e = some (true, buf) ∧
        derivePublicKey testDevice a.bip32Path = .ok key ∧
        OnboardingShown testDevice key.1 (partBuffers log ++ [buf]) (step testDevice a e).1.topology
          delegation keyMapping participants first second ∧
        rows = onboardingRows (partyIdFromPubkey testDevice key.1) first second := by
  have h₀ : (loggedApp testDevice).init (App.powerUp true, []) := ⟨true, rfl⟩
  have hrun : ((loggedApp testDevice).run noEarlyDecision (App.powerUp true, [])
      (topologyFlow ((devnetOnboarding testKey).take 2))).any (fun s =>
        decide (s.1.signingType = .untypedVersionedMessage) &&
          ((devnetOnboarding testKey).drop 2).any fun m =>
            (step testDevice s.1 (topologyPart m)).2.isClearReview) = true := by
    decide +kernel
  obtain ⟨⟨a, log⟩, hreach, hp⟩ := Machine.exists_reach_of_run h₀ hrun
  simp only [Bool.and_eq_true, decide_eq_true_eq, List.any_eq_true] at hp
  obtain ⟨htype, m, -, hclear⟩ := hp
  obtain ⟨title, finish, rows, hshown⟩ := Output.exists_clearReview hclear
  have hreach := hreach.mono noEarlyDecision_sound
  exact ⟨a, log, topologyPart m, title, finish, rows, hreach, hshown,
    onboarding_clear testDevice_point hreach htype hshown⟩

/-- A hash that is signed blindly, up to its review. -/
def hashReview : List Event :=
  [.apdu ⟨0x06, 0, 0x03, [1, 0x80, 0, 0, 44]⟩, .apdu ⟨0x06, 0, 0x04, List.replicate 32 1⟩]

/-- The review of a hash is rejected after the second message of an onboarding. -/
def decidedOnboarding : List Event :=
  hashReview ++ topologyFlow ((devnetOnboarding testKey).take 2) ++ [.choice false]

/-- The mappings are then put up for signing under no row at all. -/
theorem onboarding_after_decision : ∃ a log e title finish rows,
    (loggedApp testDevice).Reach anyEvent decidedOnboarding (a, log) ∧
      a.signingType = .untypedVersionedMessage ∧
      (step testDevice a e).2 = .shown (.clearReview title finish rows) ∧ rows = [] ∧
      ∀ party first second, rows ≠ onboardingRows party first second := by
  obtain ⟨a, log, hreach, hp⟩ := exists_reach_loggedApp testDevice decidedOnboarding (fun s =>
    decide (s.1.signingType = .untypedVersionedMessage) &&
      ((devnetOnboarding testKey).drop 2).any fun m =>
        decide ((step testDevice s.1 (topologyPart m)).2 = .shown (.clearReview
          (some onboardingReviewTitle) (some onboardingReviewFinish) []))) (by decide +kernel)
  simp only [Bool.and_eq_true, decide_eq_true_eq, List.any_eq_true] at hp
  obtain ⟨htype, m, -, hshown⟩ := hp
  exact ⟨a, log, topologyPart m, _, _, [], hreach, htype, hshown, rfl, by simp [onboardingRows]⟩

end CantonSigner
