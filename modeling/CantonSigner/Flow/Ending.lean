import CantonSigner.Lib.Run
import CantonSigner.Flow.Answers
import CantonSigner.Model.TestDevice

/-!
# After the end of a signing flow

A flow ends when it is refused, when its review is decided, or with the
blind-signing error. `FlowStatus` follows a run of the app from outside, by its
events and answers, and records whether the flow begun by the last first APDU has
ended and whether it was dropped: refused with an error, or wiped by a
`GET_PUBLIC_KEY`.

Only a dropped flow is closed. Approval, denial and the blind-signing error leave
`req_type` at `CONFIRM_TRANSACTION`, so a continuation of the same signing type
is stored or processed. `continuation_closed_iff` says exactly which continuations
of an ended flow are turned away.
-/

namespace CantonSigner

open ByteCodec

/-- What is known of the flow begun by the last first APDU. -/
structure FlowStatus where
  /-- Its review is on display. -/
  undecided : Bool
  /-- It was refused, decided, or answered with the blind-signing error. -/
  ended : Bool
  /-- It was refused with an error, or wiped by a `GET_PUBLIC_KEY`. -/
  dropped : Bool
deriving Repr, DecidableEq

namespace FlowStatus

/-- Power-up: there is no flow. -/
def powerUp : FlowStatus := ⟨false, false, true⟩

/-- The status after a `SIGN_TX` that was answered with `out`. -/
def afterAnswer (g : FlowStatus) : Output → FlowStatus
  | .sw v =>
    if v = Sw.ok then g
    else if v = Sw.incorrectData then { g with undecided := false, ended := true }
    else { g with ended := true, dropped := true }
  | .shown _ => { g with undecided := true }
  | .assertion | .fault => powerUp
  | _ => g

/-- The status after a step of the app. -/
def next (d : Device) (a : App) (e : Event) (g : FlowStatus) : FlowStatus :=
  match request a e, (step d a e).2 with
  | .untouched, _ => g
  | .getPublicKey _ _, .shown _ => { g with undecided := false, dropped := true }
  | .getPublicKey _ _, _ => { g with dropped := true }
  | .first _ _, out => afterAnswer ⟨false, false, false⟩ out
  | .next _ _ _, out => g.afterAnswer out
  | .decide _, _ => if g.undecided then { g with undecided := false, ended := true } else g

end FlowStatus

/-- The app together with the status of its flow. -/
def trackedApp (d : Device) : Machine (App × FlowStatus) Event where
  init s := ∃ allow, s = (App.powerUp allow, .powerUp)
  step s e := some ((step d s.1 e).1, s.2.next d s.1 e)

/-- Any event may happen. -/
abbrev anyEvent {σ ε : Type} : σ → ε → Prop := fun _ _ => True

variable {d : Device} {a : App} {e : Event} {g : FlowStatus}

/-! ## The invariant

A flow is dropped exactly when `req_type` is not `CONFIRM_TRANSACTION`. -/

/-- `dropped` mirrors `req_type`. -/
def StatusInv (s : App × FlowStatus) : Prop :=
  s.2.dropped = true ↔ s.1.reqType = .confirmAddress

theorem statusInv_getPublicKey {data : Bytes} {display : Bool}
    (h : request a e = .getPublicKey data display) :
    StatusInv ((step d a e).1, g.next d a e) := by
  have hreq := getPublicKey_reqType (d := d) h
  have hdropped : (g.next d a e).dropped = true := by
    unfold FlowStatus.next
    rw [h]
    split <;> simp_all
  exact iff_of_true hdropped hreq

/-- The first APDU drops a flow that it refuses. -/
theorem statusInv_first {type : SigningType} {data : Bytes}
    (h : request a e = .first type data) : StatusInv ((step d a e).1, g.next d a e) := by
  have hnext : g.next d a e = FlowStatus.afterAnswer ⟨false, false, false⟩ (step d a e).2 := by
    unfold FlowStatus.next
    rw [h]
  rw [hnext, step_first h]
  rcases startFlow_cases (d := d) (a := a) type data with heq | ⟨a₁, heq⟩ | ⟨a₁, heq, hstart⟩
  · rw [heq]
    exact iff_of_true rfl rfl
  · rw [heq]
    exact iff_of_true rfl rfl
  · rw [heq]
    simp [StatusInv, FlowStatus.afterAnswer, hstart.reqType]

/-- A processed message drops the flow exactly when it is refused. -/
theorem statusInv_processAndAnswer {buf : Bytes} (hreq : a.reqType = .confirmTransaction)
    (hg : g.dropped = false) :
    StatusInv ((processAndAnswer d a buf).1, g.afterAnswer (processAndAnswer d a buf).2) := by
  have hkeep : ∀ {a₁ sw}, processMessage d a buf = some (a₁, sw) →
      a₁.reqType = .confirmTransaction ∧ a₁.state = a.state := fun h => by
    rw [processMessage_frame h]
    exact ⟨hreq, rfl⟩
  rcases processAndAnswer_cases (d := d) a buf with (⟨-, heq⟩ | ⟨-, heq⟩) |
    ⟨a₁, sw, hm, hsw, heq⟩ | ⟨a₁, hm, hp, heq⟩ | ⟨a₁, hm, -, heq⟩
  · rw [heq]
    exact iff_of_true rfl rfl
  · rw [heq]
    exact iff_of_true rfl rfl
  · rw [heq]
    have hword := processMessage_sw hm
    simp [StatusInv, refuseTx, FlowStatus.afterAnswer, hword.1, hword.2]
  · obtain ⟨hr₁, hs₁⟩ := hkeep hm
    rw [heq]
    rcases startReview_cases hr₁ (hs₁.trans hp) with ⟨-, h⟩ | ⟨-, h⟩ | ⟨-, h⟩ <;> rw [h]
    · simp [StatusInv, FlowStatus.afterAnswer, hr₁, hg]
    · simp [StatusInv, FlowStatus.afterAnswer, uiErrorBlindSigning, Sw.ok, Sw.incorrectData,
        hr₁, hg]
    · simp [StatusInv, FlowStatus.afterAnswer, hr₁, hg]
  · rw [heq]
    simp [StatusInv, FlowStatus.afterAnswer, (hkeep hm).1, hg]

theorem statusInv_next {more msgEnd : Bool} {data : Bytes}
    (h : request a e = .next more msgEnd data) (hinv : StatusInv (a, g)) :
    StatusInv ((step d a e).1, g.next d a e) := by
  have hnext : g.next d a e = g.afterAnswer (step d a e).2 := by
    unfold FlowStatus.next
    rw [h]
  have hlive : a.reqType = .confirmTransaction → g.dropped = false := by
    intro hr
    rw [← Bool.not_eq_true]
    intro hdropped
    have haddr : a.reqType = .confirmAddress := hinv.mp hdropped
    rw [hr] at haddr
    cases haddr
  rw [hnext]
  rcases step_next_cases (d := d) h with ⟨-, heq⟩ | ⟨-, hreq, heq⟩ |
    ⟨hreq, parsed, raw, buf, -, heq⟩
  · rw [heq]
    by_cases hr : a.reqType = .confirmTransaction <;>
      simp [StatusInv, refuseTx, FlowStatus.afterAnswer, hr, Sw.wrongTxLength, Sw.badState, Sw.ok,
        Sw.incorrectData]
  · rw [heq]
    simp [StatusInv, FlowStatus.afterAnswer, hreq, hlive hreq]
  · rw [heq]
    exact statusInv_processAndAnswer hreq (hlive hreq)

theorem statusInv_step (hinv : StatusInv (a, g)) : StatusInv ((step d a e).1, g.next d a e) := by
  cases h : request a e with
  | untouched =>
    have hnext : g.next d a e = g := by unfold FlowStatus.next; rw [h]
    rw [hnext]
    unfold StatusInv
    rw [(step_untouched h).1.reqType]
    exact hinv
  | getPublicKey data display => exact statusInv_getPublicKey h
  | first type data => exact statusInv_first h
  | next more msgEnd data => exact statusInv_next h hinv
  | decide confirm =>
    have hnext : (g.next d a e).dropped = g.dropped := by
      unfold FlowStatus.next
      rw [h]
      dsimp only
      split <;> rfl
    have hreq : (step d a e).1.reqType = a.reqType := by
      rw [step_decide h]
      unfold validateTransaction
      dsimp only
      split
      · split <;> rfl
      · rfl
    unfold StatusInv
    rw [hreq, hnext]
    exact hinv

theorem statusInv_of_reach {es : List Event} {s : App × FlowStatus}
    (h : (trackedApp d).Reach anyEvent es s) : StatusInv s := by
  refine h.invariant (P := fun _ s => StatusInv s) ?_ ?_
  · rintro _ ⟨allow, rfl⟩
    exact iff_of_true rfl rfl
  · rintro es ⟨a, g⟩ e s' hinv - hstep
    cases hstep
    exact statusInv_step hinv

/-! ## Continuations of an ended flow -/

/-- A `SIGN_TX` command without the first flag. -/
def IsContinuation (c : Command) : Prop := c.ins = 0x06 ∧ c.p2 &&& 0x01 = 0

/-- The command is turned away as a finished flow should: `SW_BAD_STATE`, no
message processed, the screen left as it is. -/
structure TurnedAway (d : Device) (a : App) (c : Command) : Prop where
  badState : (step d a (.apdu c)).2 = .sw Sw.badState
  noMessage : messageOf d a (.apdu c) = none
  sameScreen : (step d a (.apdu c)).1.screen = a.screen

/-- The checks of the dispatcher on a `SIGN_TX` command. -/
structure DispatcherAccepts (c : Command) : Prop where
  type : (signingTypeOfP1 c.p1).isSome
  flags : (signFlags c.p2).isSome
  data : c.data ≠ []

/-- Where a continuation goes. -/
theorem request_continuation {c : Command} (hc : IsContinuation c) :
    (¬ DispatcherAccepts c ∧ request a (.apdu c) = .untouched ∧
      (step d a (.apdu c)).2 ≠ .sw Sw.badState) ∨
    (DispatcherAccepts c ∧ signingTypeOfP1 c.p1 ≠ some a.signingType ∧
      request a (.apdu c) = .untouched ∧ step d a (.apdu c) = (a, .sw Sw.badState)) ∨
    (DispatcherAccepts c ∧ signingTypeOfP1 c.p1 = some a.signingType ∧
      ∃ more msgEnd, request a (.apdu c) = .next more msgEnd c.data) := by
  obtain ⟨hins, hfirst⟩ := hc
  simp only [request, requestOfCommand, step, apduDispatcher, hins]
  cases htype : signingTypeOfP1 c.p1 with
  | none =>
    left
    refine ⟨fun h => by simpa [htype] using h.type, ?_⟩
    simp [Sw.wrongP1P2, Sw.badState]
  | some type =>
    cases hflags : signFlags c.p2 with
    | none =>
      left
      refine ⟨fun h => by simpa [hflags] using h.flags, ?_⟩
      simp [Sw.wrongP1P2, Sw.badState]
    | some flags =>
      obtain ⟨first, more, msgEnd⟩ := flags
      have hnf : first = false := by
        simp only [signFlags] at hflags
        grind
      by_cases hdata : c.data = []
      · left
        refine ⟨fun h => h.data hdata, ?_⟩
        simp [hdata, Sw.wrongDataLength, Sw.badState]
      · have hok : DispatcherAccepts c := ⟨by simp [htype], by simp [hflags], hdata⟩
        right
        by_cases hsame : a.signingType = type
        · right
          refine ⟨hok, by rw [hsame], more, msgEnd, ?_⟩
          simp [hdata, hnf, hsame]
        · left
          refine ⟨hok, fun h => hsame (Option.some.inj h).symm, ?_⟩
          simp [hdata, hnf, hsame, handlerSignTx]

/-- A continuation that the app takes up is never turned away. -/
theorem not_turnedAway_of_live {c : Command} {more msgEnd : Bool}
    (h : request a (.apdu c) = .next more msgEnd c.data) (hreq : a.reqType = .confirmTransaction) :
    ¬ TurnedAway d a c := by
  intro hturned
  rcases step_next_cases (d := d) h with ⟨-, heq⟩ | ⟨-, -, heq⟩ | ⟨-, parsed, raw, buf, hmsg, -⟩
  · have := hturned.badState
    simp [heq, refuseTx, hreq, Sw.wrongTxLength, Sw.badState] at this
  · have := hturned.badState
    simp [heq, Sw.ok, Sw.badState] at this
  · have := hturned.noMessage
    simp [hmsg] at this

theorem turnedAway_of_dropped {c : Command} {more msgEnd : Bool}
    (h : request a (.apdu c) = .next more msgEnd c.data) (hreq : a.reqType ≠ .confirmTransaction) :
    TurnedAway d a c := by
  rcases step_next_cases (d := d) h with ⟨hmsg, heq⟩ | ⟨-, hr, -⟩ | ⟨hr, -⟩
  · refine ⟨?_, hmsg, ?_⟩
    · simp [heq, refuseTx, hreq]
    · simp [heq, refuseTx]
  · exact absurd hr hreq
  · exact absurd hr hreq

/-- **Which continuations are turned away**, of an ended flow and of any other: those the
dispatcher accepts, and of these the ones of a dropped flow or of another signing type. -/
theorem continuation_closed_iff {es : List Event} {a : App} {g : FlowStatus}
    (h : (trackedApp d).Reach anyEvent es (a, g)) (c : Command) (hc : IsContinuation c) :
    TurnedAway d a c ↔
      DispatcherAccepts c ∧ (g.dropped = true ∨ signingTypeOfP1 c.p1 ≠ some a.signingType) := by
  have hinv : g.dropped = true ↔ a.reqType = .confirmAddress := statusInv_of_reach h
  rcases request_continuation (d := d) (a := a) hc with ⟨hrej, -, hans⟩ | ⟨hacc, htype, hreq, heq⟩ |
    ⟨hacc, htype, more, msgEnd, hreq⟩
  · exact iff_of_false (fun ht => hans ht.badState) (fun hcond => hrej hcond.1)
  · refine iff_of_true ⟨by rw [heq], ?_, by rw [heq]⟩ ⟨hacc, .inr htype⟩
    exact messageOf_eq_none (by simp [hreq])
  · by_cases hlive : a.reqType = .confirmTransaction
    · refine iff_of_false (not_turnedAway_of_live hreq hlive) ?_
      rintro ⟨-, hdropped | hother⟩
      · rw [hinv, hlive] at hdropped
        cases hdropped
      · exact hother htype
    · refine iff_of_true (turnedAway_of_dropped hreq hlive) ⟨hacc, .inl (hinv.mpr ?_)⟩
      cases hr : a.reqType with
      | confirmAddress => rfl
      | confirmTransaction => exact absurd hr hlive

/-- A run computed from power-up reaches a tested state. -/
theorem exists_reach_trackedApp (d : Device) (es : List Event) (p : App × FlowStatus → Bool)
    (h : ((trackedApp d).run (fun _ _ => true) (App.powerUp true, .powerUp) es).any p = true) :
    ∃ a g, (trackedApp d).Reach anyEvent es (a, g) ∧ p (a, g) = true := by
  have h₀ : (trackedApp d).init (App.powerUp true, .powerUp) := ⟨true, rfl⟩
  obtain ⟨⟨a, g⟩, hreach, hp⟩ := Machine.exists_reach_of_run h₀ h
  exact ⟨a, g, hreach.mono fun _ _ _ => trivial, hp⟩

/-- A `SIGN_HASH` flow whose first APDU has a truncated path. -/
def refusedHashFlow : List Event := [.apdu ⟨0x06, 0, 0x03, [2, 0x80, 0, 0, 44]⟩]

/-- A `SIGN_HASH` flow that is reviewed and approved. -/
def approvedHashFlow : List Event := [
  .apdu ⟨0x06, 0, 0x03, [1, 0x80, 0, 0, 44]⟩,
  .apdu ⟨0x06, 0, 0x04, List.replicate 32 0xAB⟩,
  .choice true]

/-- Two more bytes for the hash, as the end of a message. -/
def twoMoreBytes : Command := ⟨0x06, 0, 0x04, [0xCD, 0xCD]⟩

theorem continuation_closed_iff_refusedHashFlow : ∃ a g,
    (trackedApp testDevice).Reach anyEvent refusedHashFlow (a, g) ∧ g.ended = true ∧
      IsContinuation twoMoreBytes ∧ TurnedAway testDevice a twoMoreBytes := by
  obtain ⟨a, g, hreach, hp⟩ := exists_reach_trackedApp testDevice refusedHashFlow
    (fun s => s.2.ended && s.2.dropped) (by decide +kernel)
  have hg : g.ended = true ∧ g.dropped = true := by simpa using hp
  have hc : IsContinuation twoMoreBytes := ⟨rfl, rfl⟩
  have hacc : DispatcherAccepts twoMoreBytes := ⟨rfl, rfl, by decide⟩
  exact ⟨a, g, hreach, hg.1, hc,
    (continuation_closed_iff hreach _ hc).mpr ⟨hacc, .inl hg.2⟩⟩

/-- The review of the 34 bytes. -/
def secondReview : Screen :=
  .blindReview [(str "Transaction hash", hexUpper (List.replicate 32 0xAB ++ [0xCD, 0xCD]))]

/-- After the approval, two more bytes make a hash of 34 bytes and a second
review. -/
theorem approved_flow_reviewed_again : ∃ a g,
    (trackedApp testDevice).Reach anyEvent approvedHashFlow (a, g) ∧ g.ended = true ∧
      IsContinuation twoMoreBytes ∧
      (step testDevice a (.apdu twoMoreBytes)).2 = .shown secondReview ∧
      ¬ TurnedAway testDevice a twoMoreBytes := by
  obtain ⟨a, g, hreach, hp⟩ := exists_reach_trackedApp testDevice approvedHashFlow
    (fun s => s.2.ended && decide ((step testDevice s.1 (.apdu twoMoreBytes)).2 =
      .shown secondReview)) (by decide +kernel)
  have hg : g.ended = true ∧
      (step testDevice a (.apdu twoMoreBytes)).2 = .shown secondReview := by simpa using hp
  refine ⟨a, g, hreach, hg.1, ⟨rfl, rfl⟩, hg.2, fun ht => ?_⟩
  have := hg.2.symm.trans ht.badState
  cases this

end CantonSigner
