import CantonSigner.Flow.Answers
import CantonSigner.Flow.Receiving

/-!
# The app runs the receiving machine

`loggedApp` is the app together with the log of its prepared-transaction flow: the
parts processed since the last first APDU and the changes to the rows between
them. `loggedApp_simulation` is the rule by which a fact about states and logs of
the receiving machine is carried to every run of the app, and
`prepared_reach_of_loggedApp` its first use: while a prepared transaction is being
received, its state is one the receiving machine reaches on the log.
-/

namespace CantonSigner

open ByteCodec

/-- The log after a step. -/
def nextLog (d : Device) (a : App) (e : Event) (log : List PartEvent) : List PartEvent :=
  let tx := (step d a e).1.tx
  match request a e with
  | .untouched => log
  | .getPublicKey .. => []
  | .first .. => []
  | .next .. =>
    match messageOf d a e with
    | none => log
    | some (parsed, buf) =>
      log ++ .part parsed buf :: (if parsed then [.rows tx.review.pairs tx.signature] else [])
  | .decide _ => log ++ [.rows tx.review.pairs tx.signature]

/-- The app with the log of its flow. -/
def loggedApp (d : Device) : Machine (App × List PartEvent) Event where
  init s := ∃ allow, s = (App.powerUp allow, [])
  step s e := some ((step d s.1 e).1, nextLog d s.1 e s.2)

/-- A prepared transaction is being received, or has been. -/
def App.Receiving (a : App) : Prop :=
  a.reqType = .confirmTransaction ∧ a.signingType = .preparedTransaction

/-- A condition on the messages of prepared-transaction flows, by the state and the
log they meet. -/
def onMessages (d : Device) (ok : Prepared → List PartEvent → Bool → Bytes → Prop)
    (s : App × List PartEvent) (e : Event) : Prop :=
  s.1.signingType = .preparedTransaction →
    ∀ parsed buf, messageOf d s.1 e = some (parsed, buf) → ok s.1.prepared s.2 parsed buf

/-- A relation between the state of a flow and its log that the receiving machine
keeps. -/
structure FlowRelation (d : Device) (ok : Prepared → List PartEvent → Bool → Bytes → Prop)
    (Q : Prepared → List PartEvent → Prop) : Prop where
  fresh : ∀ st : Prepared, st.Fresh → Q st []
  part : ∀ st log parsed buf st', Q st log → ok st log parsed buf →
    processPreparedTxPart d parsed st buf = (st', 0) → Q st' (log ++ [.part parsed buf])
  rows : ∀ st log pairs signature, Q st log →
    Q (st.setRows pairs signature) (log ++ [.rows pairs signature])

variable {d : Device} {ok : Prepared → List PartEvent → Bool → Bytes → Prop}
  {Q : Prepared → List PartEvent → Prop} {a : App} {e : Event} {log : List PartEvent}

/-- An accepted first APDU of a prepared transaction leaves a fresh state. -/
theorem fresh_of_first {type : SigningType} {data : Bytes} (h : request a e = .first type data)
    (hr : (step d a e).1.Receiving) : (step d a e).1.prepared.Fresh := by
  rw [step_first h] at hr ⊢
  rcases startFlow_cases (d := d) (a := a) type data with heq | ⟨a₁, heq⟩ | ⟨a₁, heq, hstart⟩
  · rw [heq] at hr
    exact absurd hr.1 (by simp [assertFailed, App.powerUp])
  · rw [heq] at hr
    exact absurd hr.1 (by simp [refuseTx])
  · rw [heq] at hr ⊢
    exact ⟨a.prep, hstart.prepared (hstart.signingType.symm.trans hr.2)⟩

/-- A message of a prepared transaction goes to the receiving machine. -/
theorem processMessage_prepared {buf : Bytes} (h : a.signingType = .preparedTransaction) :
    processMessage d a buf =
      some (a.setPrepared (processPreparedTxPart d (a.state = .parsed) a.prepared buf).1,
        (processPreparedTxPart d (a.state = .parsed) a.prepared buf).2) := by
  simp only [processMessage, h]

theorem processMessage_atMessage {raw buf : Bytes} {p : Bool}
    (htype : a.signingType = .preparedTransaction) :
    processMessage d (a.atMessage raw p) buf =
      some ((a.atMessage raw p).setPrepared (processPreparedTxPart d p a.prepared buf).1,
        (processPreparedTxPart d p a.prepared buf).2) := by
  have hstate : decide ((a.atMessage raw p).state = .parsed) = p := by
    cases p <;> rfl
  rw [processMessage_prepared (a := a.atMessage raw p) htype, hstate]
  rfl

/-- A message of a prepared transaction: the flow goes on only if the part is
accepted, and then only the rows may differ from what the part left. -/
theorem prepared_of_message {raw buf : Bytes} {parsed : Bool}
    (htype : a.signingType = .preparedTransaction) (hreq : a.reqType = .confirmTransaction)
    (hr : (processAndAnswer d (a.atMessage raw parsed) buf).1.Receiving) :
    ∃ st', processPreparedTxPart d parsed a.prepared buf = (st', 0) ∧
      ((processAndAnswer d (a.atMessage raw parsed) buf).1.prepared =
        if parsed then
          let tx := (processAndAnswer d (a.atMessage raw parsed) buf).1.tx
          st'.setRows tx.review.pairs tx.signature
        else st') ∧
      (st'.review.clearSigningAvailable = true →
        (processAndAnswer d (a.atMessage raw parsed) buf).1.prepared = st') := by
  have hstate : decide ((a.atMessage raw parsed).state = .parsed) = parsed := by
    cases parsed <;> rfl
  have hmsg : processMessage d (a.atMessage raw parsed) buf = _ := processMessage_atMessage htype
  rcases processAndAnswer_cases (d := d) (a.atMessage raw parsed) buf with
    (⟨hnone, -⟩ | ⟨-, heq⟩) | ⟨a₁, sw, hm, hsw, heq⟩ | ⟨a₁, hm, hp, heq⟩ | ⟨a₁, hm, hp, heq⟩
  · -- no assertion in a prepared flow
    rw [hmsg] at hnone
    cases hnone
  · -- the session was stopped, or the part refused: no flow is open
    rw [heq] at hr
    exact absurd hr.1 (by simp [App.powerUp])
  · rw [heq] at hr
    exact absurd hr.1 (by simp [refuseTx])
  · rw [hmsg] at hm
    obtain ⟨ha₁, hzero⟩ := Prod.mk.inj (Option.some.inj hm)
    have hparsed : parsed = true := by rw [← hstate, hp]; rfl
    refine ⟨(processPreparedTxPart d parsed a.prepared buf).1, by rw [← hzero], ?_⟩
    rw [heq, hparsed]
    subst ha₁
    subst hparsed
    -- the last part: a review keeps the flow, only a blind one writes the rows
    rcases startReview_cases (a := (a.atMessage raw true).setPrepared
      (processPreparedTxPart d true a.prepared buf).1) hreq hp with ⟨-, h⟩ | ⟨hoff, h⟩ | ⟨hoff, h⟩
    · rw [h]
      exact ⟨rfl, fun _ => rfl⟩
    · rw [h]
      exact ⟨rfl, fun hclear => absurd (hoff.symm.trans hclear) (by decide)⟩
    · rw [h]
      exact ⟨rfl, fun hclear => absurd (hoff.symm.trans hclear) (by decide)⟩
  · rw [hmsg] at hm
    obtain ⟨ha₁, hzero⟩ := Prod.mk.inj (Option.some.inj hm)
    have hparsed : parsed = false := by
      cases parsed with
      | false => rfl
      | true => exact absurd rfl hp
    refine ⟨(processPreparedTxPart d parsed a.prepared buf).1, by rw [← hzero], ?_⟩
    rw [heq, hparsed]
    subst ha₁ hparsed
    exact ⟨rfl, fun _ => rfl⟩

/-- One step of the app carries a flow relation along. -/
theorem FlowRelation.step (hQ : FlowRelation d ok Q) (hok : onMessages d ok (a, log) e)
    (hinv : a.Receiving → Q a.prepared log) (hr : (CantonSigner.step d a e).1.Receiving) :
    Q (CantonSigner.step d a e).1.prepared (nextLog d a e log) := by
  cases hreq : request a e with
  -- nothing of the flow changes
  | untouched =>
    have hsame := (step_untouched (d := d) hreq).1
    have hlog : nextLog d a e log = log := by simp [nextLog, hreq]
    have hprep : (CantonSigner.step d a e).1.prepared = a.prepared := by
      simp [App.prepared, hsame.tx, hsame.prep]
    rw [hlog, hprep]
    exact hinv ⟨hsame.reqType ▸ hr.1, hsame.signingType ▸ hr.2⟩
  | getPublicKey data display =>
    exact absurd ((getPublicKey_reqType hreq).symm.trans hr.1) (by decide)
  -- a first command starts a fresh flow
  | first type data =>
    have hlog : nextLog d a e log = [] := by simp [nextLog, hreq]
    rw [hlog]
    exact hQ.fresh _ (fresh_of_first hreq hr)
  -- a chunk: refused, kept for later, or the end of a message
  | next more msgEnd data =>
    rcases step_next_cases (d := d) hreq with ⟨-, heq⟩ | ⟨hnone, hconf, heq⟩ |
      ⟨hconf, parsed, raw, buf, hmsg, heq⟩
    · rw [heq] at hr
      exact absurd hr.1 (by simp [refuseTx])
    · have hlog : nextLog d a e log = log := by simp [nextLog, hreq, hnone]
      rw [heq] at hr
      rw [hlog, heq]
      exact hinv ⟨hconf, hr.2⟩
    · have htype : a.signingType = .preparedTransaction := by
        rw [heq] at hr
        exact (processAndAnswer_signingType hr.1).symm.trans hr.2
      obtain ⟨st', hacc, hprep, -⟩ := prepared_of_message (d := d) htype hconf (heq ▸ hr)
      have hpart := hQ.part _ _ _ _ _ (hinv ⟨hconf, htype⟩) (hok htype _ _ hmsg) hacc
      rw [heq, hprep]
      simp only [nextLog, hreq, hmsg, heq]
      -- after the last message the rows are those of the review
      cases parsed with
      | false => exact hpart
      | true =>
        have := hQ.rows _ _ (processAndAnswer d (a.atMessage raw true) buf).1.tx.review.pairs
          (processAndAnswer d (a.atMessage raw true) buf).1.tx.signature hpart
        simpa using this
  -- a decision only touches rows and signature
  | decide confirm =>
    have hrows : (CantonSigner.step d a e).1.prepared = a.prepared.setRows
        (CantonSigner.step d a e).1.tx.review.pairs (CantonSigner.step d a e).1.tx.signature ∧
        (CantonSigner.step d a e).1.reqType = a.reqType ∧
        (CantonSigner.step d a e).1.signingType = a.signingType := by
      rw [decide_frame hreq]
      exact ⟨rfl, rfl, rfl⟩
    have hlog : nextLog d a e log = log ++ [.rows (CantonSigner.step d a e).1.tx.review.pairs
        (CantonSigner.step d a e).1.tx.signature] := by simp [nextLog, hreq]
    rw [hlog, hrows.1]
    exact hQ.rows _ _ _ _ (hinv ⟨hrows.2.1 ▸ hr.1, hrows.2.2 ▸ hr.2⟩)

/-- A flow relation holds along every run of the app whose messages meet the
condition. -/
theorem loggedApp_simulation (hQ : FlowRelation d ok Q) {es : List Event}
    (h : (loggedApp d).Reach (onMessages d ok) es (a, log)) (hr : a.Receiving) :
    Q a.prepared log := by
  refine h.invariant (P := fun _ s => s.1.Receiving → Q s.1.prepared s.2) ?_ ?_ hr
  · rintro s ⟨allow, rfl⟩ hr
    exact absurd hr.1 (by simp [App.powerUp])
  · rintro es ⟨a, log⟩ e s' hinv hok hstep hr
    cases hstep
    exact hQ.step hok hinv hr

/-- The app refines the receiving machine: what it has of a prepared transaction
is reached on the log of the flow. -/
theorem prepared_reach_of_loggedApp {okp : Prepared → Bool → Bytes → Prop} {es : List Event}
    (h : (loggedApp d).Reach (onMessages d fun st _ parsed buf => okp st parsed buf) es (a, log))
    (hr : a.Receiving) : (receiving d).Reach (onParts okp) log a.prepared := by
  have hQ : FlowRelation d (fun st _ parsed buf => okp st parsed buf)
      (fun st log => (receiving d).Reach (onParts okp) log st) := by
    refine ⟨fun st hst => .start hst, ?_, ?_⟩
    · intro st log parsed buf st' hreach hok hacc
      refine .step hreach hok ?_
      simp [receiving, hacc]
    · intro st log pairs signature hreach
      exact .step hreach trivial rfl
  exact loggedApp_simulation hQ h hr

/-- A run computed from power-up reaches a tested state. -/
theorem exists_reach_loggedApp (d : Device) (es : List Event) (p : App × List PartEvent → Bool)
    (h : ((loggedApp d).run (fun _ _ => true) (App.powerUp true, []) es).any p = true) :
    ∃ a log, (loggedApp d).Reach (fun _ _ => True) es (a, log) ∧ p (a, log) = true := by
  have h₀ : (loggedApp d).init (App.powerUp true, []) := ⟨true, rfl⟩
  obtain ⟨⟨a, log⟩, hreach, hp⟩ := Machine.exists_reach_of_run h₀ h
  exact ⟨a, log, hreach.mono fun _ _ _ => trivial, hp⟩

end CantonSigner
