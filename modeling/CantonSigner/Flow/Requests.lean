import CantonSigner.Model.SignTx

/-!
# What an event asks of the app

The dispatcher and the screen decide which handler an event reaches. `request`
says which, and one lemma per request says what the step does with it, so that
the rest of the development never unfolds the dispatcher.

- `step_untouched`: an event that reaches no handler leaves the flow alone;
- `step_first`, `step_next`, `step_getPublicKey`, `step_decide`: the handlers;
- `messageOf`: the message that an event completes and the app goes on to
  process; `step_next_cases` splits a continuation on it.
-/

namespace CantonSigner

open ByteCodec

/-- The handler an event reaches. -/
inductive Request where
  | untouched
  | getPublicKey (data : Bytes) (display : Bool)
  | first (type : SigningType) (data : Bytes)
  | next (more msgEnd : Bool) (data : Bytes)
  | decide (confirm : Bool)
deriving Repr, DecidableEq

/-- The handler a command reaches. A continuation of another signing type is
turned away before anything of the flow is looked at. -/
def requestOfCommand (a : App) (c : Command) : Request :=
  if c.ins = 0x05 then
    if 1 < c.p1 || 3 < c.p2 || (c.p1 = 0 && c.p2 ≠ 0) || c.data.isEmpty then .untouched
    else .getPublicKey c.data (c.p1 = 1)
  else if c.ins = 0x06 then
    match signingTypeOfP1 c.p1, signFlags c.p2 with
    | some type, some (first, more, msgEnd) =>
      if c.data.isEmpty then .untouched
      else if first then .first type c.data
      else if a.signingType = type then .next more msgEnd c.data
      else .untouched
    | _, _ => .untouched
  else .untouched

/-- A review screen, whose choice is `validate_transaction`. -/
def Screen.isReview : Screen → Bool
  | .clearReview .. | .blindReview .. => true
  | _ => false

/-- What a clear review shows: its title, its closing question and its rows. -/
abbrev ClearScreen : Type := Option Bytes × Option Bytes × List Pair

/-- The clear review on display. -/
def Screen.clear : Screen → Option ClearScreen
  | .clearReview title finish rows => some (title, finish, rows)
  | _ => none

/-- The screen an answer puts on display. -/
def Output.screen : Output → Option Screen
  | .shown s => some s
  | _ => none

theorem Output.exists_shown {o : Output} {p : Screen → Bool} (h : o.screen.any p = true) :
    ∃ s, o = .shown s ∧ p s = true := by
  cases o with
  | shown s => exact ⟨s, rfl, h⟩
  | sw v => cases h
  | response data => cases h
  | nothing => cases h
  | assertion => cases h
  | fault => cases h

theorem Output.exists_clear {o : Output} {p : ClearScreen → Bool}
    (h : (o.screen.bind Screen.clear).any p = true) :
    ∃ title finish rows, o = .shown (.clearReview title finish rows) ∧
      p (title, finish, rows) = true := by
  rw [Option.any_bind] at h
  obtain ⟨s, rfl, hs⟩ := Output.exists_shown h
  cases s with
  | clearReview title finish rows => exact ⟨title, finish, rows, rfl, hs⟩
  | menu => cases hs
  | blindReview rows => cases hs
  | addressReview partyId => cases hs
  | blindSigningError => cases hs

/-- The handler an event reaches. -/
def request (a : App) : Event → Request
  | .apdu c => requestOfCommand a c
  | .choice confirm => if a.screen.isReview then .decide confirm else .untouched
  | .setBlindSigning _ => .untouched

/-- A decision does not come by a command. -/
theorem request_command_ne_decide {a : App} {c : Command} {confirm : Bool} :
    request a (.apdu c) ≠ .decide confirm := by
  intro h
  simp only [request, requestOfCommand] at h
  grind

/-- The answer to a first APDU. -/
def startFlow (d : Device) (a : App) (type : SigningType) (data : Bytes) : App × Output :=
  match processFirstChunk d a type data with
  | none => assertFailed a
  | some (a, sw) => if sw ≠ 0 then refuseTx a sw else (a, .sw Sw.ok)

/-- The answer to a continuation of the right signing type. -/
def continueFlow (d : Device) (a : App) (more msgEnd : Bool) (data : Bytes) : App × Output :=
  match processNextChunk d a more msgEnd data with
  | (a, sw, buf) =>
    if sw ≠ 0 then refuseTx a sw
    else
      match buf with
      | none => (a, .sw Sw.ok)
      | some buf => processAndAnswer d a buf

/-- Nothing of a signing flow differs between two states of the app. -/
structure SameFlow (a a' : App) : Prop where
  state : a'.state = a.state
  reqType : a'.reqType = a.reqType
  signingType : a'.signingType = a.signingType
  bip32Path : a'.bip32Path = a.bip32Path
  rawTx : a'.rawTx = a.rawTx
  tx : a'.tx = a.tx
  prep : a'.prep = a.prep
  topo : a'.topo = a.topo

theorem SameFlow.refl (a : App) : SameFlow a a := ⟨rfl, rfl, rfl, rfl, rfl, rfl, rfl, rfl⟩

/-! ## One lemma per request -/

variable {d : Device} {a : App} {e : Event}

theorem step_getPublicKey {data : Bytes} {display : Bool}
    (h : request a e = .getPublicKey data display) :
    step d a e = handlerGetPublicKey d a data display := by
  cases e with
  | apdu c =>
    simp only [request, requestOfCommand] at h
    simp only [step, apduDispatcher]
    grind
  | choice confirm => simp only [request] at h; split at h <;> cases h
  | setBlindSigning allow => cases h

theorem step_first {type : SigningType} {data : Bytes} (h : request a e = .first type data) :
    step d a e = startFlow d a type data := by
  cases e with
  | apdu c =>
    simp only [request, requestOfCommand] at h
    simp only [step, apduDispatcher, handlerSignTx, startFlow]
    grind
  | choice confirm => simp only [request] at h; split at h <;> cases h
  | setBlindSigning allow => cases h

theorem step_next {more msgEnd : Bool} {data : Bytes} (h : request a e = .next more msgEnd data) :
    step d a e = continueFlow d a more msgEnd data := by
  cases e with
  | apdu c =>
    simp only [request, requestOfCommand] at h
    simp only [step, apduDispatcher, handlerSignTx, continueFlow]
    grind
  | choice confirm => simp only [request] at h; split at h <;> cases h
  | setBlindSigning allow => cases h

theorem step_decide {confirm : Bool} (h : request a e = .decide confirm) :
    step d a e = validateTransaction d a confirm := by
  cases e with
  | apdu c => simp only [request, requestOfCommand] at h; grind
  | choice c =>
    simp only [request, Screen.isReview] at h
    simp only [step, userChoice]
    grind
  | setBlindSigning allow => cases h

theorem step_untouched (h : request a e = .untouched) :
    SameFlow a (step d a e).1 ∧ ∀ s, (step d a e).2 ≠ .shown s := by
  cases e with
  | apdu c =>
    simp only [request, requestOfCommand] at h
    simp only [step, apduDispatcher, handlerSignTx]
    have := SameFlow.refl a
    grind
  | choice c =>
    simp only [request, Screen.isReview] at h
    simp only [step, userChoice, validatePubkey]
    grind [SameFlow]
  | setBlindSigning allow => exact ⟨⟨rfl, rfl, rfl, rfl, rfl, rfl, rfl, rfl⟩,
      fun s => by simp [step]⟩

theorem step_untouched_ne_assertion (h : request a e = .untouched) :
    (step d a e).2 ≠ .assertion := by
  cases e with
  | apdu c =>
    simp only [request, requestOfCommand] at h
    simp only [step, apduDispatcher, handlerSignTx]
    grind
  | choice c =>
    simp only [request, Screen.isReview] at h
    simp only [step, userChoice, validatePubkey]
    grind
  | setBlindSigning allow =>
    intro hfail
    cases hfail

/-- The answer to a command that reaches no handler. -/
def turnedAway (d : Device) (c : Command) : Output :=
  if c.ins = 0x03 then if c.p1 ≠ 0 || c.p2 ≠ 0 then .sw Sw.wrongP1P2 else .response d.appVersion
  else if c.ins = 0x04 then if c.p1 ≠ 0 || c.p2 ≠ 0 then .sw Sw.wrongP1P2 else .response d.appName
  else if c.ins = 0x05 then
    if 1 < c.p1 || 3 < c.p2 || (c.p1 = 0 && c.p2 ≠ 0) then .sw Sw.wrongP1P2
    else .sw Sw.wrongDataLength
  else if c.ins = 0x06 then
    match signingTypeOfP1 c.p1, signFlags c.p2 with
    | some _, some _ => if c.data.isEmpty then .sw Sw.wrongDataLength else .sw Sw.badState
    | _, _ => .sw Sw.wrongP1P2
  else .sw Sw.insNotSupported

/-- It is answered without looking at the state. -/
theorem step_untouched_command {c : Command} (hreq : request a (.apdu c) = .untouched) :
    step d a (.apdu c) = (a, turnedAway d c) := by
  simp only [request, requestOfCommand] at hreq
  simp only [step, apduDispatcher, handlerSignTx, turnedAway]
  by_cases h3 : c.ins = 0x03
  · rw [if_pos h3, if_pos h3]
  by_cases h4 : c.ins = 0x04
  · rw [if_neg h3, if_neg h3, if_pos h4, if_pos h4]
  by_cases h5 : c.ins = 0x05
  · grind
  by_cases h6 : c.ins = 0x06
  · rw [if_neg h5, if_pos h6] at hreq
    rw [if_neg h3, if_neg h4, if_neg h5, if_pos h6, if_neg h3, if_neg h4, if_neg h5, if_pos h6]
    split
    · rename_i type first more msgEnd htype hflags
      simp only [htype, hflags] at hreq
      grind
    · rename_i hnone
      split
      · rename_i type flags htype hflags
        exact absurd hflags (hnone type flags.1 flags.2.1 flags.2.2 htype)
      · rfl
  · rw [if_neg h3, if_neg h4, if_neg h5, if_neg h6, if_neg h3, if_neg h4, if_neg h5, if_neg h6]

/-- `GET_PUBLIC_KEY` closes the flow. -/
theorem getPublicKey_reqType {data : Bytes} {display : Bool}
    (h : request a e = .getPublicKey data display) :
    (step d a e).1.reqType = .confirmAddress := by
  rw [step_getPublicKey h]
  unfold handlerGetPublicKey
  dsimp only
  split
  · rfl
  · split
    · rfl
    · split <;> rfl

/-- A decision frees the rows and leaves the flow open. -/
theorem decide_frame {confirm : Bool} (h : request a e = .decide confirm) :
    (step d a e).1 = { a with
      state := (step d a e).1.state
      screen := .menu
      tx := { a.tx with
        review := cleanupDisplayItems a.tx.review
        signature := (step d a e).1.tx.signature } } := by
  rw [step_decide h]
  unfold validateTransaction
  dsimp only
  split
  · split <;> rfl
  · rfl

/-! ## The first APDU -/

/-- What an accepted first APDU of a flow leaves. -/
structure FlowStarted (d : Device) (a : App) (type : SigningType) (a₁ : App) : Prop where
  reqType : a₁.reqType = .confirmTransaction
  signingType : a₁.signingType = type
  prepared : type = .preparedTransaction →
    a₁.prepared = ⟨TxInfo.zero, { a.prep.clean with txState := .damlTxPart }⟩
  topology : type = .untypedVersionedMessage → ∃ key challenge,
    derivePublicKey d a₁.bip32Path = .ok key ∧
    a₁.topology = ⟨{ TxInfo.zero with
      review := { TxInfo.zero.review with pairs := some [] }, signature := key.1 },
      ⟨some [], false, false, false, List.replicate 4 false, challenge⟩⟩

/-- The first APDU stops the session, is refused, or starts a flow. -/
theorem startFlow_cases (type : SigningType) (data : Bytes) :
    startFlow d a type data = assertFailed a ∨
    (∃ a₁, startFlow d a type data = refuseTx a₁ Sw.wrongDataLength) ∨
    (∃ a₁, startFlow d a type data = (a₁, .sw Sw.ok) ∧ FlowStarted d a type a₁) := by
  unfold startFlow processFirstChunk
  dsimp only
  cases readBip32Path data with
  | none => exact .inr (.inl ⟨cleanContext a, rfl⟩)
  | some r =>
    obtain ⟨path, rest⟩ := r
    cases type with
    | hash => exact .inr (.inr ⟨_, rfl, rfl, rfl, nofun, nofun⟩)
    | preparedTransaction => exact .inr (.inr ⟨_, rfl, rfl, rfl, fun _ => rfl, nofun⟩)
    | untypedVersionedMessage =>
      dsimp only [processUntypedVersionedMsgTxInit]
      cases hkey : derivePublicKey d path with
      | error e => exact .inl rfl
      | ok key =>
        dsimp only
        cases hread : (readChallengeAndDeadline rest).isSome with
        | false => exact .inr (.inl ⟨_, rfl⟩)
        | true =>
          exact .inr (.inr ⟨_, rfl, rfl, rfl, nofun, fun _ => ⟨key, _, hkey, rfl⟩⟩)

/-! ## Messages -/

/-- A flag byte the dispatcher accepts asks for more or ends a message. -/
theorem signFlags_more_or_msgEnd {p2 : UInt8} {first more msgEnd : Bool}
    (h : signFlags p2 = some (first, more, msgEnd)) : more = true ∨ msgEnd = true := by
  have hsplit : p2 &&& 0x06 = (p2 &&& 0x02) ||| (p2 &&& 0x04) := by
    have := BitVec.and_or_distrib_left (x := p2.toBitVec) (y := 2#8) (z := 4#8)
    rw [← UInt8.toBitVec_inj]
    simpa using this
  simp only [signFlags] at h
  by_contra hneither
  rw [not_or] at hneither
  have hmore : p2 &&& 0x02 = 0 := by grind
  have hend : p2 &&& 0x04 = 0 := by grind
  have hboth : p2 &&& 0x06 = 0 := by rw [hsplit, hmore, hend]; rfl
  grind

theorem request_next_flags {more msgEnd : Bool} {data : Bytes}
    (h : request a e = .next more msgEnd data) : more = true ∨ msgEnd = true := by
  cases e with
  | apdu c =>
    simp only [request, requestOfCommand] at h
    grind [signFlags_more_or_msgEnd]
  | choice c => simp only [request] at h; split at h <;> cases h
  | setBlindSigning allow => cases h

/-- The message an event completes and hands to the processor of its flow,
marked when the host says that it is the last one (`STATE_PARSED`). -/
def messageOf (d : Device) (a : App) (e : Event) : Option (Bool × Bytes) :=
  match request a e with
  | .next more msgEnd data =>
    let r := processNextChunk d a more msgEnd data
    if r.2.1 = 0 then r.2.2.map fun buf => (msgEnd && !more, buf) else none
  | _ => none

/-- The app as it processes a message. -/
def App.atMessage (a : App) (raw : Bytes) (parsed : Bool) : App :=
  { a with rawTx := raw, state := if parsed then .parsed else .msgComplete }

/-- A chunk that completes a message changes the receive buffer and the state alone. -/
theorem processNextChunk_message {more msgEnd : Bool} {data buf : Bytes} {a₁ : App}
    (h : processNextChunk d a more msgEnd data = (a₁, 0, some buf)) :
    a.reqType = .confirmTransaction ∧
      ∃ state raw, a₁ = { a with rawTx := raw, state := state } := by
  unfold processNextChunk at h
  by_cases hreq : a.reqType = .confirmTransaction
  · rw [if_neg (not_not.mpr hreq)] at h
    refine ⟨hreq, ?_⟩
    split at h
    · cases h
    · cases msgEnd <;> cases more <;> cases h <;> exact ⟨_, _, rfl⟩
  · rw [if_pos hreq] at h
    cases h

/-- What a continuation does: it is turned away, stored, or completes a
message. -/
theorem step_next_cases {more msgEnd : Bool} {data : Bytes}
    (h : request a e = .next more msgEnd data) :
    (messageOf d a e = none ∧
      step d a e = refuseTx a (if a.reqType = .confirmTransaction then Sw.wrongTxLength
        else Sw.badState)) ∨
    (messageOf d a e = none ∧ a.reqType = .confirmTransaction ∧
      step d a e = ({ a with rawTx := a.rawTx ++ data, state := .expectingMore }, .sw Sw.ok)) ∨
    (a.reqType = .confirmTransaction ∧ ∃ parsed raw buf, messageOf d a e = some (parsed, buf) ∧
      step d a e = processAndAnswer d (a.atMessage raw parsed) buf) := by
  have hflags := request_next_flags h
  simp only [messageOf, h, step_next h, continueFlow, processNextChunk]
  by_cases hreq : a.reqType = .confirmTransaction
  · by_cases hlen : d.maxTransactionLen < a.rawTx.length + data.length
    · left
      simp [hreq, hlen, Sw.wrongTxLength]
    · rcases msgEnd with _ | _ <;> rcases more with _ | _
      · simp at hflags
      · right; left
        simp [hreq, hlen]
      · right; right
        refine ⟨hreq, true, a.rawTx ++ data, a.rawTx ++ data, ?_⟩
        simp [hreq, hlen, App.atMessage]
      · right; right
        refine ⟨hreq, false, [], a.rawTx ++ data, ?_⟩
        simp [hreq, hlen, App.atMessage]
  · left
    simp [hreq, Sw.badState]

theorem messageOf_eq_none (h : ∀ more msgEnd data, request a e ≠ .next more msgEnd data) :
    messageOf d a e = none := by
  unfold messageOf
  split
  · rename_i more msgEnd data heq
    exact absurd heq (h _ _ _)
  · rfl

/-- Only an open flow completes messages. -/
theorem messageOf_open {parsed : Bool} {buf : Bytes} (h : messageOf d a e = some (parsed, buf)) :
    a.reqType = .confirmTransaction := by
  cases hreq : request a e with
  | next more msgEnd data =>
    rcases step_next_cases (d := d) hreq with ⟨hnone, -⟩ | ⟨hnone, -⟩ | ⟨hopen, -⟩
    · rw [hnone] at h
      cases h
    · rw [hnone] at h
      cases h
    · exact hopen
  | _ =>
    rw [messageOf_eq_none (fun _ _ _ heq => by rw [hreq] at heq; cases heq)] at h
    cases h

end CantonSigner
