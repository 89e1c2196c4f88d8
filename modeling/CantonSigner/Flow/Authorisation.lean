import CantonSigner.Flow.Ending
import CantonSigner.Lib.Approval

/-!
# What the user approves

The app as an approval device (`Lib.Approval`): what it puts before the user are reviews and
addresses, and what it grants are signatures and public keys. The host is only held to the
transport: it sends no command while one is unanswered.

`conversation_simulation` says that the app refines the approval protocol, whatever the host
sends and the user does, over all signing types; `signature_authorised` reads off what this
means for signatures. Without the transport rule nothing of this holds: a command that arrives
under a review replaces what the review was about.
-/

namespace CantonSigner

open ByteCodec

/-! ## Commands and answers -/

/-- An answer is awaited after a screen that is shown, until it comes. -/
def awaits (awaited : Bool) : Output → Bool
  | .shown _ => true
  | .nothing => awaited
  | .sw _ | .response _ | .assertion | .fault => false

/-- The app, and whether the host waits for an answer. -/
def conversation (d : Device) : Machine (App × Bool) Event where
  init s := ∃ allow, s = (App.powerUp allow, false)
  step s e := some ((step d s.1 e).1, awaits s.2 (step d s.1 e).2)

/-- The host sends no command while it waits for an answer. -/
def OneAtATime (s : App × Bool) (e : Event) : Prop := s.2 = true → ∀ c, e ≠ .apdu c

/-! ## Requests and grants -/

/-- What is before the user: a hash to be signed with the key of a path, or an address.
`allowed` is the blind-signing setting when the user was asked. -/
inductive Asked where
  | signature (path : List Nat) (hash : Bytes) (challenge : Option Bytes) (allowed : Bool)
      (screen : Screen)
  | address (path : List Nat) (key : Bytes × Bytes) (partyId : Bytes)
deriving DecidableEq

/-- What the screen on display is about. -/
def App.asked (a : App) (allowed : Bool) : Option Asked :=
  match a.screen with
  | .clearReview .. | .blindReview .. =>
    some (.signature a.bip32Path (a.tx.mHash.take a.tx.mHashLen) a.tx.challengeSignature allowed
      a.screen)
  | .addressReview partyId => some (.address a.bip32Path a.publicKey partyId)
  | .menu | .blindSigningError => none

/-- What may be asked: a hash is shown in hexadecimal if it is to be signed blindly, and blind
signing is allowed; an address is the one of the key of the path. -/
def MayAsk (d : Device) : Asked → Prop
  | .signature _ hash _ allowed (.blindReview rows) =>
    allowed = true ∧ rows = [(str "Transaction hash", hexUpper hash)]
  | .signature _ _ _ _ screen => screen.isReview = true
  | .address path key partyId =>
    derivePublicKey d path = .ok key ∧ partyId = partyIdFromPubkey d key.1

/-- What grants a request: the signature of the hash, or the key of the address. -/
def Answers (d : Device) : Asked → Bytes → Prop
  | .signature path hash challenge _ _, data => ∃ signature, d.signHash path hash = some signature ∧
    data = [64] ++ signature ++ [0] ++ challenge.elim [] fun c => [64] ++ c
  | .address _ key _, data => data = pubkeyResponse key

/-- What is seen of a step. -/
def seen (d : Device) (s : App × Bool) (e : Event) : Act Asked Bytes :=
  match e, (step d s.1 e).2 with
  | _, .shown _ => ((step d s.1 e).1.asked s.1.allowBlindSign).elim .quiet .ask
  | .choice _, .response data => .grant data
  | .choice _, .sw _ => .refuse
  | _, _ => .quiet

variable {d : Device} {a : App} {e : Event} {c : Command}

/-! ## One command -/

/-- What a command is told without a decision: version, name, or the public key of a path. -/
def PublicData (d : Device) (data : Bytes) : Prop :=
  data = d.appVersion ∨ data = d.appName ∨
    ∃ path key, derivePublicKey d path = .ok key ∧ data = pubkeyResponse key

/-- A step that shows nothing and leaves no new review; its answer is public. -/
structure NothingAsked (d : Device) (r : App × Output) (a : App) : Prop where
  shows : ∀ s, r.2 ≠ .shown s
  answer : ∀ data, r.2 = .response data → PublicData d data
  screen : r.1.screen = a.screen ∨ r.1.screen = .menu ∨ r.1.screen = .blindSigningError

/-- A step that asks: the screen it puts up is the answer. -/
def AsksUser (d : Device) (r : App × Output) (allowed : Bool) : Prop :=
  r.2 = .shown r.1.screen ∧ ∃ q, r.1.asked allowed = some q ∧ MayAsk d q

theorem step_apdu_untouched (h : request a (.apdu c) = .untouched) :
    NothingAsked d (step d a (.apdu c)) a := by
  simp only [request, requestOfCommand] at h
  constructor
  · simp only [step, apduDispatcher, handlerSignTx]
    grind
  · simp only [step, apduDispatcher, handlerSignTx, PublicData]
    grind
  · simp only [step, apduDispatcher, handlerSignTx]
    grind

theorem handlerGetPublicKey_asks (data : Bytes) (display : Bool) :
    NothingAsked d (handlerGetPublicKey d a data display) a ∨
      AsksUser d (handlerGetPublicKey d a data display) a.allowBlindSign := by
  unfold handlerGetPublicKey
  dsimp only
  split
  · exact .inl ⟨nofun, nofun, .inl rfl⟩
  · rename_i path rest hpath
    split
    · exact .inl ⟨nofun, nofun, .inl rfl⟩
    · rename_i key hkey
      split
      · exact .inr ⟨rfl, _, rfl, hkey, rfl⟩
      · refine .inl ⟨nofun, fun data hdata => ?_, .inl rfl⟩
        cases hdata
        exact .inr (.inr ⟨path, key, hkey, rfl⟩)

theorem processUntypedVersionedMsgTxInit_frame {rest : Bytes} {a₁ : App} {ok : Bool}
    (h : processUntypedVersionedMsgTxInit d a rest = some (a₁, ok)) :
    a₁.screen = a.screen ∧ a₁.bip32Path = a.bip32Path := by
  unfold processUntypedVersionedMsgTxInit at h
  split at h
  · cases h
  · cases h
    exact ⟨rfl, rfl⟩

/-- The first APDU of a flow leaves the screen alone, and takes the path from its data. -/
theorem processFirstChunk_frame {type : SigningType} {data : Bytes} {a₁ : App} {sw : Int}
    (h : processFirstChunk d a type data = some (a₁, sw)) :
    a₁.screen = a.screen ∧
      (sw = 0 → ∃ rest, readBip32Path data = some (a₁.bip32Path, rest)) := by
  unfold processFirstChunk at h
  cases hpath : readBip32Path data with
  | none =>
    rw [hpath] at h
    cases h
    exact ⟨rfl, fun hzero => nomatch hzero⟩
  | some r =>
    obtain ⟨path, rest⟩ := r
    rw [hpath] at h
    cases type with
    | hash | preparedTransaction =>
      cases h
      exact ⟨rfl, fun _ => ⟨rest, rfl⟩⟩
    | untypedVersionedMessage =>
      dsimp only at h
      split at h
      · cases h
      · rename_i a₂ hinit
        cases h
        exact ⟨(processUntypedVersionedMsgTxInit_frame hinit).1, fun hzero => nomatch hzero⟩
      · rename_i a₂ hinit
        cases h
        obtain ⟨hscreen, hkept⟩ := processUntypedVersionedMsgTxInit_frame hinit
        have hkept : a₂.bip32Path = path := hkept
        exact ⟨hscreen, fun _ => ⟨rest, congrArg (fun p => some (p, rest)) hkept.symm⟩⟩

theorem startFlow_asks (type : SigningType) (data : Bytes) :
    NothingAsked d (startFlow d a type data) a := by
  unfold startFlow
  split
  · exact ⟨nofun, nofun, .inr (.inl rfl)⟩
  · rename_i a₁ sw hchunk
    have hscreen := (processFirstChunk_frame hchunk).1
    split
    · exact ⟨nofun, nofun, .inl hscreen⟩
    · exact ⟨nofun, nofun, .inl hscreen⟩

theorem startReview_asks (a : App) : NothingAsked d (startReview a) a ∨
    AsksUser d (startReview a) a.allowBlindSign := by
  have hchoice (blind : Bool) (hblind : blind = true → a.allowBlindSign = true) :
      NothingAsked d (uiDisplayTransactionBsChoice a blind) a ∨
        AsksUser d (uiDisplayTransactionBsChoice a blind) a.allowBlindSign := by
    unfold uiDisplayTransactionBsChoice
    split
    · exact .inl ⟨nofun, nofun, .inl rfl⟩
    · cases blind with
      | true => exact .inr ⟨rfl, _, rfl, hblind rfl, rfl⟩
      | false => exact .inr ⟨rfl, _, rfl, rfl⟩
  unfold startReview
  split
  · exact hchoice false (by simp)
  · split
    · exact .inl ⟨nofun, nofun, .inr (.inr rfl)⟩
    · rename_i hallow
      exact hchoice true fun _ => by simpa using hallow

theorem processMessage_screen {buf : Bytes} {a₁ : App} {sw : Int}
    (h : processMessage d a buf = some (a₁, sw)) :
    a₁.screen = a.screen ∧ a₁.allowBlindSign = a.allowBlindSign ∧ a₁.bip32Path = a.bip32Path := by
  rw [processMessage_frame h]
  exact ⟨rfl, rfl, rfl⟩

theorem step_next_asks {more msgEnd : Bool} {data : Bytes}
    (h : request a e = .next more msgEnd data) :
    NothingAsked d (step d a e) a ∨ AsksUser d (step d a e) a.allowBlindSign := by
  rcases step_next_cases (d := d) h with ⟨-, heq⟩ | ⟨-, -, heq⟩ | ⟨-, parsed, raw, buf, -, heq⟩
  · rw [heq]
    exact .inl ⟨nofun, nofun, .inl rfl⟩
  · rw [heq]
    exact .inl ⟨nofun, nofun, .inl rfl⟩
  · rw [heq]
    rcases processAndAnswer_cases (d := d) (a.atMessage raw parsed) buf with (⟨-, h⟩ | ⟨-, h⟩) |
      ⟨a₁, sw, hm, -, h⟩ | ⟨a₁, hm, -, h⟩ | ⟨a₁, hm, -, h⟩
    · rw [h]
      exact .inl ⟨nofun, nofun, .inr (.inl rfl)⟩
    · rw [h]
      exact .inl ⟨nofun, nofun, .inr (.inl rfl)⟩
    · rw [h]
      exact .inl ⟨nofun, nofun, .inl (processMessage_screen hm).1⟩
    · obtain ⟨hscreen, hallow, -⟩ := processMessage_screen hm
      have hscreen : a₁.screen = a.screen := hscreen
      have hallow : a₁.allowBlindSign = a.allowBlindSign := hallow
      rw [h, ← hallow]
      rcases startReview_asks (d := d) a₁ with ⟨hshown, hanswer, hkept⟩ | hasks
      · exact .inl ⟨hshown, hanswer, hscreen ▸ hkept⟩
      · exact .inr hasks
    · rw [h]
      exact .inl ⟨nofun, nofun, .inl (processMessage_screen hm).1⟩

/-- A command is answered, or asks the user. -/
theorem step_apdu (c : Command) : NothingAsked d (step d a (.apdu c)) a ∨
    AsksUser d (step d a (.apdu c)) a.allowBlindSign := by
  cases hreq : request a (.apdu c) with
  | untouched => exact .inl (step_apdu_untouched hreq)
  | getPublicKey data display =>
    rw [step_getPublicKey hreq]
    exact handlerGetPublicKey_asks data display
  | first type data =>
    rw [step_first hreq]
    exact .inl (startFlow_asks type data)
  | next more msgEnd data => exact step_next_asks hreq
  | decide confirm =>
    simp only [request, requestOfCommand] at hreq
    grind

/-! ## The refinement -/

/-- What is before the user is what the screen is about, and the host waits for the answer. -/
def Pending (s : App × Bool) (t : Option Asked) : Prop :=
  ∃ allowed, t = s.1.asked allowed ∧ s.2 = t.isSome

theorem asked_eq_none {allowed : Bool} :
    a.asked allowed = none ↔ a.screen = .menu ∨ a.screen = .blindSigningError := by
  unfold App.asked
  cases a.screen <;> simp

theorem pending_apdu {t : Option Asked} (h : Pending (a, false) t) (c : Command) :
    ∃ t', Approval.Step (MayAsk d) (Answers d) t (seen d (a, false) (.apdu c)) t' ∧
      Pending ((step d a (.apdu c)).1, awaits false (step d a (.apdu c)).2) t' := by
  obtain ⟨allowed, rfl, hnone⟩ := h
  have hnone : a.asked allowed = none := by
    cases hasked : a.asked allowed with
    | none => rfl
    | some q =>
      rw [hasked] at hnone
      cases hnone
  rw [hnone]
  rcases step_apdu (d := d) (a := a) c with ⟨hshown, -, hscreen⟩ | ⟨hs, q, hq, hmay⟩
  · have hquiet : seen d (a, false) (.apdu c) = .quiet ∧
        awaits false (step d a (.apdu c)).2 = false := by
      unfold seen
      cases hout : (step d a (.apdu c)).2 with
      | shown s => exact absurd hout (hshown s)
      | sw | response | nothing | assertion | fault => exact ⟨rfl, rfl⟩
    have hnone' : (step d a (.apdu c)).1.asked allowed = none := by
      rw [asked_eq_none] at hnone ⊢
      rcases hscreen with heq | heq
      · rwa [heq]
      · exact heq
    rw [hquiet.1, hquiet.2]
    exact ⟨none, .quiet, allowed, hnone'.symm, rfl⟩
  · have hask : seen d (a, false) (.apdu c) = .ask q := by
      unfold seen
      rw [hs, hq]
      rfl
    rw [hask, hs]
    exact ⟨some q, .ask hmay, a.allowBlindSign, hq.symm, rfl⟩

/-- A decision on a review: a signature of what was asked, or a refusal. -/
theorem validateTransaction_answer (confirm allowed : Bool) :
    (validateTransaction d a confirm).1.screen = .menu ∧
      ((∃ data, (validateTransaction d a confirm).2 = .response data ∧
        Answers d (.signature a.bip32Path (a.tx.mHash.take a.tx.mHashLen) a.tx.challengeSignature
          allowed a.screen) data) ∨
      ∃ sw, (validateTransaction d a confirm).2 = .sw sw) := by
  unfold validateTransaction
  cases confirm with
  | false => exact ⟨rfl, .inr ⟨_, rfl⟩⟩
  | true =>
    dsimp only
    cases hsign : d.signHash a.bip32Path (a.tx.mHash.take a.tx.mHashLen) with
    | none => exact ⟨rfl, .inr ⟨_, rfl⟩⟩
    | some signature =>
      refine ⟨rfl, .inl ⟨_, rfl, signature, hsign, ?_⟩⟩
      cases a.tx.challengeSignature <;> rfl

theorem validatePubkey_answer (confirm : Bool) (partyId : Bytes) :
    (validatePubkey a confirm).1.screen = .menu ∧
      ((∃ data, (validatePubkey a confirm).2 = .response data ∧
        Answers d (.address a.bip32Path a.publicKey partyId) data) ∨
      ∃ sw, (validatePubkey a confirm).2 = .sw sw) := by
  cases confirm with
  | false => exact ⟨rfl, .inr ⟨_, rfl⟩⟩
  | true => exact ⟨rfl, .inl ⟨_, rfl, rfl⟩⟩

theorem pending_choice {t : Option Asked} {awaited : Bool} (h : Pending (a, awaited) t)
    (confirm : Bool) :
    ∃ t', Approval.Step (MayAsk d) (Answers d) t (seen d (a, awaited) (.choice confirm)) t' ∧
      Pending ((step d a (.choice confirm)).1,
        awaits awaited (step d a (.choice confirm)).2) t' := by
  obtain ⟨allowed, rfl, hsome⟩ := h
  have hsome : awaited = (a.asked allowed).isSome := hsome
  -- A choice on what was asked.
  have hanswered (q : Asked) (hq : a.asked allowed = some q)
      (hmenu : (step d a (.choice confirm)).1.screen = .menu)
      (hout : (∃ data, (step d a (.choice confirm)).2 = .response data ∧ Answers d q data) ∨
        ∃ sw, (step d a (.choice confirm)).2 = .sw sw) :
      ∃ t', Approval.Step (MayAsk d) (Answers d) (a.asked allowed)
          (seen d (a, awaited) (.choice confirm)) t' ∧
        Pending ((step d a (.choice confirm)).1,
          awaits awaited (step d a (.choice confirm)).2) t' := by
    have hnone : (step d a (.choice confirm)).1.asked allowed = none :=
      asked_eq_none.mpr (.inl hmenu)
    rw [hq]
    unfold seen
    rcases hout with ⟨data, hdata, hanswers⟩ | ⟨sw, hsw⟩
    · rw [hdata]
      exact ⟨none, .grant hanswers, allowed, hnone.symm, rfl⟩
    · rw [hsw]
      exact ⟨none, .refuse, allowed, hnone.symm, rfl⟩
  cases hs : a.screen with
  | menu | blindSigningError =>
    -- Nothing is before the user.
    have hstep : step d a (.choice confirm) = ({ a with screen := .menu }, .nothing) := by
      simp only [step, userChoice, hs]
    have hnone : a.asked allowed = none := asked_eq_none.mpr (by simp [hs])
    rw [hnone] at hsome
    rw [hsome, hnone]
    refine ⟨none, ?_, allowed, ?_, ?_⟩
    · simp only [seen, hstep]
      exact .quiet
    · rw [hstep]
      exact (asked_eq_none.mpr (.inl rfl)).symm
    · rw [hstep]
      rfl
  | clearReview | blindReview =>
    have hstep : step d a (.choice confirm) = validateTransaction d a confirm := by
      simp only [step, userChoice, hs]
    have hasked : a.asked allowed = some (.signature a.bip32Path (a.tx.mHash.take a.tx.mHashLen)
        a.tx.challengeSignature allowed a.screen) := by
      simp only [App.asked, hs]
    obtain ⟨hmenu, hout⟩ := validateTransaction_answer (d := d) (a := a) confirm allowed
    exact hanswered _ hasked (hstep ▸ hmenu) (hstep ▸ hout)
  | addressReview partyId =>
    have hstep : step d a (.choice confirm) = validatePubkey a confirm := by
      simp only [step, userChoice, hs]
    have hasked : a.asked allowed = some (.address a.bip32Path a.publicKey partyId) := by
      simp only [App.asked, hs]
    obtain ⟨hmenu, hout⟩ := validatePubkey_answer (d := d) (a := a) confirm partyId
    exact hanswered _ hasked (hstep ▸ hmenu) (hstep ▸ hout)

theorem pending_setting {t : Option Asked} {awaited : Bool} (h : Pending (a, awaited) t)
    (allow : Bool) :
    Approval.Step (MayAsk d) (Answers d) t (seen d (a, awaited) (.setBlindSigning allow)) t ∧
      Pending ((step d a (.setBlindSigning allow)).1, awaited) t :=
  ⟨.quiet, h⟩

/-- The app refines the approval protocol, in every conversation that keeps to the
transport. -/
theorem conversation_simulation {es : List Event} {s : App × Bool} {l : List (Act Asked Bytes)}
    (h : ((conversation d).observed (seen d)).Reach (fun s e => OneAtATime s.1 e) es (s, l)) :
    ∃ t, LabelledRun (Approval.Step (MayAsk d) (Answers d)) none l t ∧ Pending s t := by
  refine h.simulation ?_ ?_
  · rintro s ⟨allow, rfl⟩
    exact ⟨allow, rfl, rfl⟩
  · rintro ⟨a, awaited⟩ e s' t hpending hok hstep
    cases hstep
    cases e with
    | choice confirm => exact pending_choice hpending confirm
    | setBlindSigning allow => exact ⟨t, pending_setting hpending allow⟩
    | apdu c =>
      cases awaited with
      | true => exact absurd rfl (hok rfl c)
      | false => exact pending_apdu hpending c

/-- **Every signature was approved**: in a conversation that keeps to the transport, each answer
to a decision grants what was asked last, which is the hash that the screen shows or the key of
the address on it; every request is granted once, refused once, or still before the user; and
commands alone are only told what is public. -/
theorem signature_authorised {es : List Event} {s : App × Bool} {l : List (Act Asked Bytes)}
    (h : ((conversation d).observed (seen d)).Reach (fun s e => OneAtATime s.1 e) es (s, l)) :
    (∀ pre data post, l = pre ++ .grant data :: post →
      ∃ q, Approval.LastAsked pre q ∧ MayAsk d q ∧ Answers d q data) ∧
    l.countP Approval.isAsk =
      l.countP Approval.isGrant + l.countP Approval.isRefuse + s.2.toNat ∧
    ∀ c data, (step d s.1 (.apdu c)).2 = .response data → PublicData d data := by
  obtain ⟨t, hrun, allowed, -, hawaited⟩ := conversation_simulation h
  refine ⟨fun pre data post hl => Approval.granted_asked hrun hl, ?_, fun c data hdata => ?_⟩
  · rw [Approval.asks_count hrun, hawaited]
    cases t <;> rfl
  · rcases step_apdu (d := d) (a := s.1) c with hnothing | ⟨hshown, -⟩
    · exact hnothing.answer data hdata
    · rw [hshown] at hdata
      cases hdata

/-- `OneAtATime`, computed. -/
def oneAtATimeStep (s : App × Bool) : Event → Bool
  | .apdu _ => !s.2
  | .choice _ | .setBlindSigning _ => true

theorem oneAtATime_of_step {s : App × Bool} (h : oneAtATimeStep s e = true) : OneAtATime s e := by
  rintro hawaited c rfl
  simp [oneAtATimeStep, hawaited] at h

/-- The signature of an approved hash flow. -/
theorem signature_authorised_hash : ∃ s l before,
    ((conversation testDevice).observed (seen testDevice)).Reach (fun s e => OneAtATime s.1 e)
      approvedHashFlow (s, l) ∧ l = before ++ [.grant ([64] ++ List.replicate 64 1 ++ [0])] ∧
      ∃ q, Approval.LastAsked before q ∧ MayAsk testDevice q ∧
        Answers testDevice q ([64] ++ List.replicate 64 1 ++ [0]) := by
  have h₀ : ((conversation testDevice).observed (seen testDevice)).init
      ((App.powerUp true, false), []) := ⟨⟨true, rfl⟩, rfl⟩
  have hrun : (((conversation testDevice).observed (seen testDevice)).run
      (fun s e => oneAtATimeStep s.1 e) ((App.powerUp true, false), []) approvedHashFlow).any
      (fun s => decide (s.2.getLast? = some (.grant ([64] ++ List.replicate 64 1 ++ [0])))) =
        true := by decide +kernel
  obtain ⟨⟨s, l⟩, hreach, hlast⟩ := Machine.exists_reach_of_run h₀ hrun
  have hreach' := hreach.mono fun _ _ h => oneAtATime_of_step h
  obtain ⟨before, hl⟩ := List.getLast?_eq_some_iff.mp (of_decide_eq_true hlast)
  exact ⟨s, l, before, hreach', hl, (signature_authorised hreach').1 before _ [] hl⟩

end CantonSigner
