import CantonSigner.Flow.Answers
import CantonSigner.Model.TestDevice

/-!
# Cutting messages into chunks

A message is sent as one or more chunks: all but its last carry `P2_MORE` only, the last
one `P2_MSG_END`, with `P2_MORE` if another message follows. `session` runs the events of a
flow up to the first answer that is not `SW_OK` and records what the message processors
were given. `deliver` is the same for whole messages, with no chunks in it, and
`session_cutEvents` says that every cutting comes to it. What a cutting leaves in the app
between two chunks, the accumulated bytes and `STATE_EXPECTING_MORE`, is overwritten when
the message is complete.
-/

namespace CantonSigner

open ByteCodec

/-! ## Cuttings -/

/-- The P1 byte of a signing type. -/
def p1Of : SigningType → UInt8
  | .hash => 0
  | .untypedVersionedMessage => 1
  | .preparedTransaction => 2

/-- The P2 byte of a continuation. -/
def p2Of : Bool → Bool → UInt8
  | false, false => 0x00
  | true, false => 0x02
  | false, true => 0x04
  | true, true => 0x06

/-- A chunk of a message. -/
def chunk (type : SigningType) (more msgEnd : Bool) (data : Bytes) : Event :=
  .apdu ⟨0x06, p1Of type, p2Of more msgEnd, data⟩

/-- A message cut into chunks that an APDU can carry. No chunk is empty: the dispatcher refuses an
APDU without data. -/
structure CutMessage where
  init : List Bytes
  last : Bytes
  carried : ∀ c ∈ init ++ [last], c ≠ [] ∧ c.length ≤ 255

namespace CutMessage

/-- The message. -/
def whole (m : CutMessage) : Bytes := m.init.flatten ++ m.last

/-- The chunks of the message, with `P2_MORE` on its last if another message follows. -/
def events (type : SigningType) (more : Bool) (m : CutMessage) : List Event :=
  m.init.map (chunk type true false) ++ [chunk type more true m.last]

end CutMessage

theorem exists_cutMessage : ∀ {n : Nat} {m : Bytes}, m.length ≤ n → m ≠ [] →
    ∃ c : CutMessage, c.whole = m := by
  intro n
  induction n with
  | zero => exact fun hlen hne => absurd (List.eq_nil_of_length_eq_zero (Nat.le_zero.mp hlen)) hne
  | succ n ih =>
    intro m hlen hne
    by_cases hone : m.length ≤ 255
    · exact ⟨⟨[], m, by simpa using ⟨hne, hone⟩⟩, rfl⟩
    · -- A full chunk, and a cutting of the rest.
      have hrest : m.drop 255 ≠ [] := by simpa using hone
      obtain ⟨c, hc⟩ := ih (by simp only [List.length_drop]; omega) hrest
      refine ⟨⟨m.take 255 :: c.init, c.last, ?_⟩, ?_⟩
      · intro chunk hmem
        rcases List.mem_cons.mp hmem with rfl | hmem
        · exact ⟨by simpa using hne, by simp⟩
        · exact c.carried chunk hmem
      · show (m.take 255 :: c.init).flatten ++ c.last = m
        rw [List.flatten_cons, List.append_assoc]
        exact (congrArg (m.take 255 ++ ·) hc).trans (List.take_append_drop 255 m)

/-- Every message can be cut. -/
theorem exists_cutMessages {ms : List Bytes} (h : ∀ m ∈ ms, m ≠ []) :
    ∃ cs : List CutMessage, cs.map CutMessage.whole = ms := by
  induction ms with
  | nil => exact ⟨[], rfl⟩
  | cons m ms ih =>
    obtain ⟨c, rfl⟩ := exists_cutMessage m.length.le_refl (h m (List.mem_cons_self ..))
    obtain ⟨cs, rfl⟩ := ih fun m hm => h m (List.mem_cons_of_mem _ hm)
    exact ⟨c :: cs, rfl⟩

/-- The chunks of all messages of a flow. -/
def cutEvents (type : SigningType) : List CutMessage → List Event
  | [] => []
  | [m] => m.events type false
  | m :: m' :: ms => m.events type true ++ cutEvents type (m' :: ms)

/-! ## Sessions -/

/-- How a flow ends: what its processors were given, each message marked if it is the last
one, the answer that is not `SW_OK`, and the transaction state it leaves. -/
structure SessionResult where
  delivered : List (Bool × Bytes)
  answer : Output
  tx : TxInfo
deriving Repr, DecidableEq

/-- Record messages in front of the rest. -/
def SessionResult.after (ms : List (Bool × Bytes)) (r : SessionResult) : SessionResult :=
  { r with delivered := ms ++ r.delivered }

@[simp] theorem SessionResult.after_nil (r : SessionResult) : r.after [] = r := rfl

/-- Run the events up to the first answer that is not `SW_OK`. -/
def session (d : Device) (a : App) : List Event → SessionResult
  | [] => ⟨[], .sw Sw.ok, a.tx⟩
  | e :: es =>
    let r := step d a e
    let given := (messageOf d a e).toList
    if r.2 = .sw Sw.ok then (session d r.1 es).after given else ⟨given, r.2, r.1.tx⟩

/-- The same for whole messages. -/
def deliver (d : Device) (a : App) : List Bytes → SessionResult
  | [] => ⟨[], .sw Sw.ok, a.tx⟩
  | m :: ms =>
    if d.maxTransactionLen < m.length then ⟨[], .sw Sw.wrongTxLength, a.tx⟩
    else
      let last := ms.isEmpty
      let r := processAndAnswer d (a.atMessage (if last then m else []) last) m
      if r.2 = .sw Sw.ok then (deliver d r.1 ms).after [(last, m)] else ⟨[(last, m)], r.2, r.1.tx⟩

/-- Messages with the mark of the last one. -/
def marked : List Bytes → List (Bool × Bytes)
  | [] => []
  | m :: ms => (ms.isEmpty, m) :: marked ms

theorem marked_append (before : List Bytes) {ms : List Bytes} (h : ms ≠ []) :
    marked (before ++ ms) = before.map (false, ·) ++ marked ms := by
  induction before with
  | nil => rfl
  | cons m before ih =>
    rw [List.cons_append, marked, ih, List.isEmpty_eq_false_iff.mpr]
    · rfl
    · exact List.append_ne_nil_of_right_ne_nil _ h

@[simp] theorem map_snd_marked (ms : List Bytes) : (marked ms).map Prod.snd = ms := by
  induction ms with
  | nil => rfl
  | cons m ms ih => rw [marked, List.map_cons, ih]

/-- A flow of the type is open and no part of a message has come yet. -/
structure BetweenMessages (type : SigningType) (a : App) : Prop where
  reqType : a.reqType = .confirmTransaction
  signingType : a.signingType = type
  rawTx : a.rawTx = []

variable {d : Device} {a : App} {type : SigningType}

/-! ## One chunk -/

/-- A chunk with data reaches the handler of its flow. -/
theorem request_chunk {more msgEnd : Bool} {data : Bytes} (htype : a.signingType = type)
    (hflags : more = true ∨ msgEnd = true) (hdata : data ≠ []) :
    request a (chunk type more msgEnd data) = .next more msgEnd data := by
  have hp1 : signingTypeOfP1 (p1Of type) = some type := by cases type <;> rfl
  have hp2 : signFlags (p2Of more msgEnd) = some (false, more, msgEnd) := by
    cases more <;> cases msgEnd <;> first | rfl | simp at hflags
  simp only [request, chunk, requestOfCommand, hp1, hp2]
  simp [hdata, htype]

/-- A chunk that is not the last of its message is stored, or crosses the limit. -/
theorem step_chunk (more msgEnd : Bool) {data : Bytes} (htype : a.signingType = type)
    (hreq : a.reqType = .confirmTransaction) (hflags : more = true ∨ msgEnd = true)
    (hdata : data ≠ []) :
    step d a (chunk type more msgEnd data) =
        (if d.maxTransactionLen < a.rawTx.length + data.length then refuseTx a Sw.wrongTxLength
        else if msgEnd then
          processAndAnswer d (a.atMessage (if more then [] else a.rawTx ++ data) (!more))
            (a.rawTx ++ data)
        else ({ a with rawTx := a.rawTx ++ data, state := .expectingMore }, .sw Sw.ok)) ∧
      messageOf d a (chunk type more msgEnd data) =
        (if d.maxTransactionLen < a.rawTx.length + data.length then none
        else if msgEnd then some (!more, a.rawTx ++ data)
        else none) := by
  have hreqst := request_chunk htype hflags hdata
  rw [step_next hreqst]
  simp only [messageOf, hreqst, continueFlow, processNextChunk]
  by_cases hlen : d.maxTransactionLen < a.rawTx.length + data.length
  · simp [hreq, hlen, Sw.wrongTxLength]
  · rcases msgEnd with _ | _ <;> rcases more with _ | _
    · simp at hflags
    · simp [hreq, hlen]
    · simp [hreq, hlen, App.atMessage]
    · simp [hreq, hlen, App.atMessage]

/-! ## One message -/

/-- The app with some chunks of a message. -/
def App.accumulated (a : App) (raw : Bytes) (s : State) : App := { a with rawTx := raw, state := s }

/-- The chunks of a message come to the whole message: the bytes received before and the
state they left make no difference. -/
theorem session_events (hreq : a.reqType = .confirmTransaction) (htype : a.signingType = type)
    (more : Bool) (last : Bytes) (hlast : last ≠ []) (rest : List Event) :
    ∀ (init : List Bytes) (raw : Bytes) (s : State), (∀ c ∈ init, c ≠ []) →
      session d (a.accumulated raw s)
        (init.map (chunk type true false) ++ chunk type more true last :: rest) =
      let m := raw ++ init.flatten ++ last
      if d.maxTransactionLen < m.length then ⟨[], .sw Sw.wrongTxLength, a.tx⟩
      else
        let r := processAndAnswer d (a.atMessage (if more then [] else m) (!more)) m
        if r.2 = .sw Sw.ok then (session d r.1 rest).after [(!more, m)]
        else ⟨[(!more, m)], r.2, r.1.tx⟩ := by
  intro init
  induction init with
  -- the last chunk completes the message
  | nil =>
    intro raw s _
    obtain ⟨hstep, hmsg⟩ := step_chunk (d := d) (a := a.accumulated raw s) more true htype hreq
      (.inr rfl) hlast
    have hat : ∀ r p, (a.accumulated raw s).atMessage r p = a.atMessage r p := fun _ _ => rfl
    have hraw : (a.accumulated raw s).rawTx = raw := rfl
    simp only [hraw, hat, if_true] at hstep hmsg
    simp only [List.map_nil, List.nil_append, List.flatten_nil, List.append_nil, session, hstep,
      hmsg, List.length_append]
    split
    · simp [refuseTx, Sw.wrongTxLength, Sw.ok, App.accumulated]
    · rfl
  -- an earlier one is kept, with the bytes before it
  | cons c init ih =>
    intro raw s hinit
    have hc : c ≠ [] := hinit c List.mem_cons_self
    obtain ⟨hstep, hmsg⟩ := step_chunk (d := d) (a := a.accumulated raw s) true false htype hreq
      (.inl rfl) hc
    have hraw : (a.accumulated raw s).rawTx = raw := rfl
    rw [List.map_cons, List.cons_append, session, hstep, hmsg, hraw]
    by_cases hlen : d.maxTransactionLen < raw.length + c.length
    · -- The chunk crosses the limit, and so does the message.
      have hlong : d.maxTransactionLen < (raw ++ (c :: init).flatten ++ last).length := by
        simp only [List.flatten_cons, List.length_append]
        omega
      rw [if_pos hlen, if_pos hlen]
      dsimp only
      rw [if_pos hlong]
      simp [refuseTx, Sw.wrongTxLength, Sw.ok, App.accumulated]
    · rw [if_neg hlen, if_neg hlen]
      have := ih (raw ++ c) .expectingMore fun c' hc' => hinit c' (List.mem_cons_of_mem c hc')
      simp only [Bool.false_eq_true, if_false, if_true, Option.toList_none, SessionResult.after_nil]
      rw [show ({ a.accumulated raw s with rawTx := raw ++ c, state := .expectingMore } : App) =
        a.accumulated (raw ++ c) .expectingMore from rfl, this, List.flatten_cons,
        ← List.append_assoc raw]

/-- An accepted message that is not the last one leaves the flow open for the next. -/
theorem betweenMessages_of_ok {m : Bytes} (h : BetweenMessages type a)
    (hok : (processAndAnswer d (a.atMessage [] false) m).2 = .sw Sw.ok) :
    BetweenMessages type (processAndAnswer d (a.atMessage [] false) m).1 := by
  rcases processAndAnswer_cases (d := d) (a.atMessage [] false) m with (⟨-, heq⟩ | ⟨-, heq⟩) |
    ⟨a₁, sw, hm, -, heq⟩ | ⟨a₁, hm, hp, heq⟩ | ⟨a₁, hm, -, heq⟩
  · rw [heq] at hok
    cases hok
  · rw [heq] at hok
    cases hok
  · rw [heq] at hok
    have hword := processMessage_sw hm
    exact absurd (Output.sw.inj hok) hword.1
  · cases hp
  · rw [heq]
    rw [processMessage_frame hm]
    exact ⟨h.reqType, h.signingType, rfl⟩

/-! ## All messages -/

/-- Every cutting of the messages of a flow comes to the messages. -/
theorem session_cutEvents : ∀ (cs : List CutMessage) (a : App), BetweenMessages type a →
    session d a (cutEvents type cs) = deliver d a (cs.map CutMessage.whole)
  | [], _, _ => rfl
  | [m], a, h => by
    have hne : ∀ c ∈ m.init ++ [m.last], c ≠ [] := fun c hc => (m.carried c hc).1
    have hmsg := session_events (d := d) h.reqType h.signingType false m.last (hne _ (by simp)) []
      m.init [] a.state (fun c hc => hne c (List.mem_append_left _ hc))
    have hstart : a.accumulated [] a.state = a := by rw [← h.rawTx]; rfl
    rw [hstart] at hmsg
    simp only [cutEvents, CutMessage.events, List.map_cons, List.map_nil, deliver]
    rw [hmsg]
    rfl
  | m :: m' :: ms, a, h => by
    have hne : ∀ c ∈ m.init ++ [m.last], c ≠ [] := fun c hc => (m.carried c hc).1
    have hmsg := session_events (d := d) h.reqType h.signingType true m.last (hne _ (by simp))
      (cutEvents type (m' :: ms)) m.init [] a.state
      (fun c hc => hne c (List.mem_append_left _ hc))
    have hstart : a.accumulated [] a.state = a := by rw [← h.rawTx]; rfl
    rw [hstart, show ([] : Bytes) ++ m.init.flatten ++ m.last = m.whole from rfl] at hmsg
    rw [cutEvents, CutMessage.events, List.append_assoc, List.singleton_append, hmsg, List.map_cons,
      deliver]
    have hmore : (List.map CutMessage.whole (m' :: ms)).isEmpty = false := rfl
    simp only [hmore, if_true, Bool.not_true, Bool.false_eq_true, if_false]
    split
    · rfl
    · split
      · rename_i hok
        rw [session_cutEvents (m' :: ms) _ (betweenMessages_of_ok h hok)]
      · rfl

/-! ## The chunk that crosses the limit -/

/-- The app after events that are all answered `SW_OK`, and the messages they complete. -/
def acceptAll (d : Device) (a : App) : List Event → Option (App × List (Bool × Bytes))
  | [] => some (a, [])
  | e :: es =>
    let r := step d a e
    if r.2 = .sw Sw.ok then
      (acceptAll d r.1 es).map fun s => (s.1, (messageOf d a e).toList ++ s.2)
    else none

theorem acceptAll_cons {e : Event} {es : List Event} {s : App × List (Bool × Bytes)}
    (h : acceptAll d a (e :: es) = some s) :
    (step d a e).2 = .sw Sw.ok ∧ ∃ s', acceptAll d (step d a e).1 es = some s' ∧ s'.1 = s.1 := by
  simp only [acceptAll] at h
  split at h
  · rename_i hok
    obtain ⟨s', hs', rfl⟩ := Option.map_eq_some_iff.mp h
    exact ⟨hok, s', hs', rfl⟩
  · cases h

theorem acceptAll_append {es es' : List Event} {s : App × List (Bool × Bytes)}
    (h : acceptAll d a (es ++ es') = some s) :
    ∃ s₁ s₂, acceptAll d a es = some s₁ ∧ acceptAll d s₁.1 es' = some s₂ ∧ s₂.1 = s.1 := by
  induction es generalizing a s with
  | nil => exact ⟨(a, []), s, rfl, h, rfl⟩
  | cons e es ih =>
    obtain ⟨hok, s', hs', hsame⟩ := acceptAll_cons h
    obtain ⟨s₁, s₂, h₁, h₂, hlast⟩ := ih hs'
    refine ⟨(s₁.1, (messageOf d a e).toList ++ s₁.2), s₂, ?_, h₂, hlast.trans hsame⟩
    simp [acceptAll, hok, h₁]

/-- The chunks of an accepted message leave the flow between two messages. -/
theorem betweenMessages_of_acceptAll {last : Bytes} (hreq : a.reqType = .confirmTransaction)
    (htype : a.signingType = type) (hlast : last ≠ []) :
    ∀ (init : List Bytes) (raw : Bytes) (st : State) (s : App × List (Bool × Bytes)),
      (∀ c ∈ init, c ≠ []) →
      acceptAll d (a.accumulated raw st)
        (init.map (chunk type true false) ++ [chunk type true true last]) = some s →
      BetweenMessages type s.1 := by
  intro init
  induction init with
  | nil =>
    intro raw st s _ h
    obtain ⟨hok, s', hs', hsame⟩ := acceptAll_cons h
    cases hs'
    rw [← hsame]
    obtain ⟨hstep, -⟩ := step_chunk (d := d) (a := a.accumulated raw st) true true htype hreq
      (.inr rfl) hlast
    rw [hstep] at hok ⊢
    split at hok
    · simp [refuseTx, Sw.wrongTxLength, Sw.ok] at hok
    · rename_i hlen
      rw [if_neg hlen]
      exact betweenMessages_of_ok (a := a.accumulated [] st) ⟨hreq, htype, rfl⟩ hok
  | cons c init ih =>
    intro raw st s hinit h
    obtain ⟨hok, s', hs', hsame⟩ := acceptAll_cons h
    obtain ⟨hstep, -⟩ := step_chunk (d := d) (a := a.accumulated raw st) true false htype hreq
      (.inl rfl) (hinit c List.mem_cons_self)
    rw [hstep] at hok hs'
    split at hok
    · simp [refuseTx, Sw.wrongTxLength, Sw.ok] at hok
    · rename_i hlen
      rw [if_neg hlen] at hs'
      rw [← hsame]
      exact ih (raw ++ c) .expectingMore s' (fun c' hc' => hinit c' (List.mem_cons_of_mem c hc'))
        hs'

/-- Chunks below the limit are stored. -/
theorem acceptAll_stored (hreq : a.reqType = .confirmTransaction) (htype : a.signingType = type) :
    ∀ (pre : List Bytes) (raw : Bytes) (st : State), (∀ c ∈ pre, c ≠ []) →
      raw.length + pre.flatten.length ≤ d.maxTransactionLen →
      ∃ st', acceptAll d (a.accumulated raw st) (pre.map (chunk type true false)) =
        some (a.accumulated (raw ++ pre.flatten) st', []) := by
  intro pre
  induction pre with
  | nil =>
    intro raw st _ _
    exact ⟨st, by simp [acceptAll]⟩
  | cons c pre ih =>
    intro raw st hpre hlen
    rw [List.flatten_cons, List.length_append] at hlen
    obtain ⟨hstep, hmsg⟩ := step_chunk (d := d) (a := a.accumulated raw st) true false htype hreq
      (.inl rfl) (hpre c List.mem_cons_self)
    have hfits : ¬ d.maxTransactionLen < (a.accumulated raw st).rawTx.length + c.length := by
      show ¬ d.maxTransactionLen < raw.length + c.length
      omega
    rw [if_neg hfits] at hstep hmsg
    obtain ⟨st', hst'⟩ := ih (raw ++ c) .expectingMore
      (fun c' hc' => hpre c' (List.mem_cons_of_mem c hc')) (by rw [List.length_append]; omega)
    refine ⟨st', ?_⟩
    rw [List.map_cons, acceptAll, hstep, hmsg]
    simp only [Bool.false_eq_true, if_false, if_true]
    rw [show ({ a.accumulated raw st with
      rawTx := (a.accumulated raw st).rawTx ++ c, state := .expectingMore } : App) =
      a.accumulated (raw ++ c) .expectingMore from rfl, hst', List.flatten_cons,
        ← List.append_assoc]
    rfl

/-- A message over the limit has a chunk that crosses it. -/
theorem exists_crossing (limit : Nat) : ∀ (cs : List Bytes) (n : Nat), n ≤ limit →
    limit < n + cs.flatten.length →
    ∃ pre c post, cs = pre ++ c :: post ∧ n + pre.flatten.length ≤ limit ∧
      limit < n + (pre.flatten ++ c).length
  | [], n, hn, h => by
    simp at h
    omega
  | c :: cs, n, hn, h => by
    by_cases hc : limit < n + c.length
    · exact ⟨[], c, cs, rfl, by simpa using hn, by simpa using hc⟩
    · rw [List.flatten_cons, List.length_append] at h
      obtain ⟨pre, c', post, rfl, hpre, hcross⟩ := exists_crossing limit cs (n + c.length)
        (by omega) (by omega)
      refine ⟨c :: pre, c', post, rfl, ?_, ?_⟩ <;>
        simp only [List.flatten_cons, List.length_append] at hcross ⊢ <;> omega

/-- A message over the limit: the chunks up to the limit are answered `SW_OK` and complete
nothing, and the chunk that crosses it, whatever its flags, is refused. -/
structure RefusedAtLimit (d : Device) (type : SigningType) (a : App) (m : CutMessage) : Prop where
  crossing : ∃ pre c post, m.init ++ [m.last] = pre ++ c :: post ∧
    pre.flatten.length ≤ d.maxTransactionLen ∧ d.maxTransactionLen < (pre.flatten ++ c).length ∧
    ∃ a₂, acceptAll d a (pre.map (chunk type true false)) = some (a₂, []) ∧
      ∀ more msgEnd, more = true ∨ msgEnd = true →
        (step d a₂ (chunk type more msgEnd c)).2 = .sw Sw.wrongTxLength ∧
        messageOf d a₂ (chunk type more msgEnd c) = none

theorem refusedAtLimit (h : BetweenMessages type a) {m : CutMessage}
    (hlong : d.maxTransactionLen < m.whole.length) : RefusedAtLimit d type a m := by
  have hflat : (m.init ++ [m.last]).flatten = m.whole := by simp [CutMessage.whole]
  obtain ⟨pre, c, post, hcut, hpre, hcross⟩ := exists_crossing d.maxTransactionLen
    (m.init ++ [m.last]) 0 (Nat.zero_le _) (by rw [hflat]; omega)
  have hne : ∀ b ∈ pre ++ c :: post, b ≠ [] := fun b hb => (m.carried b (hcut ▸ hb)).1
  have hstart : a.accumulated [] a.state = a := by rw [← h.rawTx]; rfl
  obtain ⟨st', hstored⟩ := acceptAll_stored (d := d) h.reqType h.signingType pre [] a.state
    (fun b hb => hne b (List.mem_append_left _ hb)) (by simpa using hpre)
  rw [hstart] at hstored
  refine ⟨pre, c, post, hcut, by simpa using hpre, by simpa using hcross, _, hstored, ?_⟩
  intro more msgEnd hflags
  obtain ⟨hstep, hmsg⟩ := step_chunk (d := d) (a := a.accumulated ([] ++ pre.flatten) st')
    more msgEnd h.signingType h.reqType hflags (hne c (by simp))
  have hover : d.maxTransactionLen <
      (a.accumulated ([] ++ pre.flatten) st').rawTx.length + c.length := by
    show d.maxTransactionLen < ([] ++ pre.flatten : Bytes).length + c.length
    simpa using hcross
  rw [hstep, hmsg, if_pos hover, if_pos hover]
  exact ⟨rfl, rfl⟩

/-! ## Flows -/

/-- An accepted first APDU leaves an open flow with no bytes received. -/
theorem betweenMessages_of_first {a₀ : App} {e : Event} {data : Bytes}
    (h : request a₀ e = .first type data) (hok : step d a₀ e = (a, .sw Sw.ok)) :
    BetweenMessages type a := by
  rw [step_first h] at hok
  unfold startFlow processFirstChunk at hok
  dsimp only at hok
  cases hpath : readBip32Path data with
  | none => simp [hpath, refuseTx, Sw.wrongDataLength, Sw.ok] at hok
  | some r =>
    obtain ⟨path, rest⟩ := r
    rw [hpath] at hok
    cases type with
    | hash =>
      cases hok
      exact ⟨rfl, rfl, rfl⟩
    | preparedTransaction =>
      cases hok
      exact ⟨rfl, rfl, rfl⟩
    | untypedVersionedMessage =>
      dsimp only [processUntypedVersionedMsgTxInit] at hok
      cases hkey : derivePublicKey d path with
      | error e => simp [hkey, assertFailed] at hok
      | ok key =>
        rw [hkey] at hok
        dsimp only at hok
        cases hread : (readChallengeAndDeadline rest).isSome with
        | false => simp [hread, refuseTx, Sw.wrongDataLength, Sw.ok] at hok
        | true =>
          rw [hread] at hok
          cases hok
          exact ⟨rfl, rfl, rfl⟩

/-- The states between the messages of a flow that were all accepted. -/
theorem betweenMessages_of_before (h : BetweenMessages type a) :
    ∀ (before : List CutMessage) {s : App × List (Bool × Bytes)},
      acceptAll d a (before.flatMap (CutMessage.events type true)) = some s →
      BetweenMessages type s.1 := by
  intro before
  induction before generalizing a with
  | nil =>
    rintro s ⟨⟩
    exact h
  | cons m before ih =>
    intro s hs
    rw [List.flatMap_cons] at hs
    obtain ⟨s₁, s₂, h₁, h₂, hsame⟩ := acceptAll_append hs
    have hne : ∀ c ∈ m.init ++ [m.last], c ≠ [] := fun c hc => (m.carried c hc).1
    have hstart : a.accumulated [] a.state = a := by rw [← h.rawTx]; rfl
    have hm := betweenMessages_of_acceptAll (d := d) h.reqType h.signingType
      (hne m.last (by simp)) m.init [] a.state s₁ (fun c hc => hne c (List.mem_append_left _ hc))
      (by rw [hstart]; exact h₁)
    rw [← hsame]
    exact ih hm h₂

/-- **The outcome does not depend on the cutting.** After the first APDU of a flow, two
cuttings of the same messages into non-empty chunks give the processors the same messages and
end in the same answer with the same transaction state; and a message over the limit, after
messages that were accepted, is refused at the chunk that crosses the limit. -/
theorem cutting_independent {a₀ : App} {e : Event} {data : Bytes}
    (hfirst : request a₀ e = .first type data) (hok : step d a₀ e = (a, .sw Sw.ok))
    {cs cs' : List CutMessage} (hsame : cs.map CutMessage.whole = cs'.map CutMessage.whole) :
    session d a (cutEvents type cs) = session d a (cutEvents type cs') ∧
      ∀ before m after, cs = before ++ m :: after → d.maxTransactionLen < m.whole.length →
        ∀ s, acceptAll d a (before.flatMap (CutMessage.events type true)) = some s →
          RefusedAtLimit d type s.1 m := by
  have hbetween := betweenMessages_of_first hfirst hok
  constructor
  · rw [session_cutEvents cs a hbetween, session_cutEvents cs' a hbetween, hsame]
  · rintro before m after - hlong s hs
    exact refusedAtLimit (betweenMessages_of_before hbetween before hs) hlong

/-- A hash in one chunk and in two. -/
def hashOneChunk : CutMessage := ⟨[], List.replicate 32 0xAB, by decide⟩
def hashTwoChunks : CutMessage := ⟨[List.replicate 16 0xAB], List.replicate 16 0xAB, by decide⟩

theorem cutting_independent_hash : ∃ a,
    step testDevice (App.powerUp true) (.apdu ⟨0x06, 0, 0x03, [1, 0x80, 0, 0, 44]⟩) =
      (a, .sw Sw.ok) ∧
    session testDevice a (cutEvents .hash [hashOneChunk]) =
      session testDevice a (cutEvents .hash [hashTwoChunks]) := by
  refine ⟨_, rfl, ?_⟩
  exact (cutting_independent (d := testDevice) (e := .apdu ⟨0x06, 0, 0x03, [1, 0x80, 0, 0, 44]⟩)
    rfl rfl (by decide)).1

end CantonSigner
