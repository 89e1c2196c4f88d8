import CantonSigner.Flow.Chunks
import CantonSigner.Flow.InOrder

/-!
# Transactions that reach their review

What an honest host may count on. The only pass that can refuse a message of a canonical
transaction in order is the display pass (`DisplayRefuses`), and if that refuses none, the
transaction is reviewed (`canonical_reviewed`), however its messages are cut into commands.
-/

namespace CantonSigner

open ByteCodec HashingParser

variable {d : Device} {st : Prepared} {buf : Bytes} {parsed : Bool}

/-! ## Whole transmissions -/

/-- A run that has not delivered everything is under way. -/
theorem underWay_of_phase {bufs rest : List Bytes} {tx : DamlTransaction} {parts : List NodePart}
    {md : Metadata} {ics : List InputContract}
    (hall : AllSent (bufs ++ buf :: rest) tx parts md ics) (h : FlowPhase d st bufs) :
    FlowInv d st bufs ∧ Unfinished st := by
  have hcount := hall.contractsCount
  -- What starts the messages is not a whole transaction.
  have hproper : ∀ all rest' tx' parts' md' ics', bufs = all ++ rest' →
      ¬ AllSent all tx' parts' md' ics' := by
    rintro all rest' tx' parts' md' ics' rfl hall'
    have hsent := hall.sent
    rw [List.append_assoc] at hsent
    obtain ⟨-, -, rfl, more, rfl, hmore⟩ := hsent.unique hall'.sent
    have hcount' := hall'.contractsCount
    simp only [List.length_append, List.length_cons] at hcount hmore
    omega
  rcases h with hunder | ⟨tx', parts', md', ics', hall', -⟩ |
    ⟨all, rest', tx', parts', md', ics', heq, -, hall'⟩
  · exact hunder
  · exact absurd hall' (hproper bufs [] _ _ _ _ (List.append_nil _).symm)
  · exact absurd hall' (hproper all rest' _ _ _ _ heq)

/-- All messages were processed, and the answer is the review of their hash, or the error that
blind signing is off. -/
structure Transmission.Reviewed (d : Device) (t : Transmission) (allowed : Bool)
    (r : SessionResult) : Prop where
  delivered : r.delivered = marked t.messages
  answer : (∃ s, r.answer = .shown s ∧ s.isReview = true) ∨
    allowed = false ∧ r.answer = .sw Sw.incorrectData
  hash : Commits d .preparedTransaction t.messages (r.tx.mHash.take r.tx.mHashLen)

/-- The messages were processed up to one that the display pass refuses. -/
def Transmission.NotDisplayed (d : Device) (t : Transmission) (r : SessionResult) : Prop :=
  ∃ before buf after st, t.messages = before ++ buf :: after ∧
    r.delivered = before.map (false, ·) ++ [(after.isEmpty, buf)] ∧
    r.answer = .sw Sw.txParsingFail ∧
    (receiving d).Reach (fun _ _ => True) (before.map (.part false)) st ∧
    DisplayRefuses d st buf ∧ t.Unshown d st buf

theorem partBuffers_parts (bufs : List Bytes) : partBuffers (bufs.map (.part false)) = bufs := by
  induction bufs with
  | nil => rfl
  | cons b bufs ih => rw [List.map_cons, partBuffers, ih]

/-- The answer to the last message of a flow that is accepted. -/
theorem startReview_answer {a : App} (hreq : a.reqType = .confirmTransaction)
    (hstate : a.state = .parsed) :
    (∃ s, (startReview a).2 = .shown s ∧ s.isReview = true) ∨
      a.allowBlindSign = false ∧ (startReview a).2 = .sw Sw.incorrectData := by
  have hshown : ∀ blind, ∃ s, (uiDisplayTransactionBsChoice a blind).2 = .shown s ∧
      s.isReview = true := by
    intro blind
    unfold uiDisplayTransactionBsChoice
    rw [if_neg (by simp [hreq, hstate])]
    cases blind <;> exact ⟨_, rfl, rfl⟩
  unfold startReview
  split
  · exact .inl (hshown false)
  · split
    · rename_i hoff
      exact .inr ⟨by simpa using hoff, rfl⟩
    · rename_i hon
      have hon : a.allowBlindSign = true := by simpa using hon
      left
      unfold uiDisplayBlindSignedTransaction
      simpa [hon] using hshown true

/-- The answer to a message by what the receiving machine makes of it. -/
theorem processAndAnswer_refused {a : App} {raw : Bytes} {sw : Int}
    (htype : a.signingType = .preparedTransaction) (hheader : a.headerOverwritten = false)
    (h : (processPreparedTxPart d parsed a.prepared buf).2 = sw) (hsw : sw ≠ 0) :
    (processAndAnswer d (a.atMessage raw parsed) buf).2 = .sw sw := by
  have hmsg := @processMessage_atMessage d a raw buf parsed htype
  have hopen : (a.atMessage raw parsed).headerOverwritten = false := hheader
  rw [h] at hmsg
  rw [processAndAnswer_eq hopen, hmsg, answerMessage, if_pos hsw]
  rfl

theorem processAndAnswer_accepted {a : App} {raw : Bytes}
    (htype : a.signingType = .preparedTransaction) (hheader : a.headerOverwritten = false)
    (h : (processPreparedTxPart d parsed a.prepared buf).2 = 0) :
    processAndAnswer d (a.atMessage raw parsed) buf =
      if parsed then startReview
        ((a.atMessage raw parsed).setPrepared (processPreparedTxPart d parsed a.prepared buf).1)
      else ((a.atMessage raw parsed).setPrepared (processPreparedTxPart d parsed a.prepared buf).1,
        .sw Sw.ok) := by
  have hmsg := @processMessage_atMessage d a raw buf parsed htype
  have hopen : (a.atMessage raw parsed).headerOverwritten = false := hheader
  rw [h] at hmsg
  rw [processAndAnswer_eq hopen, hmsg]
  cases parsed <;> rfl

/-- The last message starts the review. -/
theorem Transmission.reviewed_last {t : Transmission} {before : List Bytes} {m : Bytes} {a : App}
    (hsplit : t.messages = before ++ [m]) (hbetween : BetweenMessages .preparedTransaction a)
    (hfits : ¬ d.maxTransactionLen < m.length) (hinv : FlowInv d a.prepared before)
    (hheader : a.headerOverwritten = false) (hc : Completes a.prepared m)
    (haccepted : (processPreparedTxPart d true a.prepared m).2 = 0) :
    t.Reviewed d a.allowBlindSign ((deliver d a [m]).after (before.map (false, ·))) := by
  have hanswer : processAndAnswer d (a.atMessage m true) m = _ :=
    processAndAnswer_accepted hbetween.signingType hheader haccepted
  have hreview := startReview_answer (a := (a.atMessage m true).setPrepared
    (processPreparedTxPart d true a.prepared m).1) hbetween.reqType rfl
  have hok : (startReview ((a.atMessage m true).setPrepared
      (processPreparedTxPart d true a.prepared m).1)).2 ≠ .sw Sw.ok := by
    rcases hreview with ⟨s, hs, -⟩ | ⟨-, hs⟩ <;> rw [hs]
    · simp
    · decide
  have hcommits := preparedTransaction_commits hinv hc
    (Prod.ext rfl haccepted : processPreparedTxPart d true a.prepared m = (_, 0))
  rw [deliver, if_neg hfits]
  simp only [List.isEmpty_nil, if_true, hanswer]
  rw [if_neg hok]
  refine ⟨?_, hreview, ?_⟩
  · rw [hsplit, marked_append before (by simp)]
    rfl
  · rw [hsplit]
    refine Eq.mpr (congrArg _ ?_) hcommits
    exact startReview_signedHash _

theorem Transmission.deliver_of_prefix {t : Transmission} (h : t.Canonical d)
    (hroom : t.HasRoom d) (ho : t.InOrder) (allowed : Bool) :
    ∀ (ms before : List Bytes) (a : App), ms ≠ [] → t.messages = before ++ ms →
      BetweenMessages .preparedTransaction a → a.allowBlindSign = allowed →
      (receiving d).Reach (fun _ _ => True) (before.map (.part false)) a.prepared →
      t.Reviewed d allowed ((deliver d a ms).after (before.map (false, ·))) ∨
        t.NotDisplayed d ((deliver d a ms).after (before.map (false, ·))) := by
  intro ms
  induction ms with
  | nil => exact fun before a hne => absurd rfl hne
  | cons m ms ih =>
    rintro before a - hsplit hbetween hallow hreach
    have hfits : ¬ d.maxTransactionLen < m.length :=
      Nat.not_lt.mpr (messages_fit h m (by simp [hsplit]))
    -- The next message, by the receiving machine.
    have hphase := flowPhase_of_reach hreach
    rw [partBuffers_parts] at hphase
    obtain ⟨hinv, hun⟩ := underWay_of_phase (hsplit ▸ allSent h) hphase
    have hheader : a.headerOverwritten = false := headerOverwritten_of_open hun.opened
    have hnext := next_of_inv h hinv hun hsplit
    have hlast : ms = [] → ms.isEmpty = true := List.isEmpty_iff.mpr
    obtain ⟨honly, hcompletes⟩ := accepted_of_next h hroom ho hnext hlast
    by_cases hdisplay : DisplayRefuses d a.prepared m
    · have hanswer : ∀ raw, (processAndAnswer d (a.atMessage raw ms.isEmpty) m).2 = _ := fun _ =>
        processAndAnswer_refused hbetween.signingType hheader (honly.refused hdisplay) (by decide)
      rw [deliver, if_neg hfits]
      dsimp only
      rw [hanswer, if_neg (by decide)]
      exact .inr ⟨before, m, ms, a.prepared, hsplit, rfl, rfl, hreach, hdisplay,
        unshown_of_refuses h hnext hdisplay⟩
    · have haccepted := honly.accepted hdisplay
      cases ms with
      | nil =>
        left
        rw [← hallow]
        exact t.reviewed_last hsplit hbetween hfits hinv hheader (hcompletes rfl) haccepted
      | cons m' ms =>
        have hnextState : processAndAnswer d (a.atMessage [] false) m =
            ((a.atMessage [] false).setPrepared (processPreparedTxPart d false a.prepared m).1,
              .sw Sw.ok) := processAndAnswer_accepted hbetween.signingType hheader haccepted
        have hzero : (processAndAnswer d (a.atMessage [] false) m).2 = .sw Sw.ok :=
          congrArg Prod.snd hnextState
        have hstep : (receiving d).Reach (fun _ _ => True) ((before ++ [m]).map (.part false))
            (processPreparedTxPart d false a.prepared m).1 := by
          rw [List.map_append]
          exact hreach.step trivial (if_pos haccepted)
        have hrest := ih (before ++ [m]) _ (by simp) (by simp [hsplit])
          (betweenMessages_of_ok hbetween hzero) ?_ ?_
        · rw [deliver, if_neg hfits]
          simp only [List.isEmpty_cons, Bool.false_eq_true, if_false]
          rw [if_pos hzero]
          simpa [SessionResult.after] using hrest
        · rw [hnextState]
          exact hallow
        · rw [hnextState]
          exact hstep

/-- **A canonical transaction in order is reviewed**, after any first command and in any cutting
of its messages: all of them are processed and the hash under review is theirs, unless the
display pass refuses one. -/
theorem canonical_reviewed {t : Transmission} (h : t.Canonical d) (hroom : t.HasRoom d)
    (ho : t.InOrder) {a₀ a : App} {e : Event} {data : Bytes}
    (hfirst : request a₀ e = .first .preparedTransaction data)
    (hok : step d a₀ e = (a, .sw Sw.ok)) {cs : List CutMessage}
    (hcs : cs.map CutMessage.whole = t.messages) :
    t.Reviewed d a.allowBlindSign (session d a (cutEvents .preparedTransaction cs)) ∨
      t.NotDisplayed d (session d a (cutEvents .preparedTransaction cs)) := by
  have hbetween := betweenMessages_of_first hfirst hok
  have hfresh := fresh_of_first (d := d) hfirst
  rw [hok] at hfresh
  have hstart : (receiving d).Reach (fun _ _ => True) [] a.prepared :=
    .start (hfresh ⟨hbetween.reqType, hbetween.signingType⟩)
  rw [session_cutEvents cs a hbetween, hcs]
  have hne : t.messages ≠ [] := by simp [Transmission.messages]
  exact t.deliver_of_prefix h hroom ho a.allowBlindSign t.messages [] a hne rfl hbetween rfl hstart

theorem chain_inOrder : (chain "2" "1").InOrder := by
  have hroot : IsNodeId 3 (str "0") := ⟨by decide, by decide, by decide, by decide⟩
  have hmiddle : IsNodeId 3 (str "2") := ⟨by decide, by decide, by decide, by decide⟩
  have hleaf : IsNodeId 3 (str "1") := ⟨by decide, by decide, by decide, by decide⟩
  refine ⟨rfl, rfl, rfl, rfl, by decide, by decide, ?_, ?_⟩
  · intro before n after hsplit c hc
    rcases before with _ | ⟨a, _ | ⟨b, _ | ⟨x, l⟩⟩⟩ <;>
      simp only [chain, List.nil_append, List.cons_append, List.cons.injEq] at hsplit
    · obtain ⟨rfl, -⟩ := hsplit
      cases hc
    · obtain ⟨rfl, rfl, -⟩ := hsplit
      obtain rfl := List.mem_singleton.mp hc
      exact ⟨[], _, [], rfl, rfl, by decide, by decide⟩
    · obtain ⟨rfl, rfl, rfl, -⟩ := hsplit
      obtain rfl := List.mem_singleton.mp hc
      exact ⟨[rollbackNode "1" []], _, [], rfl, rfl, by decide, by decide⟩
    · simp at hsplit
  · intro root hroot'
    obtain rfl : str "0" = root := (List.cons.inj hroot').1
    refine ⟨hroot, by decide, ?_, by decide, by decide, by decide⟩
    intro e he c hc
    simp only [chain, List.map_cons, List.map_nil, List.mem_cons, List.not_mem_nil, or_false] at he
    rcases he with rfl | rfl | rfl
    · cases hc
    · rw [List.mem_singleton.mp hc]
      exact hleaf
    · rw [List.mem_singleton.mp hc]
      exact hmiddle

/-- The chain of three nodes is reviewed. -/
theorem canonical_reviewed_chain : ∃ a cs,
    step testDevice (App.powerUp true) firstPrepared = (a, .sw Sw.ok) ∧
      cs.map CutMessage.whole = (chain "2" "1").messages ∧
      (chain "2" "1").Reviewed testDevice a.allowBlindSign
        (session testDevice a (cutEvents .preparedTransaction cs)) := by
  have hsent : ∀ m ∈ (chain "2" "1").messages, m ≠ [] := by decide
  obtain ⟨cs, hcs⟩ := exists_cutMessages hsent
  have hfirst : request (App.powerUp true) firstPrepared =
      .first .preparedTransaction [1, 0x80, 0, 0, 44] := rfl
  have hok : step testDevice (App.powerUp true) firstPrepared = (_, .sw Sw.ok) := rfl
  refine ⟨_, cs, hok, hcs, ?_⟩
  have hroom : ∀ n ∈ (chain "2" "1").nodes, n.HasRoom testDevice := by
    simp only [chain, List.forall_mem_cons]
    exact ⟨trivial, trivial, trivial, List.forall_mem_nil _⟩
  refine (canonical_reviewed (chain_canonical (.inl rfl)).1 ⟨hroom, List.forall_mem_nil _⟩
    chain_inOrder hfirst hok hcs).resolve_right ?_
  -- The display pass refuses nothing here.
  rintro ⟨before, buf, after, st, -, -, hanswer, -⟩
  rw [session_cutEvents cs _ (betweenMessages_of_first hfirst hok), hcs] at hanswer
  exact absurd hanswer (by decide +kernel)

end CantonSigner
