import CantonSigner.Display.Walk
import CantonSigner.Flow.Answers
import CantonSigner.Flow.Receiving
import CantonSigner.Model.Host
import CantonSigner.Model.TestDevice

/-!
# Withdrawing clear signing

A flow loses clear signing when the node tree is judged bad or when the display
parser sets `display_failed`. `watched` records that this has happened; the
question is whether `clear_signing_available` stays false from then on.

`display_failed` is final. A bad verdict is final only when no deferred screen is
pending: `apply_node_tree_verdict` clears the flag but leaves the deferred match
in place, and an input contract that fits it sets the flag again
(`orphan_accept_reviewed_clear`). `withdrawal_final` holds of every run in which
no bad verdict meets a pending deferred screen.
-/

namespace CantonSigner

open ByteCodec

/-- The part reads a verdict other than `TREE_OK`. -/
def sawBadVerdict (st : Prepared) : PartEvent → Bool
  | .part .. => st.txState = .metadata && (treeVerifyComplete st.tree).err ≠ .ok
  | .rows .. => false

/-- The receiving machine, with a flag that is set once clear signing was
withdrawn. -/
def watched (d : Device) : Machine (Prepared × Bool) PartEvent where
  init s := s.1.Fresh ∧ s.2 = false
  step s e := ((receiving d).step s.1 e).map fun st' =>
    (st', s.2 || sawBadVerdict s.1 e || st'.review.displayFailed)

/-- No bad verdict is read while a deferred screen is pending. -/
def NoDeferredAtBadVerdict (st : Prepared) (_parsed : Bool) (_buf : Bytes) : Prop :=
  st.txState = .metadata → (treeVerifyComplete st.tree).err ≠ .ok → st.globals = none

/-- Nodes are over: the parts still to come are metadata and input contracts. -/
def PastNodes (st : Prepared) : Prop :=
  st.txState = .metadata ∨ st.txState = .metadataInputContracts

/-- What keeps a withdrawal final. -/
structure WithdrawalInv (s : Prepared × Bool) : Prop where
  failed : s.1.review.displayFailed = true → s.1.review.clearSigningAvailable = false
  withdrawn : s.2 = true → s.1.review.displayFailed = true ∨
    (s.1.review.clearSigningAvailable = false ∧ s.1.globals = none ∧ PastNodes s.1)

variable {d : Device} {st st' : Prepared} {w parsed : Bool} {buf : Bytes}

theorem WithdrawalInv.clear_off (h : WithdrawalInv (st, w)) (hw : w = true) :
    st.review.clearSigningAvailable = false := by
  rcases h.withdrawn hw with hfail | ⟨hclear, -⟩
  · exact h.failed hfail
  · exact hclear

/-- Finalising keeps what a withdrawal rests on. -/
theorem withdrawalInv_finalized (h : WithdrawalInv (st, w)) :
    WithdrawalInv (st.finalized d, w) := by
  have hreview : (st.finalized d).review.displayFailed = st.review.displayFailed ∧
      (st.review.clearSigningAvailable = false →
        (st.finalized d).review.clearSigningAvailable = false) := by
    rw [finalized_eq]
    dsimp only
    split <;> simp [cleanupDisplayItems]
  constructor
  · intro hfail
    exact hreview.2 (h.failed (hreview.1 ▸ hfail))
  · intro hw
    rcases h.withdrawn hw with hfail | ⟨hclear, -, hpast⟩
    · exact .inl (hreview.1 ▸ hfail)
    · refine .inr ⟨hreview.2 hclear, by rw [finalized_eq], ?_⟩
      rw [finalized_eq]
      exact hpast

/-- A parse for display keeps the invariant, whatever else the part changed. -/
theorem withdrawalInv_parse (h : WithdrawalInv (st, w))
    (hkept : DisplayParser.ReviewKept st.review st'.review)
    (hsame : w = true → st.review.displayFailed = false →
      st'.review = st.review ∧ st'.globals = st.globals ∧ PastNodes st') :
    WithdrawalInv (st', w || st'.review.displayFailed) := by
  have hfailed : st'.review.displayFailed = true →
      st'.review.clearSigningAvailable = false := by
    intro hfail
    rcases hkept with heq | ⟨-, hoff⟩
    · rw [heq] at hfail ⊢
      exact h.failed hfail
    · exact hoff hfail
  refine ⟨hfailed, fun hw => ?_⟩
  rcases Bool.or_eq_true_iff.mp hw with hw | hfail
  · rcases hkept with heq | ⟨hbefore, -⟩
    · rcases h.withdrawn hw with hfail | ⟨hclear, hglobals, -⟩
      · exact .inl (by rw [heq]; exact hfail)
      · by_cases hfail : st.review.displayFailed = true
        · exact .inl (by rw [heq]; exact hfail)
        · obtain ⟨hr, hg, hpast⟩ := hsame hw (by simpa using hfail)
          exact .inr ⟨by rw [hr]; exact hclear, by rw [hg]; exact hglobals, hpast⟩
    · obtain ⟨hr, hg, hpast⟩ := hsame hw hbefore
      rcases h.withdrawn hw with hfail | ⟨hclear, hglobals, -⟩
      · rw [hbefore] at hfail
        cases hfail
      · exact .inr ⟨by rw [hr]; exact hclear, by rw [hg]; exact hglobals, hpast⟩
  · exact .inl hfail

theorem withdrawalInv_header {tx : DamlTransaction} (h : WithdrawalInv (st, w))
    (hs : HeaderStep st buf st' tx) : WithdrawalInv (st', w || st'.review.displayFailed) := by
  have hr : st'.review = st.review := by rw [hs.result]; rfl
  refine withdrawalInv_parse h (.inl hr) fun hw hnofail => ?_
  rcases h.withdrawn hw with hfail | ⟨-, -, hpast | hpast⟩
  · rw [hnofail] at hfail
    cases hfail
  · exact absurd (hs.state.symm.trans hpast) (by decide)
  · exact absurd (hs.state.symm.trans hpast) (by decide)

theorem withdrawalInv_node {part : NodePart} {ctx : HashingParser.Ctx} (h : WithdrawalInv (st, w))
    (hs : NodeStep d st buf st' part ctx) :
    WithdrawalInv (st', w || st'.review.displayFailed) := by
  obtain ⟨shown, hdisplay, rfl⟩ := hs.result
  have hkept : DisplayParser.ReviewKept st.review (advanceNode shown).review := by
    show DisplayParser.ReviewKept st.review shown.review
    rcases displayNodePart_cases hdisplay with ⟨-, rfl⟩ | ⟨-, r, hparse, rfl⟩
    · exact .inl (withNode_review ctx part)
    · have := DisplayParser.parseNodeForDisplay_review hparse
      rwa [withNode_review] at this
  refine withdrawalInv_parse h hkept fun hw hnofail => ?_
  rcases h.withdrawn hw with hfail | ⟨-, -, hpast | hpast⟩
  · rw [hnofail] at hfail
    cases hfail
  · exact absurd (hs.state.symm.trans hpast) (by decide)
  · exact absurd (hs.state.symm.trans hpast) (by decide)

/-- The metadata part: the verdict is read here. -/
theorem withdrawalInv_metadata {md : Metadata} (h : WithdrawalInv (st, w))
    (hs : MetadataStep d st parsed buf st' md) (hok : NoDeferredAtBadVerdict st parsed buf) :
    WithdrawalInv
      (st', w || sawBadVerdict st (.part parsed buf) || st'.review.displayFailed) := by
  have hverdict := applyNodeTreeVerdict_accepted hs.verdict
  -- The state the verdict leaves, before the metadata is hashed.
  have hinv : WithdrawalInv ((applyNodeTreeVerdict st).1.withMetadata d md,
      w || sawBadVerdict st (.part parsed buf)) := by
    rw [hverdict]
    by_cases hbad : (treeVerifyComplete st.tree).err = .ok
    · have hnone : sawBadVerdict st (.part parsed buf) = false := by simp [sawBadVerdict, hbad]
      rw [hnone, Bool.or_false]
      simp only [hbad, ↓reduceIte]
      exact ⟨h.failed, h.withdrawn⟩
    · refine ⟨fun _ => by simp [Prepared.withMetadata, hbad, cleanupDisplayItems], fun _ => .inr ?_⟩
      exact ⟨by simp [Prepared.withMetadata, hbad, cleanupDisplayItems], hok hs.state hbad,
        .inl hs.state⟩
  have hsame : ∀ {s : Prepared} {b : Bool}, WithdrawalInv (s, b) →
      WithdrawalInv (s, b || s.review.displayFailed) := fun {s b} hi =>
    ⟨hi.failed, fun hw => (Bool.or_eq_true_iff.mp hw).elim hi.withdrawn .inl⟩
  rcases hs.result with ⟨-, -, rfl⟩ | ⟨-, rfl⟩
  · exact hsame (withdrawalInv_finalized hinv)
  · refine hsame ⟨hinv.failed, fun hw => ?_⟩
    rcases hinv.withdrawn hw with hfail | ⟨hclear, hglobals, -⟩
    · exact .inl hfail
    · exact .inr ⟨hclear, hglobals, .inr rfl⟩

theorem withdrawalInv_contract {ic : InputContract} {v : HashingParser.VState}
    {values : ValuesStore} {shown : DisplayParser.Globals × Review × ValuesStore}
    (h : WithdrawalInv (st, w)) (hs : ContractStep d st parsed buf st' ic v values shown) :
    WithdrawalInv (st', w || st'.review.displayFailed) := by
  obtain ⟨hkept, hskip⟩ := DisplayParser.parseInputContractForDisplay_review hs.displayed
  have hinv : WithdrawalInv (st.withContract d ic v shown,
      w || (st.withContract d ic v shown).review.displayFailed) := by
    refine withdrawalInv_parse h hkept fun hw hnofail => ?_
    rcases h.withdrawn hw with hfail | ⟨-, hglobals, -⟩
    · rw [hnofail] at hfail
      cases hfail
    · have hshown := hskip hglobals
      exact ⟨congrArg (·.2.1) hshown, congrArg (·.1) hshown, .inr hs.state⟩
  rcases hs.result with ⟨-, -, rfl⟩ | ⟨-, rfl⟩
  · have hfail : ((st.withContract d ic v shown).finalized d).review.displayFailed =
        (st.withContract d ic v shown).review.displayFailed := by
      rw [finalized_eq]
      dsimp only
      split <;> rfl
    rw [hfail]
    exact withdrawalInv_finalized hinv
  · exact hinv

/-- One accepted part keeps the invariant. -/
theorem withdrawalInv_part (h : WithdrawalInv (st, w))
    (hacc : processPreparedTxPart d parsed st buf = (st', 0))
    (hok : NoDeferredAtBadVerdict st parsed buf) :
    WithdrawalInv
      (st', w || sawBadVerdict st (.part parsed buf) || st'.review.displayFailed) := by
  have hverdict : st.txState ≠ .metadata → sawBadVerdict st (.part parsed buf) = false :=
    fun hne => by simp [sawBadVerdict, hne]
  rcases accepted_cases hacc with ⟨tx, hs⟩ | ⟨part, ctx, hs⟩ | ⟨md, hs⟩ | ⟨ic, v, values, shown, hs⟩
  · rw [hverdict (by rw [hs.state]; decide), Bool.or_false]
    exact withdrawalInv_header h hs
  · rw [hverdict (by rw [hs.state]; decide), Bool.or_false]
    exact withdrawalInv_node h hs
  · exact withdrawalInv_metadata h hs hok
  · rw [hverdict (by rw [hs.state]; decide), Bool.or_false]
    exact withdrawalInv_contract h hs

/-- The condition of `withdrawal_final` on a step of a watched run. -/
def noDeferredStep (s : Prepared × Bool) (e : PartEvent) : Prop :=
  onParts NoDeferredAtBadVerdict s.1 e

theorem withdrawalInv_of_reach {es : List PartEvent} {s : Prepared × Bool}
    (h : (watched d).Reach noDeferredStep es s) : WithdrawalInv s := by
  refine h.invariant (P := fun _ s => WithdrawalInv s) ?_ ?_
  · rintro ⟨st, w⟩ ⟨⟨p, hp⟩, hw⟩
    have hreview : st.review = TxInfo.zero.review := congrArg (·.review) hp
    refine ⟨fun hfail => ?_, fun hset => ?_⟩
    · rw [hreview] at hfail
      cases hfail
    · exact absurd (hw.symm.trans hset) (by decide)
  · rintro es ⟨st, w⟩ e s' hinv hok hstep
    obtain ⟨st', hst, rfl⟩ := Option.map_eq_some_iff.mp hstep
    rcases receiving_step_cases hst with ⟨parsed, buf, rfl, hacc⟩ | ⟨pairs, sig, rfl, rfl⟩
    · exact withdrawalInv_part hinv hacc hok
    · refine ⟨hinv.failed, fun hw => ?_⟩
      have hw' : w = true ∨ st.review.displayFailed = true := by
        simpa [sawBadVerdict, Prepared.setRows] using hw
      exact hw'.elim hinv.withdrawn .inl

/-- **A withdrawal is final**: in every run in which no bad verdict meets a
pending deferred screen, clear signing is off once it was withdrawn, and a review
started then is not a clear one. -/
theorem withdrawal_final {es : List PartEvent} {st : Prepared}
    (h : (watched d).Reach noDeferredStep es (st, true)) :
    st.review.clearSigningAvailable = false ∧
      ∀ a : App, a.prepared = st → ∀ title finish rows,
        (startReview a).2 ≠ .shown (.clearReview title finish rows) := by
  have hclear := (withdrawalInv_of_reach h).clear_off rfl
  refine ⟨hclear, fun a ha title finish rows => ?_⟩
  have hoff : a.tx.review.clearSigningAvailable = false := by
    have : a.prepared.review.clearSigningAvailable = false := by rw [ha]; exact hclear
    exact this
  unfold startReview uiDisplayBlindSignedTransaction uiDisplayTransactionBsChoice
    uiErrorBlindSigning
  grind

instance (st : Prepared) (parsed : Bool) (buf : Bytes) :
    Decidable (NoDeferredAtBadVerdict st parsed buf) :=
  inferInstanceAs (Decidable (_ → _ → _))

instance (s : Prepared × Bool) (e : PartEvent) : Decidable (noDeferredStep s e) :=
  match e with
  | .part parsed buf => inferInstanceAs (Decidable (NoDeferredAtBadVerdict s.1 parsed buf))
  | .rows .. => inferInstanceAs (Decidable True)

/-- A watched run computed from the first flow reaches a tested state. -/
theorem exists_reach_watched (es : List PartEvent) (okb p : _)
    (h : ((watched testDevice).run okb (Prepared.start, false) es).any p = true) :
    ∃ s, (watched testDevice).Reach (fun s e => okb s e = true) es s ∧ p s = true :=
  Machine.exists_reach_of_run (m := watched testDevice) ⟨Prepared.start_fresh, rfl⟩ h

/-- Two rollback nodes, the second of them an orphan. -/
def orphanRollback : List PartEvent := [
  .part false (Host.headerOf ["0"] 2 []),
  .part false (Host.nodeOf "1" (.rollback ⟨[]⟩)),
  .part false (Host.nodeOf "0" (.rollback ⟨[]⟩)),
  .part true (Host.metadataOf 0)]

theorem withdrawal_final_orphanRollback : ∃ st : Prepared,
    (watched testDevice).Reach noDeferredStep orphanRollback (st, true) ∧
      st.review.clearSigningAvailable = false := by
  obtain ⟨⟨st, w⟩, hreach, hw⟩ := exists_reach_watched orphanRollback
    (fun s e => decide (noDeferredStep s e)) (·.2) (by decide +kernel)
  have hw : w = true := hw
  subst hw
  have hreach' : (watched testDevice).Reach noDeferredStep orphanRollback (st, true) :=
    hreach.mono fun _ _ h => of_decide_eq_true h
  exact ⟨st, hreach', (withdrawal_final hreach').1⟩

/-- An acceptance whose tree has an orphan: the amulet it should have created. -/
def orphanAccept : List PartEvent := [
  .part false (Host.headerOf ["0"] 2 [0]),
  .part false (Host.nodeOf "1" (.create (Host.amulet "bb" "bob" "10.0"))),
  .part false (Host.nodeOf "0" (.exercise (Host.accept "aa" []))),
  .part false (Host.metadataOf 1),
  .part true (Host.inputContract ⟨[Host.offer "aa" "alice" "bob" "10.0"], 7⟩)]

/-- The verdict withdraws clear signing, and the input contract brings it back:
the transaction is reviewed clear. -/
theorem orphan_accept_reviewed_clear : ∃ st : Prepared,
    (watched testDevice).Reach (fun _ _ => True) orphanAccept (st, true) ∧
      st.review.clearSigningAvailable = true ∧
      st.review.reviewTitle = some tokenTransferAcceptReviewTitle := by
  obtain ⟨⟨st, w⟩, hreach, hp⟩ := exists_reach_watched orphanAccept (fun _ _ => true)
    (fun s => s.2 && s.1.review.clearSigningAvailable &&
      decide (s.1.review.reviewTitle = some tokenTransferAcceptReviewTitle)) (by decide +kernel)
  simp only [Bool.and_eq_true, decide_eq_true_eq] at hp
  obtain ⟨⟨hw, hclear⟩, htitle⟩ := hp
  subst hw
  exact ⟨st, hreach.mono fun _ _ _ => trivial, hclear, htitle⟩

end CantonSigner
