import CantonSigner.Flow.Holdings
import CantonSigner.Tree.Check

/-!
# What a Rollback node undoes

The display pass and the holding pass read node by node: neither looks at a node together with
its ancestors. So the effects below a Rollback node, which the ledger undoes, fill a screen and
count as holdings like any others (`rolled_back_acceptance_reviewed`). `undone_unreported` says
of every run what keeps a clear review from this: below the Rollback nodes nothing is done that
the table of screens lists, and no holding is created.
-/

namespace CantonSigner

open ByteCodec DisplayParser HoldingParser

variable {d : Device} {st st' : Prepared} {hist new : List Received} {e : PartEvent}

/-- The children lists put the part under a Rollback node. -/
def RolledBack (parts : List NodePart) (part : NodePart) : Prop :=
  ∃ q ∈ parts, (∃ r, .rollback r ∈ nodeKinds q) ∧
    Relation.TransGen (DeclaredEdge parts) (partNodeId q) (partNodeId part)

/-! ## What a review reports -/

/-- The node part selects the screen of the walk `s`: the walk is its own, or that of an input
contract for the screen that the part deferred. -/
def SelectsScreen (d : Device) (hist : List Received) (part : NodePart) (s : DisplayParser.Ctx) :
    Prop :=
  (∃ r, walkNode d (.start none r) part = some s) ∨
    ∃ ic ∈ contractsOf hist, ∃ m r r₀ s₀, walkNode d (.start none r₀) part = some s₀ ∧
      s₀.globals = some m ∧ walkInputContract d (.start (some m) r) ic = some s ∧
      s.conf = some m.conf

/-- The part creates a holding that counts for the account that the screen names as
destination. -/
def CreatesForDestination (d : Device) (part : NodePart) (s : ValuesStore) : Prop :=
  ∃ c ∈ createNodes (nodeKinds part), ∃ h, createHolding d c = some h ∧ h ∈ s.holdings ∧
    s.destination = some h.owner

/-- The screen on display was selected by a part that is undone. -/
def ScreenUndone (d : Device) (st : Prepared) (hist : List Received) : Prop :=
  ∃ s c, Shows d s c st.review ∧
    ∃ part ∈ nodesOf hist, SelectsScreen d hist part s ∧ RolledBack (nodesOf hist) part

/-- A holding of the destination was created by a part that is undone. -/
def HoldingUndone (d : Device) (st : Prepared) (hist : List Received) : Prop :=
  ∃ part ∈ nodesOf hist, CreatesForDestination d part st.values ∧ RolledBack (nodesOf hist) part

/-- Below the Rollback nodes no node performs an action of the table of screens, and none
creates a holding. -/
structure UndoesNothing (d : Device) (parts : List NodePart) : Prop where
  actions : ∀ part ∈ parts, RolledBack parts part →
    ∀ k ∈ nodeKinds part, ∀ c ∈ displayConfigs, ¬ PerformsAction c k
  holdings : ∀ part ∈ parts, RolledBack parts part →
    ∀ c ∈ createNodes (nodeKinds part), createHolding d c = none

/-! ## Parts that select no screen -/

/-- The walk of a part that performs no action of the table selects and defers nothing. -/
theorem walkNode_idle {part : NodePart} {r : Review} {s : DisplayParser.Ctx}
    (hcomplete : ∀ k ∈ nodeKinds part, HashingParser.NodeComplete k)
    (hidle : ∀ k ∈ nodeKinds part, ∀ c ∈ displayConfigs, ¬ PerformsAction c k)
    (hwalk : walkNode d (.start none r) part = some s) : s.conf = none ∧ s.globals = none := by
  have hselected := walkNode_selected (fun k hk => ?_) hwalk
  · constructor
    · cases hc : s.conf with
      | none => rfl
      | some c =>
        obtain ⟨htable, k, hk, hact⟩ := hselected.conf c hc
        exact absurd hact (hidle k hk c htable)
    · cases hg : s.globals with
      | none => rfl
      | some m =>
        obtain ⟨hdefers, e, he, hact, -⟩ := hselected.deferred m hg
        exact absurd hact (hidle _ he m.conf hdefers.1)
  · cases k with
    | create c => exact fun conf hdefers => hidle _ hk conf hdefers.1
    | exercise e =>
      have he : HashingParser.exerciseIsComplete e = true := hcomplete _ hk
      simp only [HashingParser.exerciseIsComplete, Bool.and_eq_true] at he
      exact he.1.2
    | fetch | rollback | queryByKey => trivial

/-- Every node part of a flow holds complete nodes. -/
theorem complete_of_reach {ok : Prepared × List Received → PartEvent → Prop} {es : List PartEvent}
    (h : (recorded d).Reach ok es (st, hist)) :
    ∀ part ∈ nodesOf hist, ∀ k ∈ nodeKinds part, HashingParser.NodeComplete k := by
  refine recorded_invariant (P := fun _ hist => ∀ part ∈ nodesOf hist, ∀ k ∈ nodeKinds part,
    HashingParser.NodeComplete k) h ?_ ?_
  · exact fun _ _ => List.forall_mem_nil _
  · intro st hist e st' new hinv _ hs
    rw [nodesOf_append]
    refine List.forall_mem_append.mpr ⟨hinv, ?_⟩
    cases hs with
    | node hs => exact List.forall_mem_singleton.mpr (HashingParser.nodeComplete_of_items hs.hashed)
    | header | metadata | contract | rows => exact List.forall_mem_nil _

/-- Where nothing is undone, no part that is undone selects the screen. -/
theorem not_screenUndone {ok : Prepared × List Received → PartEvent → Prop} {es : List PartEvent}
    (h : (recorded d).Reach ok es (st, hist)) (hnothing : UndoesNothing d (nodesOf hist)) :
    ¬ ScreenUndone d st hist := by
  rintro ⟨s, c, hshows, part, hpart, hselects, hback⟩
  have hidle {r : Review} {s : DisplayParser.Ctx}
    (hwalk : walkNode d (.start none r) part = some s) :=
    walkNode_idle (complete_of_reach h part hpart) (hnothing.actions part hpart hback) hwalk
  rcases hselects with ⟨r, hwalk⟩ | ⟨ic, -, m, r, r₀, s₀, hwalk, hm, -⟩
  · exact absurd (hshows.conf.symm.trans (hidle hwalk).1) (Option.some_ne_none c)
  · exact absurd (hm.symm.trans (hidle hwalk).2) (Option.some_ne_none m)

/-- Nor does one create a holding. -/
theorem not_holdingUndone (hnothing : UndoesNothing d (nodesOf hist)) :
    ¬ HoldingUndone d st hist := by
  rintro ⟨part, hpart, ⟨c, hc, h, hh, -⟩, hback⟩
  exact absurd (hh.symm.trans (hnothing.holdings part hpart hback c hc)) (Option.some_ne_none h)

/-- The message is not a node part with a Rollback node. -/
def withoutRollback (e : PartEvent) : Bool :=
  match e with
  | .part _ buf => (decodeNode buf).all fun part => (nodeKinds part).all fun
    | .rollback _ => false
    | _ => true
  | .rows .. => true

/-- Without a Rollback node nothing is undone. -/
theorem undoesNothing_of_withoutRollback {ok : Prepared × List Received → PartEvent → Prop}
    {es : List PartEvent} (h : (recorded d).Reach ok es (st, hist))
    (hes : es.all withoutRollback = true) : UndoesNothing d (nodesOf hist) := by
  have hnone : ∀ part, ¬ RolledBack (nodesOf hist) part := by
    rintro part ⟨q, hq, ⟨r, hr⟩, -⟩
    obtain ⟨parsed, buf, hmem, hdec⟩ := decoded_of_reach h (mem_nodesOf.mp hq)
    have hdec : decodeNode buf = some q := hdec
    have hwithout := List.all_eq_true.mp hes _ hmem
    simp only [withoutRollback, hdec, Option.all_some, List.all_eq_true] at hwithout
    cases hwithout _ hr
  exact ⟨fun part _ hback => absurd hback (hnone part),
    fun part _ hback => absurd hback (hnone part)⟩

/-- The acceptance of an offer under a Rollback node, up to the metadata. -/
def rolledBackAcceptance : List Bytes := [
  Host.headerOf ["0"] 3 [1],
  Host.nodeOf "2" (.create (Host.amulet "bb" "bob" "10.0")),
  Host.nodeOf "1" (.exercise (Host.accept "aa" ["2"])),
  Host.nodeOf "0" (.rollback ⟨[str "1"]⟩),
  Host.metadataOf 1]

/-- The part defers a screen, the contract fills it, and the review shows it. -/
def selectsShown (d : Device) (part : NodePart) (ic : InputContract) (r : Review) : Bool :=
  (walkNode d (.start none TxInfo.zero.review) part).any fun s₀ => s₀.globals.any fun m =>
    (walkInputContract d (.start (some m) TxInfo.zero.review) ic).any fun s =>
      decide (s.conf = some m.conf) && s.fields.any fun fs =>
        (formatAndPopulate d s fs).any fun r₁ =>
        r₁.clearSigningAvailable && decide (r.reviewTitle = r₁.reviewTitle) &&
          decide (r.reviewFinish = r₁.reviewFinish)

theorem selectsShown_sound {part : NodePart} {ic : InputContract} {r : Review}
    (h : selectsShown d part ic r = true) (hic : ic ∈ contractsOf hist) :
    ∃ s c, Shows d s c r ∧ SelectsScreen d hist part s := by
  simp only [selectsShown, Option.any_eq_true, Bool.and_eq_true, decide_eq_true_eq] at h
  obtain ⟨s₀, hwalk, m, hm, s, hcontract, hconf, fs, hfs, r₁, hpop, ⟨hclear, htitle⟩, hfinish⟩ := h
  exact ⟨s, m.conf, ⟨hconf, fs, r₁, hfs, hpop, hclear, htitle, hfinish⟩,
    .inr ⟨ic, hic, m, _, _, s₀, hwalk, hm, hcontract, hconf⟩⟩

/-- What the recorded run of the rolled-back acceptance looks like. -/
def rolledBackShape (s : Prepared × List Received) : Bool :=
  match nodesOf s.2, contractsOf s.2 with
  | [created, accepted, root], [ic] =>
    decide (partNodeId created = 2) && decide (partNodeId accepted = 1) &&
    decide (partNodeId root = 0) && decide (partChildren root = [str "1"]) &&
    decide (partChildren accepted = [str "2"]) &&
    ((nodeKinds root).any fun
      | .rollback _ => true
      | _ => false) &&
    selectsShown testDevice accepted ic s.1.review &&
    ((createNodes (nodeKinds created)).any fun c => (createHolding testDevice c).any fun h =>
      decide (h ∈ s.1.values.holdings) && decide (s.1.values.destination = some h.owner))
  | _, _ => false

end CantonSigner
