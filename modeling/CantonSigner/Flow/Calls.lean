import CantonSigner.Display.Calls
import CantonSigner.Flow.Texts

/-!
# The calls of a flow

Each part that is received makes its calls into the value check. `CallsInv` follows a flow: until
the transaction is finalised, its store is what the calls of the received parts come to, and a
screen that was filled is only kept if the check lets the transaction pass then.
-/

namespace CantonSigner

open ByteCodec DisplayParser

/-! ## The calls of a flow -/

/-- The calls of an accepted message. -/
def receivedCalls (d : Device) : Received → List ValuesCall
  | .node part => partCalls d part
  | .contract ic => contractCalls ic
  | .header _ | .metadata _ => []

/-- The calls of a history, but for the bound screen. -/
def historyCalls (d : Device) (hist : List Received) : List ValuesCall :=
  hist.flatMap (receivedCalls d)

/-- The contracts that the nodes use. -/
def usedContractsOf (hist : List Received) : List Bytes :=
  (nodesOf hist).flatMap fun part => (nodeKinds part).filterMap NodeKind.usedContract

/-- The contracts that were disclosed. -/
def disclosedOf (hist : List Received) : List Bytes :=
  (contractsOf hist).flatMap fun ic => ic.v1.filterMap (·.contractId)

/-- The holdings that the create nodes write. -/
def holdingTextsOf (hist : List Received) : List HoldingText :=
  (createsOf hist).filterMap holdingTextOf

variable {d : Device} {st st' pre : Prepared} {hist new : List Received} {e : PartEvent}

theorem historyCalls_cons (r : Received) (hist : List Received) :
    historyCalls d (r :: hist) = receivedCalls d r ++ historyCalls d hist := List.flatMap_cons

theorem historyCalls_append (h₁ h₂ : List Received) :
    historyCalls d (h₁ ++ h₂) = historyCalls d h₁ ++ historyCalls d h₂ := List.flatMap_append

/-- Contracts come after all nodes, and the store follows the calls until the transaction is
finalised. -/
structure CallsInv (d : Device) (st : Prepared) (hist : List Received) : Prop where
  follows : st.mHashLen ≠ 32 → Follows d (historyCalls d hist) st.values
  order : ∃ before after, hist = before ++ after ∧ contractsOf before = [] ∧ nodesOf after = []
  early : st.txState = .damlTxPart ∨ st.txState = .damlNodes → contractsOf hist = []

/-- A parse for display makes no call but to bind its screen. -/
theorem finishParsing_follows {calls : List ValuesCall} {values values' : ValuesStore}
    {s : DisplayParser.Ctx} {g' : Globals} {r' : Review} (hs : Follows d calls values)
    (h : finishParsing d values s = some (g', r', values')) : Follows d calls values' := by
  rcases finishParsing_cases h with ⟨fs, c, -, -, -, -, rfl⟩ | ⟨-, -, rfl⟩
  · exact hs.congr rfl rfl rfl
  · exact hs

/-- A node part. -/
theorem follows_node {buf : Bytes} {part : NodePart} {ctx : HashingParser.Ctx}
    (h : Follows d (historyCalls d hist) st.values) (hs : NodeStep d st buf st' part ctx) :
    Follows d (historyCalls d (hist ++ [.node part])) st'.values := by
  have hcalls : historyCalls d (hist ++ [.node part]) = historyCalls d hist ++
      ((nodeKinds part).map fun k => .recordUsed k.usedContract) ++
        (HoldingParser.createNodes (nodeKinds part)).flatMap (createCalls d) := by
    simp [historyCalls, receivedCalls, partCalls]
  have hpasses : Follows d (historyCalls d (hist ++ [.node part]))
      (st.withNode d ctx part).values := by
    rw [hcalls, withNode_values]
    exact HoldingParser.valuesCollectFromNode_follows
      (HashingParser.decodeNodePart_follows h hs.hashed)
  obtain ⟨shown, hdisplay, rfl⟩ := hs.result
  rcases displayNodePart_cases hdisplay with ⟨-, rfl⟩ | ⟨-, ⟨g', r', values'⟩, hparse, rfl⟩
  · exact hpasses
  · rcases parseNodeForDisplay_cases hparse with ⟨-, -, rfl⟩ | ⟨-, -, s, -, hfinish⟩
    · exact hpasses
    · exact finishParsing_follows hpasses hfinish

/-- An input contract. -/
theorem follows_contract {parsed : Bool} {buf : Bytes} {ic : InputContract}
    {v : HashingParser.VState} {values : ValuesStore} {shown : Globals × Review × ValuesStore}
    (h : Follows d (historyCalls d hist) st.values)
    (hs : ContractStep d st parsed buf st' ic v values shown) :
    Follows d (historyCalls d (hist ++ [.contract ic])) (st.withContract d ic v shown).values := by
  have hcalls : historyCalls d (hist ++ [.contract ic]) =
      historyCalls d hist ++ contractCalls ic := by
    simp [historyCalls, receivedCalls]
  have hchecked := HashingParser.decodeInputContractPart_follows h hs.hashed
  rw [← hcalls] at hchecked
  obtain ⟨g', r', values'⟩ := shown
  rcases parseInputContractForDisplay_cases hs.displayed with ⟨-, -, rfl⟩ | ⟨-, m, -, s, -, hfinish⟩
  · exact hchecked
  · exact finishParsing_follows hchecked hfinish

theorem finalized_mHashLen (st : Prepared) : (st.finalized d).mHashLen = 32 := by
  rw [finalized_eq]

/-- One step of a recorded run. -/
theorem callsInv_step (h : CallsInv d st hist) (hs : RecordedStep d st e st' new) :
    CallsInv d st' (hist ++ new) := by
  have hquiet : ∀ r : Received, receivedCalls d r = [] →
      historyCalls d (hist ++ [r]) = historyCalls d hist := fun r hr => by
    simp [historyCalls, hr]
  -- What is neither a node nor a header goes to the end.
  have hafter : nodesOf new = [] → ∃ before after, hist ++ new = before ++ after ∧
      contractsOf before = [] ∧ nodesOf after = [] := by
    intro hnew
    obtain ⟨before, after, rfl, hcontracts, hnodes⟩ := h.order
    exact ⟨before, after ++ new, List.append_assoc .., hcontracts, by simp [hnodes, hnew]⟩
  have hpast : ∀ {s : Prepared}, PastNodes s → s.txState = .damlTxPart ∨ s.txState = .damlNodes →
      contractsOf (hist ++ new) = [] := by
    rintro s (hs | hs) (h | h) <;> cases hs.symm.trans h
  cases hs with
  | @header _ _ _ tx hs =>
    have hnone : contractsOf (hist ++ [.header tx]) = [] := by
      rw [contractsOf_append, h.early (.inl hs.state)]
      rfl
    refine ⟨?_, ⟨_, [], by simp, hnone, rfl⟩, fun _ => hnone⟩
    rw [hs.result, hquiet _ rfl]
    exact h.follows
  | @node _ _ _ part ctx hs =>
    have hnone : contractsOf (hist ++ [.node part]) = [] := by
      rw [contractsOf_append, h.early (.inr hs.state)]
      rfl
    refine ⟨fun hopen => ?_, ⟨_, [], by simp, hnone, rfl⟩, fun _ => hnone⟩
    refine follows_node (h.follows fun h32 => hopen ?_) hs
    obtain ⟨shown, hdisplay, rfl⟩ := hs.result
    rcases displayNodePart_cases hdisplay with ⟨-, rfl⟩ | ⟨-, r, -, rfl⟩
    · exact (withNode_mHashLen ctx part).trans h32
    · exact (withNode_mHashLen ctx part).trans h32
  | @metadata _ _ _ md hs =>
    have htree := applyNodeTreeVerdict_accepted hs.verdict
    rcases hs.result with ⟨-, -, rfl⟩ | ⟨-, rfl⟩
    · -- Finalised: the store is not followed any longer.
      refine ⟨fun hopen => absurd (finalized_mHashLen _) hopen, hafter rfl,
        hpast (pastNodes_finalized (.inl ?_))⟩
      show (applyNodeTreeVerdict st).1.txState = .metadata
      rw [htree]
      exact hs.state
    · refine ⟨?_, hafter rfl, hpast (.inr rfl)⟩
      rw [hquiet (.metadata md) rfl]
      show (applyNodeTreeVerdict st).1.mHashLen ≠ 32 →
        Follows d _ (applyNodeTreeVerdict st).1.values
      rw [htree]
      exact h.follows
  | @contract _ _ _ ic v values shown hs =>
    rcases hs.result with ⟨-, -, rfl⟩ | ⟨-, rfl⟩
    · exact ⟨fun hopen => absurd (finalized_mHashLen _) hopen, hafter rfl,
        hpast (pastNodes_finalized (.inr hs.state))⟩
    · exact ⟨fun hopen => follows_contract (h.follows hopen) hs, hafter rfl, hpast (.inr hs.state)⟩
  | rows => simpa using ⟨h.follows, h.order, h.early⟩

theorem callsInv_of_reach {ok : Prepared × List Received → PartEvent → Prop} {es : List PartEvent}
    (h : (recorded d).Reach ok es (st, hist)) : CallsInv d st hist := by
  refine recorded_invariant h ?_ fun st hist e st' new hinv _ hs => callsInv_step hinv hs
  rintro _ ⟨p, rfl⟩
  exact ⟨fun _ => .start, ⟨[], [], rfl, rfl, rfl⟩, fun _ => rfl⟩

/-! ## The end of a transaction -/

/-- The state that a last part leaves to be finalised. -/
inductive FinalisedFrom (d : Device) (st : Prepared) (buf : Bytes) : Prepared → Prop
  | metadata {st' : Prepared} {md : Metadata} : MetadataStep d st true buf st' md →
      md.inputContractsCount = 0 →
      FinalisedFrom d st buf ((applyNodeTreeVerdict st).1.withMetadata d md)
  | contract {st' : Prepared} {ic : InputContract} {v : HashingParser.VState}
      {values : ValuesStore} {shown : Globals × Review × ValuesStore} :
      ContractStep d st true buf st' ic v values shown →
      st.recvNodeIdx + 1 = st.inputContractsCount →
      FinalisedFrom d st buf (st.withContract d ic v shown)

/-- The store follows all calls then, and a screen was filled from one of the parts. -/
theorem finalised_from {ok : Prepared × List Received → PartEvent → Prop} {es : List PartEvent}
    {parsed : Bool} {buf : Bytes} (h : (recorded d).Reach ok es (st, hist))
    (hs : RecordedStep d st (.part parsed buf) st' new) (hopen : st.mHashLen ≠ 32)
    (hfinal : st'.mHashLen = 32) :
    ∃ pre, FinalisedFrom d st buf pre ∧ st' = pre.finalized d ∧
      Follows d (historyCalls d (hist ++ new)) pre.values ∧
      (pre.review.clearSigningAvailable = true → ∃ s c fs, BoundTo d pre (hist ++ new) s c fs) := by
  have hinv := callsInv_of_reach h
  have hscreen := screenBound_of_reach h
  cases hs with
  | header hs =>
    -- a header and a node part leave the hash as it is
    rw [hs.result] at hfinal
    exact absurd hfinal hopen
  | @node _ _ _ part ctx hs =>
    obtain ⟨shown, hdisplay, rfl⟩ := hs.result
    refine absurd ?_ hopen
    rcases displayNodePart_cases hdisplay with ⟨-, rfl⟩ | ⟨-, r, -, rfl⟩
    · exact (withNode_mHashLen ctx part).symm.trans hfinal
    · exact (withNode_mHashLen ctx part).symm.trans hfinal
  | @metadata _ _ _ md hs =>
    -- metadata without input contracts: the tree verdict keeps the store and the screen
    have htree := applyNodeTreeVerdict_accepted hs.verdict
    have hvalues : (applyNodeTreeVerdict st).1.values = st.values := by rw [htree]
    rcases hs.result with ⟨hnone, rfl, rfl⟩ | ⟨-, rfl⟩
    · refine ⟨_, .metadata hs hnone, rfl, ?_, fun hclear => ?_⟩
      · show Follows d _ (applyNodeTreeVerdict st).1.values
        rw [hvalues, historyCalls_append]
        simpa [historyCalls, receivedCalls] using hinv.follows hopen
      · obtain ⟨hclear, hreview⟩ := verdict_clear hs.verdict hclear
        obtain ⟨s, c, fs, -, hbound⟩ := hscreen.bound hclear
        refine ⟨s, c, fs, hbound.kept _ (congrArg ValuesStore.screen hvalues) ?_ ?_⟩
        · exact congrArg Review.reviewTitle hreview
        · exact congrArg Review.reviewFinish hreview
    · have hkept : (applyNodeTreeVerdict st).1.mHashLen = st.mHashLen := by rw [htree]
      exact absurd (hkept.symm.trans hfinal) hopen
  | @contract _ _ _ ic v values shown hs =>
    rcases hs.result with ⟨hlast, rfl, rfl⟩ | ⟨-, rfl⟩
    · -- the last input contract: it may fill a deferred screen
      refine ⟨_, .contract hs hlast, rfl, follows_contract (hinv.follows hopen) hs,
        fun hclear => ?_⟩
      obtain ⟨g', r', values'⟩ := shown
      rcases parseInputContractForDisplay_cases hs.displayed with ⟨-, rfl, rfl⟩ |
        ⟨-, m, hm, s, hwalk, hfinish⟩
      · obtain ⟨s, c, fs, -, hbound⟩ := hscreen.bound hclear
        refine ⟨s, c, fs, hbound.kept _ ?_ rfl rfl⟩
        exact (HashingParser.decodeInputContractPart_values hs.hashed).screen
      · have hwalked : WalkFinished d s (st.withContract d ic v (g', r', values')) :=
          ⟨values, g', r', values', hfinish, fun _ hm => hm, fun _ => rfl, .refl _⟩
        have hreceived : ic ∈ contractsOf (hist ++ [.contract ic]) := by simp [contractsOf]
        obtain ⟨c, fs, hbound, -⟩ := boundTo_walked
          (fieldsInv_contract (hscreen.deferred m hm).1 hwalk)
          (.inr ⟨ic, hreceived, m, _, hwalk⟩) hwalked hclear
        exact ⟨s, c, fs, hbound⟩
    · -- a contract with more to come leaves the hash as it is
      exact absurd hfinal hopen

/-- Finalising keeps a screen exactly if the value check lets it pass. -/
theorem finalized_review_iff (st : Prepared) :
    (st.finalized d).review.clearSigningAvailable = true ↔
      st.review.clearSigningAvailable = true ∧ valuesVerdict st.values = true := by
  rw [finalized_eq]
  dsimp only
  rw [valuesCanClearSign_verdict]
  cases hclear : st.review.clearSigningAvailable with
  | false => simp [hclear]
  | true => cases hverdict : valuesVerdict st.values <;> simp [hclear, cleanupDisplayItems]

end CantonSigner
