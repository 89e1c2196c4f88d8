import CantonSigner.Flow.Received
import CantonSigner.Hash.Checks
import CantonSigner.Tree.Parts
import CantonSigner.Tree.Impossible

/-!
# Missing parts of a message

The plain fields of a node are checked once they are decoded. What is read by a callback
is not: a callback that is never called writes no bytes and leaves no trace, and a value
without an alternative is nothing that `decode_value_primitive_variants` knows. So a part
that lacks its node kind, an argument or a value is turned down only when it has another
fault, one that the passes do look for.

- `lacks`: what a message may lack, at any depth;
- `Faulty`: the faults that the hashing pass finds;
- `processPart_refused_iff`: a message that lacks something is refused exactly when it is
  faulty, or when the display pass refuses it;
- `missing_refused`: what this comes to in a run.
-/

namespace CantonSigner

open ByteCodec HashingParser

/-! ## What a message may lack -/

/-- No alternative is set. -/
def Which.unset : Which → Bool
  | .none => true
  | _ => false

/-- A variant gives a value. -/
def Variant.hasValue : Variant → Bool
  | .nil => false
  | .variantId _ rest => rest.hasValue
  | .constructor _ rest => rest.hasValue
  | .value _ _ => true

mutual

/-- A value is missing, or has no alternative, somewhere inside a value. -/
def Value.lacksInside : Value → Bool
  | .nil => false
  | .prim _ rest | .unit rest | .enum _ rest => rest.lacksInside
  | .optional vs rest | .list vs rest => vs.lacksInside || rest.lacksInside
  | .textMap m rest => m.lacksInside || rest.lacksInside
  | .genMap m rest => m.lacksInside || rest.lacksInside
  | .record r rest => r.lacksInside || rest.lacksInside
  | .variant v rest => !v.hasValue || v.lacksInside || rest.lacksInside

def Values.lacksInside : Values → Bool
  | .nil => false
  | .cons v rest => (v.which .none).unset || v.lacksInside || rest.lacksInside

/-- A record field or TextMap entry without a value has no alternative set either. -/
def NamedValue.lacksInside : NamedValue → Bool
  | .nil => false
  | .name _ rest => rest.lacksInside
  | .value v rest => v.lacksInside || rest.lacksInside

def Record.lacksInside : Record → Bool
  | .nil => false
  | .recordId _ rest => rest.lacksInside
  | .field f rest => (f.which .none).unset || f.lacksInside || rest.lacksInside

def TextMap.lacksInside : TextMap → Bool
  | .nil => false
  | .entry e rest => (e.which .none).unset || e.lacksInside || rest.lacksInside

def GenMapEntry.lacksInside : GenMapEntry → Bool
  | .nil => false
  | .key v rest => v.lacksInside || rest.lacksInside
  | .value v rest => v.lacksInside || rest.lacksInside

def GenMap.lacksInside : GenMap → Bool
  | .nil => false
  | .entry e rest =>
    (e.whichKey .none).unset || (e.whichValue .none).unset || e.lacksInside || rest.lacksInside

def Variant.lacksInside : Variant → Bool
  | .nil => false
  | .variantId _ rest => rest.lacksInside
  | .constructor _ rest => rest.lacksInside
  | .value v rest => (v.which .none).unset || v.lacksInside || rest.lacksInside

end

/-- A value without an alternative, at any depth. -/
def Value.lacks (v : Value) : Bool := (v.which .none).unset || v.lacksInside

/-- A create without an argument, or with a value missing in it. -/
def createLacks (c : Create) : Bool := c.argument.isEmpty || c.argument.any Value.lacks

/-- An exercise without a chosen value, or with a value missing in it or in the result. -/
def exerciseLacks (e : Exercise) : Bool :=
  e.chosenValue.isEmpty || e.chosenValue.any Value.lacks || e.exerciseResult.any Value.lacks

/-- Something is missing in a node. -/
def kindLacks : NodeKind → Bool
  | .create c => createLacks c
  | .exercise e => exerciseLacks e
  | _ => false

/-- A node part without a v1 node kind, or with something missing in one. -/
def partLacks (part : NodePart) : Bool :=
  (nodeKinds part).isEmpty || (nodeKinds part).any kindLacks

/-- An input contract without a v1 contract, or with something missing in one. -/
def contractLacks (ic : InputContract) : Bool := ic.v1.isEmpty || ic.v1.any createLacks

/-- The message is a node part or an input contract that lacks something. -/
def lacks (st : Prepared) (buf : Bytes) : Bool :=
  match st.txState with
  | .damlNodes => (decodeNode buf).any partLacks
  | .metadataInputContracts => (decodeInputContract buf).any contractLacks
  | _ => false

/-! ## The faults of a part -/

/-- The tree check after a node part: the children of the first node that declares any are
claimed under the id of that time, and the part is marked under its last id. -/
def markPart (t : TreeCheck) (nodeId : Int) (claimed : Bool) : NodePart → TreeCheck
  | [] => treeMarkSeen t nodeId
  | .nodeId s :: rest => markPart t (atoint (cstr s)) claimed rest
  | .v1 kinds :: rest =>
    if claimed then markPart t nodeId true rest
    else markPart (claimFirst t nodeId (childLists kinds)) nodeId (!(childLists kinds).isEmpty) rest

/-- The display pass is not skipped, and refuses the node part. -/
def displayRefusesNode (d : Device) (st : Prepared) (part : NodePart) : Prop :=
  treeCanClearSign (markPart st.tree (-1) false part) = true ∧
    DisplayParser.parseNodeForDisplay d st.globals st.review st.values part = none

/-- A node part fails a check of the hashing pass. -/
def NodeFaulty (d : Device) (st : Prepared) (part : NodePart) : Prop :=
  ¬ (st.hashErr = .ok ∧ partPasses d (getNodeHash st.nodeHashes) st.header (-1) part)

/-- The same for an input contract. -/
def ContractFaulty (d : Device) (st : Prepared) (ic : InputContract) : Prop :=
  ¬ (st.hashErr = .ok ∧ ∀ c ∈ ic.v1, createPasses d .contractArgument c)

/-- The message has a fault that the hashing pass looks for. -/
def Faulty (d : Device) (st : Prepared) (buf : Bytes) : Prop :=
  match st.txState with
  | .damlNodes => ∀ part ∈ decodeNode buf, NodeFaulty d st part
  | .metadataInputContracts => ∀ ic ∈ decodeInputContract buf, ContractFaulty d st ic
  | _ => False

/-- The display pass refuses the message. -/
def DisplayRefuses (d : Device) (st : Prepared) (buf : Bytes) : Prop :=
  match st.txState with
  | .damlNodes => ∃ part ∈ decodeNode buf, displayRefusesNode d st part
  | .metadataInputContracts => ∃ ic ∈ decodeInputContract buf,
    DisplayParser.parseInputContractForDisplay d st.globals st.review st.values ic = none
  | .damlTxPart | .metadata => False

/-- The status words of a parsing error and of a hash error. -/
def IsMalformedWord (sw : Int) : Prop := sw = Sw.txParsingFail ∨ sw = Sw.txHashFail

instance (sw : Int) : Decidable (IsMalformedWord sw) := inferInstanceAs (Decidable (_ ∨ _))

/-! ## One part -/

section Step

variable {d : Device} {st : Prepared} {buf : Bytes} {parsed : Bool}

variable {lookup : Bytes → Option Bytes} {tx : DamlTransaction} {ctx ctx' : HashingParser.Ctx}

/-- What a node kind claims. -/
theorem claims_kind {k : NodeKind} (h : nodeDecodeCallback d lookup tx ctx k = some ctx') :
    (declaredChildren k = none ∧ ctx'.treeChildrenClaimed = ctx.treeChildrenClaimed ∧
      ctx'.tree = ctx.tree) ∨
    (∃ children, declaredChildren k = some children ∧ ctx'.treeChildrenClaimed = true ∧
      ctx'.tree = if ctx.treeChildrenClaimed then ctx.tree
        else treeClaimChildren ctx.tree ctx.nodeId children) := by
  -- the first list of children is claimed, later ones are not
  have hclaim (ctx : HashingParser.Ctx) (children : List Bytes) :
      (claimChildren ctx children).treeChildrenClaimed = true ∧
      (claimChildren ctx children).tree = if ctx.treeChildrenClaimed then ctx.tree
        else treeClaimChildren ctx.tree ctx.nodeId children := by
    unfold claimChildren
    split
    · rename_i hc
      exact ⟨hc, rfl⟩
    · exact ⟨rfl, rfl⟩
  cases k with
  | create c =>
    obtain ⟨-, seed, v, -, -, rfl⟩ := HashingParser.decodeCreate_eq_some.mp h
    exact .inl ⟨rfl, rfl, rfl⟩
  | fetch f =>
    obtain ⟨-, rfl⟩ := HashingParser.decodeFetch_eq_some.mp h
    exact .inl ⟨rfl, rfl, rfl⟩
  | exercise e =>
    obtain ⟨-, seed, v, -, -, rfl⟩ := HashingParser.decodeExercise_eq_some.mp h
    exact .inr ⟨e.children, rfl, hclaim _ e.children⟩
  | rollback r =>
    cases h
    exact .inr ⟨r.children, rfl, hclaim ctx r.children⟩
  | queryByKey => cases h

/-- The claims of the node kinds of an occurrence. -/
theorem claims_kinds {kinds : List NodeKind}
    (h : kinds.foldlM (nodeDecodeCallback d lookup tx) ctx = some ctx') :
    ctx'.nodeId = ctx.nodeId ∧
      ctx'.treeChildrenClaimed = (ctx.treeChildrenClaimed || !(childLists kinds).isEmpty) ∧
      ctx'.tree = if ctx.treeChildrenClaimed then ctx.tree
        else claimFirst ctx.tree ctx.nodeId (childLists kinds) := by
  induction kinds generalizing ctx with
  | nil =>
    cases h
    simp [childLists, claimFirst]
  | cons k kinds ih =>
    rw [List.foldlM_cons] at h
    obtain ⟨ctx₁, hk, h⟩ := Option.bind_eq_some_iff.mp h
    obtain ⟨hid, hclaimed, htree⟩ := ih h
    have hid₁ := nodeDecodeCallback_nodeId hk
    refine ⟨hid.trans hid₁, ?_⟩
    rw [hclaimed, htree, hid₁]
    rcases claims_kind hk with ⟨hnone, hc, ht⟩ | ⟨children, hsome, hc, ht⟩
    · have hlists : childLists (k :: kinds) = childLists kinds := by simp [childLists, hnone]
      rw [hlists, hc, ht]
      exact ⟨rfl, rfl⟩
    · have hlists : childLists (k :: kinds) = children :: childLists kinds := by
        simp [childLists, hsome]
      rw [hlists, hc, ht]
      cases ctx.treeChildrenClaimed <;> exact ⟨rfl, rfl⟩

/-- What the hashing pass leaves of the tree check. -/
theorem markPart_of_hashed {part : NodePart} (h : hashNodePart d st part = some ctx) :
    treeMarkSeen ctx.tree ctx.nodeId = markPart st.tree (-1) false part := by
  suffices hgen : ∀ (part : NodePart) (ctx₀ : HashingParser.Ctx),
      part.foldlM (decodeNodeItem d (getNodeHash st.nodeHashes) st.header) ctx₀ = some ctx →
      treeMarkSeen ctx.tree ctx.nodeId =
        markPart ctx₀.tree ctx₀.nodeId ctx₀.treeChildrenClaimed part from hgen part _ h
  clear h part
  intro part
  induction part with
  | nil =>
    intro ctx₀ h
    cases h
    rfl
  | cons item rest ih =>
    intro ctx₀ h
    rw [List.foldlM_cons] at h
    obtain ⟨ctx₁, hitem, h⟩ := Option.bind_eq_some_iff.mp h
    rw [ih ctx₁ h]
    cases item with
    | nodeId s =>
      obtain ⟨-, hctx⟩ := Option.ite_none_left_eq_some.mp hitem
      cases hctx
      rfl
    | v1 kinds =>
      obtain ⟨hid, hclaimed, htree⟩ := claims_kinds hitem
      rw [markPart, hid, hclaimed, htree]
      cases ctx₀.treeChildrenClaimed <;> rfl

/-- Whether a screen is refused does not depend on the value store. -/
theorem finishParsing_none_iff {s : DisplayParser.Ctx} (values values' : ValuesStore) :
    DisplayParser.finishParsing d values s = none ↔
      DisplayParser.finishParsing d values' s = none := by
  unfold DisplayParser.finishParsing
  split
  · rename_i fs c _ _
    cases DisplayParser.formatAndPopulate d s fs <;> simp
  · simp

theorem parseNodeForDisplay_none_iff {g : DisplayParser.Globals} {r : Review} {part : NodePart}
    (values values' : ValuesStore) : DisplayParser.parseNodeForDisplay d g r values part = none ↔
      DisplayParser.parseNodeForDisplay d g r values' part = none := by
  unfold DisplayParser.parseNodeForDisplay
  split
  · simp
  · simp only [Option.bind_eq_none_iff]
    exact forall_congr' fun s => imp_congr_right fun _ => finishParsing_none_iff values values'

theorem parseInputContractForDisplay_none_iff {g : DisplayParser.Globals} {r : Review}
    {ic : InputContract} (values values' : ValuesStore) :
    DisplayParser.parseInputContractForDisplay d g r values ic = none ↔
      DisplayParser.parseInputContractForDisplay d g r values' ic = none := by
  unfold DisplayParser.parseInputContractForDisplay
  split
  · simp
  · simp only [Option.bind_eq_none_iff]
    exact forall_congr' fun s => imp_congr_right fun _ => finishParsing_none_iff values values'

/-- The display pass refuses a hashed node part as `displayRefusesNode` says. -/
theorem displayNodePart_none_iff {part : NodePart} (h : hashNodePart d st part = some ctx) :
    displayNodePart d (st.withNode d ctx part) part = none ↔ displayRefusesNode d st part := by
  unfold displayNodePart displayRefusesNode
  rw [withNode_tree, markPart_of_hashed h, withNode_globals, withNode_review]
  cases treeCanClearSign (markPart st.tree (-1) false part) with
  | false => simp
  | true =>
    simp only [↓reduceIte, true_and, Option.map_eq_none_iff]
    exact parseNodeForDisplay_none_iff _ _

/-- A node part is refused for its faults, or by the display pass. -/
theorem receiveNode_refused_iff (part : NodePart) :
    IsMalformedWord (receiveNode d st part).2 ↔
      NodeFaulty d st part ∨ displayRefusesNode d st part := by
  have hends : Ends Ctx.hw (hashNodePart d st part) ↔ _ :=
    decodeNodePart_ends st.tree st.values st.hashErr part
  unfold NodeFaulty
  rw [← hends]
  unfold receiveNode
  cases hhash : hashNodePart d st part with
  | none =>
    -- the hashing pass stops
    exact iff_of_true (.inl rfl) (.inl not_ends_none)
  | some ctx =>
    rw [ends_some]
    have herrEq : (recordNode d st ctx).hashErr = ctx.v.hw.err := by
      unfold recordNode
      dsimp only
      split <;> rfl
    dsimp only
    -- it ends without an error, and the display pass decides, or with one
    by_cases herr : ctx.v.hw.err = .ok
    · rw [if_neg (by simpa [herrEq] using herr)]
      have hdisplay := displayNodePart_none_iff hhash
      unfold Prepared.withNode at hdisplay
      cases hshown : displayNodePart d { recordNode d st ctx with
          values :=
            HoldingParser.valuesCollectFromNode d (recordNode d st ctx).values part } part with
      | none => exact iff_of_true (.inl rfl) (.inr (hdisplay.mp hshown))
      | some shown =>
        have hzero : ¬ IsMalformedWord 0 := by decide
        refine iff_of_false hzero ?_
        rintro (hbad | hrefused)
        · exact hbad herr
        · exact absurd (hdisplay.mpr hrefused) (by simp [hshown])
    · rw [if_pos (by simpa [herrEq] using herr)]
      exact iff_of_true (.inr rfl) (.inl herr)

/-- Finalising finds no message malformed. -/
theorem finalize_not_malformed (st : Prepared) :
    ¬ IsMalformedWord (processPreparedTxFinalize d parsed st).2 := by
  cases parsed with
  | false =>
    show ¬ IsMalformedWord Sw.badState
    decide
  | true =>
    show ¬ IsMalformedWord 0
    decide

/-- An input contract is refused as malformed for its faults, or by the display pass. -/
theorem receiveInputContract_refused_iff (ic : InputContract) :
    IsMalformedWord (receiveInputContract d parsed st ic).2 ↔ ContractFaulty d st ic ∨
      DisplayParser.parseInputContractForDisplay d st.globals st.review st.values ic = none := by
  have hends := decodeInputContractPart_ends (d := d) st.values st.hashErr ic
  unfold ContractFaulty
  rw [← hends]
  unfold receiveInputContract
  cases hhash : decodeInputContractPart d st.values st.hashErr ic with
  | none => exact iff_of_true (.inl rfl) (.inl not_ends_none)
  | some v =>
    obtain ⟨v, values⟩ := v
    rw [ends_some]
    dsimp only
    -- the pass ends without an error, and the display pass decides, or with one
    by_cases herr : v.hw.err = .ok
    · rw [if_neg (by simpa using herr)]
      have hdisplay : DisplayParser.parseInputContractForDisplay d st.globals st.review values
          ic = none ↔ _ :=
        parseInputContractForDisplay_none_iff values st.values
      cases hshown : DisplayParser.parseInputContractForDisplay d st.globals st.review values
        ic with
      | none => exact iff_of_true (.inl rfl) (.inr (hdisplay.mp hshown))
      | some shown =>
        have hsound : ¬ (¬ v.hw.err = .ok ∨ DisplayParser.parseInputContractForDisplay d st.globals
            st.review st.values ic = none) := by
          rintro (hbad | hrefused)
          · exact hbad herr
          · exact absurd (hdisplay.mpr hrefused) (by simp [hshown])
        refine iff_of_false ?_ hsound
        obtain ⟨globals, review, values'⟩ := shown
        dsimp only
        split
        · exact finalize_not_malformed _
        · show ¬ IsMalformedWord 0
          decide
    · rw [if_pos (by simpa using herr)]
      exact iff_of_true (.inr rfl) (.inl herr)

/-- A message that lacks something is refused as malformed for its faults, or by the display
pass: never for what it lacks. -/
theorem processPart_refused_iff (h : lacks st buf = true) :
    IsMalformedWord (processPreparedTxPart d parsed st buf).2 ↔
      Faulty d st buf ∨ DisplayRefuses d st buf := by
  unfold lacks at h
  unfold processPreparedTxPart Faulty DisplayRefuses
  split at h
  · rename_i hstate
    obtain ⟨part, hdec, -⟩ := (Option.any_eq_true _ _).mp h
    rw [hstate, hdec]
    simpa using receiveNode_refused_iff part
  · rename_i hstate
    obtain ⟨ic, hdec, -⟩ := (Option.any_eq_true _ _).mp h
    rw [hstate, hdec]
    simpa using receiveInputContract_refused_iff ic
  · cases h

end Step

/-! ## The app -/

/-- The message is answered with a parsing error or a hash error, and the flow is closed. -/
structure RefusedMalformed (d : Device) (a : App) (e : Event) : Prop where
  answered : ∃ sw, IsMalformedWord sw ∧ (step d a e).2 = .sw sw
  closed : (step d a e).1.reqType = .confirmAddress

section App

variable {d : Device} {a : App} {e : Event} {parsed : Bool} {buf : Bytes}

theorem refusedMalformed_iff (htype : a.signingType = .preparedTransaction)
    (hheader : a.headerOverwritten = false)
    (hmsg : messageOf d a e = some (parsed, buf)) : RefusedMalformed d a e ↔
      IsMalformedWord (processPreparedTxPart d parsed a.prepared buf).2 := by
  have hnone : messageOf d a e ≠ none := by simp [hmsg]
  cases hreq : request a e with
  | next more msgEnd data =>
    rcases step_next_cases (d := d) hreq with ⟨h, -⟩ | ⟨h, -⟩ |
      ⟨hconf, parsed', raw, buf', hmsg', hstep⟩
    · -- only a complete message is processed
      exact absurd h hnone
    · exact absurd h hnone
    · obtain ⟨rfl, rfl⟩ := Prod.mk.inj (Option.some.inj (hmsg'.symm.trans hmsg))
      have hword : processMessage d (a.atMessage raw parsed') buf' = _ :=
        processMessage_atMessage htype
      rcases processAndAnswer_cases (d := d) (a.atMessage raw parsed') buf' with
        (⟨h, -⟩ | ⟨h, -⟩) | ⟨a₁, sw, h, hsw, hans⟩ | ⟨a₁, h, hparsed, hans⟩ | ⟨a₁, h, -, hans⟩
      · rw [hword] at h
        cases h
      · exact absurd (hheader.symm.trans h) Bool.false_ne_true
      · -- refused: the word of the part is the answer, and the flow is closed
        obtain ⟨-, rfl⟩ := Prod.mk.inj (Option.some.inj (hword.symm.trans h))
        rw [hans] at hstep
        constructor
        · rintro ⟨⟨sw, hmal, hsame⟩, -⟩
          rw [hstep] at hsame
          obtain rfl : _ = sw := Output.sw.inj hsame
          exact hmal
        · intro hmal
          exact ⟨⟨_, hmal, by rw [hstep]; rfl⟩, by rw [hstep]; rfl⟩
      · -- accepted as the last part: a review or a refusal, with no such word
        obtain ⟨-, hzero⟩ := Prod.mk.inj (Option.some.inj (hword.symm.trans h))
        rw [hzero]
        refine iff_of_false ?_ (by decide)
        rintro ⟨⟨sw, hmal, hsame⟩, -⟩
        rw [hstep, hans] at hsame
        have hframe := processMessage_frame h
        rcases startReview_cases (a := a₁) (by rw [hframe]; exact hconf)
          (by rw [hframe]; exact hparsed) with ⟨-, hr⟩ | ⟨-, hr⟩ | ⟨-, hr⟩
        · rw [hr] at hsame
          cases hsame
        · rw [hr] at hsame
          obtain rfl : _ = sw := Output.sw.inj hsame
          exact absurd hmal (by decide)
        · rw [hr] at hsame
          cases hsame
      · -- accepted with more to come
        obtain ⟨-, hzero⟩ := Prod.mk.inj (Option.some.inj (hword.symm.trans h))
        rw [hzero]
        refine iff_of_false ?_ (by decide)
        rintro ⟨⟨sw, hmal, hsame⟩, -⟩
        rw [hstep, hans] at hsame
        obtain rfl : _ = sw := Output.sw.inj hsame
        exact absurd hmal (by decide)
  | untouched => exact absurd (messageOf_eq_none (by simp [hreq])) hnone
  | getPublicKey data display => exact absurd (messageOf_eq_none (by simp [hreq])) hnone
  | first type data => exact absurd (messageOf_eq_none (by simp [hreq])) hnone
  | decide confirm => exact absurd (messageOf_eq_none (by simp [hreq])) hnone

/-- A node part or an input contract is no second metadata message. -/
theorem headerOverwritten_of_lacks (h : lacks a.prepared buf = true) :
    a.headerOverwritten = false := by
  have hstate : a.prep.txState ≠ .metadata := by
    intro hmetadata
    have hmetadata : a.prepared.txState = .metadata := hmetadata
    simp [lacks, hmetadata] at h
  simp [App.headerOverwritten, hstate]

/-- **A message that lacks something is refused exactly when it has another fault**, or when the
display pass refuses it. -/
theorem lacking_refused_iff (htype : a.signingType = .preparedTransaction)
    (hmsg : messageOf d a e = some (parsed, buf)) (hlacks : lacks a.prepared buf = true) :
    RefusedMalformed d a e ↔ Faulty d a.prepared buf ∨ DisplayRefuses d a.prepared buf :=
  (refusedMalformed_iff htype (headerOverwritten_of_lacks hlacks) hmsg).trans
    (processPart_refused_iff hlacks)

end App

/-! ## Runs -/

section Runs

variable {d : Device} {st st' : Prepared} {buf : Bytes} {parsed : Bool}

/-- An accepted node part is not faulty. -/
theorem NodeStep.not_faulty {part : NodePart} {ctx : HashingParser.Ctx}
    (hs : NodeStep d st buf st' part ctx) : ¬ NodeFaulty d st part :=
  fun hbad => hbad ((decodeNodePart_ends _ _ _ part).mp ⟨ctx, hs.hashed, hs.noError⟩)

/-- An accepted input contract is not faulty. -/
theorem ContractStep.not_faulty {ic : InputContract} {v : VState} {values : ValuesStore}
    {shown : DisplayParser.Globals × Review × ValuesStore}
    (hs : ContractStep d st parsed buf st' ic v values shown) : ¬ ContractFaulty d st ic :=
  fun hbad => hbad
    ((decodeInputContractPart_ends _ _ ic).mp ⟨(v, values), hs.hashed, hs.noError⟩)

/-- The condition on the messages of a flow. -/
def FaultyIfLacking (d : Device) (st : Prepared) (_parsed : Bool) (buf : Bytes) : Prop :=
  lacks st buf = true → Faulty d st buf

/-- Nothing that was received lacks anything. -/
def NothingLacks (hist : List Received) : Prop :=
  (∀ part ∈ nodesOf hist, partLacks part = false) ∧
    ∀ ic ∈ contractsOf hist, contractLacks ic = false

theorem nothingLacks_append {hist new : List Received} (h : NothingLacks hist)
    (hnew : NothingLacks new) : NothingLacks (hist ++ new) := by
  unfold NothingLacks
  rw [nodesOf_append, contractsOf_append]
  exact ⟨List.forall_mem_append.mpr ⟨h.1, hnew.1⟩, List.forall_mem_append.mpr ⟨h.2, hnew.2⟩⟩

/-- What a flow has received under the condition lacks nothing: what lacks something is
faulty, and was not accepted. -/
theorem nothingLacks_of_reach {es : List PartEvent} {hist : List Received}
    (h : (recorded d).Reach (fun s e => onParts (FaultyIfLacking d) s.1 e) es (st, hist)) :
    NothingLacks hist := by
  refine recorded_invariant (P := fun _ hist => NothingLacks hist) h (fun _ _ => ⟨nofun, nofun⟩) ?_
  intro st hist e st' new hinv hok hstep
  refine nothingLacks_append hinv ?_
  cases hstep with
  | header _ => exact ⟨nofun, nofun⟩
  | metadata _ => exact ⟨nofun, nofun⟩
  | rows => exact ⟨nofun, nofun⟩
  | @node parsed buf st' part ctx hs =>
    have hcond : FaultyIfLacking d st parsed buf := hok
    have hpart : partLacks part = false := by
      rw [← Bool.not_eq_true]
      intro hlacks
      have hfaulty := hcond (by simp [lacks, hs.state, hs.decoded, hlacks])
      unfold Faulty at hfaulty
      rw [hs.state] at hfaulty
      exact hs.not_faulty (hfaulty part hs.decoded)
    exact ⟨fun p hp => by rwa [List.mem_singleton.mp hp], nofun⟩
  | @contract parsed buf st' ic v values shown hs =>
    have hcond : FaultyIfLacking d st parsed buf := hok
    have hcontract : contractLacks ic = false := by
      rw [← Bool.not_eq_true]
      intro hlacks
      have hfaulty := hcond (by simp [lacks, hs.state, hs.decoded, hlacks])
      unfold Faulty at hfaulty
      rw [hs.state] at hfaulty
      exact hs.not_faulty (hfaulty ic hs.decoded)
    exact ⟨nofun, fun c hc => by rwa [List.mem_singleton.mp hc]⟩

/-- **Missing parts**: in every run in which each message that lacks something has a fault that
the hashing pass looks for, such a message is refused as malformed, which closes its flow, and
nothing that led to a review lacks anything. -/
theorem missing_refused (d : Device) {es : List Event} {a : App} {log : List PartEvent} {e : Event}
    (h : (loggedApp d).Reach (onMessages d fun st _ parsed buf => FaultyIfLacking d st parsed buf)
      es (a, log))
    (hok : onMessages d (fun st _ parsed buf => FaultyIfLacking d st parsed buf) (a, log) e)
    (htype : a.signingType = .preparedTransaction) :
    (∀ parsed buf, messageOf d a e = some (parsed, buf) → lacks a.prepared buf = true →
      RefusedMalformed d a e) ∧
    (∀ s, (step d a e).2 = .shown s → s.isReview = true →
      ∃ buf st hist, messageOf d a e = some (true, buf) ∧
        (recorded d).Reach (fun _ _ => True) (log ++ [.part true buf]) (st, hist) ∧
        NothingLacks hist) := by
  refine ⟨fun parsed buf hmsg hlacks => ?_, fun s hshown hrev => ?_⟩
  · exact (lacking_refused_iff htype hmsg hlacks).mpr (.inl (hok htype parsed buf hmsg hlacks))
  obtain ⟨hconf, raw, buf, st', hmsg, hacc, -⟩ := accepted_of_review htype hshown hrev
  obtain ⟨hist, hreach⟩ := recorded_of_loggedApp h ⟨hconf, htype⟩
  have hlast : (recorded d).step (a.prepared, hist) (.part true buf) =
      some (st', nextHistory a.prepared hist (.part true buf)) := by
    simp [recorded, receiving, hacc]
  have hcond : onParts (FaultyIfLacking d) a.prepared (.part true buf) := hok htype _ _ hmsg
  have hreach' := Machine.Reach.step hreach hcond hlast
  exact ⟨buf, st', _, hmsg, hreach'.mono fun _ _ _ => trivial, nothingLacks_of_reach hreach'⟩

end Runs

/-! ## Flows with one node -/

/-- The messages of a transaction whose only node is `part`, before the metadata. -/
def oneNodeMessages (part : NodePart) : List Bytes := [Host.headerOf ["0"] 1 [0], Host.node part]

/-- An id that does not fit the parser's buffer. -/
def NodeItem.longId : NodeItem → Bool
  | .nodeId s => decide (4 ≤ s.length)
  | .v1 _ => false

theorem not_passes_of_longId {d : Device} {lookup : Bytes → Option Bytes} {tx : DamlTransaction}
    {part : NodePart} (h : part.any NodeItem.longId = true) (nodeId : Int) :
    ¬ partPasses d lookup tx nodeId part := by
  induction part generalizing nodeId with
  | nil => cases h
  | cons item rest ih =>
    intro hpass
    rw [List.any_cons, Bool.or_eq_true] at h
    cases item with
    | nodeId s =>
      rcases h with h | h
      · exact absurd hpass.1 (Nat.not_lt.mpr (of_decide_eq_true h))
      · exact ih h _ hpass.2
    | v1 kinds =>
      rcases h with h | h
      · cases h
      · exact ih h _ hpass.2

/-- The condition, where what lacks something is a node part with an id that is too long. -/
def longIdIfLacking (d : Device) (s : App × List PartEvent) (e : Event) : Bool :=
  (messageOf d s.1 e).all fun (_, buf) => !lacks s.1.prepared buf ||
    (decide (s.1.prepared.txState = .damlNodes) &&
      (decodeNode buf).all fun part => part.any NodeItem.longId)

theorem onMessages_of_longId {d : Device} (s : App × List PartEvent) (e : Event)
    (h : longIdIfLacking d s e = true) :
    onMessages d (fun st _ parsed buf => FaultyIfLacking d st parsed buf) s e := by
  intro _ parsed buf hmsg hlacks
  simp only [longIdIfLacking, hmsg, Option.all_some, hlacks, Bool.not_true, Bool.false_or,
    Bool.and_eq_true, decide_eq_true_eq] at h
  unfold Faulty
  rw [h.1]
  intro part hpart hpass
  rw [hpart] at h
  exact not_passes_of_longId h.2 _ hpass.2

/-- A part with the root's id and one node. -/
def rootPart (kind : NodeKind) : NodePart := [.nodeId (str "0"), .v1 [kind]]

/-- A create node with these arguments. -/
def createWith (argument : List Value) : NodePart :=
  rootPart (.create { Host.createOf "00" (Host.ident "M" "T") .nil with argument := argument })

/-- A flow whose node lacks its kind and has an id that is too long, and then one that lacks
nothing. -/
def lackingThenWhole : List Event :=
  preparedFlow (oneNodeMessages [.nodeId (str "1000")]) ++
    preparedFlow (oneNodeMessages (createWith [.unit .nil]))

theorem missing_refused_unit : ∃ a log s,
    (loggedApp testDevice).Reach
      (onMessages testDevice fun st _ parsed buf => FaultyIfLacking testDevice st parsed buf)
      lackingThenWhole (a, log) ∧
      (step testDevice a lastMetadata).2 = .shown s ∧
      ∃ buf st hist, messageOf testDevice a lastMetadata = some (true, buf) ∧
        (recorded testDevice).Reach (fun _ _ => True) (log ++ [.part true buf]) (st, hist) ∧
        NothingLacks hist := by
  have h₀ : (loggedApp testDevice).init (App.powerUp true, []) := ⟨true, rfl⟩
  have hrun : ((loggedApp testDevice).run (longIdIfLacking testDevice) (App.powerUp true, [])
      lackingThenWhole).any (fun s => longIdIfLacking testDevice s lastMetadata &&
        decide (s.1.signingType = .preparedTransaction) &&
        (step testDevice s.1 lastMetadata).2.screen.any Screen.isReview) = true := by
    decide +kernel
  obtain ⟨⟨a, log⟩, hreach, hp⟩ := Machine.exists_reach_of_run h₀ hrun
  simp only [Bool.and_eq_true, decide_eq_true_eq] at hp
  obtain ⟨⟨hok, htype⟩, hshown⟩ := hp
  have hreach' := hreach.mono fun s e h => onMessages_of_longId s e h
  obtain ⟨s, hs, hrev⟩ := Output.exists_shown hshown
  exact ⟨a, log, s, hreach', hs, (missing_refused testDevice hreach'
    (onMessages_of_longId _ _ hok) htype).2 s hs hrev⟩

/-- Node parts that lack something: the node kind, the argument, its alternative, or a value
at one of the places inside it. -/
def lackingParts : List NodePart := [
  [.nodeId (str "0")],
  createWith [],
  createWith [.nil],
  createWith [.optional (.cons .nil .nil) .nil],
  createWith [.list (.cons .nil .nil) .nil],
  createWith [.record (.field (.name (str "l") .nil) .nil) .nil],
  createWith [.textMap (.entry (.name (str "k") .nil) .nil) .nil],
  createWith [.genMap (.entry (.key (.unit .nil) .nil) .nil) .nil],
  createWith [.genMap (.entry (.value (.unit .nil) .nil) .nil) .nil],
  createWith [.variant (.constructor (str "C") .nil) .nil],
  rootPart (.exercise { Host.exerciseOf "00" (Host.ident "M" "T") "C" .nil [] with
    chosenValue := [] })]

/-- Input contracts that lack the contract, or its argument. -/
def lackingContracts : List InputContract := [
  ⟨[], 0⟩, ⟨[{ Host.createOf "00" (Host.ident "M" "T") .nil with argument := [] }], 0⟩]

/-- A run after which `e` is reviewed, with these messages before it. -/
def reviewedAfter (es : List Event) (bufs : List Bytes) (e : Event) : Prop := ∃ a log,
  (loggedApp testDevice).Reach (fun _ _ => True) es (a, log) ∧
    a.signingType = .preparedTransaction ∧ partBuffers log = bufs ∧
    (match (step testDevice a e).2 with
      | .shown s => s.isReview
      | _ => false) = true

/-- `reviewedAfter`, computed. -/
def reviewedRun (es : List Event) (bufs : List Bytes) (e : Event) : Bool :=
  ((loggedApp testDevice).run (fun _ _ => true) (App.powerUp true, []) es).any fun s =>
    decide (s.1.signingType = .preparedTransaction) && decide (partBuffers s.2 = bufs) &&
    match (step testDevice s.1 e).2 with
    | .shown s => s.isReview
    | _ => false

theorem reviewedAfter_of_run {es : List Event} {bufs : List Bytes} {e : Event}
    (h : reviewedRun es bufs e = true) : reviewedAfter es bufs e := by
  obtain ⟨a, log, hreach, hp⟩ := exists_reach_loggedApp testDevice es _ h
  simp only [Bool.and_eq_true, decide_eq_true_eq] at hp
  exact ⟨a, log, hreach, hp.1.1, hp.1.2, hp.2⟩

/-- The messages before an input contract that is announced. -/
def oneContractMessages : List Bytes :=
  oneNodeMessages (createWith [.unit .nil]) ++ [Host.metadataOf 1]

/-- **Each of them is accepted and reviewed**: none of the passes misses what is not there. -/
theorem lackingParts_reviewed :
    (∀ part ∈ lackingParts, partLacks part = true ∧
      reviewedAfter (preparedFlow (oneNodeMessages part)) (oneNodeMessages part) lastMetadata) ∧
    ∀ ic ∈ lackingContracts, contractLacks ic = true ∧
      reviewedAfter (preparedFlow oneContractMessages) oneContractMessages
        (lastPart (Host.inputContract ic)) := by
  have hparts : ∀ part ∈ lackingParts, partLacks part = true ∧
      reviewedRun (preparedFlow (oneNodeMessages part)) (oneNodeMessages part) lastMetadata =
        true := by decide +kernel
  have hcontracts : ∀ ic ∈ lackingContracts, contractLacks ic = true ∧
      reviewedRun (preparedFlow oneContractMessages) oneContractMessages
        (lastPart (Host.inputContract ic)) = true := by decide +kernel
  constructor
  · exact fun part hpart =>
      ⟨(hparts part hpart).1, reviewedAfter_of_run (hparts part hpart).2⟩
  · exact fun ic hic =>
      ⟨(hcontracts ic hic).1, reviewedAfter_of_run (hcontracts ic hic).2⟩

end CantonSigner
