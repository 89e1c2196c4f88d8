import CantonSigner.Hash.ValueChecks

/-!
# What the hashing pass checks

The hashing pass turns a node part or an input contract down for what it finds in it: an
incomplete struct, a missing seed, a child whose hash is not stored, a value that cannot be
hashed. The predicates below read these checks off the message itself, and
`decodeNodePart_ends` and `decodeInputContractPart_ends` say that there are no others.

What a callback would have written of a part that is absent is not among them.
-/

namespace CantonSigner

open ByteCodec

namespace HashingParser

/-! ## Nodes -/

section Nodes

variable (d : Device)

/-- The checks on the values of a callback field of a node. -/
def fieldPasses (field : Frame) (vs : List Value) : Prop :=
  ∀ v ∈ vs, valuePasses d [field] v = true ∧ primPasses (v.which .none) = true

theorem fieldPasses_nil {field : Frame} : fieldPasses d field [] :=
  List.forall_mem_nil _

/-- The checks on a create, but for its seed. -/
def createPasses (field : Frame) (c : Create) : Prop :=
  createIsComplete c = true ∧ (∀ id ∈ c.contractId, evenHex id = true) ∧
    fieldPasses d field c.argument

/-- The checks on an exercise node, but for its seed. -/
def exercisePasses (lookup : Bytes → Option Bytes) (e : Exercise) : Prop :=
  exerciseIsComplete e = true ∧ optionalInterfaceIsComplete e.interfaceId = true ∧
    (∀ id ∈ e.contractId, evenHex id = true) ∧ fieldPasses d .chosenValue e.chosenValue ∧
    fieldPasses d .exerciseResult e.exerciseResult ∧ childrenKnown lookup e.children = true

/-- The checks on a fetch node. -/
def fetchPasses (f : Fetch) : Prop :=
  fetchIsComplete f = true ∧ optionalInterfaceIsComplete f.interfaceId = true ∧
    ∀ id ∈ f.contractId, evenHex id = true

/-- The checks on a node kind of a part, after the id `nodeId`. An exercise needs the seed that
a create may go without. -/
def kindPasses (lookup : Bytes → Option Bytes) (tx : DamlTransaction) (nodeId : Int) :
    NodeKind → Prop
  | .create c => createPasses d .createArgument c ∧ (findSeed tx nodeId).isSome = true
  | .exercise e => exercisePasses d lookup e ∧ (findSeed tx nodeId).join.isSome = true
  | .fetch f => fetchPasses f
  | .rollback r => childrenKnown lookup r.children = true
  | .queryByKey => False

/-- The checks on a node part whose ids so far end with `nodeId`. -/
def partPasses (lookup : Bytes → Option Bytes) (tx : DamlTransaction) : Int → NodePart → Prop
  | _, [] => True
  | _, .nodeId s :: rest => s.length < 4 ∧ partPasses lookup tx (atoint (cstr s)) rest
  | nodeId, .v1 kinds :: rest =>
    (∀ k ∈ kinds, kindPasses d lookup tx nodeId k) ∧ partPasses lookup tx nodeId rest

variable {d}

theorem decodeValueFields_ends (field : Frame) (s : VState) (vs : List Value) :
    Ends VState.hw (decodeValueFields d field s vs) ↔
      s.hw.err = .ok ∧ fieldPasses d field vs := by
  refine ends_foldlM (fun s v => ?_) vs s
  have hlast (s : VState) : Ends VState.hw (some (s.enc fun w => putPrimitive w (v.which .none))) ↔
      s.hw.err = .ok ∧ primPasses (v.which .none) = true := by
    rw [ends_some, enc_ok_iff (encodesIf_putPrimitive _)]
  rw [decodeValueField, ends_bind hlast, hashValue_ends, and_assoc]

theorem encodesIf_contractId {id : Option Bytes} (h : id.isSome = true) :
    EncodesIf (∀ s ∈ id, evenHex s = true) fun w => encodeHexString w id := by
  obtain ⟨s, rfl⟩ := Option.isSome_iff_exists.mp h
  exact (encodesIf_encodeHexString s).congr (by simp)

theorem encodesIf_present {s : Option Bytes} (h : s.isSome = true) :
    EncodesIf True fun w => encodeString w s :=
  (encodesIf_encodeString s).congr (iff_true_intro h)

theorem encodesIf_templateId {id : Option Identifier} (h : requireIdentifier id = true) :
    EncodesIf True fun w => encodeIdentifier w (id.getD .zero) := by
  cases id with
  | none => cases h
  | some id => exact (encodesIf_encodeIdentifier id).congr (iff_true_intro h)

theorem encodesIf_seed (seed : Option Bytes) :
    EncodesIf True fun w => encodeOptional w (fun w h => encodeHash w (some h)) seed := by
  cases seed with
  | none => exact encodesIf_put _
  | some h => exact ((encodesIf_put _).after (encodesIf_put _)).congr and_self_iff

/-- A complete create is hashed without error exactly when it passes the other checks. -/
theorem hashCreate_ends (field : Frame) {c : Create} (hc : createIsComplete c = true)
    (seed : Option Bytes) (s : VState) :
    Ends VState.hw (hashCreate d field s c seed) ↔
      s.hw.err = .ok ∧ createPasses d field c := by
  obtain ⟨⟨⟨hversion, hid⟩, hpackage⟩, htemplate⟩ : ((c.lfVersion.isSome = true ∧
      c.contractId.isSome = true) ∧ c.packageName.isSome = true) ∧
      requireIdentifier c.templateId = true := by
    simpa [createIsComplete] using hc
  have hstart : EncodesIf (∀ id ∈ c.contractId, evenHex id = true)
      fun w => encodeCreateStart w c seed := by
    refine EncodesIf.congr ((((((encodesIf_put [nodeEncodingVersion]).after
      (encodesIf_present hversion)).after (encodesIf_put [0x00])).after (encodesIf_seed seed)).after
      (encodesIf_contractId hid)).after (encodesIf_present hpackage) |>.after
      (encodesIf_templateId htemplate)) ?_
    simp
  have hlists : EncodesIf True fun w => encodeCreateEnd w c :=
    ((encodesIf_strings c.signatories).after (encodesIf_strings c.stakeholders)).congr and_self_iff
  have hend (s : VState) : Ends VState.hw (some (s.enc fun w => encodeCreateEnd w c)) ↔
      s.hw.err = .ok ∧ True := by
    rw [ends_some, enc_ok_iff hlists]
  rw [hashCreate, ends_bind hend, decodeValueFields_ends, enc_ok_iff hstart]
  simp only [createPasses, hc, true_and, and_true, and_assoc]

/-- A complete exercise with a seed is hashed without error exactly when it passes the other
checks. -/
theorem hashExercise_ends {lookup : Bytes → Option Bytes} {e : Exercise}
    (he : exerciseIsComplete e = true)
    (hinterface : optionalInterfaceIsComplete e.interfaceId = true) (seed : Bytes) (s : VState) :
    Ends VState.hw (hashExercise d lookup s e seed) ↔
      s.hw.err = .ok ∧ exercisePasses d lookup e := by
  obtain ⟨⟨⟨⟨hversion, hid⟩, hpackage⟩, hchoice⟩, htemplate⟩ : (((e.lfVersion.isSome = true ∧
      e.contractId.isSome = true) ∧ e.packageName.isSome = true) ∧ e.choiceId.isSome = true) ∧
      requireIdentifier e.templateId = true := by
    simpa [exerciseIsComplete] using he
  have hstart : EncodesIf (∀ id ∈ e.contractId, evenHex id = true)
      fun w => encodeExerciseStart w e (some seed) := by
    refine EncodesIf.congr ((((((((((encodesIf_put [nodeEncodingVersion]).after
      (encodesIf_present hversion)).after (encodesIf_put [0x01])).after (encodesIf_put seed)).after
      (encodesIf_contractId hid)).after (encodesIf_present hpackage)).after
      (encodesIf_templateId htemplate)).after (encodesIf_strings e.signatories)).after
      (encodesIf_strings e.stakeholders)).after (encodesIf_strings e.actingParties) |>.after
      ((encodesIf_optionalIdentifier e.interfaceId).after (encodesIf_present hchoice))) ?_
    simp [hinterface]
  have hmiddle : EncodesIf True fun w => (encodeExerciseMiddle w e).put [0x01] :=
    ((encodesIf_put _).after (encodesIf_put _)).congr and_self_iff
  have hlists : EncodesIf (childrenKnown lookup e.children = true)
      fun w => encodeExerciseEnd lookup w e :=
    ((encodesIf_strings e.choiceObservers).after (encodesIf_encodeChildren lookup e.children)).congr
      (and_iff_right trivial)
  have hend (s : VState) : Ends VState.hw (some (s.enc fun w => encodeExerciseEnd lookup w e)) ↔
      s.hw.err = .ok ∧ childrenKnown lookup e.children = true := by
    rw [ends_some, enc_ok_iff hlists]
  have hresult (s : VState) : Ends VState.hw (do
      let s ← decodeValueFields d .exerciseResult
        (s.enc fun w => (encodeExerciseMiddle w e).put [0x01]) e.exerciseResult
      some (s.enc fun w => encodeExerciseEnd lookup w e)) ↔
      s.hw.err = .ok ∧ fieldPasses d .exerciseResult e.exerciseResult ∧
        childrenKnown lookup e.children = true := by
    rw [ends_bind hend, decodeValueFields_ends, enc_ok_iff hmiddle, and_true, and_assoc]
  rw [hashExercise, ends_bind hresult, decodeValueFields_ends, enc_ok_iff hstart]
  simp only [exercisePasses, he, hinterface, true_and, and_assoc]

/-- What an error-free pass over a node leaves. -/
abbrev Ctx.hw (ctx : Ctx) : Hw := ctx.v.hw

variable {lookup : Bytes → Option Bytes} {tx : DamlTransaction}

theorem decodeCreate_ends (c : Create) (ctx : Ctx) :
    Ends Ctx.hw (decodeCreate d tx ctx c) ↔
      ctx.hw.err = .ok ∧ createPasses d .createArgument c ∧
        (findSeed tx ctx.nodeId).isSome = true := by
  unfold decodeCreate
  cases hc : createIsComplete c with
  | false => simp [createPasses, hc]
  | true =>
    simp only [Bool.not_true, Bool.false_eq_true, ↓reduceIte]
    cases hseed : findSeed tx ctx.nodeId with
    | none => simp
    | some seed =>
      have hrecord (v : VState) : Ends Ctx.hw (some { ctx with
          v := v, values := valuesRecordUsedContract d ctx.values c.contractId }) ↔
          v.hw.err = .ok ∧ True := by simp
      show Ends Ctx.hw (hashCreate d .createArgument ctx.v c seed >>= fun v => some { ctx with
        v := v, values := valuesRecordUsedContract d ctx.values c.contractId }) ↔ _
      rw [ends_bind hrecord, hashCreate_ends _ hc]
      simp

theorem decodeExercise_ends (e : Exercise) (ctx : Ctx) :
    Ends Ctx.hw (decodeExercise d lookup tx ctx e) ↔
      ctx.hw.err = .ok ∧ exercisePasses d lookup e ∧
        (findSeed tx ctx.nodeId).join.isSome = true := by
  unfold decodeExercise
  split
  · rename_i hincomplete
    refine iff_of_false not_ends_none fun h => ?_
    rw [Bool.or_eq_true, Bool.not_eq_true', Bool.not_eq_true'] at hincomplete
    rcases hincomplete with he | hi
    · exact absurd (he.symm.trans h.2.1.1) (by decide)
    · exact absurd (hi.symm.trans h.2.1.2.1) (by decide)
  · rename_i hcomplete
    simp only [Bool.or_eq_true, Bool.not_eq_true', not_or, Bool.not_eq_false] at hcomplete
    obtain ⟨hid, -, hv⟩ := claimChildren_frame
      { ctx with values := valuesRecordUsedContract d ctx.values e.contractId } e.children
    dsimp only
    rw [hid, hv]
    cases hseed : findSeed tx ctx.nodeId with
    | none => simp
    | some seed =>
      cases seed with
      | none => simp
      | some seed =>
        dsimp only
        rw [ends_map (fun _ => rfl), hashExercise_ends hcomplete.1 hcomplete.2]
        simp

theorem decodeFetch_ends (f : Fetch) (ctx : Ctx) :
    Ends Ctx.hw (decodeFetch d ctx f) ↔ ctx.hw.err = .ok ∧ fetchPasses f := by
  unfold decodeFetch
  split
  · rename_i hincomplete
    refine iff_of_false not_ends_none fun h => ?_
    rw [Bool.or_eq_true, Bool.not_eq_true', Bool.not_eq_true'] at hincomplete
    rcases hincomplete with hf | hi
    · exact absurd (hf.symm.trans h.2.1) (by decide)
    · exact absurd (hi.symm.trans h.2.2.1) (by decide)
  · rename_i hcomplete
    simp only [Bool.or_eq_true, Bool.not_eq_true', not_or, Bool.not_eq_false] at hcomplete
    obtain ⟨⟨⟨hversion, hid⟩, hpackage⟩, htemplate⟩ : ((f.lfVersion.isSome = true ∧
        f.contractId.isSome = true) ∧ f.packageName.isSome = true) ∧
        requireIdentifier f.templateId = true := by
      simpa [fetchIsComplete] using hcomplete.1
    have hfetch : EncodesIf (∀ id ∈ f.contractId, evenHex id = true) fun w => encodeFetch w f := by
      refine EncodesIf.congr ((((((((encodesIf_put [nodeEncodingVersion]).after
        (encodesIf_present hversion)).after (encodesIf_put [0x02])).after
        (encodesIf_contractId hid)).after (encodesIf_present hpackage)).after
        (encodesIf_templateId htemplate)).after (encodesIf_strings f.signatories)).after
        (encodesIf_strings f.stakeholders) |>.after
        ((encodesIf_optionalIdentifier f.interfaceId).after (encodesIf_strings f.actingParties))) ?_
      simp [hcomplete.2]
    rw [ends_some, fetchPasses, and_iff_right hcomplete.1, and_iff_right hcomplete.2]
    exact hfetch ctx.v.hw

theorem decodeRollback_ends (r : Rollback) (ctx : Ctx) :
    Ends Ctx.hw (some (decodeRollback lookup ctx r)) ↔
      ctx.hw.err = .ok ∧ childrenKnown lookup r.children = true := by
  have hrollback : EncodesIf (childrenKnown lookup r.children = true)
      fun w => encodeRollback lookup w r :=
    ((encodesIf_put _).after (encodesIf_encodeChildren lookup r.children)).congr
      (and_iff_right trivial)
  obtain ⟨-, -, hv⟩ := claimChildren_frame ctx r.children
  rw [ends_some]
  simp only [decodeRollback, hv]
  exact hrollback ctx.v.hw

theorem nodeDecodeCallback_ends (k : NodeKind) (ctx : Ctx) :
    Ends Ctx.hw (nodeDecodeCallback d lookup tx ctx k) ↔
      ctx.hw.err = .ok ∧ kindPasses d lookup tx ctx.nodeId k := by
  cases k with
  | create c => exact decodeCreate_ends c ctx
  | fetch f => exact decodeFetch_ends f ctx
  | exercise e => exact decodeExercise_ends e ctx
  | rollback r => exact decodeRollback_ends r ctx
  | queryByKey => simp [nodeDecodeCallback, kindPasses]

/-- A node kind leaves the id of the part alone. -/
theorem nodeDecodeCallback_nodeId {k : NodeKind} {ctx ctx' : Ctx}
    (h : nodeDecodeCallback d lookup tx ctx k = some ctx') : ctx'.nodeId = ctx.nodeId := by
  cases k with
  | create c =>
    obtain ⟨-, h⟩ := Option.ite_none_left_eq_some.mp h
    obtain ⟨seed, -, h⟩ := Option.bind_eq_some_iff.mp h
    obtain ⟨v, -, heq⟩ := Option.bind_eq_some_iff.mp h
    cases heq
    rfl
  | exercise e =>
    obtain ⟨-, h⟩ := Option.ite_none_left_eq_some.mp h
    split at h
    · cases h
    · cases h
    · obtain ⟨v, -, rfl⟩ := Option.map_eq_some_iff.mp h
      exact (claimChildren_frame _ _).1
  | fetch f =>
    obtain ⟨-, h⟩ := Option.ite_none_left_eq_some.mp h
    cases h
    rfl
  | rollback r =>
    cases h
    exact (claimChildren_frame ctx r.children).1
  | queryByKey => cases h

theorem nodeKinds_ends (kinds : List NodeKind) (ctx : Ctx) :
    Ends Ctx.hw (kinds.foldlM (nodeDecodeCallback d lookup tx) ctx) ↔
      ctx.hw.err = .ok ∧ ∀ k ∈ kinds, kindPasses d lookup tx ctx.nodeId k := by
  induction kinds generalizing ctx with
  | nil => simp [List.foldlM]
  | cons k kinds ih =>
    rw [List.foldlM_cons, List.forall_mem_cons]
    have hk : Ends Ctx.hw (nodeDecodeCallback d lookup tx ctx k) ↔ _ :=
      nodeDecodeCallback_ends k ctx
    cases hstep : nodeDecodeCallback d lookup tx ctx k with
    | none =>
      rw [hstep] at hk
      refine iff_of_false not_ends_none fun h => ?_
      exact not_ends_none (hk.mpr ⟨h.1, h.2.1⟩)
    | some ctx₁ =>
      rw [hstep, ends_some] at hk
      show Ends Ctx.hw (kinds.foldlM (nodeDecodeCallback d lookup tx) ctx₁) ↔ _
      rw [ih, hk, nodeDecodeCallback_nodeId hstep, and_assoc]

/-- **A node part is hashed without error exactly when it passes the checks.** -/
theorem decodeNodePart_ends (tree : TreeCheck) (values : ValuesStore) (err : HashError)
    (part : NodePart) : Ends Ctx.hw (decodeNodePart d lookup tx tree values err part) ↔
      err = .ok ∧ partPasses d lookup tx (-1) part := by
  -- the id that the checks ask for is the one read so far, so it varies in the induction
  suffices hgen : ∀ (part : NodePart) (ctx : Ctx),
      Ends Ctx.hw (part.foldlM (decodeNodeItem d lookup tx) ctx) ↔
        ctx.hw.err = .ok ∧ partPasses d lookup tx ctx.nodeId part from hgen part _
  clear part
  intro part
  induction part with
  | nil => simp [List.foldlM, partPasses]
  | cons item rest ih =>
    intro ctx
    rw [List.foldlM_cons]
    cases item with
    -- an id sets the number under which the next node is checked
    | nodeId s =>
      by_cases hlong : 4 ≤ s.length
      · simp [decodeNodeItem, decodeNodeIdField, partPasses, hlong, Nat.not_lt.mpr hlong]
      · show Ends Ctx.hw ((if 4 ≤ s.length then none else some _) >>= _) ↔ _
        rw [if_neg hlong]
        show Ends Ctx.hw (rest.foldlM (decodeNodeItem d lookup tx) _) ↔ _
        rw [ih]
        simp [partPasses, Nat.lt_of_not_le hlong]
    -- a node is checked and leaves the id alone
    | v1 kinds =>
      have hk : Ends Ctx.hw (kinds.foldlM (nodeDecodeCallback d lookup tx) ctx) ↔ _ :=
        nodeKinds_ends kinds ctx
      show Ends Ctx.hw (kinds.foldlM (nodeDecodeCallback d lookup tx) ctx >>= _) ↔ _
      cases hstep : kinds.foldlM (nodeDecodeCallback d lookup tx) ctx with
      | none =>
        rw [hstep] at hk
        refine iff_of_false not_ends_none fun h => ?_
        exact not_ends_none (hk.mpr ⟨h.1, h.2.1⟩)
      | some ctx₁ =>
        have hid : ctx₁.nodeId = ctx.nodeId :=
          List.foldlM_invariant (P := fun c : Ctx => c.nodeId = ctx.nodeId) kinds
            (fun _ _ _ _ hs h => (nodeDecodeCallback_nodeId h).trans hs) rfl hstep
        rw [hstep, ends_some] at hk
        show Ends Ctx.hw (rest.foldlM (decodeNodeItem d lookup tx) ctx₁) ↔ _
        rw [ih, hk, hid, partPasses, and_assoc]

/-- **An input contract is hashed without error exactly when it passes the checks.** -/
theorem decodeInputContractPart_ends (values : ValuesStore) (err : HashError)
    (ic : InputContract) : Ends (fun s : VState × ValuesStore => s.1.hw)
      (decodeInputContractPart d values err ic) ↔
        err = .ok ∧ ∀ c ∈ ic.v1, createPasses d .contractArgument c := by
  have hstep (s : VState × ValuesStore) (c : Create) :
      Ends (fun s : VState × ValuesStore => s.1.hw) (decodeContract d s c) ↔
        s.1.hw.err = .ok ∧ createPasses d .contractArgument c := by
    unfold decodeContract
    cases hc : createIsComplete c with
    | false => simp [createPasses, hc]
    | true =>
      simp only [Bool.not_true, Bool.false_eq_true, ↓reduceIte]
      rw [ends_map (fun _ => rfl), hashCreate_ends _ hc]
  exact ends_foldlM hstep ic.v1 _

end Nodes

end HashingParser

end CantonSigner
