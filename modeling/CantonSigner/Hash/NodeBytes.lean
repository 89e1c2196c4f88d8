import CantonSigner.Hash.Hex

/-!
# What the hashing pass writes for a node

A `NodeVal` is a node in which everything is there once, over a type of values: its plain
fields, its seed, its values and the hashes of its children. `NodeVal.kind` gives the
message. `nodeBytes` is the encoding of a node, by the encodings of its values and of an
optional exercise result, and `hash_nodeVal` says that the hashing pass writes it, with the
presence byte 01 whether or not there is a result.
-/

namespace CantonSigner

open ByteCodec HashingParser

/-! ## Nodes with every part in place -/

/-- The fields that create, exercise and fetch nodes share. -/
structure NodeFields where
  lfVersion : Bytes
  contractId : Bytes
  packageName : Bytes
  templateId : Identifier
  signatories : List Bytes
  stakeholders : List Bytes
deriving Repr, DecidableEq

/-- The plain fields of an exercise node. -/
structure ExerciseFields where
  actingParties : List Bytes
  interfaceId : Option Identifier
  choiceId : Bytes
  consuming : Bool
  choiceObservers : List Bytes
deriving Repr, DecidableEq

/-- A node over values of a type, with the hashes of its children. -/
inductive NodeVal (V : Type) where
  | create (f : NodeFields) (seed : Option Bytes) (argument : V)
  | exercise (f : NodeFields) (e : ExerciseFields) (seed : Bytes) (chosenValue : V)
      (result : Option V) (children : List Bytes)
  | fetch (f : NodeFields) (actingParties : List Bytes) (interfaceId : Option Identifier)
  | rollback (children : List Bytes)

/-- The create message of a contract, in a node or disclosed. -/
def createMsg {V : Type} (msg : V → Value) (f : NodeFields) (argument : V) : Create :=
  { lfVersion := some f.lfVersion, contractId := some f.contractId
    packageName := some f.packageName, templateId := some f.templateId
    argument := [msg argument], argumentIsMessage := true
    signatories := f.signatories, stakeholders := f.stakeholders }

/-- The message of an exercise node whose children have these ids. -/
def exerciseMsg {V : Type} (msg : V → Value) (f : NodeFields) (e : ExerciseFields)
    (chosenValue : V) (result : Option V) (ids : List Bytes) : Exercise :=
  { lfVersion := some f.lfVersion, contractId := some f.contractId
    packageName := some f.packageName, templateId := some f.templateId
    signatories := f.signatories, stakeholders := f.stakeholders
    actingParties := e.actingParties, interfaceId := e.interfaceId
    choiceId := some e.choiceId, chosenValue := [msg chosenValue], chosenValueIsMessage := true
    consuming := e.consuming, children := ids, exerciseResult := (result.map msg).toList
    choiceObservers := e.choiceObservers }

namespace NodeVal

variable {V : Type}

/-- The hashes of the children. -/
def children : NodeVal V → List Bytes
  | .exercise _ _ _ _ _ children | .rollback children => children
  | .create .. | .fetch .. => []

/-- The values. -/
def vals : NodeVal V → List V
  | .create _ _ argument => [argument]
  | .exercise _ _ _ chosenValue result _ => chosenValue :: result.toList
  | .fetch .. | .rollback _ => []

/-- The seed. -/
def seed : NodeVal V → Option Bytes
  | .create _ seed _ => seed
  | .exercise _ _ seed _ _ _ => some seed
  | .fetch .. | .rollback _ => none

/-- The shared fields. -/
def fields : NodeVal V → Option NodeFields
  | .create f _ _ | .exercise f .. | .fetch f .. => some f
  | .rollback _ => none

/-- The interface of an exercise or a fetch. -/
def interfaceId : NodeVal V → Option Identifier
  | .exercise _ e .. => e.interfaceId
  | .fetch _ _ id => id
  | .create .. | .rollback _ => none

/-- The node as a message whose children have these ids. -/
def kind (msg : V → Value) (ids : List Bytes) : NodeVal V → NodeKind
  | .create f _ argument => .create (createMsg msg f argument)
  | .exercise f e _ chosenValue result _ => .exercise (exerciseMsg msg f e chosenValue result ids)
  | .fetch f actingParties interfaceId => .fetch
    { lfVersion := some f.lfVersion, contractId := some f.contractId
      packageName := some f.packageName, templateId := some f.templateId
      signatories := f.signatories, stakeholders := f.stakeholders
      actingParties := actingParties, interfaceId := interfaceId }
  | .rollback _ => .rollback ⟨ids⟩

/-- An exercise has its result. -/
def HasResult : NodeVal V → Prop
  | .exercise _ _ _ _ result _ => result.isSome = true
  | .create .. | .fetch .. | .rollback _ => True

/-- The identifiers are complete and the contract id is of even length. -/
structure WellFormed (n : NodeVal V) : Prop where
  template : ∀ f ∈ n.fields, requireIdentifier (some f.templateId) = true
  contractId : ∀ f ∈ n.fields, f.contractId.length % 2 = 0
  interface : ∀ id ∈ n.interfaceId, requireIdentifier (some id) = true

end NodeVal

/-! ## Bytes -/

/-- A list of strings with its length. -/
def strsBytes (ss : List Bytes) : Bytes := int32Bytes ss.length ++ ss.flatMap strBytes

/-- A seed that may be absent. -/
def optSeedBytes : Option Bytes → Bytes
  | none => [0x00]
  | some seed => 0x01 :: seed

/-- The hashes of the children, with their number. -/
def hashesBytes (hashes : List Bytes) : Bytes := int32Bytes hashes.length ++ hashes.flatten

/-- Contract id, package name and template. -/
def contractFieldBytes (f : NodeFields) : Bytes :=
  hexWritten f.contractId ++ strBytes f.packageName ++ identifierBytes f.templateId

/-- The bytes of a node, by those of its values and of an exercise result. -/
def nodeBytes {V : Type} (val : V → Bytes) (result : Option V → Bytes) : NodeVal V → Bytes
  | .create f seed argument =>
    [nodeEncodingVersion] ++ strBytes f.lfVersion ++ [0x00] ++ optSeedBytes seed ++
      contractFieldBytes f ++ val argument ++ strsBytes f.signatories ++ strsBytes f.stakeholders
  | .exercise f e seed chosenValue r children =>
    [nodeEncodingVersion] ++ strBytes f.lfVersion ++ [0x01] ++ seed ++ contractFieldBytes f ++
      strsBytes f.signatories ++ strsBytes f.stakeholders ++ strsBytes e.actingParties ++
      optIdentifierBytes e.interfaceId ++ strBytes e.choiceId ++ val chosenValue ++
      [if e.consuming then 1 else 0] ++ result r ++ strsBytes e.choiceObservers ++
      hashesBytes children
  | .fetch f actingParties interfaceId =>
    [nodeEncodingVersion] ++ strBytes f.lfVersion ++ [0x02] ++ contractFieldBytes f ++
      strsBytes f.signatories ++ strsBytes f.stakeholders ++ optIdentifierBytes interfaceId ++
      strsBytes actingParties
  | .rollback children => [nodeEncodingVersion, 0x03] ++ hashesBytes children

/-- An exercise result as it is written: it is always marked as present. -/
def resultWritten {V : Type} (val : V → Bytes) (r : Option V) : Bytes := 0x01 :: r.elim [] val

/-! ## The encoders -/

theorem encodeStrings_eq (w : Hw) (ss : List Bytes) :
    encodeRepeated w wrapEncodeString ss = w.put (strsBytes ss) := by
  have hfold : ss.foldl wrapEncodeString (encodeInt32 w ss.length) =
      (encodeInt32 w ss.length).put (ss.flatMap strBytes) := foldl_put encodeBytes_eq _ ss
  unfold encodeRepeated
  rw [hfold]
  simp [encodeInt32, strsBytes]

theorem encodeOptIdentifier_eq (w : Hw) {id : Option Identifier}
    (h : ∀ i ∈ id, requireIdentifier (some i) = true) :
    encodeOptional w encodeIdentifier id = w.put (optIdentifierBytes id) := by
  cases id with
  | none => rfl
  | some i => simp [encodeOptional, encodeIdentifier_eq (h i rfl), optIdentifierBytes]

theorem encodeOptSeed_eq (w : Hw) (seed : Option Bytes) :
    encodeOptional w (fun w h => encodeHash w (some h)) seed = w.put (optSeedBytes seed) := by
  cases seed <;> simp [encodeOptional, encodeHash, optSeedBytes]

/-- The ids of the children are looked up to these hashes. -/
abbrev LookedUp (lookup : Bytes → Option Bytes) (ids hashes : List Bytes) : Prop :=
  List.Forall₂ (fun id hash => lookup id = some hash) ids hashes

theorem encodeNodeIds_hashes {lookup : Bytes → Option Bytes} {ids hashes : List Bytes}
    (h : LookedUp lookup ids hashes) (w : Hw) :
    encodeNodeIds lookup w ids = w.put hashes.flatten := by
  induction h generalizing w with
  | nil => simp [encodeNodeIds]
  | cons hhash _ ih => simp [encodeNodeIds, hhash, ih]

theorem encodeChildren_hashes {lookup : Bytes → Option Bytes} {ids hashes : List Bytes}
    (h : LookedUp lookup ids hashes) (hmax : ids.length ≤ maxNodeChildren) (w : Hw) :
    encodeChildren lookup w ids = w.put (hashesBytes hashes) := by
  unfold encodeChildren encodeRepeatedNodeIds
  rw [if_neg (Nat.not_lt.mpr hmax), encodeNodeIds_hashes h, encodeInt32, Hw.put_put, hashesBytes,
    h.length_eq]

/-! ## The hashing pass -/

section Nodes

variable {V : Type} {d : Device} {lookup : Bytes → Option Bytes} {tx : DamlTransaction}
  {ctx : HashingParser.Ctx} {msg : V → Value} {val : V → Bytes}

/-- The hashing pass writes these bytes for a value. -/
def Writes (d : Device) (msg : V → Value) (val : V → Bytes) (v : V) : Prop :=
  ∀ (field : Frame) (s : VState),
    ∃ s', decodeValueField d field s (msg v) = some s' ∧ s'.hw = s.hw.put (val v)

theorem Writes.single {v : V} (h : Writes d msg val v) (field : Frame) (s : VState) :
    ∃ s', HashingParser.decodeValueFields d field s [msg v] = some s' ∧
      s'.hw = s.hw.put (val v) := by
  obtain ⟨s', hs', hw⟩ := h field s
  exact ⟨s', by simp [HashingParser.decodeValueFields, hs'], hw⟩

theorem Writes.optional {r : Option V} (h : ∀ v ∈ r, Writes d msg val v) (field : Frame)
    (s : VState) : ∃ s', HashingParser.decodeValueFields d field s (r.map msg).toList = some s' ∧
      s'.hw = s.hw.put (r.elim [] val) := by
  cases r with
  | none => exact ⟨s, rfl, by simp⟩
  | some v => exact (h v rfl).single field s

theorem hashCreate_createMsg (field : Frame) {f : NodeFields} {argument : V}
    (seed : Option Bytes) (s : VState)
    (heven : f.contractId.length % 2 = 0) (hid : requireIdentifier (some f.templateId) = true)
    (hv : Writes d msg val argument) (result : Option V → Bytes) :
    ∃ s', hashCreate d field s (createMsg msg f argument) seed = some s' ∧
      s'.hw = s.hw.put (nodeBytes val result (.create f seed argument)) := by
  obtain ⟨s', hs', hw⟩ := hv.single field
    (s.enc fun w => encodeCreateStart w (createMsg msg f argument) seed)
  refine ⟨s'.enc fun w => encodeCreateEnd w (createMsg msg f argument), ?_, ?_⟩
  · show (HashingParser.decodeValueFields d field _ [msg argument]).bind _ = _
    rw [hs']
    rfl
  · have hstart : encodeCreateStart s.hw (createMsg msg f argument) seed =
        s.hw.put ([nodeEncodingVersion] ++ strBytes f.lfVersion ++ [0x00] ++ optSeedBytes seed ++
          contractFieldBytes f) := by
      simp [encodeCreateStart, createMsg, encodeOptSeed_eq, encodeHexString_even _ heven,
        encodeIdentifier_eq hid, encodeString, encodeBytes_eq, contractFieldBytes, hexWritten]
    show encodeCreateEnd s'.hw _ = _
    rw [hw]
    simp only [VState.enc]
    rw [hstart]
    simp [encodeCreateEnd, createMsg, encodeStrings_eq, nodeBytes]

/-- The seed that the header gives the node. -/
def NodeVal.Seeded (tx : DamlTransaction) (id : Int) : NodeVal V → Prop
  | .create _ seed _ => findSeed tx id = some seed
  | .exercise _ _ seed _ _ _ => findSeed tx id = some (some seed)
  | .fetch .. | .rollback _ => True

theorem hashExercise_exerciseMsg {f : NodeFields} {e : ExerciseFields} {seed : Bytes}
    {chosenValue : V} {r : Option V} {hashes ids : List Bytes} {s : VState}
    (h : (NodeVal.exercise f e seed chosenValue r hashes).WellFormed)
    (hchosen : Writes d msg val chosenValue) (hresult : ∀ v ∈ r, Writes d msg val v)
    (hlookup : LookedUp lookup ids hashes) (hmax : ids.length ≤ maxNodeChildren) :
    ∃ s', hashExercise d lookup s (exerciseMsg msg f e chosenValue r ids) seed = some s' ∧
      s'.hw = s.hw.put
        (nodeBytes val (resultWritten val) (.exercise f e seed chosenValue r hashes)) := by
  have heven := h.contractId f rfl
  have hid := h.template f rfl
  have hiface : ∀ i ∈ e.interfaceId, requireIdentifier (some i) = true := h.interface
  obtain ⟨s₁, hs₁, hw₁⟩ := hchosen.single .chosenValue
    (s.enc fun w => encodeExerciseStart w (exerciseMsg msg f e chosenValue r ids) (some seed))
  obtain ⟨s₂, hs₂, hw₂⟩ := Writes.optional hresult .exerciseResult
    (s₁.enc fun w => (encodeExerciseMiddle w (exerciseMsg msg f e chosenValue r ids)).put [0x01])
  refine ⟨s₂.enc fun w => encodeExerciseEnd lookup w (exerciseMsg msg f e chosenValue r ids), ?_,
    ?_⟩
  · show (HashingParser.decodeValueFields d .chosenValue _ [msg chosenValue]).bind _ = _
    rw [hs₁]
    show (HashingParser.decodeValueFields d .exerciseResult _ (r.map msg).toList).bind _ = _
    rw [hs₂]
    rfl
  · show encodeExerciseEnd lookup s₂.hw _ = _
    rw [hw₂]
    simp only [VState.enc, hw₁]
    simp [exerciseMsg, encodeExerciseStart, encodeExerciseMiddle, encodeExerciseEnd, encodeBool,
      encodeHash, encodeString, encodeBytes_eq, encodeHexString_even _ heven,
      encodeIdentifier_eq hid, encodeStrings_eq, encodeOptIdentifier_eq _ hiface,
      encodeChildren_hashes hlookup hmax, contractFieldBytes, hexWritten, nodeBytes, resultWritten]
    rfl

/-- **The hashing pass on a node**: it writes the encoding, with every exercise result
marked as present. -/
theorem hash_nodeVal {n : NodeVal V} {ids : List Bytes} (h : n.WellFormed)
    (hv : ∀ v ∈ n.vals, Writes d msg val v) (hseed : n.Seeded tx ctx.nodeId)
    (hlookup : LookedUp lookup ids n.children) (hmax : ids.length ≤ maxNodeChildren) :
    ∃ ctx', nodeDecodeCallback d lookup tx ctx (n.kind msg ids) = some ctx' ∧
      ctx'.v.hw = ctx.v.hw.put (nodeBytes val (resultWritten val) n) := by
  cases n with
  | create f seed argument =>
    have hid := h.template f rfl
    -- the body writes the bytes; the checks before it pass
    obtain ⟨s', hs', hw⟩ := hashCreate_createMsg .createArgument seed ctx.v (h.contractId f rfl) hid
      (hv argument (List.mem_singleton_self _)) (resultWritten val)
    exact ⟨_, HashingParser.decodeCreate_eq_some.mpr ⟨hid, seed, s', hseed, hs', rfl⟩, hw⟩
  | exercise f e seed chosenValue r hashes =>
    have hid := h.template f rfl
    have hiface : optionalInterfaceIsComplete e.interfaceId = true := by
      cases hi : e.interfaceId with
      | none => rfl
      | some i => exact h.interface i hi
    obtain ⟨s', hs', hw⟩ := hashExercise_exerciseMsg (s := ctx.v) h
      (hv chosenValue List.mem_cons_self)
      (fun v hmem => hv v (List.mem_cons_of_mem _ (Option.mem_toList.mpr hmem))) hlookup hmax
    exact ⟨_, HashingParser.decodeExercise_eq_some.mpr
      ⟨⟨hid, hiface⟩, seed, s', hseed, hs', rfl⟩, hw⟩
  | fetch f actingParties interfaceId =>
    have heven := h.contractId f rfl
    have hid := h.template f rfl
    have hiface : ∀ i ∈ interfaceId, requireIdentifier (some i) = true := h.interface
    have hoptional : optionalInterfaceIsComplete interfaceId = true := by
      cases interfaceId with
      | none => rfl
      | some i => exact hiface i rfl
    -- a fetch has no values, so its encoding is one rewriting
    have hw : encodeFetch ctx.v.hw ⟨some f.lfVersion, some f.contractId, some f.packageName,
        some f.templateId, f.signatories, f.stakeholders, actingParties, interfaceId⟩ =
          ctx.v.hw.put
            (nodeBytes val (resultWritten val) (.fetch f actingParties interfaceId)) := by
      simp [encodeFetch, encodeString, encodeBytes_eq, encodeHexString_even _ heven,
        encodeIdentifier_eq hid, encodeStrings_eq, encodeOptIdentifier_eq _ hiface,
        contractFieldBytes, hexWritten, nodeBytes]
    exact ⟨_, HashingParser.decodeFetch_eq_some.mpr ⟨⟨hid, hoptional⟩, rfl⟩, hw⟩
  | rollback hashes =>
    obtain ⟨-, -, hkept⟩ := claimChildren_frame ctx ids
    refine ⟨HashingParser.decodeRollback lookup ctx ⟨ids⟩, rfl, ?_⟩
    show encodeRollback lookup (claimChildren ctx ids).v.hw ⟨ids⟩ = _
    rw [hkept, encodeRollback, encodeChildren_hashes hlookup hmax, Hw.put_put]
    rfl

end Nodes

end CantonSigner
