import CantonSigner.Hash.LooseValues

/-!
# Optional parts

What the hashing pass writes for the optional parts of a message, and when it tells the truth.

- `bytes_eq_iff`: when `bytes codeHeaders` is `bytes trueHeaders`;
- `optional_parts_iff`: the same for values, nodes, disclosed contracts and the metadata.
-/

namespace CantonSigner

open ByteCodec HashingParser

/-! ## Presence bytes that tell the truth -/

mutual

/-- Entered with `c`, the value has its optional parts written as the format asks: every
record has its id and finds the number of its fields, and every variant finds a count that
is 0 exactly if it has no id. -/
def LooseVal.Truthful (c : Int) : LooseVal → Prop
  | .unit | .prim _ | .absent | .enum .. => True
  | .present v => v.Truthful (v.count (-1))
  | .list vs => vs.Truthful
  | .textMap es => es.Truthful
  | .genMap ps => ps.Truthful (-1)
  | .record id es => (id.isSome = true ∧ c ≠ -1 ∧ c ≡ es.length [ZMOD 2 ^ 32]) ∧ es.Truthful
  | .variant id _ v => (c ≠ 0 ↔ id.isSome = true) ∧ v.Truthful (v.count (-1))

def LooseVals.Truthful : LooseVals → Prop
  | .nil => True
  | .cons v vs => v.Truthful (v.count (-1)) ∧ vs.Truthful

def LooseEntries.Truthful : LooseEntries → Prop
  | .nil => True
  | .cons _ v es => v.Truthful (v.count (-1)) ∧ es.Truthful

/-- The key of a GenMap entry is entered with the count of the value, and the value with
what the key leaves. -/
def LoosePairs.Truthful (n : Int) : LoosePairs → Prop
  | .nil => True
  | .cons k v ps =>
    k.Truthful (v.count n) ∧ v.Truthful (k.left (v.count n)) ∧
      ps.Truthful (v.left (k.left (v.count n)))

end

theorem length_recordHeader_le (id : Option Identifier) (c n : Int) :
    (codeHeaders.record id c n).length ≤ (trueHeaders.record id c n).length := by
  cases id with
  | none => exact Nat.zero_le _
  | some id =>
    have := length_fieldCountBytes_le c
    simp only [codeHeaders, trueHeaders, Option.elim_some, optIdentifierBytes, List.length_append,
      List.length_cons, length_int32Bytes]
    omega

theorem recordHeader_eq_iff (id : Option Identifier) (c : Int) (es : LooseEntries) :
    codeHeaders.record id c es.length = trueHeaders.record id c es.length ↔
      id.isSome = true ∧ c ≠ -1 ∧ c ≡ es.length [ZMOD 2 ^ 32] := by
  cases id with
  | none =>
    refine iff_of_false ?_ (fun h => absurd h.1 Bool.false_ne_true)
    intro h
    have hlen := congrArg List.length h
    simp [codeHeaders, trueHeaders, optIdentifierBytes] at hlen
  | some id =>
    have hcount : fieldCountBytes c = int32Bytes es.length ↔
        c ≠ -1 ∧ c ≡ es.length [ZMOD 2 ^ 32] := by
      unfold fieldCountBytes
      by_cases h : c = -1
      · rw [if_pos h]
        refine iff_of_false ?_ (fun hne => absurd h hne.1)
        intro hnil
        have := congrArg List.length hnil
        rw [length_int32Bytes] at this
        cases this
      · rw [if_neg h, int32Bytes_eq_iff]
        exact (and_iff_right h).symm
    show 0x01 :: identifierBytes id ++ fieldCountBytes c =
      0x01 :: identifierBytes id ++ int32Bytes es.length ↔ _
    rw [List.append_cancel_left_eq, hcount]
    exact (and_iff_right rfl).symm

theorem variantHeader_eq_iff (id : Option Identifier) (c : Int) :
    codeHeaders.variant id c = trueHeaders.variant id c ↔ (c ≠ 0 ↔ id.isSome = true) := by
  show presenceByte c = (if id.isSome then 0x01 else 0x00) ↔ _
  unfold presenceByte
  by_cases h : c = 0 <;> cases id <;> simp [h]

mutual

theorem LooseVal.length_bytes_le : ∀ (v : LooseVal) (c : Int),
    (v.bytes codeHeaders c).length ≤ (v.bytes trueHeaders c).length
  | .unit, _ | .prim _, _ | .absent, _ | .enum .., _ => Nat.le_refl _
  | .present v, c => by
    have := v.length_bytes_le (v.count (-1))
    simpa [LooseVal.bytes] using this
  | .list vs, c => by
    have := vs.length_bytes_le
    simpa [LooseVal.bytes] using this
  | .textMap es, c => by
    have := es.length_entryBytes_le
    simpa [LooseVal.bytes] using this
  | .genMap ps, c => by
    have := ps.length_bytes_le (-1)
    simpa [LooseVal.bytes] using this
  | .record id es, c => by
    have hheader := length_recordHeader_le id c es.length
    have hfields := es.length_fieldBytes_le
    simp only [LooseVal.bytes, List.length_append, List.length_cons]
    omega
  | .variant id k v, c => by
    have := v.length_bytes_le (v.count (-1))
    simp only [LooseVal.bytes, List.length_append, List.length_cons]
    omega

theorem LooseVals.length_bytes_le : ∀ (vs : LooseVals),
    (vs.bytes codeHeaders).length ≤ (vs.bytes trueHeaders).length
  | .nil => Nat.le_refl _
  | .cons v vs => by
    rw [LooseVals.bytes, LooseVals.bytes, List.length_append, List.length_append]
    exact Nat.add_le_add (v.length_bytes_le _) vs.length_bytes_le

theorem LooseEntries.length_entryBytes_le : ∀ (es : LooseEntries),
    (es.entryBytes codeHeaders).length ≤ (es.entryBytes trueHeaders).length
  | .nil => Nat.le_refl _
  | .cons k v es => by
    have hv := v.length_bytes_le (v.count (-1))
    have hes := es.length_entryBytes_le
    simp only [LooseEntries.entryBytes, List.length_append]
    omega

theorem LooseEntries.length_fieldBytes_le : ∀ (es : LooseEntries),
    (es.fieldBytes codeHeaders).length ≤ (es.fieldBytes trueHeaders).length
  | .nil => Nat.le_refl _
  | .cons l v es => by
    have hv := v.length_bytes_le (v.count (-1))
    have hes := es.length_fieldBytes_le
    simp only [LooseEntries.fieldBytes, List.length_append, List.length_cons]
    omega

theorem LoosePairs.length_bytes_le : ∀ (ps : LoosePairs) (n : Int),
    (ps.bytes codeHeaders n).length ≤ (ps.bytes trueHeaders n).length
  | .nil, _ => Nat.le_refl _
  | .cons k v ps, n => by
    have hk := k.length_bytes_le (v.count n)
    have hv := v.length_bytes_le (k.left (v.count n))
    have hps := ps.length_bytes_le (v.left (k.left (v.count n)))
    simp only [LoosePairs.bytes, List.length_append]
    omega

end

mutual

/-- The optional parts of a value are written as the format asks exactly if every one of
them finds what it needs. -/
theorem LooseVal.bytes_eq_iff : ∀ (v : LooseVal) (c : Int),
    v.bytes codeHeaders c = v.bytes trueHeaders c ↔ v.Truthful c
  | .unit, _ | .prim _, _ | .absent, _ | .enum .., _ => iff_of_true rfl trivial
  | .present v, c => by
    rw [LooseVal.bytes, LooseVal.bytes, List.append_cancel_left_eq, v.bytes_eq_iff]
    rfl
  | .list vs, c => by
    rw [LooseVal.bytes, LooseVal.bytes, List.append_cancel_left_eq, vs.bytes_eq_iff]
    rfl
  | .textMap es, c => by
    rw [LooseVal.bytes, LooseVal.bytes, List.append_cancel_left_eq, es.entryBytes_eq_iff]
    rfl
  | .genMap ps, c => by
    rw [LooseVal.bytes, LooseVal.bytes, List.append_cancel_left_eq, ps.bytes_eq_iff]
    rfl
  | .record id es, c => by
    have hheader := length_recordHeader_le id c es.length
    rw [LooseVal.bytes, LooseVal.bytes, append_eq_append_iff_of_length_le (by simpa using hheader)
      es.length_fieldBytes_le, List.cons_inj_right, recordHeader_eq_iff, es.fieldBytes_eq_iff]
    rfl
  | .variant id k v, c => by
    rw [LooseVal.bytes, LooseVal.bytes, append_eq_append_iff_of_length_le (by simp)
      (v.length_bytes_le _), v.bytes_eq_iff, List.append_cancel_right_eq,
      List.append_cancel_right_eq, List.cons_inj_right, List.singleton_inj, variantHeader_eq_iff]
    rfl

theorem LooseVals.bytes_eq_iff : ∀ (vs : LooseVals),
    vs.bytes codeHeaders = vs.bytes trueHeaders ↔ vs.Truthful
  | .nil => iff_of_true rfl trivial
  | .cons v vs => by
    rw [LooseVals.bytes, LooseVals.bytes, append_eq_append_iff_of_length_le (v.length_bytes_le _)
      vs.length_bytes_le, v.bytes_eq_iff, vs.bytes_eq_iff]
    rfl

theorem LooseEntries.entryBytes_eq_iff : ∀ (es : LooseEntries),
    es.entryBytes codeHeaders = es.entryBytes trueHeaders ↔ es.Truthful
  | .nil => iff_of_true rfl trivial
  | .cons k v es => by
    rw [LooseEntries.entryBytes, LooseEntries.entryBytes, List.append_assoc, List.append_assoc,
      List.append_cancel_left_eq, append_eq_append_iff_of_length_le (v.length_bytes_le _)
        es.length_entryBytes_le, v.bytes_eq_iff, es.entryBytes_eq_iff]
    rfl

theorem LooseEntries.fieldBytes_eq_iff : ∀ (es : LooseEntries),
    es.fieldBytes codeHeaders = es.fieldBytes trueHeaders ↔ es.Truthful
  | .nil => iff_of_true rfl trivial
  | .cons l v es => by
    rw [LooseEntries.fieldBytes, LooseEntries.fieldBytes, List.append_assoc, List.append_assoc,
      List.append_cancel_left_eq, append_eq_append_iff_of_length_le (v.length_bytes_le _)
        es.length_fieldBytes_le, v.bytes_eq_iff, es.fieldBytes_eq_iff]
    rfl

theorem LoosePairs.bytes_eq_iff : ∀ (ps : LoosePairs) (n : Int),
    ps.bytes codeHeaders n = ps.bytes trueHeaders n ↔ ps.Truthful n
  | .nil, _ => iff_of_true rfl trivial
  | .cons k v ps, n => by
    have hk := k.length_bytes_le (v.count n)
    have hv := v.length_bytes_le (k.left (v.count n))
    rw [LoosePairs.bytes, LoosePairs.bytes, append_eq_append_iff_of_length_le
        (by simpa using Nat.add_le_add hk hv) (ps.length_bytes_le _),
      append_eq_append_iff_of_length_le hk hv, k.bytes_eq_iff, v.bytes_eq_iff, ps.bytes_eq_iff,
      LoosePairs.Truthful, and_assoc]

end

/-! ## Values, nodes, disclosed contracts -/

/-- A value by the bytes the code writes for it. -/
def LooseVal.codeBytes (v : LooseVal) : Bytes := v.bytes codeHeaders v.own

/-- A value by the bytes with presence bytes that tell the truth. -/
def LooseVal.trueBytes (v : LooseVal) : Bytes := v.bytes trueHeaders v.own

/-- An exercise result with a presence byte that tells the truth. -/
def resultBytes {V : Type} (val : V → Bytes) : Option V → Bytes
  | none => [0x00]
  | some v => 0x01 :: val v

section Written

variable {d : Device} {lookup : Bytes → Option Bytes} {tx : DamlTransaction}
  {ctx ctx' : HashingParser.Ctx} {ids : List Bytes}

/-- Whatever the pass accepts, it writes as the code writes it. -/
theorem written_loose {v : LooseVal} (h : v.WellFormed) {field : Frame} {s s' : VState}
    (hs : decodeValueField d field s v.toValue = some s') : s'.hw = s.hw.put v.codeBytes := by
  obtain ⟨s'', hs'', hw⟩ := writes_loose (d := d.roomy) (fun _ => rfl) h field s
  have hroomy := decodeValueField_room field hs
  rw [hs''] at hroomy
  cases hroomy
  exact hw

/-- A node that the pass accepts is written as the code writes it. -/
theorem written_node {n : NodeVal LooseVal} (h : n.WellFormed) (hv : ∀ v ∈ n.vals, v.WellFormed)
    (hseed : n.Seeded tx ctx.nodeId) (hlookup : LookedUp lookup ids n.children)
    (hmax : ids.length ≤ maxNodeChildren)
    (hn : nodeDecodeCallback d lookup tx ctx (n.kind LooseVal.toValue ids) = some ctx') :
    ctx'.v.hw =
      ctx.v.hw.put (nodeBytes LooseVal.codeBytes (resultWritten LooseVal.codeBytes) n) := by
  obtain ⟨ctx'', hctx'', hw⟩ := hash_nodeVal (d := d.roomy) h
    (fun v hmem => writes_loose (fun _ => rfl) (hv v hmem)) hseed hlookup hmax
  have hroomy := nodeDecodeCallback_roomy hn
  rw [hctx''] at hroomy
  cases hroomy
  exact hw

/-- So is a disclosed contract. -/
theorem written_contract {f : NodeFields} {argument : LooseVal} {st st' : VState × ValuesStore}
    (h : (NodeVal.create f none argument).WellFormed) (hv : argument.WellFormed)
    (hst : decodeContract d st (createMsg LooseVal.toValue f argument) = some st') :
    st'.1.hw = st.1.hw.put (nodeBytes LooseVal.codeBytes (resultWritten LooseVal.codeBytes)
      (.create f none argument)) := by
  have hid := h.template f rfl
  have hcomplete : createIsComplete (createMsg LooseVal.toValue f argument) = true := hid
  unfold decodeContract at hst
  rw [hcomplete] at hst
  obtain ⟨s, hs, rfl⟩ := Option.map_eq_some_iff.mp hst
  obtain ⟨s', hs', hw⟩ := hashCreate_createMsg (d := d.roomy) .contractArgument none st.1
    (h.contractId f rfl) hid (writes_loose (fun _ => rfl) hv) (resultWritten LooseVal.codeBytes)
  have hroomy := hashCreate_room .contractArgument hs
  rw [hs'] at hroomy
  cases hroomy
  exact hw

end Written

theorem LooseVal.codeBytes_eq_iff (v : LooseVal) : v.codeBytes = v.trueBytes ↔ v.Truthful v.own :=
  v.bytes_eq_iff v.own

theorem LooseVal.length_codeBytes_le (v : LooseVal) : v.codeBytes.length ≤ v.trueBytes.length :=
  v.length_bytes_le v.own

/-- A result is marked as present whether or not there is one. -/
theorem resultWritten_eq_iff (r : Option LooseVal) :
    resultWritten LooseVal.codeBytes r = resultBytes LooseVal.trueBytes r ↔
      r.isSome = true ∧ ∀ v ∈ r, v.Truthful v.own := by
  cases r with
  | none => exact iff_of_false (by simp [resultWritten, resultBytes]) (by simp)
  | some v =>
    show 0x01 :: v.codeBytes = 0x01 :: v.trueBytes ↔ _
    rw [List.cons_inj_right, v.codeBytes_eq_iff]
    simp

theorem length_resultWritten_le (r : Option LooseVal) :
    (resultWritten LooseVal.codeBytes r).length ≤ (resultBytes LooseVal.trueBytes r).length := by
  cases r with
  | none => exact Nat.le_refl _
  | some v => exact Nat.succ_le_succ v.length_codeBytes_le

/-- A node is written with the right presence bytes exactly if its values are and it does
not lack an exercise result. -/
theorem nodeBytes_eq_iff (n : NodeVal LooseVal) :
    nodeBytes LooseVal.codeBytes (resultWritten LooseVal.codeBytes) n =
        nodeBytes LooseVal.trueBytes (resultBytes LooseVal.trueBytes) n ↔
      (∀ v ∈ n.vals, v.Truthful v.own) ∧ n.HasResult := by
  cases n with
  | create f seed argument =>
    simp [nodeBytes, NodeVal.vals, NodeVal.HasResult, argument.codeBytes_eq_iff]
  | fetch f actingParties interfaceId =>
    simp [nodeBytes, NodeVal.vals, NodeVal.HasResult]
  | rollback children => simp [nodeBytes, NodeVal.vals, NodeVal.HasResult]
  | exercise f e seed chosenValue r children =>
    -- The value, the flag and the result are what the two may differ in.
    have hmiddle : chosenValue.codeBytes ++
          ([if e.consuming then 1 else 0] ++ resultWritten LooseVal.codeBytes r) =
        chosenValue.trueBytes ++
          ([if e.consuming then 1 else 0] ++ resultBytes LooseVal.trueBytes r) ↔
        chosenValue.Truthful chosenValue.own ∧ r.isSome = true ∧ ∀ v ∈ r, v.Truthful v.own := by
      rw [append_eq_append_iff_of_length_le chosenValue.length_codeBytes_le
          (by simpa using length_resultWritten_le r), List.append_cancel_left_eq,
        chosenValue.codeBytes_eq_iff, resultWritten_eq_iff]
    simp only [nodeBytes, List.append_assoc, List.append_cancel_left_eq, NodeVal.vals,
      NodeVal.HasResult, List.forall_mem_cons, Option.mem_toList]
    have hregroup (a b c t : Bytes) : a ++ (b ++ (c ++ t)) = a ++ (b ++ c) ++ t := by simp
    rw [hregroup, hregroup, List.append_cancel_right_eq, hmiddle]
    constructor
    · rintro ⟨hchosen, hsome, hresult⟩
      exact ⟨⟨hchosen, hresult⟩, hsome⟩
    · rintro ⟨⟨hchosen, hresult⟩, hsome⟩
      exact ⟨hchosen, hsome, hresult⟩

/-! ## Metadata -/

/-- A string as the metadata has it. -/
def optStrBytes (s : Option Bytes) : Bytes := s.elim [] strBytes

/-- A ledger time that may be absent. -/
def optTimeBytes : Option Nat → Bytes
  | none => [0x00]
  | some t => 0x01 :: int64Bytes t

/-- The metadata with presence bytes that tell the truth. -/
def metadataBytes (md : Metadata) : Bytes :=
  preparedTransactionHashPurpose ++ [0x01] ++ strsBytes md.actAs ++ optStrBytes md.commandId ++
    optStrBytes md.transactionUuid ++ int32Bytes md.mediatorGroup ++
    optStrBytes md.synchronizerId ++ optTimeBytes md.minLedgerEffectiveTime ++
    optTimeBytes md.maxLedgerEffectiveTime ++ int64Bytes md.preparationTime ++
    int32Bytes md.inputContractsCount

theorem encodeString_bytes (w : Hw) (s : Option Bytes) :
    (encodeString w s).bytes = w.bytes ++ optStrBytes s := by
  cases s with
  | none => simp [encodeString, optStrBytes]
  | some s => simp [encodeString, encodeBytes_eq, optStrBytes]

theorem encodeOptTime_eq (w : Hw) (t : Option Nat) :
    encodeOptional w (fun w (t : Nat) => encodeInt64 w t) t = w.put (optTimeBytes t) := by
  cases t <;> simp [encodeOptional, encodeInt64, optTimeBytes]

theorem hashMetadata_written (err : HashError) (md : Metadata) :
    (hashMetadata err md).bytes = metadataBytes md := by
  unfold hashMetadata encodeMetadata
  simp only [encodeOptTime_eq]
  simp [encodeInt32, encodeInt64, encodeString_bytes, encodeStrings_eq, metadataBytes]

/-! ## Result -/

/-- **Optional parts are written as the format asks exactly if** every record of a value has
its id and finds the number of its fields, every variant finds a count that tells whether it
has an id, and every exercise has its result. The optional identifiers of enums and
interfaces, seeds and ledger times are always written so. -/
theorem optional_parts_iff (d : Device) :
    -- Values.
    (∀ (v : LooseVal) (field : Frame) (s s' : VState), v.WellFormed →
      decodeValueField d field s v.toValue = some s' →
      (s'.hw = s.hw.put v.trueBytes ↔ v.Truthful v.own)) ∧
    -- Nodes.
    (∀ (n : NodeVal LooseVal) (ids : List Bytes) (lookup : Bytes → Option Bytes)
      (tx : DamlTransaction) (ctx ctx' : HashingParser.Ctx),
      n.WellFormed → (∀ v ∈ n.vals, v.WellFormed) → n.Seeded tx ctx.nodeId →
      LookedUp lookup ids n.children → ids.length ≤ maxNodeChildren →
      nodeDecodeCallback d lookup tx ctx (n.kind LooseVal.toValue ids) = some ctx' →
      (ctx'.v.hw =
          ctx.v.hw.put (nodeBytes LooseVal.trueBytes (resultBytes LooseVal.trueBytes) n) ↔
        (∀ v ∈ n.vals, v.Truthful v.own) ∧ n.HasResult)) ∧
    -- Disclosed contracts, which have no seed.
    (∀ (f : NodeFields) (argument : LooseVal) (st st' : VState × ValuesStore),
      (NodeVal.create f none argument).WellFormed → argument.WellFormed →
      decodeContract d st (createMsg LooseVal.toValue f argument) = some st' →
      (st'.1.hw = st.1.hw.put (nodeBytes LooseVal.trueBytes (resultBytes LooseVal.trueBytes)
          (.create f none argument)) ↔ argument.Truthful argument.own)) ∧
    -- The metadata.
    (∀ (err : HashError) (md : Metadata), (hashMetadata err md).bytes = metadataBytes md) := by
  refine ⟨?_, ?_, ?_, hashMetadata_written⟩
  · intro v field s s' hv hs
    rw [written_loose hv hs, put_eq_put_iff, v.codeBytes_eq_iff]
  · intro n ids lookup tx ctx ctx' hn hv hseed hlookup hmax hctx
    rw [written_node hn hv hseed hlookup hmax hctx, put_eq_put_iff, nodeBytes_eq_iff]
  · intro f argument st st' hn hv hst
    rw [written_contract hn hv hst, put_eq_put_iff, nodeBytes_eq_iff]
    simp [NodeVal.vals, NodeVal.HasResult]

/-- A record with an id. -/
def namedRecord : LooseVal :=
  .record (some ⟨some [], some [], some []⟩) (.cons [97] .unit .nil)

/-- An exercise of the record that returns it. -/
def exerciseWithResult : NodeVal LooseVal :=
  .exercise ⟨[], [], [], ⟨some [], some [], some []⟩, [], []⟩ ⟨[], none, [], false, []⟩
    (List.replicate 32 0) namedRecord (some namedRecord) []

/-- The header that gives an exercise its seed. -/
def exerciseHeader : DamlTransaction :=
  { version := some [], roots := [], nodesCount := 1
    nodeSeeds := [⟨0, some (List.replicate 32 0)⟩] }

/-- The state before the exercise. -/
def beforeExercise : HashingParser.Ctx :=
  ⟨0, false, false, ⟨⟨[], .ok⟩, -1⟩, treeCheckReset, valuesCheckReset⟩

theorem namedRecord_wellFormed : namedRecord.WellFormed := by
  refine ⟨?_, ⟨?_, by decide, by decide⟩, trivial, trivial⟩
  · rintro i ⟨⟩
    refine ⟨rfl, ?_, ?_, ?_⟩ <;> rintro s ⟨⟩ <;> exact nofun
  · intro c hc
    rw [List.mem_singleton.mp hc]
    decide

theorem namedRecord_truthful : namedRecord.Truthful namedRecord.own :=
  ⟨⟨rfl, by decide, rfl⟩, trivial, trivial⟩

/-- With all parts in place both are written as the format asks. -/
theorem optional_parts_iff_named :
    (∃ s', decodeValueField testDevice .createArgument ⟨⟨[], .ok⟩, -1⟩ namedRecord.toValue =
        some s' ∧
      s'.hw = Hw.put ⟨[], .ok⟩ namedRecord.trueBytes) ∧
    (∃ ctx', nodeDecodeCallback testDevice (fun _ => none) exerciseHeader beforeExercise
        (exerciseWithResult.kind LooseVal.toValue []) = some ctx' ∧
      ctx'.v.hw = Hw.put ⟨[], .ok⟩
        (nodeBytes LooseVal.trueBytes (resultBytes LooseVal.trueBytes) exerciseWithResult)) := by
  obtain ⟨hvalue, hnode, -⟩ := optional_parts_iff testDevice
  refine ⟨⟨_, rfl, ?_⟩, ⟨_, rfl, ?_⟩⟩
  · exact (hvalue namedRecord .createArgument _ _ namedRecord_wellFormed rfl).mpr
      namedRecord_truthful
  · refine (hnode exerciseWithResult [] _ exerciseHeader beforeExercise _ ⟨?_, ?_, ?_⟩ ?_ rfl .nil
      (by decide) rfl).mpr ⟨?_, rfl⟩
    · rintro f ⟨⟩
      rfl
    · rintro f ⟨⟩
      rfl
    · rintro i ⟨⟩
    · rintro v (_ | ⟨_, _ | ⟨_, ⟨⟩⟩⟩) <;> exact namedRecord_wellFormed
    · rintro v (_ | ⟨_, _ | ⟨_, ⟨⟩⟩⟩) <;> exact namedRecord_truthful

/-- A record with one field and no id. -/
def namelessRecord : LooseVal := .record none (.cons [97] .unit .nil)

/-- An exercise without result. -/
def exerciseWithoutResult : NodeVal LooseVal :=
  .exercise ⟨[], [], [], ⟨some [], some [], some []⟩, [], []⟩ ⟨[], none, [], false, []⟩
    (List.replicate 32 0) .unit none []

/-- The tag of a record without id is followed by its field, where the format asks for 00
and the number of fields, and an exercise without result has its consuming flag followed by
01, where the format asks for 00. -/
theorem absent_parts_misread :
    (decodeValueField testDevice .createArgument ⟨⟨[], .ok⟩, -1⟩
        namelessRecord.toValue).map (·.hw.bytes) = some [0x0C, 0x01, 0, 0, 0, 1, 97, 0x00] ∧
    namelessRecord.trueBytes = [0x0C, 0x00, 0, 0, 0, 1, 0x01, 0, 0, 0, 1, 97, 0x00] ∧
    (nodeDecodeCallback testDevice (fun _ => none) exerciseHeader beforeExercise
        (exerciseWithoutResult.kind LooseVal.toValue [])).map (·.v.hw.bytes) ≠
      some (nodeBytes LooseVal.trueBytes (resultBytes LooseVal.trueBytes)
        exerciseWithoutResult) ∧
    (nodeDecodeCallback testDevice (fun _ => none) exerciseHeader beforeExercise
        (exerciseWithoutResult.kind LooseVal.toValue [])).map (·.v.hw.bytes) =
      some (nodeBytes LooseVal.codeBytes (resultWritten LooseVal.codeBytes)
        exerciseWithoutResult) := by
  decide

end CantonSigner
