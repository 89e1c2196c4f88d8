import CantonSigner.Hash.NodeBytes

/-!
# How much a message can write

The hashing pass writes at most a few bytes for every byte of a message
(`length_enc_le`, `length_node_le`), so a part that fits the transaction buffer writes far
less than the lengths and counts of the encoding can express.
-/

namespace CantonSigner

open ByteCodec HashingParser

/-! ## Fields -/

/-- A varint takes a byte at least. -/
theorem length_varint_pos (n : Nat) : 1 ≤ (Host.varint n).length := by
  unfold Host.varint
  rw [Host.varintUpTo]
  split <;> simp

/-- A varint field takes its tag and a byte at least. -/
theorem length_varintField (tag n : Nat) : 2 ≤ (Host.varintField tag n).length := by
  have h₁ := length_varint_pos (tag * 8)
  have h₂ := length_varint_pos n
  rw [Host.varintField, List.length_append]
  omega

/-- A string is written behind four bytes of length. -/
@[simp] theorem length_strBytes (s : Bytes) : (strBytes s).length = 4 + s.length := by
  simp [strBytes]

/-- A name of dots writes a length for each of them. -/
theorem length_dottedBytes_le (s : Bytes) : (dottedBytes s).length ≤ 5 * s.length + 8 := by
  have hsegs : ((splitDot s).flatMap strBytes).length ≤ 5 * s.length + 4 := by
    induction s with
    | nil => simp [splitDot]
    | cons c cs ih =>
      unfold splitDot
      split
      · rw [List.flatMap_cons, List.length_append, length_strBytes, List.length_cons]
        simp only [List.length_nil]
        omega
      · cases hcs : splitDot cs with
        | nil =>
          simp only [List.flatMap_cons, List.flatMap_nil, List.append_nil, length_strBytes,
            List.length_cons, List.length_nil]
          omega
        | cons seg segs =>
          rw [hcs] at ih
          simp only [List.flatMap_cons, List.length_append, length_strBytes,
            List.length_cons] at ih ⊢
          omega
  rw [dottedBytes, List.length_append, length_int32Bytes]
  omega

/-- An identifier, whose three names are each behind a tag and a length in the message. -/
theorem length_identifierBytes_le {id : Identifier} (h : requireIdentifier (some id) = true) :
    (identifierBytes id).length + 10 ≤ 5 * (Host.identifier id).length := by
  obtain ⟨packageId, moduleName, entityName⟩ := id
  simp only [requireIdentifier, Bool.and_eq_true, Option.isSome_iff_exists] at h
  obtain ⟨⟨⟨p, rfl⟩, m, rfl⟩, e, rfl⟩ := h
  have hp := length_lenField 1 p
  have hm := length_lenField 2 m
  have he := length_lenField 3 e
  have hmd := length_dottedBytes_le m
  have hed := length_dottedBytes_le e
  simp only [identifierBytes, Host.identifier, Host.optField, Option.getD_some, List.length_append,
    length_strBytes]
  omega

/-- An optional identifier. -/
theorem length_optIdentifierBytes_le {id : Option Identifier} (tag : Nat)
    (h : ∀ i ∈ id, requireIdentifier (some i) = true) :
    (optIdentifierBytes id).length ≤
      5 * (Host.optField tag (id.map Host.identifier)).length + 1 := by
  cases id with
  | none => exact Nat.le_add_left _ _
  | some i =>
    have hi := length_identifierBytes_le (h i rfl)
    have hfield := length_lenField tag (Host.identifier i)
    simp only [optIdentifierBytes, Option.map_some, Host.optField, List.length_cons]
    omega

/-! ## Values -/

/-- A primitive; an int64 is the worst, nine bytes of at least two in the message. -/
theorem length_encPrim_le (p : Prim) : (encPrim p).length ≤ 5 * (Host.prim p).length := by
  cases p with
  | bool b =>
    have := length_varintField 2 (if b then 1 else 0)
    simp only [encPrim, Host.prim, List.length_cons, List.length_nil]
    omega
  | int64 v =>
    have := length_varintField 3 (Host.low64 (if 0 ≤ v then 2 * v else -2 * v - 1))
    simp only [encPrim, Host.prim, List.length_cons, length_int64Bytes]
    omega
  | date v =>
    have := length_varintField 4 (Host.low64 v)
    simp only [encPrim, Host.prim, List.length_cons, length_int32Bytes]
    omega
  | timestamp v =>
    simp only [encPrim, Host.prim, List.length_cons, length_int64Bytes, List.length_append,
      List.length_reverse, length_beBytes]
    omega
  | numeric s =>
    have := length_lenField 6 s
    simp only [encPrim, Host.prim, List.length_cons, length_strBytes]
    omega
  | party s =>
    have := length_lenField 7 s
    simp only [encPrim, Host.prim, List.length_cons, length_strBytes]
    omega
  | text s =>
    have := length_lenField 8 s
    simp only [encPrim, Host.prim, List.length_cons, length_strBytes]
    omega
  | contractId s =>
    have := length_lenField 9 s
    simp only [encPrim, Host.prim, List.length_cons, List.length_append, length_int32Bytes,
      length_unhex]
    omega

mutual

/-- A value writes at most five bytes for each byte of its message. -/
theorem length_enc_le : ∀ (v : Val), v.WellFormed →
    (enc v).length ≤ 5 * (Host.value v.toValue).length
  | .unit, _ => by
    have := length_lenField 1 []
    simp only [enc, Val.toValue, Host.value, List.append_nil, List.length_cons, List.length_nil]
    omega
  | .prim p, _ => by
    have := length_encPrim_le p
    simpa only [enc, Val.toValue, Host.value, List.append_nil] using this
  | .absent, _ => by
    have := length_lenField 10 (Host.values .nil)
    simp only [enc, Val.toValue, Host.value, List.append_nil, List.length_cons, List.length_nil]
    omega
  | .present v, h => by
    have ih := length_enc_le v h
    -- a nested message has two more bytes for its key and its length
    have hin := length_lenField 1 (Host.value v.toValue)
    have hout := length_lenField 10 (Host.lenField 1 (Host.value v.toValue))
    simp only [enc, Val.toValue, Host.value, Host.values, List.append_nil, List.length_cons]
    omega
  | .list vs, h => by
    have ih := length_encVals_le vs h
    have hout := length_lenField 11 (Host.values vs.toValues)
    simp only [enc, Val.toValue, Host.value, List.append_nil, List.length_cons, List.length_append,
      length_int32Bytes]
    omega
  | .textMap es, h => by
    have ih := length_encEntries_le es h
    have hout := length_lenField 12 (Host.textMap es.toTextMap)
    simp only [enc, Val.toValue, Host.value, List.append_nil, List.length_cons, List.length_append,
      length_int32Bytes]
    omega
  | .genMap ps, h => by
    have ih := length_encPairs_le ps h
    have hout := length_lenField 13 (Host.genMap ps.toGenMap)
    simp only [enc, Val.toValue, Host.value, List.append_nil, List.length_cons, List.length_append,
      length_int32Bytes]
    omega
  | .record id es, h => by
    -- the count takes four bytes, the id is bounded by its own message
    have hid := length_identifierBytes_le h.1.1
    have ih := length_encFields_le es h.2
    have hin := length_lenField 1 (Host.identifier id)
    have hout := length_lenField 14 (Host.lenField 1 (Host.identifier id) ++
      Host.record es.toRecord)
    rw [List.length_append] at hout
    simp only [enc, Val.toValue, Host.value, Host.record, List.append_nil, List.length_cons,
      List.length_append, length_int32Bytes]
    omega
  | .variant none c v, h => by
    have ih := length_enc_le v h.2.2
    have hc := length_lenField 2 c
    have hv := length_lenField 3 (Host.value v.toValue)
    have hout := length_lenField 15
      (Host.lenField 2 c ++ Host.lenField 3 (Host.value v.toValue))
    rw [List.length_append] at hout
    simp only [enc, Val.toValue, Host.value, Host.variant, optIdentifierBytes, List.append_nil,
      List.length_cons, List.length_append, length_strBytes, List.length_nil]
    omega
  | .variant (some id) c v, h => by
    have hid := length_identifierBytes_le (h.1 id rfl).1
    have ih := length_enc_le v h.2.2
    have hi := length_lenField 1 (Host.identifier id)
    have hc := length_lenField 2 c
    have hv := length_lenField 3 (Host.value v.toValue)
    have hout := length_lenField 15 (Host.lenField 1 (Host.identifier id) ++
      (Host.lenField 2 c ++ Host.lenField 3 (Host.value v.toValue)))
    rw [List.length_append, List.length_append] at hout
    simp only [enc, Val.toValue, Host.value, Host.variant, optIdentifierBytes, List.append_nil,
      List.length_cons, List.length_append, length_strBytes]
    omega
  | .enum id c, h => by
    have hid := length_optIdentifierBytes_le 1 fun i hi => (h.1 i hi).1
    have hc := length_lenField 2 c
    have hout := length_lenField 16
      (Host.optField 1 (id.map Host.identifier) ++ Host.lenField 2 c)
    have hmsg : Host.value (Val.enum id c).toValue = Host.lenField 16
        (Host.optField 1 (id.map Host.identifier) ++ Host.lenField 2 c) := List.append_nil _
    rw [List.length_append] at hout
    rw [hmsg]
    simp only [enc, List.length_cons, List.length_append, length_strBytes]
    omega

/-- The elements of a list. -/
theorem length_encVals_le : ∀ (vs : Vals), vs.WellFormed →
    (encVals vs).length ≤ 5 * (Host.values vs.toValues).length
  | .nil, _ => Nat.zero_le _
  | .cons v vs, h => by
    have hv := length_enc_le v h.1
    have ih := length_encVals_le vs h.2
    have hin := length_lenField 1 (Host.value v.toValue)
    simp only [encVals, Vals.toValues, Host.values, List.length_append]
    omega

/-- The entries of a TextMap. -/
theorem length_encEntries_le : ∀ (es : Entries), es.WellFormed →
    (encEntries es).length ≤ 5 * (Host.textMap es.toTextMap).length
  | .nil, _ => Nat.zero_le _
  | .cons k v es, h => by
    have hv := length_enc_le v h.2.1
    have ih := length_encEntries_le es h.2.2
    have hk := length_lenField 1 k
    have hin := length_lenField 2 (Host.value v.toValue)
    have hout := length_lenField 1 (Host.lenField 1 k ++ Host.lenField 2 (Host.value v.toValue))
    rw [List.length_append] at hout
    simp only [encEntries, Entries.toTextMap, Host.textMap, Host.namedValue, List.append_nil,
      List.length_append, length_strBytes]
    omega

/-- The fields of a record. -/
theorem length_encFields_le : ∀ (es : Entries), es.WellFormed →
    (encFields es).length ≤ 5 * (Host.record es.toRecord).length
  | .nil, _ => Nat.zero_le _
  | .cons l v es, h => by
    have hv := length_enc_le v h.2.1
    have ih := length_encFields_le es h.2.2
    have hl := length_lenField 1 l
    have hin := length_lenField 2 (Host.value v.toValue)
    have hout := length_lenField 2 (Host.lenField 1 l ++ Host.lenField 2 (Host.value v.toValue))
    rw [List.length_append] at hout
    simp only [encFields, Entries.toRecord, Host.record, Host.namedValue, List.append_nil,
      List.length_append, List.length_cons, length_strBytes]
    omega

/-- The entries of a GenMap. -/
theorem length_encPairs_le : ∀ (ps : Pairs), ps.WellFormed →
    (encPairs ps).length ≤ 5 * (Host.genMap ps.toGenMap).length
  | .nil, _ => Nat.zero_le _
  | .cons k v ps, h => by
    have hk := length_enc_le k h.1
    have hv := length_enc_le v h.2.1
    have ih := length_encPairs_le ps h.2.2
    have hkey := length_lenField 1 (Host.value k.toValue)
    have hvalue := length_lenField 2 (Host.value v.toValue)
    have hout := length_lenField 1
      (Host.lenField 1 (Host.value k.toValue) ++ Host.lenField 2 (Host.value v.toValue))
    rw [List.length_append] at hout
    simp only [encPairs, Pairs.toGenMap, Host.genMap, Host.genMapEntry, List.append_nil,
      List.length_append]
    omega

end

/-! ## Nodes -/

/-- A repeated string. -/
theorem length_repeatedField (tag : Nat) (ss : List Bytes) :
    (strsBytes ss).length ≤ 5 * (Host.repeatedField tag ss).length + 4 ∧
      2 * ss.length ≤ (Host.repeatedField tag ss).length := by
  unfold strsBytes Host.repeatedField
  rw [List.length_append, length_int32Bytes]
  induction ss with
  | nil => exact ⟨Nat.le_refl _, Nat.le_refl _⟩
  | cons s ss ih =>
    have hs := length_lenField tag s
    simp only [List.flatMap_cons, List.length_append, length_strBytes, List.length_cons]
    omega

/-- The hashes of children. -/
theorem length_hashesBytes {hs : List Bytes} (h : ∀ x ∈ hs, x.length = 32) :
    (hashesBytes hs).length = 4 + 32 * hs.length := by
  have hflat : hs.flatten.length = 32 * hs.length := by
    induction hs with
    | nil => rfl
    | cons x hs ih =>
      have hx := h x List.mem_cons_self
      have ih := ih fun y hy => h y (List.mem_cons_of_mem _ hy)
      rw [List.flatten_cons, List.length_append, List.length_cons]
      omega
  rw [hashesBytes, List.length_append, length_int32Bytes, hflat]

/-- The fields that say which contract a node is about. -/
theorem length_contractFieldBytes_le {f : NodeFields}
    (h : requireIdentifier (some f.templateId) = true) :
    (contractFieldBytes f).length ≤ f.contractId.length + f.packageName.length + 8 +
      5 * (Host.identifier f.templateId).length := by
  have hid := length_identifierBytes_le h
  have hhex : ∀ s : Bytes, (hexBytes s).length ≤ s.length := by
    intro s
    induction s using hexBytes.induct with
    | case1 hi lo rest ih => simp only [hexBytes, List.length_cons]; omega
    | case2 s hs =>
      rw [hexBytes]
      · exact Nat.zero_le _
      · exact hs
  have hcontract := hhex f.contractId
  simp only [contractFieldBytes, hexWritten, List.length_append, length_int32Bytes, length_strBytes]
  omega

/-- The fields that all nodes with a contract start with, and what they are sent as. -/
theorem length_sharedFields_le {f : NodeFields} (h : requireIdentifier (some f.templateId) = true) :
    f.lfVersion.length + (contractFieldBytes f).length ≤
      5 * ((Host.lenField 1 f.lfVersion).length + (Host.lenField 2 f.contractId).length +
        (Host.lenField 3 f.packageName).length +
        (Host.lenField 4 (Host.identifier f.templateId)).length) := by
  have hfields := length_contractFieldBytes_le h
  have h₁ := length_lenField 1 f.lfVersion
  have h₂ := length_lenField 2 f.contractId
  have h₃ := length_lenField 3 f.packageName
  have h₄ := length_lenField 4 (Host.identifier f.templateId)
  omega

/-- A value, as the field of a message. -/
theorem length_valueField {v : Val} (tag : Nat) (h : v.WellFormed) :
    (enc v).length ≤ 5 * (Host.repeatedField tag [Host.value v.toValue]).length := by
  have hv := length_enc_le v h
  have hfield := length_lenField tag (Host.value v.toValue)
  simp only [Host.repeatedField, List.flatMap_cons, List.flatMap_nil, List.append_nil]
  omega

/-- A node writes at most sixteen bytes for each byte of its message, and a seed. -/
theorem length_node_le {n : NodeVal Val} {ids : List Bytes} (h : n.WellFormed)
    (hv : ∀ v ∈ n.vals, v.WellFormed) (hseed : ∀ a ∈ n.seed, a.length = 32)
    (hchildren : ∀ x ∈ n.children, x.length = 32) (hids : ids.length = n.children.length) :
    (nodeBytes enc (resultWritten enc) n).length ≤
      16 * (Host.nodeKind (n.kind Val.toValue ids)).length + 100 := by
  cases n with
  | create f seed v =>
    have hshared := length_sharedFields_le (h.template f rfl)
    have hvalue := length_valueField 5 (hv v (List.mem_singleton_self _))
    -- the seed comes from the metadata, so it is bounded on its own
    have hseed' : (optSeedBytes seed).length ≤ 33 := by
      cases seed with
      | none => exact Nat.le_add_left _ _
      | some a => exact Nat.succ_le_succ (Nat.le_of_eq (hseed a rfl))
    have h₆ := length_repeatedField 6 f.signatories
    have h₇ := length_repeatedField 7 f.stakeholders
    have hmsg := length_lenField 1 (Host.create (createMsg Val.toValue f v))
    simp only [Host.create, createMsg, Host.optField, Option.map_some, List.map_cons, List.map_nil,
      List.length_append] at hmsg
    simp only [nodeBytes, NodeVal.kind, Host.nodeKind, Host.create, createMsg, Host.optField,
      Option.map_some, List.map_cons, List.map_nil, List.length_append, List.length_cons,
      List.length_nil, length_strBytes]
    omega
  | fetch f acting id =>
    have hshared := length_sharedFields_le (h.template f rfl)
    have hid : (optIdentifierBytes id).length ≤
        5 * (Host.optField 8 (id.map Host.identifier)).length + 1 :=
      length_optIdentifierBytes_le 8 h.interface
    have h₅ := length_repeatedField 5 f.signatories
    have h₆ := length_repeatedField 6 f.stakeholders
    have h₇ := length_repeatedField 7 acting
    -- the message of a fetch as one name, to measure it field by field
    obtain ⟨msg, hmsg⟩ : ∃ msg, msg = Host.lenField 1 f.lfVersion ++ Host.lenField 2 f.contractId ++
        Host.lenField 3 f.packageName ++ Host.lenField 4 (Host.identifier f.templateId) ++
        Host.repeatedField 5 f.signatories ++ Host.repeatedField 6 f.stakeholders ++
        Host.repeatedField 7 acting ++ Host.optField 8 (id.map Host.identifier) := ⟨_, rfl⟩
    have hlen := congrArg List.length hmsg
    have hkind : Host.nodeKind (NodeVal.kind Val.toValue ids (.fetch f acting id)) =
        Host.lenField 2 msg := hmsg ▸ rfl
    have hout := length_lenField 2 msg
    rw [hkind]
    simp only [List.length_append] at hlen
    simp only [nodeBytes, List.length_append, List.length_cons, List.length_nil, length_strBytes]
    omega
  | exercise f e seed v r hashes =>
    have hshared := length_sharedFields_le (h.template f rfl)
    have hid : (optIdentifierBytes e.interfaceId).length ≤
        5 * (Host.optField 8 (e.interfaceId.map Host.identifier)).length + 1 :=
      length_optIdentifierBytes_le 8 h.interface
    have hvalue := length_valueField 10 (hv v List.mem_cons_self)
    have hresult : (resultWritten enc r).length ≤
        5 * (Host.repeatedField 13 ((r.map Val.toValue).toList.map Host.value)).length + 1 := by
      cases r with
      | none => exact Nat.le_refl 1
      | some x =>
        have hx := length_valueField 13 (hv x (List.mem_cons_of_mem _ (List.mem_singleton_self _)))
        exact Nat.succ_le_succ hx
    -- a child is sent as an id of at least two bytes and written as a hash of 32
    have hhashes := length_hashesBytes hchildren
    have hseed' : seed.length = 32 := hseed seed rfl
    have h₅ := length_repeatedField 5 f.signatories
    have h₆ := length_repeatedField 6 f.stakeholders
    have h₇ := length_repeatedField 7 e.actingParties
    have h₉ := length_lenField 9 e.choiceId
    have h₁₂ := length_repeatedField 12 ids
    have h₁₄ := length_repeatedField 14 e.choiceObservers
    obtain ⟨msg, hmsg⟩ : ∃ msg, msg = Host.lenField 1 f.lfVersion ++ Host.lenField 2 f.contractId ++
        Host.lenField 3 f.packageName ++ Host.lenField 4 (Host.identifier f.templateId) ++
        Host.repeatedField 5 f.signatories ++ Host.repeatedField 6 f.stakeholders ++
        Host.repeatedField 7 e.actingParties ++
        Host.optField 8 (e.interfaceId.map Host.identifier) ++ Host.lenField 9 e.choiceId ++
        Host.repeatedField 10 [Host.value v.toValue] ++
        Host.varintField 11 (if e.consuming then 1 else 0) ++ Host.repeatedField 12 ids ++
        Host.repeatedField 13 ((r.map Val.toValue).toList.map Host.value) ++
        Host.repeatedField 14 e.choiceObservers := ⟨_, rfl⟩
    have hlen := congrArg List.length hmsg
    have hkind : Host.nodeKind (NodeVal.kind Val.toValue ids (.exercise f e seed v r hashes)) =
        Host.lenField 3 msg := hmsg ▸ rfl
    have hout := length_lenField 3 msg
    have hids' : ids.length = hashes.length := hids
    have hhashes' : (hashesBytes hashes).length = 4 + 32 * hashes.length := hhashes
    rw [hkind]
    simp only [List.length_append] at hlen
    simp only [nodeBytes, List.length_append, List.length_cons, List.length_nil, length_strBytes]
    omega
  | rollback hashes =>
    have hhashes : (hashesBytes hashes).length = 4 + 32 * hashes.length :=
      length_hashesBytes hchildren
    have hids' : ids.length = hashes.length := hids
    have h₁ := length_repeatedField 1 ids
    have hout := length_lenField 4 (Host.repeatedField 1 ids)
    have hkind : Host.nodeKind (NodeVal.kind Val.toValue ids (.rollback hashes)) =
        Host.lenField 4 (Host.repeatedField 1 ids) := rfl
    rw [hkind]
    simp only [nodeBytes, List.length_append, List.length_cons, List.length_nil]
    omega

end CantonSigner
