import CantonSigner.Display.Typed
import CantonSigner.Flow.Bound
import CantonSigner.Topology.MultiHash

/-!
# What the heap holds

A text of the display pass is read up to its terminator. Where the block that keeps it has
none, the bytes that follow on the heap are read, and these are what earlier flows left there.
They change from one command to the next, so a run meets one heap per command.

Only the end of the display pass reads past a block, and only a Timestamp kept in a field that
is read as text has no terminator. `step_withHeap` says that a command that keeps no such value
(`CommandTyped`) does the same whatever the heap holds.
-/

namespace CantonSigner

open ByteCodec

/-- The device, with other bytes on its heap. -/
def Device.withHeap (d : Device) (heap : Bytes → Bytes) : Device := { d with heapAfter := heap }

variable {d : Device} {heap : Bytes → Bytes}

/-! ## The hashing pass -/

namespace HashingParser

mutual

/-- A value is hashed without looking at the heap, by induction on it with its callbacks. -/
theorem hashValue_withHeap (stack : List Frame) : ∀ (v : Value) (s : VState),
    hashValue (d.withHeap heap) stack v s = hashValue d stack v s
  | .nil, _ => rfl
  | .prim _ rest, s => hashValue_withHeap stack rest s
  | .unit rest, s => hashValue_withHeap stack rest s
  | .optional vs rest, s => by
    rw [hashValue, hashValue, hashElems_withHeap _ vs, funext (hashValue_withHeap stack rest)]
  | .list vs rest, s => by
    rw [hashValue, hashValue, hashElems_withHeap _ vs, funext (hashValue_withHeap stack rest)]
  | .textMap m rest, s => by
    rw [hashValue, hashValue, hashTextMap_withHeap _ m, funext (hashValue_withHeap stack rest)]
  | .genMap m rest, s => by
    rw [hashValue, hashValue, hashGenMap_withHeap _ m, funext (hashValue_withHeap stack rest)]
  | .record r rest, s => by
    rw [hashValue, hashValue, hashRecord_withHeap _ r, funext (hashValue_withHeap stack rest)]
  | .variant v rest, s => by
    rw [hashValue, hashValue, hashVariant_withHeap _ v, funext (hashValue_withHeap stack rest)]
  | .enum _ rest, _ => hashValue_withHeap stack rest _

/-- The elements of a list or an Optional. -/
theorem hashElems_withHeap (stack : List Frame) : ∀ (vs : Values) (s : VState),
    hashElems (d.withHeap heap) stack vs s = hashElems d stack vs s
  | .nil, _ => rfl
  | .cons v rest, s => by
    rw [hashElems, hashElems, hashValue_withHeap stack v, funext (hashElems_withHeap stack rest)]
    rfl

/-- The items of a record field. -/
theorem hashRecordFieldItems_withHeap (stack : List Frame) : ∀ (f : NamedValue) (s : VState),
    hashRecordFieldItems (d.withHeap heap) stack f s = hashRecordFieldItems d stack f s
  | .nil, _ => rfl
  | .name _ rest, _ => hashRecordFieldItems_withHeap stack rest _
  | .value v rest, s => by
    rw [hashRecordFieldItems, hashRecordFieldItems, hashValue_withHeap stack v,
      funext (hashRecordFieldItems_withHeap stack rest)]

/-- The items of a TextMap entry. -/
theorem hashTextMapEntryItems_withHeap (stack : List Frame) : ∀ (f : NamedValue) (s : VState),
    hashTextMapEntryItems (d.withHeap heap) stack f s = hashTextMapEntryItems d stack f s
  | .nil, _ => rfl
  | .name _ rest, _ => hashTextMapEntryItems_withHeap stack rest _
  | .value v rest, s => by
    rw [hashTextMapEntryItems, hashTextMapEntryItems, hashValue_withHeap stack v,
      funext (hashTextMapEntryItems_withHeap stack rest)]

/-- A record. -/
theorem hashRecord_withHeap (stack : List Frame) : ∀ (r : Record) (s : VState),
    hashRecord (d.withHeap heap) stack r s = hashRecord d stack r s
  | .nil, _ => rfl
  | .recordId _ rest, _ => hashRecord_withHeap stack rest _
  | .field f rest, s => by
    rw [hashRecord, hashRecord, hashRecordFieldItems_withHeap stack f,
      funext (hashRecord_withHeap stack rest)]
    rfl

/-- A TextMap. -/
theorem hashTextMap_withHeap (stack : List Frame) : ∀ (m : TextMap) (s : VState),
    hashTextMap (d.withHeap heap) stack m s = hashTextMap d stack m s
  | .nil, _ => rfl
  | .entry e rest, s => by
    rw [hashTextMap, hashTextMap, hashTextMapEntryItems_withHeap stack e,
      funext (hashTextMap_withHeap stack rest)]
    rfl

/-- The keys of a GenMap entry. -/
theorem hashGenMapKeys_withHeap (stack : List Frame) : ∀ (e : GenMapEntry) (s : VState),
    hashGenMapKeys (d.withHeap heap) stack e s = hashGenMapKeys d stack e s
  | .nil, _ => rfl
  | .key v rest, s => by
    rw [hashGenMapKeys, hashGenMapKeys, hashValue_withHeap stack v,
      funext (hashGenMapKeys_withHeap stack rest)]
  | .value _ rest, s => hashGenMapKeys_withHeap stack rest s

/-- The values of a GenMap entry. -/
theorem hashGenMapValues_withHeap (stack : List Frame) : ∀ (e : GenMapEntry) (s : VState),
    hashGenMapValues (d.withHeap heap) stack e s = hashGenMapValues d stack e s
  | .nil, _ => rfl
  | .key _ rest, s => hashGenMapValues_withHeap stack rest s
  | .value v rest, s => by
    rw [hashGenMapValues, hashGenMapValues, hashValue_withHeap stack v,
      funext (hashGenMapValues_withHeap stack rest)]

/-- A GenMap. -/
theorem hashGenMap_withHeap (stack : List Frame) : ∀ (m : GenMap) (s : VState),
    hashGenMap (d.withHeap heap) stack m s = hashGenMap d stack m s
  | .nil, _ => rfl
  | .entry e rest, s => by
    rw [hashGenMap, hashGenMap, hashGenMapKeys_withHeap stack e,
      funext (hashGenMapValues_withHeap stack e), funext (hashGenMap_withHeap stack rest)]
    rfl

/-- A variant. -/
theorem hashVariant_withHeap (stack : List Frame) : ∀ (v : Variant) (s : VState),
    hashVariant (d.withHeap heap) stack v s = hashVariant d stack v s
  | .nil, _ => rfl
  | .variantId _ rest, _ => hashVariant_withHeap stack rest _
  | .constructor _ rest, _ => hashVariant_withHeap stack rest _
  | .value v rest, s => by
    rw [hashVariant, hashVariant, hashValue_withHeap stack v,
      funext (hashVariant_withHeap stack rest)]
    rfl

end

/-- The value of a field. -/
theorem decodeValueField_withHeap :
    decodeValueField (d.withHeap heap) = decodeValueField d := by
  funext field s v
  rw [decodeValueField, decodeValueField, hashValue_withHeap]

/-- The hashing pass over a node part. -/
theorem decodeNodePart_withHeap : decodeNodePart (d.withHeap heap) = decodeNodePart d := by
  have hkind : nodeDecodeCallback (d.withHeap heap) = nodeDecodeCallback d := by
    funext lookup tx ctx k
    cases k with
    | create c =>
      show decodeCreate (d.withHeap heap) tx ctx c = decodeCreate d tx ctx c
      unfold decodeCreate hashCreate HashingParser.decodeValueFields
      rw [decodeValueField_withHeap]
      rfl
    | exercise e =>
      show HashingParser.decodeExercise (d.withHeap heap) lookup tx ctx e =
        HashingParser.decodeExercise d lookup tx ctx e
      unfold HashingParser.decodeExercise hashExercise HashingParser.decodeValueFields
      rw [decodeValueField_withHeap]
      rfl
    | fetch f => rfl
    | rollback r => rfl
    | queryByKey => rfl
  funext lookup tx tree values err part
  refine List.foldlM_congr part ?_ _
  intro item _ ctx
  cases item with
  | nodeId s => rfl
  | v1 kinds =>
    show kinds.foldlM (nodeDecodeCallback (d.withHeap heap) lookup tx) ctx = _
    rw [hkind]
    rfl

/-- And over an input contract. -/
theorem decodeInputContractPart_withHeap :
    decodeInputContractPart (d.withHeap heap) = decodeInputContractPart d := by
  have hcontract : decodeContract (d.withHeap heap) = decodeContract d := by
    funext st c
    unfold decodeContract hashCreate HashingParser.decodeValueFields
    rw [decodeValueField_withHeap]
    rfl
  funext values err ic
  unfold decodeInputContractPart
  rw [hcontract]

end HashingParser

/-! ## The holding parser -/

namespace HoldingParser

mutual

/-- A value is walked for holdings alike. -/
theorem walkValue_withHeap (depth : Nat) : ∀ (v : Value) (s : Ctx),
    walkValue (d.withHeap heap) depth v s = walkValue d depth v s
  | .nil, _ => rfl
  | .record r rest, s => by
    rw [walkValue, walkValue, walkRecord_withHeap (depth + 1) r,
      funext (walkValue_withHeap depth rest)]
    rfl
  | .prim _ rest, s => walkValue_withHeap depth rest s
  | .unit rest, s => walkValue_withHeap depth rest s
  | .optional _ rest, s => walkValue_withHeap depth rest s
  | .list _ rest, s => walkValue_withHeap depth rest s
  | .textMap _ rest, s => walkValue_withHeap depth rest s
  | .genMap _ rest, s => walkValue_withHeap depth rest s
  | .variant _ rest, s => walkValue_withHeap depth rest s
  | .enum _ rest, s => walkValue_withHeap depth rest s

/-- A record. -/
theorem walkRecord_withHeap (depth : Nat) : ∀ (r : Record) (s : Ctx),
    walkRecord (d.withHeap heap) depth r s = walkRecord d depth r s
  | .nil, _ => rfl
  | .recordId _ rest, s => walkRecord_withHeap depth rest s
  | .field f rest, s => by
    rw [walkRecord, walkRecord, walkFieldItems_withHeap depth s.recordsOpened f,
      funext (walkRecord_withHeap depth rest)]
    rfl

/-- The items of a field. -/
theorem walkFieldItems_withHeap (depth before : Nat) : ∀ (f : NamedValue) (s : Ctx)
    (labelled : Bool),
    walkFieldItems (d.withHeap heap) depth before f s labelled =
      walkFieldItems d depth before f s labelled
  | .nil, _, _ => rfl
  | .name _ rest, _, _ => walkFieldItems_withHeap depth before rest _ _
  | .value v rest, s, labelled => by
    rw [walkFieldItems, walkFieldItems, walkValue_withHeap depth v]
    congr 1
    funext s
    exact walkFieldItems_withHeap depth before rest s labelled

end

/-- The holding pass over a node part. -/
theorem valuesCollectFromNode_withHeap :
    valuesCollectFromNode (d.withHeap heap) = valuesCollectFromNode d := by
  have hcreate : decodeCreate (d.withHeap heap) = decodeCreate d := by
    funext store c
    unfold decodeCreate
    rw [show (fun s v => walkValue (d.withHeap heap) 0 v s) = fun s v => walkValue d 0 v s from
      funext fun s => funext fun v => walkValue_withHeap 0 v s]
  have hkinds : ∀ kinds store, decodeNodeKinds (d.withHeap heap) store kinds =
      decodeNodeKinds d store kinds := by
    intro kinds
    induction kinds with
    | nil => exact fun _ => rfl
    | cons k kinds ih =>
      intro store
      cases k with
      | create c =>
        rw [decodeNodeKinds, decodeNodeKinds, hcreate]
        rcases decodeCreate d store c with ⟨store₁, ok⟩
        cases ok with
        | false => rfl
        | true => exact ih store₁
      | _ => exact ih store
  funext store part
  unfold valuesCollectFromNode
  rw [hkinds]

end HoldingParser

/-! ## The display pass -/

namespace DisplayParser

mutual

/-- A value is walked for display alike. -/
theorem walkValue_withHeap (stack : List Frame) : ∀ (v : Value) (s : Ctx),
    walkValue (d.withHeap heap) stack v s = walkValue d stack v s
  | .nil, _ => rfl
  | .prim _ rest, s => walkValue_withHeap stack rest s
  | .record r rest, s => by
    rw [walkValue, walkValue, walkRecord_withHeap _ r]
    congr 1
    funext s
    exact walkValue_withHeap stack rest _
  | .optional vs rest, s => by
    rw [walkValue, walkValue, walkElems_withHeap _ vs, funext (walkValue_withHeap stack rest)]
  | .textMap m rest, s => by
    rw [walkValue, walkValue, walkTextMap_withHeap _ m, funext (walkValue_withHeap stack rest)]
  | .unit rest, _ => walkValue_withHeap stack rest _
  | .list _ rest, _ => walkValue_withHeap stack rest _
  | .genMap _ rest, _ => walkValue_withHeap stack rest _
  | .variant _ rest, _ => walkValue_withHeap stack rest _
  | .enum _ rest, _ => walkValue_withHeap stack rest _

/-- The elements of an Optional. -/
theorem walkElems_withHeap (stack : List Frame) : ∀ (vs : Values) (s : Ctx),
    walkElems (d.withHeap heap) stack vs s = walkElems d stack vs s
  | .nil, _ => rfl
  | .cons v rest, s => by
    rw [walkElems, walkElems, walkValue_withHeap stack v, funext (walkElems_withHeap stack rest)]
    rfl

/-- A record. -/
theorem walkRecord_withHeap (stack : List Frame) : ∀ (r : Record) (s : Ctx),
    walkRecord (d.withHeap heap) stack r s = walkRecord d stack r s
  | .nil, _ => rfl
  | .recordId _ rest, _ => walkRecord_withHeap stack rest _
  | .field f rest, s => by
    rw [walkRecord, walkRecord, walkNamedItems_withHeap stack s.valuesOpened f,
      funext (walkRecord_withHeap stack rest)]
    rfl

/-- A TextMap. -/
theorem walkTextMap_withHeap (stack : List Frame) : ∀ (m : TextMap) (s : Ctx),
    walkTextMap (d.withHeap heap) stack m s = walkTextMap d stack m s
  | .nil, _ => rfl
  | .entry e rest, s => by
    rw [walkTextMap, walkTextMap, walkNamedItems_withHeap stack s.valuesOpened e,
      funext (walkTextMap_withHeap stack rest)]
    rfl

/-- The items of a field or an entry. -/
theorem walkNamedItems_withHeap (stack : List Frame) (before : Nat) :
    ∀ (f : NamedValue) (s : Ctx) (seen : Bool),
      walkNamedItems (d.withHeap heap) stack before f s seen =
        walkNamedItems d stack before f s seen
  | .nil, _, _ => rfl
  | .name _ rest, _, _ => walkNamedItems_withHeap stack before rest _ _
  | .value v rest, s, seen => by
    rw [walkNamedItems, walkNamedItems, walkValue_withHeap stack v]
    congr 1
    funext s
    exact walkNamedItems_withHeap stack before rest s seen

end

/-- The walk over a node part. -/
theorem walkNode_withHeap : walkNode (d.withHeap heap) = walkNode d := by
  have hvalues : walkValues (d.withHeap heap) = walkValues d := by
    funext field s vs
    unfold walkValues
    rw [show (fun s v => walkValue (d.withHeap heap) [field] v s) =
      fun s v => walkValue d [field] v s from
      funext fun s => funext fun v => walkValue_withHeap [field] v s]
  have hkind : nodeDecodeCallback (d.withHeap heap) = nodeDecodeCallback d := by
    funext s k
    unfold nodeDecodeCallback
    rw [hvalues]
  funext s part
  unfold walkNode
  rw [hkind]

/-- And over an input contract. -/
theorem walkInputContract_withHeap : walkInputContract (d.withHeap heap) = walkInputContract d := by
  have hcreate : decodeCreate (d.withHeap heap) = decodeCreate d := by
    funext s c
    unfold decodeCreate
    refine List.foldlM_congr _ ?_ _
    intro v _ s
    exact walkElems_withHeap _ _ s
  funext s ic
  unfold walkInputContract
  rw [hcreate]

/-- The end of the pass reads nothing after a block, if the first value found for each field
has a type that the field expects. -/
theorem finishParsing_withHeap {found : List Found} {s : Ctx} {values : ValuesStore}
    (h : Finds d found s) (htyped : ∀ c, s.conf = some c → FirstExpected found c) :
    finishParsing (d.withHeap heap) values s = finishParsing d values s := by
  cases hc : s.conf with
  | none =>
    unfold finishParsing
    rw [hc]
    cases s.fields <;> rfl
  | some c => exact finishParsing_first h hc (htyped c hc)

end DisplayParser

/-! ## A prepared transaction -/

open DisplayParser in
/-- The walk of a part while no screen has been found: what it finds, and where it ends. -/
def partWalk (d : Device) (st : Prepared) (buf : Bytes) : Option (List Found × Ctx) :=
  if st.review.clearSigningAvailable || st.review.displayFailed then none
  else
    match st.txState, st.globals with
    | .damlNodes, none => do
      let part ← decodeNode buf
      let s ← walkNode d (.start none st.review) part
      some (foundNode d (.start none st.review) part, s)
    | .metadataInputContracts, some m => do
      let ic ← decodeInputContract buf
      let s ← walkInputContract d (.start (some m) st.review) ic
      some (foundContract d (.start (some m) st.review) ic, s)
    | _, _ => none

/-- The first value that a part has for each field of the screen that it selects has a type
that the field expects. -/
def PartTyped (d : Device) (st : Prepared) (buf : Bytes) : Prop :=
  ∀ w, partWalk d st buf = some w → ∀ c, w.2.conf = some c → DisplayParser.FirstExpected w.1 c

variable {st st' : Prepared} {parsed : Bool} {buf : Bytes} {values : ValuesStore}

open DisplayParser in
/-- A node part whose blocks are of the types their fields expect is shown alike. -/
theorem parseNodeForDisplay_withHeap {part : NodePart} (hstate : st.txState = .damlNodes)
    (hdec : decodeNode buf = some part) (htyped : PartTyped d st buf) :
    parseNodeForDisplay (d.withHeap heap) st.globals st.review values part =
      parseNodeForDisplay d st.globals st.review values part := by
  unfold parseNodeForDisplay
  rw [walkNode_withHeap]
  split
  · rfl
  · rename_i hskip
    simp only [Bool.or_eq_true, not_or, Bool.not_eq_true, Option.isSome_eq_false_iff,
      Option.isNone_iff_eq_none] at hskip
    obtain ⟨⟨hclear, hfailed⟩, hnone⟩ := hskip
    cases hwalk : walkNode d (.start none st.review) part with
    | none => rfl
    | some s =>
      refine finishParsing_withHeap (.node hwalk)
        (htyped (foundNode d (.start none st.review) part, s) ?_)
      simp [partWalk, hclear, hfailed, hstate, hnone, hdec, hwalk]

open DisplayParser in
/-- So is an input contract. -/
theorem parseInputContractForDisplay_withHeap {ic : InputContract}
    (hstate : st.txState = .metadataInputContracts) (hdec : decodeInputContract buf = some ic)
    (htable : ∀ m, st.globals = some m → m.conf ∈ displayConfigs) (htyped : PartTyped d st buf) :
    parseInputContractForDisplay (d.withHeap heap) st.globals st.review values ic =
      parseInputContractForDisplay d st.globals st.review values ic := by
  unfold parseInputContractForDisplay
  rw [walkInputContract_withHeap]
  split
  · rfl
  · rename_i hskip
    cases hg : st.globals with
    | none =>
      rw [hg] at hskip
      simp at hskip
    | some m =>
      simp only [Bool.or_eq_true, not_or, Bool.not_eq_true] at hskip
      obtain ⟨⟨hclear, hfailed⟩, -⟩ := hskip
      cases hwalk : walkInputContract d (.start (some m) st.review) ic with
      | none => rfl
      | some s =>
        refine finishParsing_withHeap (.contract (htable m hg) hwalk)
          (htyped (foundContract d (.start (some m) st.review) ic, s) ?_)
        simp [partWalk, hclear, hfailed, hstate, hg, hdec, hwalk]

/-- A node part. -/
theorem receiveNode_withHeap {part : NodePart} (hstate : st.txState = .damlNodes)
    (hdec : decodeNode buf = some part) (htyped : PartTyped d st buf) :
    receiveNode (d.withHeap heap) st part = receiveNode d st part := by
  have hhash : hashNodePart (d.withHeap heap) st part = hashNodePart d st part := by
    unfold hashNodePart
    rw [HashingParser.decodeNodePart_withHeap]
  unfold receiveNode
  rw [hhash]
  cases hashNodePart d st part with
  | none => rfl
  | some ctx =>
    have hrecord : recordNode (d.withHeap heap) st ctx = recordNode d st ctx := rfl
    have hkept : (recordNode d st ctx).globals = st.globals ∧
        (recordNode d st ctx).review = st.review := by
      unfold recordNode
      cases ctx.isRootNode <;> exact ⟨rfl, rfl⟩
    dsimp only
    rw [hrecord, HoldingParser.valuesCollectFromNode_withHeap]
    unfold displayNodePart
    dsimp only
    rw [hkept.1, hkept.2, parseNodeForDisplay_withHeap hstate hdec htyped]

/-- An input contract. -/
theorem receiveInputContract_withHeap {ic : InputContract}
    (hstate : st.txState = .metadataInputContracts) (hdec : decodeInputContract buf = some ic)
    (htable : ∀ m, st.globals = some m → m.conf ∈ displayConfigs) (htyped : PartTyped d st buf) :
    receiveInputContract (d.withHeap heap) parsed st ic = receiveInputContract d parsed st ic := by
  unfold receiveInputContract
  rw [HashingParser.decodeInputContractPart_withHeap]
  cases HashingParser.decodeInputContractPart d st.values st.hashErr ic with
  | none => rfl
  | some r =>
    dsimp only
    rw [parseInputContractForDisplay_withHeap hstate hdec htable htyped]
    rfl

/-- A message of a prepared transaction. -/
theorem processPreparedTxPart_withHeap
    (htable : ∀ m, st.globals = some m → m.conf ∈ displayConfigs) (htyped : PartTyped d st buf) :
    processPreparedTxPart (d.withHeap heap) parsed st buf =
      processPreparedTxPart d parsed st buf := by
  unfold processPreparedTxPart
  cases hstate : st.txState with
  | damlTxPart => rfl
  | damlNodes =>
    cases hdec : decodeNode buf with
    | none => rfl
    | some part => exact receiveNode_withHeap hstate hdec htyped
  | metadata => rfl
  | metadataInputContracts =>
    cases hdec : decodeInputContract buf with
    | none => rfl
    | some ic => exact receiveInputContract_withHeap hstate hdec htable htyped

/-! ## A topology flow -/

/-- A message of a topology flow: the buffer of the multi-hash is full. -/
theorem processUntypedVersionedMsgTx_withHeap {t : Topology} {log : List PartEvent}
    (h : HashesOf d t log) :
    processUntypedVersionedMsgTx (d.withHeap heap) parsed t buf =
      processUntypedVersionedMsgTx d parsed t buf := by
  have hparse : parseTopologyTransactionForDisplay (d.withHeap heap) =
      parseTopologyTransactionForDisplay d := rfl
  unfold processUntypedVersionedMsgTx
  cases hhashes : t.txHashes with
  | none => rfl
  | some hashes =>
    obtain ⟨rfl, -⟩ := h hashes hhashes
    have hmulti : multiHash (d.withHeap heap) ((partBuffers log ++ [buf]).map (cantonHash d 11)) =
        multiHash d ((partBuffers log ++ [buf]).map (cantonHash d 11)) :=
      (multiHash_eq (d.withHeap heap) _).trans (multiHash_eq d _).symm
    rw [List.map_append, List.map_singleton] at hmulti
    have hfinish : ∀ t, finishTopology (d.withHeap heap) t
          ((partBuffers log).map (cantonHash d 11) ++ [cantonHash d 11 buf]) =
        finishTopology d t ((partBuffers log).map (cantonHash d 11) ++ [cantonHash d 11 buf]) := by
      intro t
      unfold finishTopology
      rw [hmulti]
      rfl
    dsimp only
    rw [hparse, show cantonHash (d.withHeap heap) 11 buf = cantonHash d 11 buf from rfl]
    simp only [hfinish]

/-! ## The app -/

variable {a : App}

/-- What is so in every state of a run: a deferred screen is one of the table, and the hashes of
an open topology flow are those of its messages. -/
structure App.Regular (d : Device) (a : App) : Prop where
  deferred : a.Receiving → ∀ m, a.prep.globals = some m → m.conf ∈ displayConfigs
  hashes : a.ReceivingTopology → ∃ log, HashesOf d a.topology log

/-- The app starts so. -/
theorem regular_powerUp (allow : Bool) : (App.powerUp allow).Regular d :=
  ⟨fun h => absurd h.1 (by simp [App.powerUp]), fun h => absurd h.1 (by simp [App.powerUp])⟩

/-- A deferred screen is one of the table. -/
theorem deferredRelation : FlowRelation d (fun _ _ _ _ => True)
    (fun st _ => ∀ m, st.globals = some m → m.conf ∈ displayConfigs) := by
  refine ⟨?_, ?_, fun _ _ _ _ h => h⟩
  · rintro st ⟨p, rfl⟩ m hm
    cases hm
  · intro st log parsed buf st' h _ hacc m hm
    have hstep : (recorded d).step (st, []) (.part parsed buf) =
        some (st', nextHistory st [] (.part parsed buf)) := by simp [recorded, receiving, hacc]
    obtain ⟨new, -, hs⟩ := recorded_step_cases hstep
    rcases displayStep_of_recorded hs with hkept | hwalk | hwalk
    · exact h m (hkept.globals m hm)
    · obtain ⟨_, _, part, s, -, -, -, -, -, -, -, hwalk, hfinish⟩ := hwalk
      exact (fieldsInv_node hwalk).2 m (hfinish.globals m hm)
    · obtain ⟨_, _, ic, m₀, s, -, -, -, -, -, hm₀, hwalk, hfinish⟩ := hwalk
      exact (fieldsInv_contract (h m₀ hm₀) hwalk).2 m (hfinish.globals m hm)

/-- Any event keeps this, whatever the heap holds. -/
theorem regular_step (h : a.Regular d) (e : Event) : (step (d.withHeap heap) a e).1.Regular d := by
  constructor
  · have hok : onMessages (d.withHeap heap) (fun _ _ _ _ => True) (a, []) e :=
      fun _ _ _ _ => trivial
    exact deferredRelation.step hok h.deferred
  · intro hr
    by_cases ha : a.ReceivingTopology
    · obtain ⟨log, hlog⟩ := h.hashes ha
      exact ⟨_, (@topologyRelation_hashes (d.withHeap heap)).step (fun _ => hlog) hr⟩
    · have hlog : a.ReceivingTopology → HashesOf d a.topology [] := fun h => absurd h ha
      exact ⟨_, (@topologyRelation_hashes (d.withHeap heap)).step hlog hr⟩

/-- The part that a command completes keeps no Timestamp in a field that is read as text. -/
def CommandTyped (d : Device) (a : App) (c : Command) : Prop :=
  ∀ parsed buf, messageOf d a (.apdu c) = some (parsed, buf) →
    a.signingType = .preparedTransaction → PartTyped d a.prepared buf

/-- A message is processed alike, as long as its part is typed. -/
theorem processMessage_withHeap (h : a.Regular d) (hopen : a.reqType = .confirmTransaction)
    (htyped : a.signingType = .preparedTransaction → PartTyped d a.prepared buf) :
    processMessage (d.withHeap heap) a buf = processMessage d a buf := by
  unfold processMessage
  cases htype : a.signingType with
  | hash => rfl
  | preparedTransaction =>
    dsimp only
    rw [processPreparedTxPart_withHeap (h.deferred ⟨hopen, htype⟩) (htyped htype)]
  | untypedVersionedMessage =>
    obtain ⟨log, hlog⟩ := h.hashes ⟨hopen, htype⟩
    dsimp only
    rw [processUntypedVersionedMsgTx_withHeap hlog]

/-- A continuation. -/
theorem continueFlow_withHeap (h : a.Regular d) {c : Command} {more msgEnd : Bool} {data : Bytes}
    (hreq : request a (.apdu c) = .next more msgEnd data) (htyped : CommandTyped d a c) :
    continueFlow (d.withHeap heap) a more msgEnd data = continueFlow d a more msgEnd data := by
  have hmessage : ∀ a₁ buf, processNextChunk d a more msgEnd data = (a₁, 0, some buf) →
      processAndAnswer (d.withHeap heap) a₁ buf = processAndAnswer d a₁ buf := by
    intro a₁ buf hchunk
    have hmsg : messageOf d a (.apdu c) = some (msgEnd && !more, buf) := by
      simp [messageOf, hreq, hchunk]
    obtain ⟨hopen, state, raw, rfl⟩ := processNextChunk_message hchunk
    unfold processAndAnswer
    rw [processMessage_withHeap (a := { a with rawTx := raw, state := state })
      ⟨h.deferred, h.hashes⟩ hopen (htyped _ _ hmsg)]
  unfold continueFlow
  rw [show processNextChunk (d.withHeap heap) a more msgEnd data =
    processNextChunk d a more msgEnd data from rfl]
  rcases hchunk : processNextChunk d a more msgEnd data with ⟨a₁, sw, message⟩
  dsimp only
  split
  · rfl
  · rename_i hsw
    rw [not_not] at hsw
    subst hsw
    cases message with
    | none => rfl
    | some buf => exact hmessage a₁ buf hchunk

/-- A command does the same **whatever the heap holds**, if it completes no part that has a
Timestamp for a field that is read as text. -/
theorem step_withHeap (h : a.Regular d) {c : Command} (htyped : CommandTyped d a c) :
    step (d.withHeap heap) a (.apdu c) = step d a (.apdu c) := by
  cases hreq : request a (.apdu c) with
  | untouched =>
    rw [step_untouched_command hreq, step_untouched_command hreq]
    rfl
  | getPublicKey data display =>
    rw [step_getPublicKey hreq, step_getPublicKey hreq]
    rfl
  | first type data =>
    rw [step_first hreq, step_first hreq]
    rfl
  | next more msgEnd data =>
    rw [step_next hreq, step_next hreq]
    exact continueFlow_withHeap h hreq htyped
  | decide confirm => exact absurd hreq request_command_ne_decide

end CantonSigner
