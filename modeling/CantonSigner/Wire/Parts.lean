import CantonSigner.Wire.Values
import CantonSigner.Model.Decode

/-!
# Parts, written and read

What the host writes for the header, a node part, the metadata or an input contract is read
back as it was (`decodeNode_node` and its three siblings), for every message whose strings are C
strings, whose integers fit their types and that is shorter than 4 GiB.

A message struct is read one field occurrence after the other, so it is enough to know what
each stretch of the message does to the struct: `Stretch step b s t` says that reading `b`
takes the struct from `s` to `t`, whatever follows. The lemmas of the section below build the
stretches of the field kinds of the schemas; the decoders are then read off field by field.
-/

namespace CantonSigner

open ByteCodec Wire

/-! ## Stretches of a message -/

section Stretches

variable {σ β : Type} {step : σ → Field → Option σ} {x y : Bytes} {s t u : σ} {tag : Nat}

/-- Reading the stretch `b` takes the struct from `s` to `t`. -/
def Stretch (step : σ → Field → Option σ) (b : Bytes) (s t : σ) : Prop :=
  b.length < 2 ^ 32 → ∀ rest, (parseFields (b ++ rest)).bind (List.foldlM step s) =
    (parseFields rest).bind (List.foldlM step t)

theorem Stretch.nil : Stretch step [] s s := fun _ _ => rfl

theorem Stretch.append (h : Stretch step x s t) (h' : Stretch step y t u) :
    Stretch step (x ++ y) s u := by
  intro hlen rest
  rw [List.length_append] at hlen
  rw [List.append_assoc, h (by omega), h' (by omega)]

/-- A message that is one stretch. -/
theorem Stretch.decode (h : Stretch step x s t) (hlen : x.length < 2 ^ 32) :
    decodeInto step s x = some t := by
  have := h hlen []
  rwa [List.append_nil, parseFields_nil] at this

/-- One field, by how it starts. -/
theorem Stretch.field {p : Payload}
    (hread : x.length < 2 ^ 32 → ∀ rest,
      parseFields (x ++ rest) = (parseFields rest).map (⟨tag, p⟩ :: ·))
    (hstep : x.length < 2 ^ 32 → step s ⟨tag, p⟩ = some t) : Stretch step x s t := by
  intro hlen rest
  rw [hread hlen]
  cases parseFields rest with
  | none => rfl
  | some fs =>
    rw [Option.map_some, Option.bind_some, Option.bind_some, List.foldlM_cons, hstep hlen]
    rfl

theorem Stretch.lenField {content : Bytes} (htag : 0 < tag) (hlt : tag < 2 ^ 29)
    (hstep : content.length + 2 < 2 ^ 32 → step s ⟨tag, .len content⟩ = some t) :
    Stretch step (Host.lenField tag content) s t := by
  have hlen := length_lenField tag content
  exact .field (fun h rest => parseFields_lenField htag hlt (by omega) rest)
    fun h => hstep (by omega)

theorem Stretch.varintField {n : Nat} (htag : 0 < tag) (hlt : tag < 2 ^ 29) (hn : n < 2 ^ 64)
    (hstep : step s ⟨tag, .varint (Host.varint n)⟩ = some t) :
    Stretch step (Host.varintField tag n) s t :=
  .field (fun _ rest => parseFields_varintField htag hlt hn rest) fun _ => hstep

/-- A repeated field: `f` is the struct by what has been read of it. -/
theorem Stretch.flatMap {f : List β → σ} {g : β → Bytes} {xs : List β}
    (h : ∀ l, ∀ b ∈ xs, Stretch step (g b) (f l) (f (l ++ [b]))) :
    Stretch step (xs.flatMap g) (f []) (f xs) := by
  suffices hgen : ∀ l, Stretch step (xs.flatMap g) (f l) (f (l ++ xs)) from hgen []
  induction xs with
  | nil =>
    intro l
    rw [List.append_nil]
    exact .nil
  | cons b xs ih =>
    intro l
    have hrest := ih (fun l c hc => h l c (List.mem_cons_of_mem b hc)) (l ++ [b])
    rw [List.append_assoc] at hrest
    exact (h l b List.mem_cons_self).append hrest

/-- Strings of a repeated field. -/
theorem Stretch.strings {f : List Bytes → σ} {ss : List Bytes} (htag : 0 < tag)
    (hlt : tag < 2 ^ 29) (hs : ∀ s ∈ ss, NulFree s)
    (hstep : ∀ l b, step (f l) ⟨tag, .len b⟩ =
      (Payload.len b).string.map fun c => f (l ++ [c])) :
    Stretch step (Host.repeatedField tag ss) (f []) (f ss) := by
  refine .flatMap fun l b hb => .lenField htag hlt fun _ => ?_
  rw [hstep, string_len (hs b hb)]
  rfl

/-- Values of a repeated field. -/
theorem Stretch.values {f : List Value → σ} {vs : List Value} (htag : 0 < tag)
    (hlt : tag < 2 ^ 29) (hv : ∀ v ∈ vs, v.Sendable)
    (hstep : ∀ l b, step (f l) ⟨tag, .len b⟩ = (decodeValue b).map fun v => f (l ++ [v])) :
    Stretch step (Host.repeatedField tag (vs.map Host.value)) (f []) (f vs) := by
  rw [Host.repeatedField, List.flatMap_map]
  refine .flatMap fun l v hmem => .lenField htag hlt fun hlen => ?_
  rw [hstep, decodeValue_value (hv v hmem) (by omega)]
  rfl

/-- A field that may be absent: `f` is the struct by what has been read of it. -/
theorem Stretch.optField {f : Option β → σ} {g : β → Bytes} {o : Option β} (htag : 0 < tag)
    (hlt : tag < 2 ^ 29)
    (hstep : ∀ b ∈ o, (g b).length + 2 < 2 ^ 32 →
      step (f none) ⟨tag, .len (g b)⟩ = some (f (some b))) :
    Stretch step (Host.optField tag (o.map g)) (f none) (f o) := by
  cases o with
  | none => exact .nil
  | some b => exact .lenField htag hlt (hstep b rfl)

/-- A string that may be absent. -/
theorem Stretch.string {f : Option Bytes → σ} {o : Option Bytes} (htag : 0 < tag)
    (hlt : tag < 2 ^ 29) (ho : ∀ s ∈ o, NulFree s)
    (hstep : ∀ b, step (f none) ⟨tag, .len b⟩ = (Payload.len b).string.map fun c => f (some c)) :
    Stretch step (Host.optField tag o) (f none) (f o) := by
  have h : Stretch step (Host.optField tag (o.map id)) (f none) (f o) :=
    .optField htag hlt fun b hb _ => by
      rw [id_eq, hstep, string_len (ho b hb)]
      rfl
  rwa [Option.map_id_fun, id_eq] at h

/-- An identifier that may be absent. -/
theorem Stretch.identifier {f : Option Identifier → σ} {o : Option Identifier} (htag : 0 < tag)
    (hlt : tag < 2 ^ 29) (ho : ∀ i ∈ o, i.Sendable)
    (hstep : ∀ b, step (f none) ⟨tag, .len b⟩ =
      (decodeIdentifier b).map fun i => f (some i)) :
    Stretch step (Host.optField tag (o.map Host.identifier)) (f none) (f o) := by
  refine .optField htag hlt fun i hi hlen => ?_
  rw [hstep, decodeIdentifier_identifier (ho i hi) (by omega)]
  rfl

end Stretches

/-! ## Node parts -/

/-- Every string of an optional or repeated field is a C string. -/
abbrev OptString (o : Option Bytes) : Prop := ∀ s ∈ o, NulFree s
abbrev Strings (ss : List Bytes) : Prop := ∀ s ∈ ss, NulFree s
abbrev OptSendable (o : Option Identifier) : Prop := ∀ i ∈ o, i.Sendable

/-- The strings of a create are C strings, its values are sendable and sent as messages. -/
structure Create.Sendable (c : Create) : Prop where
  lfVersion : OptString c.lfVersion
  contractId : OptString c.contractId
  packageName : OptString c.packageName
  templateId : OptSendable c.templateId
  argument : ∀ v ∈ c.argument, v.Sendable
  argumentIsMessage : c.argumentIsMessage = true
  signatories : Strings c.signatories
  stakeholders : Strings c.stakeholders

theorem decodeCreate_create {c : Create} (h : c.Sendable) (hlen : (Host.create c).length < 2 ^ 32) :
    decodeCreate (Host.create c) = some c := by
  obtain ⟨lf, cid, pn, tid, arg, aim, sig, sta⟩ := c
  obtain ⟨hlf, hcid, hpn, htid, harg, rfl, hsig, hsta⟩ := h
  refine Stretch.decode ?_ hlen
  unfold Host.create
  iterate 6 apply Stretch.append
  · exact .string (f := fun o => (⟨o, none, none, none, [], true, [], []⟩ : Create))
      (by decide) (by decide) hlf fun _ => rfl
  · exact .string (f := fun o => (⟨lf, o, none, none, [], true, [], []⟩ : Create))
      (by decide) (by decide) hcid fun _ => rfl
  · exact .string (f := fun o => (⟨lf, cid, o, none, [], true, [], []⟩ : Create))
      (by decide) (by decide) hpn fun _ => rfl
  · exact .identifier (f := fun o => (⟨lf, cid, pn, o, [], true, [], []⟩ : Create))
      (by decide) (by decide) htid fun _ => rfl
  · exact .values (f := fun l => (⟨lf, cid, pn, tid, l, true, [], []⟩ : Create))
      (by decide) (by decide) harg fun _ _ => rfl
  · exact .strings (f := fun l => (⟨lf, cid, pn, tid, arg, true, l, []⟩ : Create))
      (by decide) (by decide) hsig fun _ _ => rfl
  · exact .strings (f := fun l => (⟨lf, cid, pn, tid, arg, true, sig, l⟩ : Create))
      (by decide) (by decide) hsta fun _ _ => rfl

/-- The strings of a fetch are C strings. -/
structure Fetch.Sendable (f : Fetch) : Prop where
  lfVersion : OptString f.lfVersion
  contractId : OptString f.contractId
  packageName : OptString f.packageName
  templateId : OptSendable f.templateId
  signatories : Strings f.signatories
  stakeholders : Strings f.stakeholders
  actingParties : Strings f.actingParties
  interfaceId : OptSendable f.interfaceId

theorem decodeFetch_fetch {f : Fetch} (h : f.Sendable) (hlen : (Host.fetch f).length < 2 ^ 32) :
    decodeFetch (Host.fetch f) = some f := by
  obtain ⟨lf, cid, pn, tid, sig, sta, act, iid⟩ := f
  obtain ⟨hlf, hcid, hpn, htid, hsig, hsta, hact, hiid⟩ := h
  refine Stretch.decode ?_ hlen
  unfold Host.fetch
  iterate 7 apply Stretch.append
  · exact .string (f := fun o => (⟨o, none, none, none, [], [], [], none⟩ : Fetch))
      (by decide) (by decide) hlf fun _ => rfl
  · exact .string (f := fun o => (⟨lf, o, none, none, [], [], [], none⟩ : Fetch))
      (by decide) (by decide) hcid fun _ => rfl
  · exact .string (f := fun o => (⟨lf, cid, o, none, [], [], [], none⟩ : Fetch))
      (by decide) (by decide) hpn fun _ => rfl
  · exact .identifier (f := fun o => (⟨lf, cid, pn, o, [], [], [], none⟩ : Fetch))
      (by decide) (by decide) htid fun _ => rfl
  · exact .strings (f := fun l => (⟨lf, cid, pn, tid, l, [], [], none⟩ : Fetch))
      (by decide) (by decide) hsig fun _ _ => rfl
  · exact .strings (f := fun l => (⟨lf, cid, pn, tid, sig, l, [], none⟩ : Fetch))
      (by decide) (by decide) hsta fun _ _ => rfl
  · exact .strings (f := fun l => (⟨lf, cid, pn, tid, sig, sta, l, none⟩ : Fetch))
      (by decide) (by decide) hact fun _ _ => rfl
  · exact .identifier (f := fun o => (⟨lf, cid, pn, tid, sig, sta, act, o⟩ : Fetch))
      (by decide) (by decide) hiid fun _ => rfl

/-- The strings of an exercise are C strings, its values are sendable and sent as messages. -/
structure Exercise.Sendable (e : Exercise) : Prop where
  lfVersion : OptString e.lfVersion
  contractId : OptString e.contractId
  packageName : OptString e.packageName
  templateId : OptSendable e.templateId
  signatories : Strings e.signatories
  stakeholders : Strings e.stakeholders
  actingParties : Strings e.actingParties
  interfaceId : OptSendable e.interfaceId
  choiceId : OptString e.choiceId
  chosenValue : ∀ v ∈ e.chosenValue, v.Sendable
  chosenValueIsMessage : e.chosenValueIsMessage = true
  children : Strings e.children
  exerciseResult : ∀ v ∈ e.exerciseResult, v.Sendable
  choiceObservers : Strings e.choiceObservers

theorem decodeExercise_exercise {e : Exercise} (h : e.Sendable)
    (hlen : (Host.exercise e).length < 2 ^ 32) : decodeExercise (Host.exercise e) = some e := by
  obtain ⟨lf, cid, pn, tid, sig, sta, act, iid, cho, val, vim, con, chi, res, obs⟩ := e
  obtain ⟨hlf, hcid, hpn, htid, hsig, hsta, hact, hiid, hcho, hval, rfl, hchi, hres, hobs⟩ := h
  refine Stretch.decode ?_ hlen
  unfold Host.exercise
  -- one stretch for each field; `f` is the message after the fields before it
  iterate 13 apply Stretch.append
  · exact .string (f := fun o =>
      (⟨o, none, none, none, [], [], [], none, none, [], true, false, [], [], []⟩ : Exercise))
      (by decide) (by decide) hlf fun _ => rfl
  · exact .string (f := fun o =>
      (⟨lf, o, none, none, [], [], [], none, none, [], true, false, [], [], []⟩ : Exercise))
      (by decide) (by decide) hcid fun _ => rfl
  · exact .string (f := fun o =>
      (⟨lf, cid, o, none, [], [], [], none, none, [], true, false, [], [], []⟩ : Exercise))
      (by decide) (by decide) hpn fun _ => rfl
  · exact .identifier (f := fun o =>
      (⟨lf, cid, pn, o, [], [], [], none, none, [], true, false, [], [], []⟩ : Exercise))
      (by decide) (by decide) htid fun _ => rfl
  · exact .strings (f := fun l =>
      (⟨lf, cid, pn, tid, l, [], [], none, none, [], true, false, [], [], []⟩ : Exercise))
      (by decide) (by decide) hsig fun _ _ => rfl
  · exact .strings (f := fun l =>
      (⟨lf, cid, pn, tid, sig, l, [], none, none, [], true, false, [], [], []⟩ : Exercise))
      (by decide) (by decide) hsta fun _ _ => rfl
  · exact .strings (f := fun l =>
      (⟨lf, cid, pn, tid, sig, sta, l, none, none, [], true, false, [], [], []⟩ : Exercise))
      (by decide) (by decide) hact fun _ _ => rfl
  · exact .identifier (f := fun o =>
      (⟨lf, cid, pn, tid, sig, sta, act, o, none, [], true, false, [], [], []⟩ : Exercise))
      (by decide) (by decide) hiid fun _ => rfl
  · exact .string (f := fun o =>
      (⟨lf, cid, pn, tid, sig, sta, act, iid, o, [], true, false, [], [], []⟩ : Exercise))
      (by decide) (by decide) hcho fun _ => rfl
  · exact .values (f := fun l =>
      (⟨lf, cid, pn, tid, sig, sta, act, iid, cho, l, true, false, [], [], []⟩ : Exercise))
      (by decide) (by decide) hval fun _ _ => rfl
  · -- the flag is sent as a varint of zero or one
    refine .varintField (t :=
      (⟨lf, cid, pn, tid, sig, sta, act, iid, cho, val, true, con, [], [], []⟩ : Exercise))
      (by decide) (by decide) (by split <;> decide) ?_
    cases con <;> simp [exerciseField, Payload.bool, varint32_varint]
  · exact .strings (f := fun l =>
      (⟨lf, cid, pn, tid, sig, sta, act, iid, cho, val, true, con, l, [], []⟩ : Exercise))
      (by decide) (by decide) hchi fun _ _ => rfl
  · exact .values (f := fun l =>
      (⟨lf, cid, pn, tid, sig, sta, act, iid, cho, val, true, con, chi, l, []⟩ : Exercise))
      (by decide) (by decide) hres fun _ _ => rfl
  · exact .strings (f := fun l =>
      (⟨lf, cid, pn, tid, sig, sta, act, iid, cho, val, true, con, chi, res, l⟩ : Exercise))
      (by decide) (by decide) hobs fun _ _ => rfl

theorem decodeRollback_rollback {r : Rollback} (h : Strings r.children)
    (hlen : (Host.repeatedField 1 r.children).length < 2 ^ 32) :
    decodeRollback (Host.repeatedField 1 r.children) = some r :=
  Stretch.decode (.strings (f := fun l => (⟨l⟩ : Rollback)) (by decide) (by decide) h
    fun _ _ => rfl) hlen

/-- The node is sendable. -/
def NodeKind.Sendable : NodeKind → Prop
  | .create c => c.Sendable
  | .fetch f => f.Sendable
  | .exercise e => e.Sendable
  | .rollback r => Strings r.children
  | .queryByKey => True

theorem decodeNodeKinds_nodeKinds {ks : List NodeKind} (h : ∀ k ∈ ks, k.Sendable)
    (hlen : (ks.flatMap Host.nodeKind).length < 2 ^ 32) :
    decodeNodeKinds (ks.flatMap Host.nodeKind) = some ks := by
  refine Stretch.decode (.flatMap (f := fun l => l) fun l k hk => ?_) hlen
  have hk := h k hk
  cases k with
  | create c =>
    refine .lenField (by decide) (by decide) fun hlt => ?_
    simp [Payload.content, decodeCreate_create hk (by omega)]
  | fetch f =>
    refine .lenField (by decide) (by decide) fun hlt => ?_
    simp [Payload.content, decodeFetch_fetch hk (by omega)]
  | exercise e =>
    refine .lenField (by decide) (by decide) fun hlt => ?_
    simp [Payload.content, decodeExercise_exercise hk (by omega)]
  | rollback r =>
    refine .lenField (by decide) (by decide) fun hlt => ?_
    simp [Payload.content, decodeRollback_rollback hk (by omega)]
  | queryByKey => exact .lenField (by decide) (by decide) fun _ => rfl

/-- Every node of a part is sendable; its ids are read as bytes. -/
def PartSendable (part : NodePart) : Prop := ∀ k ∈ nodeKinds part, k.Sendable

theorem kind_mem_part {part : NodePart} {ks : List NodeKind} {k : NodeKind}
    (hmem : NodeItem.v1 ks ∈ part) (hk : k ∈ ks) : k ∈ nodeKinds part := by
  induction part with
  | nil => cases hmem
  | cons item part ih =>
    rcases List.mem_cons.mp hmem with rfl | hrest
    · exact List.mem_append_left _ hk
    · cases item with
      | nodeId s => exact ih hrest
      | v1 ks' => exact List.mem_append_right _ (ih hrest)

theorem decodeNode_node {part : NodePart} (h : PartSendable part)
    (hlen : (Host.node part).length < 2 ^ 32) : decodeNode (Host.node part) = some part := by
  refine Stretch.decode (.flatMap (f := fun l => l) fun l item hitem => ?_) hlen
  cases item with
  | nodeId s => exact .lenField (by decide) (by decide) fun _ => rfl
  | v1 ks =>
    refine .lenField (by decide) (by decide) fun hlt => ?_
    have hks : decodeNodeKinds (ks.flatMap Host.nodeKind) = some ks :=
      decodeNodeKinds_nodeKinds (fun k hk => h k (kind_mem_part hitem hk)) (by omega)
    simp [Payload.content, hks]

/-! ## Input contracts -/

/-- The contracts are sendable and the time is a `uint64`. -/
structure InputContract.Sendable (ic : InputContract) : Prop where
  v1 : ∀ c ∈ ic.v1, c.Sendable
  createdAt : ic.createdAt < 2 ^ 64

theorem decodeInputContract_inputContract {ic : InputContract} (h : ic.Sendable)
    (hlen : (Host.inputContract ic).length < 2 ^ 32) :
    decodeInputContract (Host.inputContract ic) = some ic := by
  obtain ⟨v1, createdAt⟩ := ic
  obtain ⟨hv1, hcreated⟩ := h
  refine Stretch.decode (.append (t := (⟨v1, 0⟩ : InputContract)) ?_ ?_) hlen
  · refine .flatMap (f := fun l => (⟨l, 0⟩ : InputContract)) fun l c hc => ?_
    refine .lenField (by decide) (by decide) fun hlt => ?_
    simp [Payload.content, decodeCreate_create (hv1 c hc) (by omega)]
  · refine .varintField (by decide) (by decide) hcreated ?_
    simp [Payload.uint64, varint64_varint hcreated]

/-! ## Header and metadata -/

/-- The number of a seed is an `int32`. -/
def NodeSeed.Sendable (s : NodeSeed) : Prop := -2 ^ 31 ≤ s.nodeId ∧ s.nodeId < 2 ^ 31

/-- The bytes of a seed. -/
def seedMessage (s : NodeSeed) : Bytes :=
  Host.varintField 1 (Host.low64 s.nodeId) ++ Host.optField 2 s.seed

theorem decodeNodeSeed_seedMessage {s : NodeSeed} (h : s.Sendable)
    (hlen : (seedMessage s).length < 2 ^ 32) : decodeNodeSeed (seedMessage s) = some s := by
  obtain ⟨nodeId, seed⟩ := s
  refine Stretch.decode (.append (t := (⟨nodeId, none⟩ : NodeSeed)) ?_ ?_) hlen
  · refine .varintField (by decide) (by decide) (low64_lt _) ?_
    simp [Payload.int32, varint64_varint (low64_lt _), signed32_low64 h.1 h.2]
  · cases seed with
    | none => exact .nil
    | some b => exact .lenField (by decide) (by decide) fun _ => rfl

/-- The strings of the header are C strings, its integers fit `int32`. -/
structure DamlTransaction.Sendable (tx : DamlTransaction) : Prop where
  version : OptString tx.version
  roots : Strings tx.roots
  nodesCount : -2 ^ 31 ≤ tx.nodesCount ∧ tx.nodesCount < 2 ^ 31
  nodeSeeds : ∀ s ∈ tx.nodeSeeds, s.Sendable

theorem decodeDamlTransaction_damlTransaction {tx : DamlTransaction} (h : tx.Sendable)
    (hlen : (Host.damlTransaction tx).length < 2 ^ 32) :
    decodeDamlTransaction (Host.damlTransaction tx) = some tx := by
  obtain ⟨version, roots, count, seeds⟩ := tx
  obtain ⟨hversion, hroots, hcount, hseeds⟩ := h
  refine Stretch.decode ?_ hlen
  unfold Host.damlTransaction
  iterate 3 apply Stretch.append
  · exact .string (f := fun o => (⟨o, [], 0, []⟩ : DamlTransaction))
      (by decide) (by decide) hversion fun _ => rfl
  · exact .strings (f := fun l => (⟨version, l, 0, []⟩ : DamlTransaction))
      (by decide) (by decide) hroots fun _ _ => rfl
  · refine .varintField (t := (⟨version, roots, count, []⟩ : DamlTransaction))
      (by decide) (by decide) (low64_lt _) ?_
    simp [Payload.int32, varint64_varint (low64_lt _), signed32_low64 hcount.1 hcount.2]
  · refine .flatMap (f := fun l => (⟨version, roots, count, l⟩ : DamlTransaction))
      fun l s hs => .lenField (by decide) (by decide) fun hlt => ?_
    have hseed : decodeNodeSeed (Host.varintField 1 (Host.low64 s.nodeId) ++
        Host.optField 2 s.seed) = some s :=
      decodeNodeSeed_seedMessage (hseeds s hs) (by rw [seedMessage]; omega)
    simp [Payload.content, hseed]

/-- The strings of the metadata are C strings, its integers fit their types. -/
structure Metadata.Sendable (md : Metadata) : Prop where
  actAs : Strings md.actAs
  commandId : OptString md.commandId
  synchronizerId : OptString md.synchronizerId
  mediatorGroup : md.mediatorGroup < 2 ^ 32
  transactionUuid : OptString md.transactionUuid
  preparationTime : md.preparationTime < 2 ^ 64
  inputContractsCount : -2 ^ 31 ≤ md.inputContractsCount ∧ md.inputContractsCount < 2 ^ 31
  minLedgerEffectiveTime : ∀ t ∈ md.minLedgerEffectiveTime, t < 2 ^ 64
  maxLedgerEffectiveTime : ∀ t ∈ md.maxLedgerEffectiveTime, t < 2 ^ 64

/-- An optional integer field, as the host writes it. -/
theorem Stretch.optTime {σ : Type} {step : σ → Field → Option σ} {f : Option Nat → σ}
    {o : Option Nat} {tag : Nat} (htag : 0 < tag) (hlt : tag < 2 ^ 29) (ho : ∀ t ∈ o, t < 2 ^ 64)
    (hstep : ∀ t, t < 2 ^ 64 →
      step (f none) ⟨tag, .varint (Host.varint t)⟩ = some (f (some t))) :
    Stretch step (o.toList.flatMap fun t => Host.varintField tag t) (f none) (f o) := by
  cases o with
  | none => exact .nil
  | some t =>
    rw [Option.toList_some, List.flatMap_singleton]
    exact .varintField htag hlt (ho t rfl) (hstep t (ho t rfl))

theorem decodeMetadata_metadata {md : Metadata} (h : md.Sendable)
    (hlen : (Host.metadata md).length < 2 ^ 32) : decodeMetadata (Host.metadata md) = some md := by
  obtain ⟨act, cmd, sync, med, uuid, prep, count, lo, hi⟩ := md
  obtain ⟨hact, hcmd, hsync, hmed, huuid, hprep, hcount, hlo, hhi⟩ := h
  refine Stretch.decode ?_ hlen
  unfold Host.metadata
  iterate 7 apply Stretch.append
  · refine .lenField (t := (⟨act, cmd, none, 0, none, 0, 0, none, none⟩ : Metadata))
      (by decide) (by decide) fun hlt => ?_
    refine Stretch.decode (.append
      (t := (⟨act, none, none, 0, none, 0, 0, none, none⟩ : Metadata)) ?_ ?_) (by omega)
    · exact .strings (f := fun l => (⟨l, none, none, 0, none, 0, 0, none, none⟩ : Metadata))
        (by decide) (by decide) hact fun _ _ => rfl
    · exact .string (f := fun o => (⟨act, o, none, 0, none, 0, 0, none, none⟩ : Metadata))
        (by decide) (by decide) hcmd fun _ => rfl
  · exact .string (f := fun o => (⟨act, cmd, o, 0, none, 0, 0, none, none⟩ : Metadata))
      (by decide) (by decide) hsync fun _ => rfl
  · have hmed : med < 2 ^ 32 := hmed
    refine .varintField (t := (⟨act, cmd, sync, med, none, 0, 0, none, none⟩ : Metadata))
      (by decide) (by decide) (by omega) ?_
    simp only [Payload.uint32, varint64_varint (show med < 2 ^ 64 by omega),
      Option.bind_eq_bind, Option.bind_some, if_pos hmed, Option.map_some]
  · exact .string (f := fun o => (⟨act, cmd, sync, med, o, 0, 0, none, none⟩ : Metadata))
      (by decide) (by decide) huuid fun _ => rfl
  · refine .varintField (t := (⟨act, cmd, sync, med, uuid, prep, 0, none, none⟩ : Metadata))
      (by decide) (by decide) hprep ?_
    simp [Payload.uint64, varint64_varint hprep]
  · refine .varintField (t := (⟨act, cmd, sync, med, uuid, prep, count, none, none⟩ : Metadata))
      (by decide) (by decide) (low64_lt _) ?_
    simp [Payload.int32, varint64_varint (low64_lt _), signed32_low64 hcount.1 hcount.2]
  · refine .optTime (f := fun o => (⟨act, cmd, sync, med, uuid, prep, count, o, none⟩ : Metadata))
      (by decide) (by decide) hlo fun t ht => ?_
    simp [Payload.uint64, varint64_varint ht]
  · refine .optTime (f := fun o => (⟨act, cmd, sync, med, uuid, prep, count, lo, o⟩ : Metadata))
      (by decide) (by decide) hhi fun t ht => ?_
    simp [Payload.uint64, varint64_varint ht]

end CantonSigner
