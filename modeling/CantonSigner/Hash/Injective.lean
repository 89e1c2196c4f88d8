import CantonSigner.Hash.ValueCodes

/-!
# The encoding is a prefix code

What is written for a node can be read off the front of any bytes, as its values can. The
exception are rollback nodes, whose kind follows the version byte where the other kinds have
the length of a version string; they are told apart because no string of a part is 16 MiB
long.

- `nodeBytes_read`: the encoding of nodes;
- `encoding_prefix_free`: values and nodes, for the bytes that the hashing pass writes.
-/

namespace CantonSigner

open ByteCodec HashingParser

/-! ## Nodes -/

theorem optSeed_read {a b : Option Bytes} (hlen : ∀ x ∈ a, ∀ y ∈ b, x.length = y.length)
    {s t : Bytes} (h : optSeedBytes a ++ s = optSeedBytes b ++ t) : a = b ∧ s = t := by
  cases a with
  | none =>
    cases b with
    | none => exact ⟨rfl, (List.cons.inj h).2⟩
    | some y => exact absurd (List.cons.inj h).1 (by decide)
  | some x =>
    cases b with
    | none => exact absurd (List.cons.inj h).1 (by decide)
    | some y =>
      obtain ⟨rfl, hrest⟩ := List.append_inj (List.cons.inj h).2 (hlen x rfl y rfl)
      exact ⟨rfl, hrest⟩

theorem hashesBytes_prefixCode :
    PrefixCode (fun hs : List Bytes => (∀ h ∈ hs, h.length = 32) ∧ (hashesBytes hs).length < 2 ^ 32)
      hashesBytes := by
  have hcount : ∀ hs : List Bytes, (∀ h ∈ hs, h.length = 32) → hs.length ≤ hs.flatten.length := by
    intro hs hhs
    induction hs with
    | nil => exact Nat.le_refl _
    | cons h hs ih =>
      have hlen := hhs h List.mem_cons_self
      have ih := ih fun x hx => hhs x (List.mem_cons_of_mem _ hx)
      rw [List.flatten_cons, List.length_append, List.length_cons]
      omega
  have hword : PrefixCode (fun h : Bytes => h.length = 32) id :=
    PrefixCode.of_length 32 (fun _ h => h) fun _ _ _ _ h => h
  have hcode := hword.counted (Q := fun hs => (∀ h ∈ hs, h.length = 32) ∧
      (hashesBytes hs).length < 2 ^ 32) (lengthBytes_prefixCode.mono ?_) fun hs hhs => hhs.1
  · have heq : (fun hs : List Bytes => int32Bytes hs.length ++ hs.flatMap id) = hashesBytes := by
      funext hs
      rw [List.flatMap_id, hashesBytes]
    rwa [heq] at hcode
  · rintro n ⟨hs, ⟨hlen, hshort⟩, rfl⟩
    have := hcount hs hlen
    rw [hashesBytes, List.length_append] at hshort
    omega

theorem hexWritten_eq {s : Bytes} (h : ContractId s) :
    hexWritten s = int32Bytes (unhex s).length ++ unhex s := by
  rw [hexWritten, hexBytes_eq_unhex s h.2.1, length_unhex]

/-- Contract id, package name and template in order. -/
structure NodeFields.Readable (f : NodeFields) : Prop where
  contractId : ContractId f.contractId
  template : requireIdentifier (some f.templateId) = true
  short : (contractFieldBytes f).length < 2 ^ 32

theorem contractFields_read {f g : NodeFields} (hf : f.Readable) (hg : g.Readable) {s t : Bytes}
    (h : contractFieldBytes f ++ s = contractFieldBytes g ++ t) :
    (f.contractId = g.contractId ∧ f.packageName = g.packageName ∧ f.templateId = g.templateId) ∧
      s = t := by
  have hfs := hf.short
  have hgs := hg.short
  simp only [contractFieldBytes, hexWritten_eq hf.contractId, hexWritten_eq hg.contractId,
    strBytes, List.length_append, length_int32Bytes] at hfs hgs
  simp only [contractFieldBytes, hexWritten_eq hf.contractId, hexWritten_eq hg.contractId] at h
  rw [List.append_assoc _ (identifierBytes _) s, List.append_assoc _ (identifierBytes _) t,
    List.append_assoc _ (strBytes _) _, List.append_assoc _ (strBytes _) _] at h
  obtain ⟨hid, hname⟩ := unhex_prefixCode.read ⟨hf.contractId, by omega⟩ ⟨hg.contractId, by omega⟩ h
  obtain ⟨hpackage, htemplate⟩ := strBytes_prefixCode.read
    (show f.packageName.length < 2 ^ 32 by omega) (show g.packageName.length < 2 ^ 32 by omega)
    hname
  obtain ⟨hident, hrest⟩ := identifierBytes_prefixCode.read ⟨hf.template, by omega⟩
    ⟨hg.template, by omega⟩ htemplate
  exact ⟨⟨hid, hpackage, hident⟩, hrest⟩

/-- The bytes of a node as the hashing pass writes them. -/
abbrev NodeVal.written (n : NodeVal Val) : Bytes := nodeBytes enc (resultWritten enc) n

/-- A node that can be read off what is written for it. -/
structure NodeVal.Readable (n : NodeVal Val) : Prop where
  wellFormed : n.WellFormed
  contractId : ∀ f ∈ n.fields, ContractId f.contractId
  vals : ∀ v ∈ n.vals, v.WellFormed ∧ v.LowerCase
  result : n.HasResult
  children : ∀ h ∈ n.children, h.length = 32
  short : n.written.length < 2 ^ 24

/-- The kinds of nodes. -/
inductive NodeTag where
  | create
  | exercise
  | fetch
  | rollback

def NodeVal.tag {V : Type} : NodeVal V → NodeTag
  | .create .. => .create
  | .exercise .. => .exercise
  | .fetch .. => .fetch
  | .rollback _ => .rollback

/-- The byte of the kind of a node that has a version string. -/
def NodeTag.byte : NodeTag → UInt8
  | .create => 0x00
  | .exercise => 0x01
  | .fetch => 0x02
  | .rollback => 0x03

/-- Where a node has a version string, its kind follows it. -/
theorem written_fields {n : NodeVal Val} {f : NodeFields} (hf : n.fields = some f) :
    ∃ rest, n.written = 0x01 :: (strBytes f.lfVersion ++ n.tag.byte :: rest) := by
  cases n with
  | create f seed argument =>
    cases hf
    simp only [NodeVal.written, nodeBytes, nodeEncodingVersion, List.append_assoc,
      List.singleton_append, NodeVal.tag, NodeTag.byte]
    exact ⟨_, rfl⟩
  | exercise f e seed chosenValue r children =>
    cases hf
    simp only [NodeVal.written, nodeBytes, nodeEncodingVersion, List.append_assoc,
      List.singleton_append, NodeVal.tag, NodeTag.byte]
    exact ⟨_, rfl⟩
  | fetch f actingParties interfaceId =>
    cases hf
    simp only [NodeVal.written, nodeBytes, nodeEncodingVersion, List.append_assoc,
      List.singleton_append, NodeVal.tag, NodeTag.byte]
    exact ⟨_, rfl⟩
  | rollback => cases hf

/-- The length of a string shorter than 16 MiB starts with 0. -/
theorem strBytes_head {s : Bytes} (h : s.length < 2 ^ 24) : ∃ rest, strBytes s = 0x00 :: rest := by
  have hmod : ((s.length : Int) % 2 ^ 32).toNat = s.length := by omega
  have hzero : s.length / 256 ^ 3 % 256 = 0 := by omega
  refine ⟨beBytes 3 s.length ++ s, ?_⟩
  rw [strBytes, int32Bytes, hmod, beBytes, hzero]
  rfl

theorem lfVersion_short {n : NodeVal Val} {f : NodeFields} (hf : n.fields = some f)
    (h : n.written.length < 2 ^ 24) : f.lfVersion.length < 2 ^ 24 := by
  obtain ⟨rest, hwritten⟩ := written_fields hf
  rw [hwritten] at h
  simp only [strBytes, List.length_cons, List.length_append] at h
  omega

/-- The kind of a node can be read off. -/
theorem tag_read {n m : NodeVal Val} (hn : n.written.length < 2 ^ 24)
    (hm : m.written.length < 2 ^ 24) {s t : Bytes} (h : n.written ++ s = m.written ++ t) :
    n.tag = m.tag := by
  -- a rollback node has its tag where the others have the length of a short text
  have hrollback {n m : NodeVal Val} {f : NodeFields} {children : List Bytes} {s t : Bytes}
      (hf : n.fields = some f) (hn : n.written.length < 2 ^ 24) (hm : m = .rollback children) :
      n.written ++ s ≠ m.written ++ t := by
    intro h
    obtain ⟨rest, hwritten⟩ := written_fields hf
    obtain ⟨rest', hstr⟩ := strBytes_head (lfVersion_short hf hn)
    subst hm
    rw [hwritten, hstr] at h
    exact absurd (List.cons.inj (List.cons.inj h).2).1 (by decide)
  cases hnf : n.fields with
  | none =>
    cases n with
    | rollback hashes =>
      cases hmf : m.fields with
      | none =>
        cases m with
        | rollback => rfl
        | _ => cases hmf
      | some g => exact absurd h.symm (hrollback hmf hm rfl)
    | _ => cases hnf
  | some f =>
    cases hmf : m.fields with
    | none =>
      cases m with
      | rollback => exact absurd h (hrollback hnf hn rfl)
      | _ => cases hmf
    | some g =>
      obtain ⟨rest, hwritten⟩ := written_fields hnf
      obtain ⟨rest', hwritten'⟩ := written_fields hmf
      rw [hwritten, hwritten', List.cons_append, List.cons_append, List.append_assoc,
        List.append_assoc] at h
      have hbody := (List.cons.inj h).2
      have hf := lfVersion_short hnf hn
      have hg := lfVersion_short hmf hm
      obtain ⟨-, hrest⟩ := strBytes_prefixCode.read (show f.lfVersion.length < 2 ^ 32 by omega)
        (show g.lfVersion.length < 2 ^ 32 by omega) hbody
      have hbyte := (List.cons.inj hrest).1
      generalize n.tag = a at hbyte ⊢
      generalize m.tag = b at hbyte ⊢
      -- the same text stands before both tags, so the tag bytes agree
      cases a <;> cases b <;> first | rfl | exact absurd hbyte (by decide)

theorem strs_read {a b : List Bytes} (ha : (strsBytes a).length < 2 ^ 32)
    (hb : (strsBytes b).length < 2 ^ 32) {s t : Bytes} (h : strsBytes a ++ s = strsBytes b ++ t) :
    a = b ∧ s = t := strsBytes_prefixCode.read ha hb h

theorem str_read {a b : Bytes} (ha : (strBytes a).length < 2 ^ 32)
    (hb : (strBytes b).length < 2 ^ 32) {s t : Bytes} (h : strBytes a ++ s = strBytes b ++ t) :
    a = b ∧ s = t := by
  simp only [strBytes, List.length_append] at ha hb
  exact strBytes_prefixCode.read (show a.length < 2 ^ 32 by omega)
    (show b.length < 2 ^ 32 by omega) h

theorem optIdentifier_read {a b : Option Identifier}
    (ha : ∀ i ∈ a, requireIdentifier (some i) = true)
    (hb : ∀ i ∈ b, requireIdentifier (some i) = true) (has : (optIdentifierBytes a).length < 2 ^ 32)
    (hbs : (optIdentifierBytes b).length < 2 ^ 32) {s t : Bytes}
    (h : optIdentifierBytes a ++ s = optIdentifierBytes b ++ t) : a = b ∧ s = t :=
  optIdentifierBytes_prefixCode.read ⟨ha, has⟩ ⟨hb, hbs⟩ h

/-- The hashes of children. -/
theorem hashes_read {a b : List Bytes} (ha : ∀ h ∈ a, h.length = 32) (hb : ∀ h ∈ b, h.length = 32)
    (has : (hashesBytes a).length < 2 ^ 32) (hbs : (hashesBytes b).length < 2 ^ 32) {s t : Bytes}
    (h : hashesBytes a ++ s = hashesBytes b ++ t) : a = b ∧ s = t :=
  hashesBytes_prefixCode.read ⟨ha, has⟩ ⟨hb, hbs⟩ h

/-- The fields that say which contract a node is about. -/
theorem NodeFields.eq_of {f g : NodeFields} (hversion : f.lfVersion = g.lfVersion)
    (hcontract : f.contractId = g.contractId ∧ f.packageName = g.packageName ∧
      f.templateId = g.templateId)
    (hsig : f.signatories = g.signatories) (hstake : f.stakeholders = g.stakeholders) : f = g := by
  obtain ⟨hid, hname, htemplate⟩ := hcontract
  cases f
  cases g
  simp_all

/-- Two creates. -/
theorem createNode_read {f g : NodeFields} {seed seed' : Option Bytes} {v w : Val}
    (hn : (NodeVal.create f seed v).Readable) (hm : (NodeVal.create g seed' w).Readable)
    (hseed : ∀ a ∈ seed, ∀ b ∈ seed', a.length = b.length) {s t : Bytes}
    (h : (NodeVal.create f seed v).written ++ s = (NodeVal.create g seed' w).written ++ t) :
    NodeVal.create f seed v = .create g seed' w ∧ s = t := by
  have hns := hn.short
  have hms := hm.short
  simp only [NodeVal.written, nodeBytes, List.length_append, List.length_cons,
    List.length_nil] at hns hms
  simp only [NodeVal.written, nodeBytes, List.append_assoc, List.cons_append,
    List.nil_append] at h
  obtain ⟨hversion, h₁⟩ := str_read (by omega) (by omega) (List.cons.inj h).2
  obtain ⟨rfl, h₂⟩ := optSeed_read hseed (List.cons.inj h₁).2
  obtain ⟨hcontract, h₃⟩ := contractFields_read
    ⟨hn.contractId f rfl, hn.wellFormed.template f rfl, by omega⟩
    ⟨hm.contractId g rfl, hm.wellFormed.template g rfl, by omega⟩ h₂
  obtain ⟨hv, hvl⟩ := hn.vals v (List.mem_singleton_self _)
  obtain ⟨hw, hwl⟩ := hm.vals w (List.mem_singleton_self _)
  obtain ⟨rfl, h₄⟩ := enc_read v w ⟨hv, hvl, by omega⟩ ⟨hw, hwl, by omega⟩ h₃
  obtain ⟨hsig, h₅⟩ := strs_read (by omega) (by omega) h₄
  obtain ⟨hstake, hrest⟩ := strs_read (by omega) (by omega) h₅
  exact ⟨by rw [NodeFields.eq_of hversion hcontract hsig hstake], hrest⟩

/-- Two fetches. -/
theorem fetchNode_read {f g : NodeFields} {acting acting' : List Bytes}
    {id id' : Option Identifier}
    (hn : (NodeVal.fetch f acting id : NodeVal Val).Readable)
    (hm : (NodeVal.fetch g acting' id' : NodeVal Val).Readable) {s t : Bytes}
    (h : (NodeVal.fetch f acting id).written ++ s = (NodeVal.fetch g acting' id').written ++ t) :
    (NodeVal.fetch f acting id : NodeVal Val) = .fetch g acting' id' ∧ s = t := by
  have hns := hn.short
  have hms := hm.short
  simp only [NodeVal.written, nodeBytes, List.length_append, List.length_cons,
    List.length_nil] at hns hms
  simp only [NodeVal.written, nodeBytes, List.append_assoc, List.cons_append,
    List.nil_append] at h
  obtain ⟨hversion, h₁⟩ := str_read (by omega) (by omega) (List.cons.inj h).2
  obtain ⟨hcontract, h₂⟩ := contractFields_read
    ⟨hn.contractId f rfl, hn.wellFormed.template f rfl, by omega⟩
    ⟨hm.contractId g rfl, hm.wellFormed.template g rfl, by omega⟩ (List.cons.inj h₁).2
  obtain ⟨hsig, h₃⟩ := strs_read (by omega) (by omega) h₂
  obtain ⟨hstake, h₄⟩ := strs_read (by omega) (by omega) h₃
  obtain ⟨hid, h₅⟩ := optIdentifier_read (a := id) (b := id') hn.wellFormed.interface
    hm.wellFormed.interface
    (show (optIdentifierBytes id).length < 2 ^ 32 by omega)
    (show (optIdentifierBytes id').length < 2 ^ 32 by omega) h₄
  obtain ⟨hacting, hrest⟩ := strs_read (by omega) (by omega) h₅
  exact ⟨by rw [NodeFields.eq_of hversion hcontract hsig hstake, hid, hacting], hrest⟩

/-- Two rollbacks. -/
theorem rollbackNode_read {hashes hashes' : List Bytes}
    (hn : (NodeVal.rollback hashes : NodeVal Val).Readable)
    (hm : (NodeVal.rollback hashes' : NodeVal Val).Readable) {s t : Bytes}
    (h : (NodeVal.rollback hashes).written ++ s = (NodeVal.rollback hashes').written ++ t) :
    (NodeVal.rollback hashes : NodeVal Val) = .rollback hashes' ∧ s = t := by
  have hns := hn.short
  have hms := hm.short
  simp only [NodeVal.written, nodeBytes, List.length_append] at hns hms
  obtain ⟨rfl, hrest⟩ := hashes_read (a := hashes) (b := hashes') hn.children hm.children
    (show (hashesBytes hashes).length < 2 ^ 32 by omega)
    (show (hashesBytes hashes').length < 2 ^ 32 by omega) (List.cons.inj (List.cons.inj h).2).2
  exact ⟨rfl, hrest⟩

/-- Two exercises. -/
theorem exerciseNode_read {f g : NodeFields} {e e' : ExerciseFields} {seed seed' : Bytes}
    {v w : Val} {r r' : Option Val} {hashes hashes' : List Bytes}
    (hn : (NodeVal.exercise f e seed v r hashes).Readable)
    (hm : (NodeVal.exercise g e' seed' w r' hashes').Readable)
    (hseed : seed.length = seed'.length) {s t : Bytes}
    (h : (NodeVal.exercise f e seed v r hashes).written ++ s =
      (NodeVal.exercise g e' seed' w r' hashes').written ++ t) :
    NodeVal.exercise f e seed v r hashes = .exercise g e' seed' w r' hashes' ∧ s = t := by
  have hns := hn.short
  have hms := hm.short
  obtain ⟨x, rfl⟩ : ∃ x, r = some x := Option.isSome_iff_exists.mp hn.result
  obtain ⟨y, rfl⟩ : ∃ y, r' = some y := Option.isSome_iff_exists.mp hm.result
  simp only [NodeVal.written, nodeBytes, resultWritten, Option.elim_some, List.length_append,
    List.length_cons, List.length_nil] at hns hms
  simp only [NodeVal.written, nodeBytes, resultWritten, Option.elim_some, List.append_assoc,
    List.cons_append, List.nil_append] at h
  obtain ⟨hversion, h₁⟩ := str_read (by omega) (by omega) (List.cons.inj h).2
  obtain ⟨rfl, h₂⟩ := List.append_inj (List.cons.inj h₁).2 hseed
  obtain ⟨hcontract, h₃⟩ := contractFields_read
    ⟨hn.contractId f rfl, hn.wellFormed.template f rfl, by omega⟩
    ⟨hm.contractId g rfl, hm.wellFormed.template g rfl, by omega⟩ h₂
  obtain ⟨hsig, h₄⟩ := strs_read (by omega) (by omega) h₃
  obtain ⟨hstake, h₅⟩ := strs_read (by omega) (by omega) h₄
  obtain ⟨hacting, h₆⟩ := strs_read (by omega) (by omega) h₅
  obtain ⟨hiface, h₇⟩ := optIdentifier_read (a := e.interfaceId) (b := e'.interfaceId)
    hn.wellFormed.interface hm.wellFormed.interface
    (show (optIdentifierBytes e.interfaceId).length < 2 ^ 32 by omega)
    (show (optIdentifierBytes e'.interfaceId).length < 2 ^ 32 by omega) h₆
  obtain ⟨hchoice, h₈⟩ := str_read (by omega) (by omega) h₇
  obtain ⟨hv, hvl⟩ := hn.vals v List.mem_cons_self
  obtain ⟨hw, hwl⟩ := hm.vals w List.mem_cons_self
  obtain ⟨rfl, h₉⟩ := enc_read v w ⟨hv, hvl, by omega⟩ ⟨hw, hwl, by omega⟩ h₈
  -- The flag, then the mark of the result.
  have hconsuming : e.consuming = e'.consuming := by
    have hflag := (List.cons.inj h₉).1
    cases hc : e.consuming <;> cases hc' : e'.consuming <;> first | rfl | simp [hc, hc'] at hflag
  obtain ⟨hx, hxl⟩ := hn.vals x (List.mem_cons_of_mem _ (List.mem_singleton_self _))
  obtain ⟨hy, hyl⟩ := hm.vals y (List.mem_cons_of_mem _ (List.mem_singleton_self _))
  obtain ⟨rfl, h₁₀⟩ := enc_read x y ⟨hx, hxl, by omega⟩ ⟨hy, hyl, by omega⟩
    (List.cons.inj (List.cons.inj h₉).2).2
  obtain ⟨hobservers, h₁₁⟩ := strs_read (by omega) (by omega) h₁₀
  obtain ⟨rfl, hrest⟩ := hashes_read (a := hashes) (b := hashes') hn.children hm.children
    (show (hashesBytes hashes).length < 2 ^ 32 by omega)
    (show (hashesBytes hashes').length < 2 ^ 32 by omega) h₁₁
  have he : e = e' := by
    cases e
    cases e'
    simp_all
  exact ⟨by rw [NodeFields.eq_of hversion hcontract hsig hstake, he], hrest⟩

/-- **Nodes are a prefix code**, given seeds of one length. -/
theorem nodeBytes_read {n m : NodeVal Val} (hn : n.Readable) (hm : m.Readable)
    (hseed : ∀ a ∈ n.seed, ∀ b ∈ m.seed, a.length = b.length) {s t : Bytes}
    (h : n.written ++ s = m.written ++ t) : n = m ∧ s = t := by
  have htag := tag_read hn.short hm.short h
  cases n with
  | create f seed argument =>
    cases m with
    | create => exact createNode_read hn hm hseed h
    | _ => cases htag
  | exercise f e seed chosenValue r hashes =>
    cases m with
    | exercise => exact exerciseNode_read hn hm (hseed _ rfl _ rfl) h
    | _ => cases htag
  | fetch f acting id =>
    cases m with
    | fetch => exact fetchNode_read hn hm h
    | _ => cases htag
  | rollback hashes =>
    cases m with
    | rollback => exact rollbackNode_read hn hm h
    | _ => cases htag

/-! ## The hashing pass -/

/-- A value in canonical form: complete identifiers, names of 1 to 63 bytes, contract ids in
lower-case hexadecimal, and no containers as GenMap keys. -/
structure Val.Canonical (v : Val) : Prop where
  wellFormed : v.WellFormed
  leafKeys : v.LeafKeys
  lowerCase : v.LowerCase

/-- A node in canonical form. -/
structure NodeVal.Canonical (n : NodeVal Val) : Prop where
  wellFormed : n.WellFormed
  contractId : ∀ f ∈ n.fields, ContractId f.contractId
  vals : ∀ v ∈ n.vals, v.Canonical
  result : n.HasResult
  children : ∀ h ∈ n.children, h.length = 32

variable {d : Device}

/-- The device hashes the value, whose message fits a part, by writing these bytes. -/
def WrittenValue (d : Device) (v : Val) (b : Bytes) : Prop :=
  (Host.value v.toValue).length ≤ d.maxTransactionLen ∧
    ∃ field s s', decodeValueField d field s v.toValue = some s' ∧ s'.hw = s.hw.put b

/-- The device hashes the node, whose message fits a part and whose children are looked up to
their hashes, by writing these bytes, whatever room its stack has. -/
def WrittenNode (d : Device) (n : NodeVal Val) (b : Bytes) : Prop :=
  ∃ (room : List Frame → Bool) (tx : DamlTransaction) (lookup : Bytes → Option Bytes)
    (ids : List Bytes)
    (ctx ctx' : HashingParser.Ctx),
    (Host.nodeKind (n.kind Val.toValue ids)).length ≤ d.maxTransactionLen ∧
    n.Seeded tx ctx.nodeId ∧ LookedUp lookup ids n.children ∧ ids.length ≤ maxNodeChildren ∧
    nodeDecodeCallback { d with stackHasRoom := room } lookup tx ctx (n.kind Val.toValue ids) =
      some ctx' ∧
    ctx'.v.hw = ctx.v.hw.put b

/-- The pass writes the encoding of a canonical value. -/
theorem writes_enc {v : Val} (h : v.Canonical) : Writes d.roomy Val.toValue enc v := by
  intro field s
  refine ⟨_, (decodeValueField_toValue h.wellFormed field s).trans
    (if_pos (v.hasRoom_of_all (fun _ => rfl) [field])), ?_⟩
  rw [(elemBytes_eq_enc_iff h.wellFormed).mpr (Val.LeafKeys.entriesFit v h.leafKeys)]

/-- So its bytes are the encoding. -/
theorem WrittenValue.eq_enc {v : Val} {b : Bytes} (h : WrittenValue d v b) (hv : v.Canonical) :
    b = enc v := by
  obtain ⟨-, field, s, s', hs, hb⟩ := h
  obtain ⟨s'', hs'', hw⟩ := writes_enc (d := d) hv field s
  rw [decodeValueField_room field hs] at hs''
  cases hs''
  exact put_eq_put_iff.mp (hb.symm.trans hw)

/-- And those of a node. -/
theorem WrittenNode.eq_written {n : NodeVal Val} {b : Bytes} (h : WrittenNode d n b)
    (hn : n.Canonical) : b = n.written := by
  obtain ⟨room, tx, lookup, ids, ctx, ctx', -, hseed, hlookup, hmax, hctx, hb⟩ := h
  obtain ⟨ctx'', hctx'', hw⟩ := hash_nodeVal (d := d.roomy) hn.wellFormed
    (fun v hv => writes_enc (hn.vals v hv)) hseed hlookup hmax
  have hroomy : nodeDecodeCallback d.roomy lookup tx ctx (n.kind Val.toValue ids) = some ctx' :=
    nodeDecodeCallback_roomy (d := { d with stackHasRoom := room }) hctx
  rw [hroomy] at hctx''
  cases hctx''
  exact put_eq_put_iff.mp (hb.symm.trans hw)

/-- The header's seeds are hashes. -/
theorem findSeed_length {tx : DamlTransaction} {id : Int} {seed : Bytes}
    (h : findSeed tx id = some (some seed)) : seed.length = 32 := by
  unfold findSeed at h
  split at h
  · cases h
  · split at h
    · cases h
    · split at h
      · cases h
      · split at h
        · rename_i hlen
          cases h
          exact hlen
        · cases h

/-- A seed that is written has 32 bytes. -/
theorem WrittenNode.seed_length {n : NodeVal Val} {b : Bytes} (h : WrittenNode d n b) :
    ∀ a ∈ n.seed, a.length = 32 := by
  obtain ⟨-, tx, -, -, ctx, -, -, hseed, -⟩ := h
  intro a ha
  cases n with
  | create f seed v =>
    cases ha
    exact findSeed_length hseed
  | exercise =>
    cases ha
    exact findSeed_length hseed
  | fetch | rollback => cases ha

/-- A value that fits a part can be read. -/
theorem WrittenValue.readable {v : Val} {b : Bytes} (hmax : d.maxTransactionLen ≤ 12 * 1024)
    (h : WrittenValue d v b) (hv : v.Canonical) : v.Readable := by
  have hlen := length_enc_le v hv.wellFormed
  have hfits := h.1
  exact ⟨hv.wellFormed, hv.lowerCase, by omega⟩

/-- And so can a node. -/
theorem WrittenNode.readable {n : NodeVal Val} {b : Bytes} (hmax : d.maxTransactionLen ≤ 12 * 1024)
    (h : WrittenNode d n b) (hn : n.Canonical) : n.Readable := by
  have hseed := h.seed_length
  obtain ⟨-, tx, lookup, ids, ctx, ctx', hfits, hseeded, hlookup, -⟩ := h
  have hlen := length_node_le hn.wellFormed (fun v hv => (hn.vals v hv).wellFormed) hseed
    hn.children hlookup.length_eq
  exact ⟨hn.wellFormed, hn.contractId, fun v hv => ⟨(hn.vals v hv).wellFormed,
    (hn.vals v hv).lowerCase⟩, hn.result, hn.children, by
      show (nodeBytes enc (resultWritten enc) n).length < 2 ^ 24
      omega⟩

/-- **The encoding is injective and prefix-free**: what the device writes for a value or a
node in canonical form is a prefix of what it writes for another only if the two are equal.
In particular nodes of different kinds do not share an encoding. -/
theorem encoding_prefix_free (hmax : d.maxTransactionLen ≤ 12 * 1024) :
    (∀ (v w : Val) (b c : Bytes), v.Canonical → w.Canonical → WrittenValue d v b →
      WrittenValue d w c → b <+: c → v = w) ∧
    (∀ (n m : NodeVal Val) (b c : Bytes), n.Canonical → m.Canonical → WrittenNode d n b →
      WrittenNode d m c → b <+: c → n = m) := by
  constructor
  · rintro v w b c hv hw hb hc ⟨rest, hprefix⟩
    have hread := enc_read v w (hb.readable hmax hv) (hc.readable hmax hw) (s := rest) (t := [])
    refine (hread ?_).1
    rw [← hb.eq_enc hv, ← hc.eq_enc hw, hprefix, List.append_nil]
  · rintro n m b c hn hm hb hc ⟨rest, hprefix⟩
    have hread := nodeBytes_read (s := rest) (t := []) (hb.readable hmax hn) (hc.readable hmax hm)
      fun a ha a' ha' => (hb.seed_length a ha).trans (hc.seed_length a' ha').symm
    refine (hread ?_).1
    rw [← hb.eq_written hn, ← hc.eq_written hm, hprefix, List.append_nil]

/-- An absent optional is not the start of a present one, nor a rollback node without
children that of one with a child. -/
theorem encoding_prefix_free_samples :
    ¬ [0x09, 0x00] <+: ([0x09, 0x01, 0x00] : Bytes) ∧
    ¬ [0x01, 0x03, 0, 0, 0, 0] <+: ([0x01, 0x03, 0, 0, 0, 1] ++ List.replicate 32 7 : Bytes) := by
  obtain ⟨hvalues, hnodes⟩ := encoding_prefix_free (d := testDevice) (Nat.le_refl _)
  constructor
  · intro hprefix
    have heq := hvalues .absent (.present .unit) _ _ ⟨trivial, trivial, trivial⟩
      ⟨trivial, trivial, trivial⟩ ⟨by decide, .createArgument, ⟨⟨[], .ok⟩, -1⟩, _, rfl, rfl⟩
      ⟨by decide, .createArgument, ⟨⟨[], .ok⟩, -1⟩, _, rfl, rfl⟩ hprefix
    cases heq
  · intro hprefix
    have hcanonical (hashes : List Bytes) (h : ∀ x ∈ hashes, x.length = 32) :
        (NodeVal.rollback hashes : NodeVal Val).Canonical :=
      ⟨⟨nofun, nofun, nofun⟩, nofun, nofun, trivial, h⟩
    have heq := hnodes (.rollback []) (.rollback [List.replicate 32 7]) _ _
      (hcanonical _ nofun) (hcanonical _ (by decide))
      ⟨fun _ => true, exerciseHeader, fun _ => none, [], beforeExercise, _, by decide, trivial,
        .nil, by decide, rfl, rfl⟩
      ⟨fun _ => true, exerciseHeader, fun _ => some (List.replicate 32 7), [str "1"],
        beforeExercise, _, by decide, trivial, .cons rfl .nil, by decide, rfl, rfl⟩ hprefix
    cases heq

end CantonSigner
