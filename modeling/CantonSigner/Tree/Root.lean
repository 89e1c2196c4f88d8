import CantonSigner.Lib.Decimal
import CantonSigner.Tree.Check

/-!
# Which node is the root

The hasher takes a node for the root when one of its `node_id` strings equals a root
string of the header; the tree check when its number is the root's. The number comes
from `atoint`, which reads leading zeros over and takes a string that is not a number
for 0, so the two can disagree: `zeroZero_accepted` is a flow whose only node, the
root, never reaches the transaction hasher.

`root_agreement_iff` says which flows are free of this.
-/

namespace CantonSigner

open ByteCodec HashingParser

/-! ## The hashes a flow absorbs -/

/-- The node hash that a message adds to the transaction hasher, with the number the
part is recorded under. -/
def absorbedRoot (d : Device) (st : Prepared) : PartEvent → List (Int × Bytes)
  | .part _ buf =>
    if st.txState = .damlNodes then
      match (decodeNode buf).bind (hashNodePart d st) with
      | some ctx => if ctx.isRootNode then [(ctx.nodeId, d.sha ctx.v.hw.bytes)] else []
      | none => []
    else []
  | .rows .. => []

/-- The receiving machine with a log of the node hashes it absorbed. -/
def hashLogged (d : Device) : Machine (Prepared × List (Int × Bytes)) PartEvent where
  init s := s.1.Fresh ∧ s.2 = []
  step s e := ((receiving d).step s.1 e).map fun st => (st, s.2 ++ absorbedRoot d s.1 e)

/-- The numbers of the parts that the hasher takes for roots. -/
def rootNumbers (tx : DamlTransaction) (parts : List NodePart) : List Int :=
  (parts.filter (partIsRoot tx)).map partNodeId

/-- What the log holds while the messages are a header and node parts. -/
structure LogInv (bufs : List Bytes) (st : Prepared) (log : List (Int × Bytes)) : Prop where
  start : bufs = [] → log = []
  nodes : ∀ tx parts, NodesSent bufs tx parts → (parts.length : Int) ≤ tx.nodesCount →
    log.map (·.1) = rootNumbers tx parts ∧
      st.hasher = (hashTransaction tx).bytes ++ log.flatMap (·.2)

variable {d : Device} {st st' : Prepared} {log : List (Int × Bytes)} {bufs : List Bytes}
  {buf : Bytes} {parsed : Bool} {tx : DamlTransaction} {parts : List NodePart} {root : Bytes}

/-- The log entry of an accepted node part. -/
theorem absorbedRoot_node {part : NodePart} {ctx : HashingParser.Ctx} (parsed : Bool)
    (herr : st.hashErr = .ok)
    (hs : NodeStep d st buf st' part ctx) :
    (absorbedRoot d st (.part parsed buf)).map (·.1) =
        (if partIsRoot st.header part then [partNodeId part] else []) ∧
      st'.hasher = st.hasher ++ (absorbedRoot d st (.part parsed buf)).flatMap (·.2) := by
  have hinv := digestNode_spec (decodeNodePart_absorbValues herr hs.hashed)
  have hroot : ctx.isRootNode = partIsRoot st.header part := hinv.root
  have hid : ctx.nodeId = partNodeId part := hinv.nodeId
  have hlog : absorbedRoot d st (.part parsed buf) =
      if partIsRoot st.header part then [(partNodeId part, d.sha ctx.v.hw.bytes)] else [] := by
    simp only [absorbedRoot, hs.state, hs.decoded, hs.hashed, Option.bind_some, ↓reduceIte, hroot,
      hid]
  have hhasher : st'.hasher =
      st.hasher ++ if partIsRoot st.header part then d.sha ctx.v.hw.bytes else [] := by
    have habs := absorbNode_of_nodeStep herr hs
    unfold absorbNode at habs
    rw [decodeNodePart_absorbValues herr hs.hashed] at habs
    have hnoerr : ctx.dropValues.v.hw.err = .ok := hs.noError
    simp only [Option.bind_some, hnoerr, ↓reduceIte, Option.some.injEq] at habs
    rw [← hroot]
    exact (congrArg NodesState.hasher habs).symm
  rw [hlog, hhasher]
  split <;> simp

theorem logInv_part (hphase : NodesPhase d st bufs) (h : LogInv bufs st log)
    (hacc : processPreparedTxPart d parsed st buf = (st', 0)) :
    LogInv (bufs ++ [buf]) st' (log ++ absorbedRoot d st (.part parsed buf)) := by
  refine ⟨by simp, fun tx parts hsent hle => ?_⟩
  -- Once the node parts are complete, one more message is no longer a node part.
  have hlate : ∀ nodes rest tx' parts', bufs = nodes ++ rest → NodesSent nodes tx' parts' →
      (parts'.length : Int) = tx'.nodesCount → False := by
    intro nodes rest tx' parts' hbufs hsent' hcount
    obtain ⟨header, bs, hb, htx, -⟩ := hsent.bytes
    obtain ⟨header', bs', rfl, htx', -⟩ := hsent'.bytes
    rw [hbufs, List.append_assoc, List.cons_append] at hb
    obtain rfl := (List.cons.inj hb).1
    have heq : tx = tx' := Option.some.inj (htx.symm.trans htx')
    have hlen := hsent.length
    have hlen' := hsent'.length
    rw [hbufs, List.length_append, List.length_append, List.length_singleton] at hlen
    rw [heq] at hle
    omega
  rcases accepted_cases hacc with
    ⟨tx', hs⟩ | ⟨part, ctx, hs⟩ | ⟨md, hs⟩ | ⟨ic, v, values, shown, hs⟩
  · rcases hphase with ⟨-, rfl⟩ | ⟨_, _, -, -, ⟨hst, -⟩ | ⟨hst, -⟩⟩ | ⟨hst | hst, -⟩
    · obtain ⟨rfl, rfl⟩ := hsent.unique (nodesReceived_header (d := d) hs).1
      have hnone : absorbedRoot d st (.part parsed buf) = [] := by simp [absorbedRoot, hs.state]
      rw [h.start rfl, hnone, hs.result]
      exact ⟨rfl, by simp [Prepared.withHeader]⟩
    all_goals exact absurd (hs.state.symm.trans hst) (by decide)
  · rcases hphase with ⟨hst, -⟩ | ⟨tx', parts', hsent', hreceived, -⟩ | ⟨hst | hst, -⟩
    · exact absurd (hs.state.symm.trans hst) (by decide)
    · obtain ⟨rfl, rfl⟩ := hsent.unique (nodesSent_append hsent' hs.decoded)
      rw [List.length_append, List.length_singleton] at hle
      obtain ⟨hlog, hhasher⟩ := h.nodes tx parts' hsent' (by omega)
      obtain ⟨hentry, hadd⟩ := absorbedRoot_node parsed hreceived.hashErr hs
      rw [hreceived.header] at hentry
      constructor
      · rw [List.map_append, hlog, hentry]
        simp only [rootNumbers, List.filter_append, List.map_append, List.filter_cons,
          List.filter_nil]
        split <;> rfl
      · rw [hadd, hhasher, List.flatMap_append, List.append_assoc]
    all_goals exact absurd (hs.state.symm.trans hst) (by decide)
  all_goals
    exfalso
    rcases hphase with ⟨hst, -⟩ | ⟨tx', parts', hsent', -, ⟨hst, -⟩ | ⟨-, hcount⟩⟩ |
      ⟨-, nodes, rest, tx', parts', hbufs, -, hsent', hcount⟩
    · exact absurd (hs.state.symm.trans hst) (by decide)
    · exact absurd (hs.state.symm.trans hst) (by decide)
    · exact hlate bufs [] tx' parts' (by simp) hsent' hcount
    · exact hlate nodes rest tx' parts' hbufs hsent' hcount

theorem reach_of_hashLogged {ok : Prepared × List (Int × Bytes) → PartEvent → Prop}
    {es : List PartEvent} (h : (hashLogged d).Reach ok es (st, log)) :
    (receiving d).Reach (fun _ _ => True) es st := by
  refine h.invariant (P := fun es s => (receiving d).Reach (fun _ _ => True) es s.1) ?_ ?_
  · rintro s ⟨hs, -⟩
    exact .start hs
  · rintro es s e s' ih - hstep
    obtain ⟨st', hst, rfl⟩ := Option.map_eq_some_iff.mp hstep
    exact .step ih trivial hst

theorem logInv_of_reach {ok : Prepared × List (Int × Bytes) → PartEvent → Prop}
    {es : List PartEvent} (h : (hashLogged d).Reach ok es (st, log)) :
    LogInv (partBuffers es) st log := by
  refine (h.invariant (P := fun es s => (receiving d).Reach (fun _ _ => True) es s.1 ∧
    LogInv (partBuffers es) s.1 s.2) ?_ ?_).2
  · rintro s ⟨hs, hlog⟩
    refine ⟨.start hs, fun _ => hlog, fun tx parts hsent => ?_⟩
    have := hsent.length
    cases this
  · rintro es s e s' ⟨hreach, hinv⟩ - hstep
    obtain ⟨st', hst, rfl⟩ := Option.map_eq_some_iff.mp hstep
    refine ⟨.step hreach trivial hst, ?_⟩
    rw [partBuffers_append]
    rcases receiving_step_cases hst with ⟨parsed, buf, rfl, hacc⟩ | ⟨pairs, signature, rfl, rfl⟩
    · exact logInv_part (nodesPhase_of_reach hreach) hinv hacc
    · simpa [partBuffers, absorbedRoot] using
        (⟨hinv.start, hinv.nodes⟩ : LogInv (partBuffers es) (s.1.setRows pairs signature) s.2)

/-! ## Numbers and their spellings -/

theorem isDigit_iff {c : UInt8} : isDigit c = true ↔ 48 ≤ c.toNat ∧ c.toNat ≤ 57 := by
  simp [isDigit, UInt8.le_iff_toNat_le]

/-- Numbers that fit in an `int` stay. -/
theorem wrap32_of_lt {v : Int} (hlo : -2 ^ 31 ≤ v) (hhi : v < 2 ^ 31) : wrap32 v = v := by
  unfold wrap32
  omega

theorem atointLoop_digits {s : Bytes} (h : IsDigits s) (v : Nat) :
    atointLoop (wrap32 v) s = wrap32 (s.foldl (fun v c => 10 * v + (c.toNat - 48)) v : Nat) := by
  induction s generalizing v with
  | nil => rfl
  | cons c s ih =>
    have hc := h c (by simp)
    -- Wrapping before the digit is added makes no difference.
    have hwrap : wrap32 (wrap32 v * 10 + c.toNat - 48) =
        wrap32 (10 * v + (c.toNat - 48) : Nat) := by
      unfold wrap32
      omega
    rw [atointLoop, if_pos (isDigit_iff.mpr hc), hwrap, List.foldl_cons]
    exact ih (fun c hc => h c (List.mem_cons_of_mem _ hc)) _

/-- `atoint` reads a digit string as its number, in 32 bits. -/
theorem atoint_wrap {s : Bytes} (h : IsDigits s) : atoint s = wrap32 (digitsValue s) :=
  atointLoop_digits h 0

/-- `atoint` reads a short digit string as its number. -/
theorem atoint_digits {s : Bytes} (h : IsDigits s) (hlen : s.length < 10) :
    atoint s = digitsValue s := by
  have hlt : digitsValue s < 2 ^ 31 :=
    calc digitsValue s < 10 ^ s.length := digitsValue_lt h
      _ ≤ 10 ^ 9 := Nat.pow_le_pow_right (by decide) (by omega)
      _ ≤ 2 ^ 31 := by decide
  rw [atoint_wrap h, wrap32_of_lt (by omega) (by omega)]

/-- `atoint` reads the numeral of an `int` as its number. -/
theorem atoint_decimal {k : Nat} (h : k < 2 ^ 31) : atoint (decimal k) = k := by
  rw [atoint_wrap (isDigits_decimal k), digitsValue_decimal, wrap32_of_lt (by omega) (by omega)]

theorem cstr_digits {s : Bytes} (h : IsDigits s) : cstr s = s := by
  refine cstr_eq_self fun c hc heq => ?_
  have := (h c hc).1
  rw [heq] at this
  exact absurd this (by decide)

/-! ## Agreement -/

/-- The `node_id` of a part: the last one sent. -/
def partIdString (part : NodePart) : Bytes := (nodeIds part).getLastD []

/-- The canonical decimal form of a number below `n`. -/
def CanonicalId (n : Nat) (s : Bytes) : Prop := ∃ k, k < n ∧ s = decimal k

/-- The part has the root's string among its `node_id`s exactly when it has the
root's number. -/
def NamedAsRoot (root : Bytes) (part : NodePart) : Prop :=
  (∃ s ∈ nodeIds part, cstr s = root) ↔ partNodeId part = nodeIdFromStr root

theorem partIsRoot_iff (hroots : tx.roots = [root]) {part : NodePart} :
    partIsRoot tx part = true ↔ ∃ s ∈ nodeIds part, cstr s = root := by
  simp [partIsRoot, hroots]

/-- The ids of an accepted part have at most three characters. -/
theorem parts_short {store : NodeHashStore} {s : NodesState}
    (h : parts.foldlM (absorbNode d tx) (.afterHeader store tx) = some s) :
    ∀ part ∈ parts, ∀ i ∈ nodeIds part, i.length < 4 := by
  refine List.foldlM_history (P := fun parts (_ : NodesState) =>
    ∀ part ∈ parts, ∀ i ∈ nodeIds part, i.length < 4) (by simp) ?_ h
  intro parts part s s' ih hstep part' hpart'
  obtain ⟨hash, hs⟩ := absorbNode_spec hstep
  rcases List.mem_append.mp hpart' with hmem | hmem
  · exact ih part' hmem
  · rw [List.mem_singleton.mp hmem]
    exact hs.short

/-- An accepted id is canonical when it is spelled with digits and no leading zero. -/
theorem canonicalId_iff {part : NodePart} {n : Nat} (hshort : ∀ i ∈ nodeIds part, i.length < 4)
    (hlt : partNodeId part < n) : CanonicalId n (partIdString part) ↔
      PlainDecimal (partIdString part) := by
  constructor
  · rintro ⟨k, -, hk⟩
    rw [hk]
    exact plainDecimal_decimal k
  · intro hplain
    have hlast : (nodeIds part).getLast? = some (partIdString part) := by
      cases hids : (nodeIds part).getLast? with
      | none => exact absurd (by simp [partIdString, List.getLastD_eq_getLast?, hids]) hplain.ne_nil
      | some s => simp [partIdString, List.getLastD_eq_getLast?, hids]
    have hlen := hshort _ (List.mem_of_getLast? hlast)
    have hid : partNodeId part = digitsValue (partIdString part) := by
      simp only [partNodeId, lastNodeId, hlast]
      rw [cstr_digits hplain.digits, atoint_digits hplain.digits (by omega)]
    exact ⟨digitsValue (partIdString part), by omega, (decimal_digitsValue hplain).symm⟩

/-- The one root the hasher sees is the root of the tree. -/
theorem rootNumbers_eq_iff (h : TreeAccepted tx parts root) :
    rootNumbers tx parts = [nodeIdFromStr root] ↔ ∀ part ∈ parts, NamedAsRoot root part := by
  have hflag : ∀ part, partIsRoot tx part = true ↔ ∃ s ∈ nodeIds part, cstr s = root :=
    fun part => partIsRoot_iff h.roots
  constructor
  · intro heq part hpart
    have hmem : ∀ p ∈ parts, partIsRoot tx p = true → partNodeId p = nodeIdFromStr root := by
      intro p hp hroot
      have : partNodeId p ∈ rootNumbers tx parts :=
        List.mem_map_of_mem (List.mem_filter.mpr ⟨hp, hroot⟩)
      rw [heq] at this
      exact List.mem_singleton.mp this
    rw [NamedAsRoot, ← hflag part]
    refine ⟨hmem part hpart, fun hid => ?_⟩
    have hin : nodeIdFromStr root ∈ rootNumbers tx parts := by simp [heq]
    obtain ⟨p, hp, hpid⟩ := List.mem_map.mp hin
    obtain ⟨hpmem, hproot⟩ := List.mem_filter.mp hp
    rw [h.part_unique hpart hpmem (hid.trans hpid.symm)]
    exact hproot
  · intro hnamed
    have hfilter : parts.filter (partIsRoot tx) =
        parts.filter fun part => partNodeId part == nodeIdFromStr root := by
      refine List.filter_congr fun part hpart => ?_
      rw [Bool.eq_iff_iff, hflag part, beq_iff_eq]
      exact hnamed part hpart
    have hmem := (h.mem_ids _).mpr ⟨h.root_nonneg, h.root_lt⟩
    calc rootNumbers tx parts
        = (partIds parts).filter (· == nodeIdFromStr root) := by
          rw [rootNumbers, hfilter, partIds, List.filter_map]
          rfl
      _ = [nodeIdFromStr root] := by
          rw [List.filter_beq, List.count_eq_one_of_mem h.ids_nodup hmem]
          rfl

/-- **Hasher and tree check agree on the root** exactly in the flows whose node ids
are spelled without leading zeros or other characters, and in which the parts with
the root's string are those with its number. -/
theorem root_agreement_iff {es : List PartEvent}
    (h : (hashLogged d).Reach (fun _ _ => True) es (st, log))
    (hsent : NodesSent (partBuffers es) tx parts) (hroots : tx.roots = [root])
    (hcount : (parts.length : Int) = tx.nodesCount)
    (hverdict : (treeVerifyComplete st.tree).err = .ok) :
    ((∃ hash, log = [(st.tree.rootId, hash)] ∧
        st.hasher = (hashTransaction tx).bytes ++ hash) ∧
      ∀ part ∈ parts, CanonicalId parts.length (partIdString part)) ↔
    ∀ part ∈ parts, PlainDecimal (partIdString part) ∧ NamedAsRoot root part := by
  obtain ⟨store, habsorbed⟩ :=
    (nodesReceived_of_reach (reach_of_hashLogged h) hsent hcount).absorbed
  obtain ⟨root', hacc⟩ := treeAccepted_of_verdict habsorbed hcount hverdict
  obtain rfl : root' = root := by simpa [hroots] using hacc.roots.symm
  obtain ⟨hlog, hhasher⟩ := (logInv_of_reach h).nodes tx parts hsent hcount.le
  obtain ⟨_, hroots', hinv⟩ := treeInv_of_absorbed habsorbed (verdict_ok hverdict).1
  obtain rfl : root' = _ := by simpa [hroots] using hroots'
  have hid : st.tree.rootId = nodeIdFromStr root' := hinv.rootId
  -- the numbers are in range, so only the spelling of an id is left to say
  have hcanonical : ∀ part ∈ parts,
      (CanonicalId parts.length (partIdString part) ↔ PlainDecimal (partIdString part)) := by
    intro part hpart
    have hrange := (hacc.mem_ids _).mp (List.mem_map_of_mem hpart)
    exact canonicalId_iff (parts_short habsorbed part hpart) hrange.2
  -- what is appended is logged with the number it was appended for
  have hone : (∃ hash, log = [(st.tree.rootId, hash)] ∧
      st.hasher = (hashTransaction tx).bytes ++ hash) ↔
      rootNumbers tx parts = [nodeIdFromStr root'] := by
    rw [hhasher, hid, ← hlog]
    constructor
    · rintro ⟨hash, rfl, -⟩
      rfl
    · intro hsingle
      obtain ⟨⟨id, hash⟩, rfl, heq⟩ := List.map_eq_singleton_iff.mp hsingle
      exact ⟨hash, by rw [← heq], by simp⟩
  rw [hone, rootNumbers_eq_iff hacc]
  constructor
  · rintro ⟨hnamed, hcan⟩ part hpart
    exact ⟨(hcanonical part hpart).mp (hcan part hpart), hnamed part hpart⟩
  · intro hall
    exact ⟨fun part hpart => (hall part hpart).2,
      fun part hpart => (hcanonical part hpart).mpr (hall part hpart).1⟩

/-- A logged run of messages computed on the test device. -/
theorem exists_reach_hashLogged (es : List PartEvent) {p : Prepared × List (Int × Bytes) → Bool}
    (h : ((hashLogged testDevice).run (fun _ _ => true) (.start, []) es).any p = true) :
    ∃ s, (hashLogged testDevice).Reach (fun _ _ => True) es s ∧ p s = true := by
  obtain ⟨s, hreach, hp⟩ :=
    Machine.exists_reach_of_run (m := hashLogged testDevice) ⟨Prepared.start_fresh, rfl⟩ h
  exact ⟨s, hreach.mono fun _ _ _ => trivial, hp⟩

theorem root_agreement_iff_oneChild : ∃ st log hash,
    (hashLogged testDevice).Reach (fun _ _ => True) (nodeMessages "0" oneChild) (st, log) ∧
      log = [(st.tree.rootId, hash)] := by
  obtain ⟨⟨st, log⟩, hreach, hp⟩ := exists_reach_hashLogged (nodeMessages "0" oneChild)
    (p := fun s => decide ((treeVerifyComplete s.1.tree).err = .ok)) (by decide +kernel)
  have hsent := nodesSent_nodeMessages "0" oneChild (by decide +kernel)
    (by rintro _ (_ | ⟨_, _ | ⟨_, ⟨⟩⟩⟩) <;> rfl)
  have hids : ∀ part ∈ oneChild,
      PlainDecimal (partIdString part) ∧ NamedAsRoot (str "0") part := by
    have hone : partIdString (rollbackPart "1" [[]]) = decimal 1 := by decide +kernel
    have hzero : partIdString (rollbackPart "0" [["1"]]) = decimal 0 := by decide +kernel
    rintro _ (_ | ⟨_, _ | ⟨_, ⟨⟩⟩⟩)
    · rw [hone]
      exact ⟨plainDecimal_decimal 1, iff_of_false (by decide +kernel) (by decide +kernel)⟩
    · rw [hzero]
      exact ⟨plainDecimal_decimal 0, iff_of_true (by decide +kernel) (by decide +kernel)⟩
  obtain ⟨⟨hash, hlog, -⟩, -⟩ :=
    (root_agreement_iff hreach hsent rfl rfl (of_decide_eq_true hp)).mpr hids
  exact ⟨st, log, hash, hreach, hlog⟩

/-- One node, which the header calls `0` and the part `00`. -/
def zeroZero : List NodePart := [rollbackPart "00" [[]]]

/-- The verdict is good and the flow goes on to its end, with an id that is not
canonical and without any node hash in the transaction hash. -/
theorem zeroZero_accepted : ∃ st log,
    (hashLogged testDevice).Reach (fun _ _ => True) (nodeMessages "0" zeroZero) (st, log) ∧
      NodesSent (partBuffers (nodeMessages "0" zeroZero)) (rollbackHeader "0" zeroZero) zeroZero ∧
      (zeroZero.length : Int) = (rollbackHeader "0" zeroZero).nodesCount ∧
      (treeVerifyComplete st.tree).err = .ok ∧
      (processPreparedTxPart testDevice true st (Host.metadataOf 0)).2 = 0 ∧ log = [] ∧
      ∃ part ∈ zeroZero, ¬ CanonicalId zeroZero.length (partIdString part) := by
  obtain ⟨⟨st, log⟩, hreach, hp⟩ := exists_reach_hashLogged (nodeMessages "0" zeroZero)
    (p := fun s => decide ((treeVerifyComplete s.1.tree).err = .ok) &&
      decide ((processPreparedTxPart testDevice true s.1 (Host.metadataOf 0)).2 = 0) &&
      s.2.isEmpty) (by decide +kernel)
  simp only [Bool.and_eq_true, decide_eq_true_eq, List.isEmpty_iff] at hp
  refine ⟨st, log, hreach, nodesSent_nodeMessages "0" zeroZero (by decide +kernel)
    (by rintro _ (_ | ⟨_, ⟨⟩⟩); rfl), rfl, hp.1.1, hp.1.2, hp.2, rollbackPart "00" [[]],
    by simp [zeroZero], ?_⟩
  rintro ⟨k, -, hk⟩
  have hleading := (plainDecimal_decimal k).leading
  rw [← hk] at hleading
  exact absurd (hleading (by decide +kernel)) (by decide +kernel)

end CantonSigner
