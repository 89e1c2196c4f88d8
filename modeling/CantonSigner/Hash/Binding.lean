import CantonSigner.Hash.Checks
import CantonSigner.Hash.Merkle
import CantonSigner.Hash.Pieces
import CantonSigner.Hash.Transmission
import CantonSigner.Lib.Pointwise

/-!
# What the signed hash fixes

A device that accepts a transaction in canonical form signs the digest of one tree
(`hash_is_tree_digest`): `TreeOf` says which. No order of the nodes is assumed, nor that the
node tree passes its check; whatever the ring of node hashes holds, the hash it hands out for a
child is the digest of a tree of nodes that were sent.

`same_hash_same_tree` is the binding of the hash: two transactions that are signed by one hash
have one tree, unless among the byte strings that were hashed for them there are two different
ones with the same SHA-256.
-/

namespace CantonSigner

open ByteCodec HashingParser

/-! ## The tree of a transaction -/

/-- Below the number of a node stands a node that was sent under it. -/
def SentEdge (nodes : List SentNode) (k : Int) (p : Piece) (ks : List Int) : Prop :=
  ∃ n ∈ nodes, n.key = k ∧ p = .node n.node ∧ ks = n.children.map atoint

/-- The nodes that the hasher takes for roots, in the order they are sent. -/
def sentRoots (tx : DamlTransaction) (nodes : List SentNode) : List Int :=
  (nodes.filter fun n => partIsRoot tx n.part).map SentNode.key

/-- A disclosed contract as a tree. -/
def SentContract.tree (c : SentContract) : HashTree Piece := .node (.node c.node) []

/-- The tree of a transaction over a forest of nodes. -/
def Transmission.treeOver (t : Transmission) (version : Bytes) (forest : List (HashTree Piece)) :
    HashTree Piece :=
  .node .transaction [
    .node (.header version t.header.roots.length) forest,
    .node (.metadata t.metadata (t.contracts.map (·.createdAt))) (t.contracts.map (·.tree))]

/-- The tree is one of the transaction: its forest hangs below the roots. -/
def Transmission.TreeOf (t : Transmission) (tree : HashTree Piece) : Prop :=
  ∃ version forest, t.header.version = some version ∧
    HashTree.UnfoldsAll (SentEdge t.nodes) (sentRoots t.header t.nodes) forest ∧
    tree = t.treeOver version forest

section Digests

variable (d : Device)

/-- The digest of a tree on the device. -/
abbrev treeDigest : HashTree Piece → Bytes := HashTree.digest Piece.text d.sha

/-- The digests of a forest on the device. -/
abbrev treeDigests : List (HashTree Piece) → List Bytes := HashTree.digests Piece.text d.sha

/-- What the device hashes for a tree. -/
abbrev treeTexts : HashTree Piece → List Bytes := HashTree.texts Piece.text d.sha

/-- Every piece of a tree can be read off its text. -/
abbrev TreeSound : HashTree Piece → Prop := HashTree.Sound Piece.text d.sha Piece.Readable

/-- Every piece of a forest can be read off its text. -/
abbrev ForestSound : List (HashTree Piece) → Prop :=
  HashTree.SoundAll Piece.text d.sha Piece.Readable

end Digests

variable {d : Device} {tx : DamlTransaction} {sent : List SentNode} {s s' : NodesState}
  {n : SentNode}

theorem treeDigests_hashes (ts : List (HashTree Piece)) : Hashes (treeDigests d ts) := by
  intro h hmem
  obtain ⟨x, rfl⟩ := HashTree.mem_digests hmem
  exact d.length_sha x

theorem length_treeDigest (t : HashTree Piece) : (treeDigest d t).length = 32 :=
  treeDigests_hashes [t] _ (List.mem_singleton_self _)

/-! ## One node -/

/-- Known children have hashes. -/
theorem lookedUp_of_known {lookup : Bytes → Option Bytes} {ids : List Bytes}
    (h : childrenKnown lookup ids = true) :
    ids.length ≤ maxNodeChildren ∧ ∃ hashes, LookedUp lookup ids hashes := by
  simp only [childrenKnown, Bool.and_eq_true, decide_eq_true_eq, List.all_eq_true] at h
  obtain ⟨hlen, hall⟩ := h
  refine ⟨hlen, ?_⟩
  clear hlen
  induction ids with
  | nil => exact ⟨[], .nil⟩
  | cons id ids ih =>
    obtain ⟨hash, hhash⟩ := Option.isSome_iff_exists.mp (hall id List.mem_cons_self)
    obtain ⟨hashes, hhashes⟩ := ih fun c hc => hall c (List.mem_cons_of_mem id hc)
    exact ⟨hash :: hashes, .cons hhash hhashes⟩

theorem childrenKnown_of_passes {lookup : Bytes → Option Bytes} {id : Int}
    (hn : n.node.IsParent ∨ n.children = []) (h : kindPasses d lookup tx id n.kind) :
    childrenKnown lookup n.children = true := by
  rcases hn with hn | hn
  · unfold SentNode.kind at h
    cases hnode : n.node with
    | exercise f e seed v r children =>
      rw [hnode] at h
      exact h.1.2.2.2.2.2
    | rollback children =>
      rw [hnode] at h
      exact h
    | create | fetch =>
      rw [hnode] at hn
      exact hn.elim
  · rw [hn]
    rfl

/-- The seed of a node does not depend on the hashes of its children. -/
theorem seeded_withChildren {V : Type} {m : NodeVal V} {id : Int} (h : m.Seeded tx id)
    (hashes : List Bytes) : (m.withChildren hashes).Seeded tx id := by
  cases m <;> exact h

theorem canonical_withChildren {m : NodeVal Val} (h : m.Canonical) {hashes : List Bytes}
    (hh : Hashes hashes) : (m.withChildren hashes).Canonical := by
  obtain ⟨⟨htemplate, hcontract, hinterface⟩, hid, hvals, hresult, -⟩ := h
  refine ⟨⟨?_, ?_, ?_⟩, ?_, ?_, ?_, ?_⟩
  · rwa [NodeVal.withChildren_fields]
  · rwa [NodeVal.withChildren_fields]
  · rwa [NodeVal.withChildren_interfaceId]
  · rwa [NodeVal.withChildren_fields]
  · rwa [NodeVal.withChildren_vals]
  · cases m <;> exact hresult
  · cases m with
    | create | fetch => exact nofun
    | exercise | rollback => exact hh

theorem children_withChildren (hn : n.node.IsParent ∨ n.children = []) {hashes : List Bytes}
    (hlen : n.children.length = hashes.length) :
    (n.node.withChildren hashes).children = hashes := by
  rcases hn with hn | hn
  · cases hnode : n.node with
    | exercise | rollback => rfl
    | create | fetch =>
      rw [hnode] at hn
      exact hn.elim
  · rw [hn, List.length_nil] at hlen
    rw [List.length_eq_zero_iff.mp hlen.symm]
    cases hnode : n.node with
    | create | fetch | exercise | rollback => rfl

theorem partIsRoot_part (n : SentNode) : partIsRoot tx n.part = tx.roots.contains (cstr n.id) := by
  simp [partIsRoot, SentNode.part, nodeIds]

/-- A node part is decoded as its node, under its number. -/
theorem decodeNodePart_part {lookup : Bytes → Option Bytes} {tree : TreeCheck}
    {values : ValuesStore} {ctx : HashingParser.Ctx}
    (h : decodeNodePart d lookup tx tree values .ok n.part = some ctx) :
    ∃ ctx₀, ctx₀.nodeId = n.key ∧ ctx₀.v = freshVState ∧
      nodeDecodeCallback d lookup tx ctx₀ n.kind = some ctx := by
  simp only [decodeNodePart, SentNode.part, List.foldlM_cons, List.foldlM_nil, decodeNodeItem,
    decodeNodeIdField] at h
  split at h
  · cases h
  · simp only [Option.bind_eq_bind, Option.bind_some, Option.pure_def, Option.bind_fun_some] at h
    exact ⟨_, rfl, rfl, h⟩

/-- What an accepted part does to the state, by the context its hashing pass ends in. -/
theorem partAbsorbed_of_digest {part : NodePart} {ctx : HashingParser.Ctx}
    (h : digestNode d tx s part = some ctx) (hok : ctx.v.hw.err = .ok) :
    PartAbsorbed d tx s part (s.absorb d ctx) (d.sha ctx.v.hw.bytes) := by
  have hinv := digestNode_spec h
  have hid : ctx.nodeId = partNodeId part := hinv.nodeId
  have hroot : ctx.isRootNode = partIsRoot tx part := hinv.root
  obtain ⟨parentId, htree⟩ := hinv.tree
  refine ⟨hinv.short, ?_, ?_, ⟨parentId, ?_⟩, hinv.lookups hok⟩
  · simp only [NodesState.absorb, hid, hroot]
  · simp only [NodesState.absorb, hroot]
  · simp only [NodesState.absorb, hid, htree, claimedChildren]
    cases childLists (nodeKinds part) with
    | nil => rfl
    | cons l ls => rfl

/-- What is hashed for an accepted node: its fields with the hashes that the store holds for its
children. -/
theorem absorbed_node (hn : n.Canonical d tx) (hmax : d.maxTransactionLen ≤ 12 * 1024)
    (hstore : ∀ c hash, getNodeHash s.store c = some hash → c ∈ n.children → hash.length = 32)
    (h : absorbNode d tx s n.part = some s') :
    ∃ hashes, LookedUp (getNodeHash s.store) n.children hashes ∧
      Piece.Readable (.node n.node) hashes ∧
      PartAbsorbed d tx s n.part s' (d.sha (Piece.text (.node n.node) hashes)) := by
  obtain ⟨ctx, hctx, hrest⟩ := Option.bind_eq_some_iff.mp h
  split at hrest
  · rename_i hok
    cases hrest
    obtain ⟨ctx₁, h₁, rfl⟩ := Option.map_eq_some_iff.mp hctx
    have hok : ctx₁.v.hw.err = .ok := hok
    -- The part passed its checks, so the children are known.
    have hpasses := ((decodeNodePart_ends s.tree valuesCheckReset .ok n.part).mp ⟨ctx₁, h₁, hok⟩).2
    have hknown := childrenKnown_of_passes hn.parent (hpasses.2.1 _ (List.mem_singleton_self _))
    obtain ⟨hmany, hashes, hlookup⟩ := lookedUp_of_known hknown
    have hlen := hlookup.length_eq
    have hhashes : Hashes hashes := by
      intro x hx
      obtain ⟨c, hc, hget⟩ := hlookup.exists_of_mem_right hx
      exact hstore c x hget hc
    have hchildren := children_withChildren hn.parent hlen
    obtain ⟨ctx₀, hkey, hfresh, hcallback⟩ := decodeNodePart_part h₁
    have hwritten : WrittenNode d (n.node.withChildren hashes) ctx₁.v.hw.bytes := by
      refine ⟨d.stackHasRoom, tx, getNodeHash s.store, n.children, ctx₀, ctx₁, ?_, ?_, ?_, hmany,
        ?_, ?_⟩
      · -- The kind is a field of the part, which fits the buffer.
        have hfits := hn.fits
        have hlen₁ := length_lenField 1 n.id
        have hlen₂ := length_lenField 1000 (Host.nodeKind n.kind)
        simp only [SentNode.part, Host.node, List.flatMap_cons, List.flatMap_nil, List.append_nil,
          List.length_append] at hfits
        rw [NodeVal.withChildren_kind]
        show (Host.nodeKind n.kind).length ≤ _
        omega
      · rw [hkey]
        exact seeded_withChildren hn.seed hashes
      · rw [hchildren]
        exact hlookup
      · rw [NodeVal.withChildren_kind]
        exact hcallback
      · rw [hfresh]
        show ctx₁.v.hw = ⟨[] ++ ctx₁.v.hw.bytes, .ok⟩
        rw [← hok]
        rfl
    have hcanonical := canonical_withChildren hn.node hhashes
    have hbytes : ctx₁.v.hw.bytes = Piece.text (.node n.node) hashes :=
      hwritten.eq_written hcanonical
    have hseed := hwritten.seed_length
    rw [NodeVal.withChildren_seed] at hseed
    refine ⟨hashes, hlookup, ⟨hn.bare, hchildren, hwritten.readable hmax hcanonical, hseed⟩, ?_⟩
    rw [← hbytes]
    exact partAbsorbed_of_digest hctx hok
  · cases hrest

/-! ## The nodes of a transaction -/

/-- Some tree of nodes that were sent hangs below a number and has a digest. -/
def DigestBelow (d : Device) (nodes : List SentNode) (k : Int) (hash : Bytes) : Prop :=
  ∃ t, HashTree.Unfolds (SentEdge nodes) k t ∧ TreeSound d t ∧ hash = treeDigest d t

/-- What the store and the hasher hold after some nodes: digests of trees of these nodes. -/
structure NodesHashed (d : Device) (tx : DamlTransaction) (sent : List SentNode)
    (s : NodesState) : Prop where
  slots : ∀ e ∈ s.store.slots, e.1 = -1 ∨ DigestBelow d sent e.1 e.2
  hasher : ∃ forest, HashTree.UnfoldsAll (SentEdge sent) (sentRoots tx sent) forest ∧
    ForestSound d forest ∧
    s.hasher = (hashTransaction tx).bytes ++ (treeDigests d forest).flatten

theorem sentRoots_concat (tx : DamlTransaction) (sent : List SentNode) (n : SentNode) :
    sentRoots tx (sent ++ [n]) =
      sentRoots tx sent ++ if partIsRoot tx n.part then [n.key] else [] := by
  rw [sentRoots, List.filter_append, List.map_append]
  by_cases hr : partIsRoot tx n.part = true <;> simp [sentRoots, hr]

theorem SentEdge.mono {more : List SentNode} (k : Int) (p : Piece) (ks : List Int)
    (h : SentEdge sent k p ks) : SentEdge (sent ++ more) k p ks := by
  obtain ⟨n, hn, hrest⟩ := h
  exact ⟨n, List.mem_append_left _ hn, hrest⟩

theorem DigestBelow.mono {k : Int} {hash : Bytes} (h : DigestBelow d sent k hash)
    (more : List SentNode) : DigestBelow d (sent ++ more) k hash := by
  obtain ⟨t, ht, hrest⟩ := h
  exact ⟨t, HashTree.Unfolds.mono SentEdge.mono ht, hrest⟩

theorem atoint_number {c : Bytes} (h : IsDigits c ∧ c.length < 10) : 0 ≤ atoint c := by
  rw [atoint_digits h.1 h.2]
  exact Int.natCast_nonneg _

namespace NodesHashed

/-- The store answers for a number with the digest of a tree below it. -/
theorem lookup (h : NodesHashed d tx sent s) {c hash : Bytes} (hc : IsDigits c ∧ c.length < 10)
    (hfind : getNodeHash s.store c = some hash) : DigestBelow d sent (atoint c) hash := by
  obtain ⟨e, he, rfl⟩ := Option.map_eq_some_iff.mp hfind
  obtain ⟨hmem, hid⟩ := SlotRing.exists_mem_of_find? he
  have hid : e.1 = atoint c := beq_iff_eq.mp hid
  have hpos := atoint_number hc
  rcases h.slots e hmem with hempty | hbelow
  · -- An empty slot has no number.
    omega
  · rwa [hid] at hbelow

/-- The hashes of the children of a node are the digests of a forest. -/
theorem lookups (h : NodesHashed d tx sent s) {ids hashes : List Bytes}
    (hids : ∀ c ∈ ids, IsDigits c ∧ c.length < 10)
    (hlookup : LookedUp (getNodeHash s.store) ids hashes) :
    ∃ forest, HashTree.UnfoldsAll (SentEdge sent) (ids.map atoint) forest ∧ ForestSound d forest ∧
      hashes = treeDigests d forest := by
  induction hlookup with
  | nil => exact ⟨[], trivial, trivial, rfl⟩
  | @cons c hash ids hashes hfind _ ih =>
    obtain ⟨forest, hforest, hsound, rfl⟩ := ih fun c hc => hids c (List.mem_cons_of_mem _ hc)
    obtain ⟨t, ht, htsound, rfl⟩ := h.lookup (hids c List.mem_cons_self) hfind
    exact ⟨t :: forest, ⟨ht, hforest⟩, ⟨htsound, hsound⟩, rfl⟩

/-- One node part. -/
theorem step (h : NodesHashed d tx sent s) (hn : n.Canonical d tx)
    (hmax : d.maxTransactionLen ≤ 12 * 1024) (habs : absorbNode d tx s n.part = some s') :
    NodesHashed d tx (sent ++ [n]) s' := by
  have hlengths : ∀ c hash, getNodeHash s.store c = some hash → c ∈ n.children →
      hash.length = 32 := by
    intro c hash hfind hc
    obtain ⟨t, -, -, rfl⟩ := h.lookup (hn.numbers c hc) hfind
    exact length_treeDigest t
  obtain ⟨hashes, hlookup, hreadable, hpart⟩ := absorbed_node hn hmax hlengths habs
  obtain ⟨forest, hforest, hsound, rfl⟩ := h.lookups hn.numbers hlookup
  -- The tree of the node.
  have hunfolds : HashTree.Unfolds (SentEdge (sent ++ [n])) n.key (.node (.node n.node) forest) :=
    ⟨n.children.map atoint, ⟨n, by simp, rfl, rfl, rfl⟩,
      HashTree.UnfoldsAll.mono SentEdge.mono hforest⟩
  have htree : TreeSound d (.node (.node n.node) forest) := ⟨hreadable, hsound⟩
  have hold : ∀ e ∈ s.store.slots, e.1 = -1 ∨ DigestBelow d (sent ++ [n]) e.1 e.2 := by
    intro e he
    rcases h.slots e he with hempty | hbelow
    · exact .inl hempty
    · exact .inr (hbelow.mono [n])
  obtain ⟨roots, hroots, hrootsSound, hhasher⟩ := h.hasher
  refine ⟨?_, ?_⟩
  · rw [hpart.store]
    split
    · exact hold
    · exact SlotRing.forall_push (.inr ⟨_, hunfolds, htree, rfl⟩) hold
  · have hroots' : HashTree.UnfoldsAll (SentEdge (sent ++ [n])) (sentRoots tx sent) roots :=
      HashTree.UnfoldsAll.mono SentEdge.mono hroots
    rw [hpart.hasher, hhasher, sentRoots_concat]
    by_cases hr : partIsRoot tx n.part = true
    · rw [if_pos hr, if_pos hr]
      refine ⟨roots ++ [.node (.node n.node) forest], HashTree.UnfoldsAll.concat hunfolds hroots',
        HashTree.soundAll_append hrootsSound ⟨htree, trivial⟩, ?_⟩
      rw [treeDigests, HashTree.digests_append]
      simp [HashTree.digests, HashTree.digest]
    · rw [if_neg hr, if_neg hr, List.append_nil, List.append_nil]
      exact ⟨roots, hroots', hrootsSound, rfl⟩

end NodesHashed

/-- What is true after the nodes of a transaction. -/
theorem nodesHashed_of_absorbed {store : NodeHashStore} (hmax : d.maxTransactionLen ≤ 12 * 1024)
    (hnodes : ∀ n ∈ sent, n.Canonical d tx)
    (h : (sent.map SentNode.part).foldlM (absorbNode d tx) (.afterHeader store tx) = some s) :
    NodesHashed d tx sent s := by
  rw [List.foldlM_map] at h
  refine List.foldlM_history
    (P := fun l s => (∀ n ∈ l, n.Canonical d tx) → NodesHashed d tx l s) ?_ ?_ h hnodes
  · intro _
    exact ⟨SlotRing.forall_fill _ (.inl rfl), [], trivial, trivial,
      by simp [NodesState.afterHeader, HashTree.digests]⟩
  · intro l n s s' ih hstep hmem
    have hl : ∀ n ∈ l, n.Canonical d tx := fun n hn => hmem n (List.mem_append_left _ hn)
    exact (ih hl).step (hmem n (by simp)) hmax hstep

/-! ## Disclosed contracts -/

/-- A header that gives no node a seed. -/
def seedlessHeader : DamlTransaction := ⟨none, [], 0, []⟩

/-- What an accepted contract adds to the metadata hash. -/
theorem absorbed_contract {c : SentContract} {hasher hasher' : Bytes} (hc : c.Canonical d)
    (hmax : d.maxTransactionLen ≤ 12 * 1024)
    (h : absorbContract d hasher c.part = some hasher') :
    hasher' = hasher ++ contractEntry (c.createdAt, treeDigest d c.tree) ∧ TreeSound d c.tree := by
  obtain ⟨⟨v, values⟩, hr, hrest⟩ := Option.bind_eq_some_iff.mp h
  split at hrest
  · rename_i hok
    cases hrest
    simp only [decodeInputContractPart, SentContract.part, List.foldlM_cons, List.foldlM_nil,
      decodeContract, Option.bind_eq_bind, Option.pure_def, Option.bind_fun_some] at hr
    split at hr
    · cases hr
    · rename_i hcomplete
      obtain ⟨v', hv, heq⟩ := Option.map_eq_some_iff.mp hr
      cases heq
      have hok : v.hw.err = .ok := hok
      -- The contract is hashed as a create node without a seed.
      have hcallback : nodeDecodeCallback d.roomy (fun _ => none) seedlessHeader
          (nodeContext 0 false treeCheckReset) (c.node.kind Val.toValue []) =
          some { nodeContext 0 false treeCheckReset with
            v := v, values := valuesRecordUsedContract d valuesCheckReset
              (some c.fields.contractId) } := by
        have hv : hashCreate d.roomy .createArgument freshVState
            (createMsg Val.toValue c.fields c.argument) none = some v :=
          hashCreate_room .createArgument hv
        rw [Bool.not_eq_true, Bool.not_eq_false'] at hcomplete
        exact HashingParser.decodeCreate_eq_some.mpr ⟨hcomplete, none, v, rfl, hv, rfl⟩
      have hwritten : WrittenNode d c.node v.hw.bytes := by
        refine ⟨fun _ => true, seedlessHeader, fun _ => none, [], nodeContext 0 false
          treeCheckReset, _, ?_, rfl, .nil, Nat.zero_le _, hcallback, ?_⟩
        · have hfits := hc.fits
          simp only [SentContract.part, Host.inputContract, List.flatMap_cons, List.flatMap_nil,
            List.append_nil, List.length_append] at hfits
          show (Host.lenField 1
            (Host.create (createMsg Val.toValue c.fields c.argument))).length ≤ _
          omega
        · show v.hw = ⟨[] ++ v.hw.bytes, .ok⟩
          rw [← hok]
          rfl
      have hbytes : v.hw.bytes = Piece.text (.node c.node) [] := hwritten.eq_written hc.node
      refine ⟨?_, ⟨rfl, rfl, hwritten.readable hmax hc.node, hwritten.seed_length⟩, trivial⟩
      show hasher ++ int64Bytes c.createdAt ++ d.sha v.hw.bytes = _
      rw [hbytes, List.append_assoc]
      rfl
  · cases hrest

/-- What the contracts of a transaction add to the metadata hash. -/
theorem absorbed_contracts {cs : List SentContract} {hasher hasher' : Bytes}
    (hcs : ∀ c ∈ cs, c.Canonical d) (hmax : d.maxTransactionLen ≤ 12 * 1024)
    (h : (cs.map SentContract.part).foldlM (absorbContract d) hasher = some hasher') :
    hasher' = hasher ++ ((cs.map (·.createdAt)).zip
        (treeDigests d (cs.map (·.tree)))).flatMap contractEntry ∧
      ForestSound d (cs.map (·.tree)) := by
  induction cs generalizing hasher with
  | nil =>
    cases h
    exact ⟨by simp, trivial⟩
  | cons c cs ih =>
    rw [List.map_cons, List.foldlM_cons] at h
    obtain ⟨hasher₁, h₁, h₂⟩ := Option.bind_eq_some_iff.mp h
    obtain ⟨rfl, hsound⟩ := absorbed_contract (hcs c List.mem_cons_self) hmax h₁
    obtain ⟨rfl, hrest⟩ := ih (fun c hc => hcs c (List.mem_cons_of_mem _ hc)) h₂
    refine ⟨?_, hsound, hrest⟩
    rw [List.map_cons, List.map_cons, treeDigests, HashTree.digests, List.zip_cons_cons,
      List.flatMap_cons, List.append_assoc]

/-! ## Header and metadata -/

/-- Metadata that is hashed without error has its strings. -/
theorem hashMetadata_strings {md : Metadata} (h : (hashMetadata .ok md).err = .ok) :
    md.commandId.isSome = true ∧ md.transactionUuid.isSome = true ∧
      md.synchronizerId.isSome = true := by
  have htime (o : Option Nat) :
      EncodesIf True fun w => encodeOptional w (fun w (t : Nat) => encodeInt64 w t) o := by
    cases o with
    | none => exact encodesIf_put _
    | some t => exact ((encodesIf_put _).after (encodesIf_put _)).congr and_self_iff
  have hmetadata : EncodesIf (md.commandId.isSome = true ∧ md.transactionUuid.isSome = true ∧
      md.synchronizerId.isSome = true) fun w => encodeMetadata w md := by
    refine EncodesIf.congr ((((((((((encodesIf_put [0x01]).after
      (encodesIf_strings md.actAs)).after (encodesIf_encodeString md.commandId)).after
      (encodesIf_encodeString md.transactionUuid)).after
      (encodesIf_put (int32Bytes md.mediatorGroup))).after
      (encodesIf_encodeString md.synchronizerId)).after (htime md.minLedgerEffectiveTime)).after
      (htime md.maxLedgerEffectiveTime)).after
      (encodesIf_put (int64Bytes md.preparationTime))).after
      (encodesIf_put (int32Bytes md.inputContractsCount))) ?_
    simp only [true_and, and_true, and_assoc]
  exact ((hmetadata _).mp h).2

theorem length_optStrBytes_le (tag : Nat) (o : Option Bytes) :
    (optStrBytes o).length ≤ (Host.optField tag o).length + 4 := by
  cases o with
  | none => exact Nat.zero_le _
  | some s =>
    have hlen := length_lenField tag s
    simp only [optStrBytes, Option.elim_some, length_strBytes, Host.optField]
    omega

theorem length_optTimeBytes_le (o : Option Nat) : (optTimeBytes o).length ≤ 9 := by
  cases o <;> simp [optTimeBytes]

/-- Metadata writes at most five bytes for each byte of its message, and a few. -/
theorem length_metadataBytes_le (md : Metadata) :
    (metadataBytes md).length ≤ 5 * (Host.metadata md).length + 100 := by
  have hact := (length_repeatedField 1 md.actAs).1
  have hcmd := length_optStrBytes_le 2 md.commandId
  have huuid := length_optStrBytes_le 5 md.transactionUuid
  have hsync := length_optStrBytes_le 3 md.synchronizerId
  have hmin := length_optTimeBytes_le md.minLedgerEffectiveTime
  have hmax := length_optTimeBytes_le md.maxLedgerEffectiveTime
  have hinfo := length_lenField 2 (Host.repeatedField 1 md.actAs ++ Host.optField 2 md.commandId)
  rw [List.length_append] at hinfo
  simp only [metadataBytes, Host.metadata, preparedTransactionHashPurpose, List.length_append,
    length_int32Bytes, length_int64Bytes, List.length_cons, List.length_nil]
  omega

variable {t : Transmission}

/-- The metadata of an accepted transaction can be read off its text. -/
theorem metadata_readable (hcan : t.Canonical d) (hok : (hashMetadata .ok t.metadata).err = .ok) :
    t.metadata.Readable := by
  obtain ⟨hcmd, huuid, hsync⟩ := hashMetadata_strings hok
  have hmd := hcan.metadata
  have hlen := length_metadataBytes_le t.metadata
  have hfits := hcan.metadataFits
  have hbound := hcan.bound
  exact ⟨hcmd, huuid, hsync, hmd.mediatorGroup, hmd.preparationTime, hmd.inputContractsCount,
    hmd.minLedgerEffectiveTime, hmd.maxLedgerEffectiveTime, by omega⟩

/-- The header of a canonical transaction can be read off its text. -/
theorem header_readable (hcan : t.Canonical d) {version : Bytes}
    (hversion : t.header.version = some version) {hashes : List Bytes} (hh : Hashes hashes) :
    Piece.Readable (.header version t.header.roots.length) hashes := by
  have hfits := hcan.headerFits
  have hbound := hcan.bound
  have hlen := length_lenField 1 version
  have hroots := (length_repeatedField 2 t.header.roots).2
  simp only [Host.damlTransaction, hversion, Host.optField, List.length_append] at hfits
  exact ⟨by omega, by omega, hh⟩

/-! ## Whole transactions -/

/-- The header of an accepted transaction has a version. -/
theorem version_of_reach {es : List PartEvent} {st : Prepared}
    (h : (receiving d).Reach (fun _ _ => True) es st) (hcan : t.Canonical d)
    (hsent : partBuffers es = t.messages) : ∃ version, t.header.version = some version := by
  have hfits := hcan.headerFits
  have hbound := hcan.bound
  have hdec := decodeDamlTransaction_damlTransaction hcan.header (by omega)
  have hok := header_hashed_of_reach h hsent hdec
  cases hv : t.header.version with
  | some version => exact ⟨version, rfl⟩
  | none =>
    rw [hashTransaction, hv] at hok
    exact absurd hok (Hw.setHashError_err_ok (by decide))

/-- The signed hash is the digest of a tree of the transaction, for every order of the nodes
and every node tree: a run that delivers a transaction in canonical form and is not refused. -/
theorem hash_is_tree_digest {es : List PartEvent} {st : Prepared}
    (h : (receiving d).Reach (fun _ _ => True) es st) (hcan : t.Canonical d)
    (hsent : partBuffers es = t.messages) :
    ∃ tree, t.TreeOf tree ∧ TreeSound d tree ∧ st.mHash = treeDigest d tree := by
  have hall : AllSent (partBuffers es) t.header t.parts t.metadata t.inputs :=
    hsent ▸ Transmission.allSent hcan
  have hfinal := finalized_of_reach h hall
  obtain ⟨version, hversion⟩ := version_of_reach h hcan hsent
  obtain ⟨store, s, hfold, htx⟩ := hfinal.nodes
  obtain ⟨hasher, hics, hmd⟩ := hfinal.contracts
  obtain ⟨forest, hforest, hsound, hhasher⟩ :=
    (nodesHashed_of_absorbed hcan.bound hcan.nodes hfold).hasher
  obtain ⟨rfl, hcontracts⟩ := absorbed_contracts hcan.contracts hcan.bound hics
  have hmetadata := metadata_readable hcan (metadata_hashed_of_reach h hall.sent)
  have htimes : ∀ time ∈ t.contracts.map (·.createdAt), time < 2 ^ 64 := by
    intro time htime
    obtain ⟨c, hc, rfl⟩ := List.mem_map.mp htime
    exact (hcan.contracts c hc).sendable.createdAt
  refine ⟨t.treeOver version forest, ⟨version, forest, hversion, hforest, rfl⟩, ?_, ?_⟩
  · refine ⟨treeDigests_hashes _, ⟨header_readable hcan hversion (treeDigests_hashes forest),
      hsound⟩, ⟨⟨hmetadata, ?_, htimes, treeDigests_hashes _⟩, hcontracts⟩, trivial⟩
    rw [HashTree.length_digests, List.length_map, List.length_map]
  · have hheader : st.partialTxHash =
        treeDigest d (.node (.header version t.header.roots.length) forest) := by
      rw [htx, hhasher]
      simp [hashTransaction, hversion, encodeString, encodeBytes_eq, encodeInt32,
        HashTree.digest, Piece.text]
    have hmetadataHash : st.partialMdHash = treeDigest d
        (.node (.metadata t.metadata (t.contracts.map (·.createdAt)))
          (t.contracts.map (·.tree))) := by
      rw [hmd, hashMetadata_written]
      rfl
    rw [hfinal.mHash, hheader, hmetadataHash]
    simp [finalizeHash, Transmission.treeOver, HashTree.digest, HashTree.digests, Piece.text]

/-- The signed hash fixes the tree of the transaction: two runs that deliver transactions in
canonical form, are not refused and end with the same hash have received one tree, or two
different byte strings that were hashed for them collide. -/
theorem same_hash_same_tree {es es' : List PartEvent} {st st' : Prepared} {t' : Transmission}
    (h : (receiving d).Reach (fun _ _ => True) es st)
    (h' : (receiving d).Reach (fun _ _ => True) es' st')
    (hcan : t.Canonical d) (hcan' : t'.Canonical d)
    (hsent : partBuffers es = t.messages) (hsent' : partBuffers es' = t'.messages)
    (hhash : st.mHash = st'.mHash) :
    ∃ tree tree', t.TreeOf tree ∧ t'.TreeOf tree' ∧
      (tree = tree' ∨ Collision d.sha (treeTexts d tree) (treeTexts d tree')) := by
  obtain ⟨tree, htree, hsound, hdigest⟩ := hash_is_tree_digest h hcan hsent
  obtain ⟨tree', htree', hsound', hdigest'⟩ := hash_is_tree_digest h' hcan' hsent'
  refine ⟨tree, tree', htree, htree', ?_⟩
  have hdigests : treeDigest d tree = treeDigest d tree' := by rw [← hdigest, hhash, hdigest']
  exact HashTree.digest_eq piece_readable hsound hsound' hdigests

end CantonSigner
