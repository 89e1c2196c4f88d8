import CantonSigner.Flow.Withdrawal
import CantonSigner.Hash.Binding
import CantonSigner.Lib.Unfolding
import CantonSigner.Tree.Verdict

/-!
# The signed hash covers every node

The tree under the signed hash (`hash_is_tree_digest`) has in it the nodes that hang below the
root. If the node tree passed its check, and the ids are written as plain numbers, these are
all nodes that were sent, each of them once: the check makes the children lists a spanning
tree, and the tree is its unfolding. So two transactions with one signed hash have the same
nodes up to their order and their numbers (`same_hash_same_transaction`).
-/

namespace CantonSigner

open ByteCodec HashingParser

variable {d : Device} {st st' : Prepared} {t t' : Transmission}

/-! ## The verdict of a run -/

/-- The verdict on the node tree, in the step that brings the metadata. -/
theorem verdict_of_metadata {parsed : Bool} {buf : Bytes} {md : Metadata}
    (hs : MetadataStep d st parsed buf st' md) :
    PastNodes st' ∧ st'.tree = treeVerifyComplete st.tree := by
  have hverdict := applyNodeTreeVerdict_accepted hs.verdict
  have hstate := hs.state
  rcases hs.result with ⟨-, -, rfl⟩ | ⟨-, rfl⟩
  · rw [hverdict, finalized_eq]
    exact ⟨.inl hstate, rfl⟩
  · rw [hverdict]
    exact ⟨.inr rfl, rfl⟩

/-- A message after the nodes does not repair the node tree. -/
theorem pastNodes_step {parsed : Bool} {buf : Bytes} (hpast : PastNodes st)
    (hacc : processPreparedTxPart d parsed st buf = (st', 0)) :
    PastNodes st' ∧ (st'.tree.err = .ok → st.tree.err = .ok) := by
  rcases accepted_cases hacc with ⟨tx, hs⟩ | ⟨part, ctx, hs⟩ | ⟨md, hs⟩ | ⟨ic, v, values, shown, hs⟩
  · rw [PastNodes, hs.state] at hpast
    rcases hpast with h | h <;> cases h
  · rw [PastNodes, hs.state] at hpast
    rcases hpast with h | h <;> cases h
  · obtain ⟨hpast', htree⟩ := verdict_of_metadata hs
    exact ⟨hpast', fun hok => (verdict_ok (htree ▸ hok)).1⟩
  · have hstate := hs.state
    rcases hs.result with ⟨-, -, rfl⟩ | ⟨-, rfl⟩
    · rw [finalized_eq]
      exact ⟨.inr hstate, id⟩
    · exact ⟨.inr hstate, id⟩

/-- The node tree of a run that has gone past its nodes. -/
theorem treeAccepted_of_reach {ok : Prepared → PartEvent → Prop} {es : List PartEvent}
    (h : (receiving d).Reach ok es st) {tx : DamlTransaction} {parts : List NodePart}
    {md : Metadata} {ics : List InputContract}
    (hsent : ContractsSent (partBuffers es) tx parts md ics) :
    PastNodes st ∧ (st.tree.err = .ok → ∃ root, TreeAccepted tx parts root) := by
  induction h generalizing ics with
  | start =>
    have hlen := hsent.length
    rw [partBuffers, List.length_nil] at hlen
    omega
  | @step es st st' e hreach _ hstep ih =>
    rw [partBuffers_append] at hsent
    rcases receiving_step_cases hstep with ⟨parsed, buf, rfl, hacc⟩ | ⟨pairs, signature, rfl, rfl⟩
    · obtain ⟨nodes, metadata, contracts, hbufs, hnodes, hmd, hcs⟩ := hsent.bytes
      simp only [partBuffers] at hbufs
      rcases List.eq_nil_or_concat' contracts with rfl | ⟨contracts, last, rfl⟩
      · -- The metadata arrives in this step, with the verdict.
        obtain ⟨hes, -⟩ := List.append_inj' hbufs rfl
        rw [← hes] at hnodes
        obtain ⟨md', hs⟩ := metadataStep_of_nodes hreach hnodes hsent.nodesCount hacc
        obtain ⟨store, habsorbed⟩ :=
          (nodesReceived_of_reach hreach hnodes hsent.nodesCount).absorbed
        obtain ⟨hpast, htree⟩ := verdict_of_metadata hs
        exact ⟨hpast, fun hok =>
          treeAccepted_of_verdict habsorbed hsent.nodesCount (htree ▸ hok)⟩
      · -- A contract arrives: the verdict was given before.
        obtain ⟨ics₁, ics₂, -, hcs₁, -⟩ := forall₂_append_left hcs
        rw [← List.cons_append, ← List.append_assoc] at hbufs
        obtain ⟨hes, -⟩ := List.append_inj' hbufs rfl
        obtain ⟨hpast, haccepted⟩ :=
          ih ⟨⟨nodes, metadata, contracts, hes, hnodes, hmd, hcs₁⟩, hsent.nodesCount⟩
        obtain ⟨hpast', hkept⟩ := pastNodes_step hpast hacc
        exact ⟨hpast', fun hok => haccepted (hkept hok)⟩
    · simp only [partBuffers, List.append_nil] at hsent
      exact ih hsent

/-! ## The unfolding of the node tree -/

/-- Node ids and roots are written as plain decimal numbers. -/
structure Transmission.PlainIds (t : Transmission) : Prop where
  nodes : ∀ n ∈ t.nodes, PlainDecimal n.id
  roots : ∀ r ∈ t.header.roots, PlainDecimal r

/-- A node that is sent declares one list of children, and claims them all. -/
theorem childLists_part {n : SentNode} (hn : n.node.IsParent ∨ n.children = []) :
    partChildren n.part = n.children ∧ claimedChildren n.part = n.children ∧
      laterChildren n.part = [] := by
  have hlists : childLists (nodeKinds n.part) = [n.children] ∨
      childLists (nodeKinds n.part) = [] ∧ n.children = [] := by
    show childLists [n.kind] = _ ∨ childLists [n.kind] = _ ∧ _
    unfold SentNode.kind
    cases hnode : n.node with
    | exercise | rollback => exact .inl rfl
    | create | fetch =>
      rw [hnode] at hn
      exact .inr ⟨rfl, hn.resolve_left id⟩
  rw [partChildren, claimedChildren, laterChildren]
  rcases hlists with heq | ⟨heq, hnil⟩
  · rw [heq]
    simp
  · rw [heq, hnil]
    simp

section TreeAccepted

variable {root : Bytes} (h : TreeAccepted t.header t.parts root)
  (hparents : ∀ n ∈ t.nodes, n.node.IsParent ∨ n.children = [])

include hparents

/-- The edges of the tree are what the children lists say. -/
theorem declaredEdge_iff (p c : Int) :
    DeclaredEdge t.parts p c ↔ HashTree.Child (SentEdge t.nodes) p c := by
  constructor
  · rintro ⟨part, hpart, rfl, s, hs, rfl⟩
    obtain ⟨n, hn, rfl⟩ := List.mem_map.mp hpart
    rw [(childLists_part (hparents n hn)).1] at hs
    exact ⟨_, _, ⟨n, hn, rfl, rfl, rfl⟩, List.mem_map_of_mem hs⟩
  · rintro ⟨_, _, ⟨n, hn, rfl, rfl, rfl⟩, hc⟩
    obtain ⟨s, hs, rfl⟩ := List.mem_map.mp hc
    refine ⟨n.part, List.mem_map_of_mem hn, rfl, s, ?_, rfl⟩
    rwa [(childLists_part (hparents n hn)).1]

include h

omit hparents in
theorem keys_nodup : (t.nodes.map SentNode.key).Nodup := by
  have hnodup := h.ids_nodup
  rwa [partIds, Transmission.parts, List.map_map] at hnodup

theorem sentEdge_spanningTree :
    IsSpanningTree {k : Int | 0 ≤ k ∧ k < t.parts.length} (nodeIdFromStr root)
      (HashTree.Child (SentEdge t.nodes)) := by
  have hedge : DeclaredEdge t.parts = HashTree.Child (SentEdge t.nodes) := by
    funext p c
    exact propext (declaredEdge_iff hparents p c)
  rw [← hedge]
  refine h.spanningTree fun part hpart c hc => ?_
  obtain ⟨n, hn, rfl⟩ := List.mem_map.mp hpart
  rw [(childLists_part (hparents n hn)).2.2] at hc
  cases hc

theorem sentEdge_keyed : HashTree.Keyed (SentEdge t.nodes) := by
  constructor
  · rintro k _ _ _ _ ⟨n, hn, rfl, rfl, rfl⟩ ⟨m, hm, hkey, rfl, rfl⟩
    obtain rfl := List.inj_on_of_nodup_map (keys_nodup h) hm hn hkey
    exact ⟨rfl, rfl⟩
  · rintro k _ _ ⟨n, hn, rfl, rfl, rfl⟩
    have hpart : n.part ∈ t.parts := List.mem_map_of_mem hn
    have hclaimed := (childLists_part (hparents n hn)).2.1
    have heq : (claimedChildren n.part).map nodeIdFromStr = n.children.map atoint := by
      rw [hclaimed]
      refine List.map_congr_left fun c hc => ?_
      exact (h.atoint_claimed hpart (hclaimed ▸ hc)).1
    rw [← heq]
    exact (List.nodup_flatMap.mp h.claims_nodup).1 n.part hpart

/-- The unfolding of an accepted node tree has every node in it exactly once. -/
theorem nodes_perm {tree : HashTree Piece}
    (hu : HashTree.Unfolds (SentEdge t.nodes) (nodeIdFromStr root) tree) :
    tree.labels.Perm (t.nodes.map fun n => Piece.node n.node) := by
  refine HashTree.labels_perm (sentEdge_keyed h hparents) (sentEdge_spanningTree h hparents) hu
    (keys_nodup h) (fun k => ?_) ?_
  · have hmem := h.mem_ids k
    rwa [partIds, Transmission.parts, List.map_map] at hmem
  · rw [List.forall₂_map_left_iff, List.forall₂_map_right_iff, List.forall₂_same]
    exact fun n hn => ⟨_, n, hn, rfl, rfl, rfl⟩

omit hparents in
/-- The hasher takes the root of the tree for the root, and nothing else. -/
theorem sentRoots_eq (hplain : t.PlainIds)
    (hshort : ∀ part ∈ t.parts, ∀ i ∈ nodeIds part, i.length < 4) :
    sentRoots t.header t.nodes = [nodeIdFromStr root] := by
  have heq : sentRoots t.header t.nodes = rootNumbers t.header t.parts := by
    rw [sentRoots, rootNumbers, Transmission.parts, List.filter_map, List.map_map]
    rfl
  rw [heq, rootNumbers_eq_iff h]
  intro part hpart
  obtain ⟨n, hn, rfl⟩ := List.mem_map.mp hpart
  have hid := hplain.nodes n hn
  have hroot := hplain.roots root (by rw [h.roots]; exact List.mem_singleton_self _)
  have hidLen := hshort n.part hpart n.id (List.mem_singleton_self _)
  have hkey : partNodeId n.part = digitsValue n.id := by
    show atoint (cstr n.id) = _
    rw [cstr_digits hid.digits, atoint_digits hid.digits (by omega)]
  have hrootId : nodeIdFromStr root = digitsValue root :=
    (isNodeId_iff.mpr ⟨h.root_nonneg, h.root_lt⟩).value
  rw [NamedAsRoot, hkey, hrootId]
  constructor
  · rintro ⟨s, hs, rfl⟩
    obtain rfl := List.mem_singleton.mp hs
    rw [cstr_digits hid.digits]
  · intro hvalue
    refine ⟨n.id, List.mem_singleton_self _, ?_⟩
    rw [cstr_digits hid.digits, ← decimal_digitsValue hid, ← decimal_digitsValue hroot,
      Int.ofNat.inj hvalue]

end TreeAccepted

/-! ## One hash, one transaction -/

/-- Two transactions that are one but for the order of their nodes and the numbers the nodes go
by: below their roots hangs one tree. -/
structure SameTransaction (t t' : Transmission) : Prop where
  version : t.header.version = t'.header.version
  metadata : t.metadata = t'.metadata
  contracts : t.contracts = t'.contracts
  nodes : (t.nodes.map (·.node)).Perm (t'.nodes.map (·.node))
  tree : ∃ root root' tree, sentRoots t.header t.nodes = [root] ∧
    sentRoots t'.header t'.nodes = [root'] ∧
    HashTree.Unfolds (SentEdge t.nodes) root tree ∧ HashTree.Unfolds (SentEdge t'.nodes) root' tree

/-- Contracts whose trees and times agree are the same. -/
theorem contracts_eq {cs cs' : List SentContract}
    (htimes : cs.map (·.createdAt) = cs'.map (·.createdAt))
    (htrees : cs.map (·.tree) = cs'.map (·.tree)) : cs = cs' := by
  induction cs generalizing cs' with
  | nil =>
    cases cs' with
    | nil => rfl
    | cons c' cs' => cases htimes
  | cons c cs ih =>
    cases cs' with
    | nil => cases htimes
    | cons c' cs' =>
      obtain ⟨htime, htimes'⟩ := List.cons.inj htimes
      obtain ⟨htree, htrees'⟩ := List.cons.inj htrees
      obtain ⟨f, a, time⟩ := c
      obtain ⟨f', a', time'⟩ := c'
      obtain ⟨rfl, rfl⟩ : f = f' ∧ a = a' := by
        simpa [SentContract.tree, SentContract.node] using htree
      obtain rfl : time = time' := htime
      rw [ih htimes' htrees']

/-- The nodes below the root of a run whose node tree has no error. -/
theorem covered_of_reach {es : List PartEvent} (h : (receiving d).Reach (fun _ _ => True) es st)
    (hcan : t.Canonical d) (hplain : t.PlainIds) (hsent : partBuffers es = t.messages)
    (hok : st.tree.err = .ok) :
    ∃ root, sentRoots t.header t.nodes = [root] ∧ ∀ tree,
      HashTree.Unfolds (SentEdge t.nodes) root tree →
        tree.labels.Perm (t.nodes.map fun n => Piece.node n.node) := by
  have hall : AllSent (partBuffers es) t.header t.parts t.metadata t.inputs :=
    hsent ▸ Transmission.allSent hcan
  obtain ⟨root, haccepted⟩ := (treeAccepted_of_reach h hall.sent).2 hok
  obtain ⟨store, s, hfold, -⟩ := (finalized_of_reach h hall).nodes
  refine ⟨nodeIdFromStr root, sentRoots_eq haccepted hplain (parts_short hfold), fun tree hu => ?_⟩
  exact nodes_perm haccepted (fun n hn => (hcan.nodes n hn).parent) hu

/-- **The signed hash fixes the transaction**: two runs that deliver transactions in canonical
form, with plain ids and node trees without error, and that end with the same hash have received
one transaction, or two different byte strings that were hashed for them collide. -/
theorem same_hash_same_transaction {es es' : List PartEvent}
    (h : (receiving d).Reach (fun _ _ => True) es st)
    (h' : (receiving d).Reach (fun _ _ => True) es' st')
    (hcan : t.Canonical d) (hcan' : t'.Canonical d) (hplain : t.PlainIds) (hplain' : t'.PlainIds)
    (hsent : partBuffers es = t.messages) (hsent' : partBuffers es' = t'.messages)
    (hok : st.tree.err = .ok) (hok' : st'.tree.err = .ok) (hhash : st.mHash = st'.mHash) :
    SameTransaction t t' ∨ ∃ tree tree', t.TreeOf tree ∧ t'.TreeOf tree' ∧
      Collision d.sha (treeTexts d tree) (treeTexts d tree') := by
  obtain ⟨tree, tree', htree, htree', rfl | hcoll⟩ :=
    same_hash_same_tree h h' hcan hcan' hsent hsent' hhash
  · left
    obtain ⟨root, hroots, hcovers⟩ := covered_of_reach h hcan hplain hsent hok
    obtain ⟨root', hroots', hcovers'⟩ := covered_of_reach h' hcan' hplain' hsent' hok'
    obtain ⟨version, forest, hversion, hforest, rfl⟩ := htree
    obtain ⟨version', forest', hversion', hforest', heq⟩ := htree'
    simp only [Transmission.treeOver, HashTree.node.injEq, List.cons.injEq, true_and, and_true,
      Piece.header.injEq, Piece.metadata.injEq] at heq
    obtain ⟨⟨⟨rfl, -⟩, rfl⟩, ⟨hmetadata, htimes⟩, htrees⟩ := heq
    rw [hroots] at hforest
    rw [hroots'] at hforest'
    -- One root, and one tree below it.
    cases forest with
    | nil => exact hforest.elim
    | cons tree rest =>
      have hu : HashTree.Unfolds (SentEdge t.nodes) root tree := hforest.1
      have hu' : HashTree.Unfolds (SentEdge t'.nodes) root' tree := hforest'.1
      refine ⟨hversion.trans hversion'.symm, hmetadata, contracts_eq htimes htrees, ?_,
        root, root', tree, hroots, hroots', hu, hu'⟩
      have hinj : Function.Injective Piece.node := fun a b hab => Piece.node.inj hab
      rw [← List.map_perm_map_iff hinj, List.map_map, List.map_map]
      exact (hcovers tree hu).symm.trans (hcovers' tree hu')
  · exact .inr ⟨tree, tree', htree, htree', hcoll⟩

/-- Metadata that announces no input contract. -/
def noContractMetadata : Metadata := { oneContractMetadata with inputContractsCount := 0 }

theorem noContractMetadata_sendable : noContractMetadata.Sendable := by
  refine ⟨?_, ?_, ?_, by decide, ?_, by decide, by decide, ?_, ?_⟩
  · intro a ha
    obtain rfl := List.mem_singleton.mp ha
    decide
  · rintro s ⟨⟩
    decide
  · rintro s ⟨⟩
    decide
  · rintro s ⟨⟩
    decide
  · rintro s ⟨⟩
  · rintro s ⟨⟩

/-- A rollback node. -/
def rollbackNode (id : String) (children : List String) : SentNode :=
  ⟨str id, .rollback [], children.map str⟩

/-- The header of three nodes. -/
def chainHeader : DamlTransaction := ⟨some (str "2.1"), [str "0"], 3, []⟩

/-- Three rollback nodes, one below the other. -/
def chain (middle leaf : String) : Transmission where
  header := chainHeader
  nodes := [rollbackNode leaf [], rollbackNode middle [leaf], rollbackNode "0" [middle]]
  metadata := noContractMetadata
  contracts := []

/-- The messages of a transaction without contracts, in a run. -/
def chainMessages (t : Transmission) : List PartEvent :=
  .part false (Host.damlTransaction t.header) :: t.parts.map (fun p => .part false (Host.node p)) ++
    [.part true (Host.metadata t.metadata)]

theorem rollbackNode_canonical {tx : DamlTransaction} {id : String} {children : List String}
    (hnul : ∀ c ∈ children, NulFree (str c))
    (hnumbers : ∀ c ∈ children, IsDigits (str c) ∧ (str c).length < 10)
    (hfits : (Host.node (rollbackNode id children).part).length ≤ testDevice.maxTransactionLen) :
    (rollbackNode id children).Canonical testDevice tx where
  node := by
    have hnone : ∀ f ∈ (none : Option NodeFields), False := by
      rintro f ⟨⟩
    refine ⟨⟨fun f hf => (hnone f hf).elim, fun f hf => (hnone f hf).elim, ?_⟩,
      fun f hf => (hnone f hf).elim, ?_, trivial, ?_⟩
    · rintro i ⟨⟩
    · intro v hv
      cases hv
    · intro h hh
      cases hh
  bare := rfl
  parent := .inl trivial
  seed := trivial
  numbers := by
    intro c hc
    obtain ⟨c, hmem, rfl⟩ := List.mem_map.mp hc
    exact hnumbers c hmem
  sendable := by
    intro c hc
    obtain ⟨c, hmem, rfl⟩ := List.mem_map.mp hc
    exact hnul c hmem
  fits := hfits

theorem chain_canonical {middle leaf : String}
    (hnames : (middle, leaf) = ("2", "1") ∨ (middle, leaf) = ("1", "2")) :
    (chain middle leaf).Canonical testDevice ∧ (chain middle leaf).PlainIds := by
  have hnodes : ∀ n ∈ (chain middle leaf).nodes,
      n.Canonical testDevice (chain middle leaf).header ∧ PlainDecimal n.id := by
    intro n hn
    simp only [chain, List.mem_cons, List.not_mem_nil, or_false] at hn
    rcases hnames with heq | heq <;> obtain ⟨rfl, rfl⟩ := Prod.mk.inj heq <;>
      rcases hn with rfl | rfl | rfl <;>
      exact ⟨rollbackNode_canonical (by decide) (by decide) (by decide), by decide, by decide,
        by decide⟩
  have hroot : PlainDecimal (str "0") := ⟨by decide, by decide, by decide⟩
  have hheader : chainHeader.Sendable := by
    refine ⟨?_, ?_, by decide, ?_⟩
    · rintro s ⟨⟩
      decide
    · intro r hr
      obtain rfl := List.mem_singleton.mp hr
      decide
    · intro s hs
      cases hs
  have hfits : (Host.damlTransaction chainHeader).length ≤ testDevice.maxTransactionLen ∧
      (Host.metadata noContractMetadata).length ≤ testDevice.maxTransactionLen := by decide
  refine ⟨⟨by decide, hheader, hfits.1, rfl, fun n hn => (hnodes n hn).1,
    noContractMetadata_sendable, hfits.2, rfl, ?_⟩, fun n hn => (hnodes n hn).2, ?_⟩
  · intro c hc
    cases hc
  · intro r hr
    obtain rfl := List.mem_singleton.mp hr
    exact hroot

/-- The receiving machine on the messages of a transaction without contracts. -/
def chainRun (t : Transmission) : Option Prepared :=
  (receiving testDevice).run (fun _ _ => true) .start (chainMessages t)

/-- The number of a node makes no difference. -/
theorem same_hash_same_transaction_chains : ∃ st st',
    (receiving testDevice).Reach (fun _ _ => True) (chainMessages (chain "2" "1")) st ∧
      (receiving testDevice).Reach (fun _ _ => True) (chainMessages (chain "1" "2")) st' ∧
      (SameTransaction (chain "2" "1") (chain "1" "2") ∨ ∃ tree tree',
        (chain "2" "1").TreeOf tree ∧ (chain "1" "2").TreeOf tree' ∧
          Collision testDevice.sha (treeTexts testDevice tree) (treeTexts testDevice tree')) := by
  have hrun : ∀ p ∈ [("2", "1"), ("1", "2")], (chainRun (chain p.1 p.2)).any (fun st =>
      decide (st.tree.err = .ok) &&
        decide (some st.mHash = (chainRun (chain "2" "1")).map fun st => st.mHash)) = true := by
    decide +kernel
  obtain ⟨st, hreach, hp⟩ := exists_reach_nodeMessages _ (hrun ("2", "1") (by simp))
  obtain ⟨st', hreach', hp'⟩ := exists_reach_nodeMessages _ (hrun ("1", "2") (by simp))
  simp only [Bool.and_eq_true, decide_eq_true_eq] at hp hp'
  obtain ⟨hok, hhash⟩ := hp
  obtain ⟨hok', hhash'⟩ := hp'
  obtain ⟨hcan, hplain⟩ := @chain_canonical "2" "1" (.inl rfl)
  obtain ⟨hcan', hplain'⟩ := @chain_canonical "1" "2" (.inr rfl)
  exact ⟨st, st', hreach, hreach', same_hash_same_transaction hreach hreach' hcan hcan' hplain
    hplain' rfl rfl hok hok' (Option.some.inj (hhash.trans hhash'.symm))⟩

end CantonSigner
