import CantonSigner.Flow.Finalized
import CantonSigner.Hash.Injective
import CantonSigner.Tree.Root
import CantonSigner.Wire.Parts

/-!
# Transactions in canonical form

A `Transmission` is a transaction as a host sends it: header, nodes in any order, metadata and
disclosed contracts, each as one message. It is canonical if every message is well formed and
fits the receive buffer, and the counts it announces are right; nothing is said of the node
tree. `Transmission.allSent` says that such messages are what the receiving machine decodes.
-/

namespace CantonSigner

open ByteCodec HashingParser

/-! ## Nodes and contracts as they are sent -/

/-- A node: its number, its fields with the seed the header gives it, and the numbers of its
children. -/
structure SentNode where
  id : Bytes
  node : NodeVal Val
  children : List Bytes

namespace SentNode

/-- The node as a message. -/
def kind (n : SentNode) : NodeKind := n.node.kind Val.toValue n.children

/-- The node part. -/
def part (n : SentNode) : NodePart := [.nodeId n.id, .v1 [n.kind]]

/-- The number of the node, as the app reads it. -/
def key (n : SentNode) : Int := partNodeId n.part

end SentNode

/-- An exercise or a rollback. -/
def NodeVal.IsParent {V : Type} : NodeVal V → Prop
  | .exercise .. | .rollback _ => True
  | .create .. | .fetch .. => False

/-- A node in canonical form that a device can receive under a header. -/
structure SentNode.Canonical (d : Device) (tx : DamlTransaction) (n : SentNode) : Prop where
  node : n.node.Canonical
  /-- The hashes of the children are not sent. -/
  bare : n.node.children = []
  parent : n.node.IsParent ∨ n.children = []
  seed : n.node.Seeded tx n.key
  numbers : ∀ c ∈ n.children, IsDigits c ∧ c.length < 10
  sendable : n.kind.Sendable
  fits : (Host.node n.part).length ≤ d.maxTransactionLen

/-- A disclosed contract. -/
structure SentContract where
  fields : NodeFields
  argument : Val
  createdAt : Nat

namespace SentContract

/-- The contract as a create node: it has no seed. -/
def node (c : SentContract) : NodeVal Val := .create c.fields none c.argument

/-- The contract as a message. -/
def part (c : SentContract) : InputContract :=
  ⟨[createMsg Val.toValue c.fields c.argument], c.createdAt⟩

end SentContract

/-- A contract in canonical form that a device can receive. -/
structure SentContract.Canonical (d : Device) (c : SentContract) : Prop where
  node : c.node.Canonical
  sendable : c.part.Sendable
  fits : (Host.inputContract c.part).length ≤ d.maxTransactionLen

/-! ## Whole transactions -/

/-- A transaction as a host sends it. -/
structure Transmission where
  header : DamlTransaction
  nodes : List SentNode
  metadata : Metadata
  contracts : List SentContract

namespace Transmission

/-- The node parts. -/
def parts (t : Transmission) : List NodePart := t.nodes.map SentNode.part

/-- The input contracts. -/
def inputs (t : Transmission) : List InputContract := t.contracts.map SentContract.part

/-- The messages in the order of sending. -/
def messages (t : Transmission) : List Bytes :=
  Host.damlTransaction t.header :: t.parts.map Host.node ++
    Host.metadata t.metadata :: t.inputs.map Host.inputContract

end Transmission

/-- Every message is well formed and fits the receive buffer of the device, which is at most
12 KB, and the announced counts are right. -/
structure Transmission.Canonical (d : Device) (t : Transmission) : Prop where
  bound : d.maxTransactionLen ≤ 12 * 1024
  header : t.header.Sendable
  headerFits : (Host.damlTransaction t.header).length ≤ d.maxTransactionLen
  nodesCount : t.header.nodesCount = t.nodes.length
  nodes : ∀ n ∈ t.nodes, n.Canonical d t.header
  metadata : t.metadata.Sendable
  metadataFits : (Host.metadata t.metadata).length ≤ d.maxTransactionLen
  contractsCount : t.metadata.inputContractsCount = t.contracts.length
  contracts : ∀ c ∈ t.contracts, c.Canonical d

variable {d : Device} {t : Transmission}

/-- A list of messages, decoded one by one. -/
theorem forall₂_map_decode {α : Type} {decode : Bytes → Option α} {encode : α → Bytes}
    {as : List α} (h : ∀ a ∈ as, decode (encode a) = some a) :
    List.Forall₂ (fun b a => decode b = some a) (as.map encode) as := by
  induction as with
  | nil => exact .nil
  | cons a as ih =>
    exact .cons (h a List.mem_cons_self) (ih fun b hb => h b (List.mem_cons_of_mem a hb))

theorem SentNode.Canonical.decode_part {n : SentNode} {tx : DamlTransaction} (h : n.Canonical d tx)
    (hbound : d.maxTransactionLen ≤ 12 * 1024) : decodeNode (Host.node n.part) = some n.part := by
  have hfits := h.fits
  refine decodeNode_node (fun k hk => ?_) (by omega)
  obtain rfl := List.mem_singleton.mp hk
  exact h.sendable

theorem SentContract.Canonical.decode_part {c : SentContract} (h : c.Canonical d)
    (hbound : d.maxTransactionLen ≤ 12 * 1024) :
    decodeInputContract (Host.inputContract c.part) = some c.part := by
  have hfits := h.fits
  exact decodeInputContract_inputContract h.sendable (by omega)

namespace Transmission

theorem decode_header (h : t.Canonical d) :
    decodeDamlTransaction (Host.damlTransaction t.header) = some t.header := by
  have hbound := h.bound
  have hfits := h.headerFits
  exact decodeDamlTransaction_damlTransaction h.header (by omega)

theorem decode_metadata (h : t.Canonical d) :
    decodeMetadata (Host.metadata t.metadata) = some t.metadata := by
  have hbound := h.bound
  have hfits := h.metadataFits
  exact decodeMetadata_metadata h.metadata (by omega)

/-- **Canonical messages are received as they were sent.** -/
theorem allSent (h : t.Canonical d) :
    AllSent t.messages t.header t.parts t.metadata t.inputs := by
  have hnodes : List.Forall₂ (fun b p => decodeNode b = some p) (t.parts.map Host.node)
    t.parts := by
    refine forall₂_map_decode fun p hp => ?_
    obtain ⟨n, hn, rfl⟩ := List.mem_map.mp hp
    exact (h.nodes n hn).decode_part h.bound
  have hcontracts : List.Forall₂ (fun b ic => decodeInputContract b = some ic)
      (t.inputs.map Host.inputContract) t.inputs := by
    refine forall₂_map_decode fun ic hic => ?_
    obtain ⟨c, hc, rfl⟩ := List.mem_map.mp hic
    exact (h.contracts c hc).decode_part h.bound
  refine ⟨⟨⟨Host.damlTransaction t.header :: t.parts.map Host.node, Host.metadata t.metadata,
    t.inputs.map Host.inputContract, rfl, ⟨_, _, rfl, decode_header h, hnodes⟩, decode_metadata h,
    hcontracts⟩, ?_⟩, ?_⟩
  · rw [parts, List.length_map]
    exact h.nodesCount.symm
  · rw [inputs, List.length_map]
    exact h.contractsCount.symm

/-- The messages fit the receive buffer. -/
theorem messages_fit (h : t.Canonical d) : ∀ b ∈ t.messages, b.length ≤ d.maxTransactionLen := by
  intro b hb
  rcases List.mem_append.mp hb with hb | hb
  · rcases List.mem_cons.mp hb with rfl | hb
    · exact h.headerFits
    · obtain ⟨p, hp, rfl⟩ := List.mem_map.mp hb
      obtain ⟨n, hn, rfl⟩ := List.mem_map.mp hp
      exact (h.nodes n hn).fits
  · rcases List.mem_cons.mp hb with rfl | hb
    · exact h.metadataFits
    · obtain ⟨ic, hic, rfl⟩ := List.mem_map.mp hb
      obtain ⟨c, hc, rfl⟩ := List.mem_map.mp hic
      exact (h.contracts c hc).fits

end Transmission

/-! ## What acceptance says of the metadata -/

/-- The metadata of a run that has delivered a transaction was hashed without error. -/
theorem metadata_hashed_of_reach {ok : Prepared → PartEvent → Prop} {es : List PartEvent}
    {st : Prepared} (h : (receiving d).Reach ok es st) {tx : DamlTransaction}
    {parts : List NodePart} {md : Metadata} {ics : List InputContract}
    (hsent : ContractsSent (partBuffers es) tx parts md ics) :
    (hashMetadata .ok md).err = .ok := by
  induction h generalizing ics with
  | start =>
    have hlen := hsent.length
    rw [partBuffers, List.length_nil] at hlen
    omega
  | @step es st st' e hreach hok hstep ih =>
    rw [partBuffers_append] at hsent
    rcases receiving_step_cases hstep with ⟨parsed, buf, rfl, hacc⟩ | ⟨pairs, signature, rfl, -⟩
    · obtain ⟨nodes, metadata, contracts, hbufs, hnodes, hmd, hcs⟩ := hsent.bytes
      simp only [partBuffers] at hbufs
      rcases List.eq_nil_or_concat' contracts with rfl | ⟨contracts, last, rfl⟩
      · -- The metadata arrives in this step.
        obtain ⟨hes, hbuf⟩ := List.append_inj' hbufs rfl
        obtain rfl : buf = metadata := (List.cons.inj hbuf).1
        rw [← hes] at hnodes
        obtain ⟨md', hs⟩ := metadataStep_of_nodes hreach hnodes hsent.nodesCount hacc
        obtain rfl : md' = md := Option.some.inj (hs.decoded.symm.trans hmd)
        have hreceived := nodesReceived_of_reach hreach hnodes hsent.nodesCount
        have hnoError := hs.noError
        rwa [hreceived.hashErr] at hnoError
      · obtain ⟨ics₁, ics₂, -, hcs₁, -⟩ := forall₂_append_left hcs
        rw [← List.cons_append, ← List.append_assoc] at hbufs
        obtain ⟨hes, -⟩ := List.append_inj' hbufs rfl
        exact ih ⟨⟨nodes, metadata, contracts, hes, hnodes, hmd, hcs₁⟩, hsent.nodesCount⟩
    · simp only [partBuffers, List.append_nil] at hsent
      exact ih hsent

end CantonSigner
