import CantonSigner.Flow.Completion
import CantonSigner.Tree.Check

/-!
# Impossible node trees

Two node parts with one id, or a part that is its own child, cannot come from a correct
host, and the verdict on the tree refuses them. Two things come in its way:

- only the first error of the tree check is kept. A header with several roots, or with
  more nodes than are tracked, leaves a mild error, and then nothing is marked: the
  verdict falls back to blind signing whatever the parts say (`twoRoots_reviewed`);
- a part that is marked as the last one is reviewed before there is a verdict.

`impossible_refused` holds of every run without the two.
-/

namespace CantonSigner

open ByteCodec HashingParser

/-- Two parts carry the same node id, or a part lists its own id as a child. -/
def ImpossibleParts (parts : List NodePart) : Prop :=
  ¬ (partIds parts).Nodup ∨ ∃ part ∈ parts, ∃ c ∈ partChildren part, atoint c = partNodeId part

theorem not_impossible_nil {parts : List NodePart} (h : parts = []) : ¬ ImpossibleParts parts := by
  rintro (hdup | ⟨part, hpart, -⟩)
  · exact hdup (by simp [h, partIds])
  · rw [h] at hpart
    cases hpart

/-- A header whose nodes are tracked: it has one root, and room for its nodes is
allocated. -/
def Tracked (tx : DamlTransaction) : Prop :=
  tx.roots.length = 1 ∧ tx.nodesCount ≤ maxTxNodes

/-- The condition on the messages of a flow: a header that announces nodes is tracked,
and no message is marked as the last one before the node parts are complete. -/
def TreeGuarded (st : Prepared) (parsed : Bool) (buf : Bytes) : Prop :=
  match st.txState with
  | .damlTxPart => ∀ tx, decodeDamlTransaction buf = some tx →
      (tx.nodesCount ≠ 0 → parsed = false) ∧ (0 < tx.nodesCount → Tracked tx)
  | .damlNodes => parsed = false
  | .metadata | .metadataInputContracts => True

/-! ## Errors of a tracked tree -/

/-- No error so far, or one that refuses the flow. -/
def ErrorRefuses (t : TreeCheck) : Prop := t.err = .ok ∨ treeErrorIsImpossible t.err = true

variable {t : TreeCheck}

theorem ErrorRefuses.setTreeError {e : TreeError} (h : ErrorRefuses t)
    (he : treeErrorIsImpossible e = true) : ErrorRefuses (t.setTreeError e) := by
  unfold TreeCheck.setTreeError
  split
  · exact .inr he
  · exact h

theorem ErrorRefuses.markSeen {id : Int} (h : ErrorRefuses t) :
    ErrorRefuses (treeMarkSeen t id) := by
  unfold treeMarkSeen
  split
  · exact h.setTreeError rfl
  · split
    · exact h.setTreeError rfl
    · exact h

theorem ErrorRefuses.claimChild {parentId child : Int} (h : ErrorRefuses t) :
    ErrorRefuses (claimChild t parentId child).1 := by
  unfold CantonSigner.claimChild
  split
  · exact h.setTreeError rfl
  · split
    · exact h.setTreeError rfl
    · split
      · exact h.setTreeError rfl
      · split
        · exact h.setTreeError rfl
        · exact h

theorem ErrorRefuses.claimChildren {parentId : Int} {children : List Bytes} (h : ErrorRefuses t) :
    ErrorRefuses (treeClaimChildren t parentId children) := by
  induction children generalizing t with
  | nil => exact h
  | cons c cs ih =>
    have hc : ErrorRefuses (CantonSigner.claimChild t parentId (nodeIdFromStr c)).1 := h.claimChild
    unfold treeClaimChildren
    split
    · rename_i heq
      rw [heq] at hc
      exact hc
    · rename_i heq
      rw [heq] at hc
      exact ih hc

/-- A header whose nodes are tracked finds no mild error. -/
theorem treeCheckInit_errorRefuses {roots : List Bytes} {nodesCount : Int}
    (hroots : roots.length = 1) (h0 : 0 ≤ nodesCount) (hmax : nodesCount ≤ maxTxNodes) :
    ErrorRefuses (treeCheckInit roots nodesCount) := by
  obtain ⟨root, rfl⟩ := List.length_eq_one_iff.mp hroots
  unfold treeCheckInit
  have hcount : ¬ (decide (nodesCount < 0) || decide (maxTxNodes < nodesCount)) = true := by
    rw [Bool.or_eq_true, decide_eq_true_iff, decide_eq_true_iff]
    omega
  rw [if_neg hcount]
  dsimp only
  split
  · exact .inl rfl
  · exact .inr rfl

variable {d : Device} {tx : DamlTransaction} {parts : List NodePart} {store : NodeHashStore}
  {s : NodesState}

/-- While the node parts of a tracked header arrive, every error refuses. -/
theorem errorRefuses_of_absorbed (htracked : Tracked tx) (h0 : 0 ≤ tx.nodesCount)
    (h : parts.foldlM (absorbNode d tx) (.afterHeader store tx) = some s) :
    ErrorRefuses s.tree := by
  refine List.foldlM_invariant (P := fun s : NodesState => ErrorRefuses s.tree) parts ?_
    (treeCheckInit_errorRefuses htracked.1 h0 htracked.2) h
  intro part _ s s' hs hstep
  obtain ⟨hash, hspec⟩ := absorbNode_spec hstep
  obtain ⟨parentId, htree⟩ := hspec.tree
  rw [htree]
  exact hs.claimChildren.markSeen

/-- Parts that the tree check marked without error are not impossible: their ids differ,
and a part that lists its own id would have to come before itself. -/
theorem possible_of_ok (h : parts.foldlM (absorbNode d tx) (.afterHeader store tx) = some s)
    (hok : s.tree.err = .ok) : ¬ ImpossibleParts parts := by
  obtain ⟨root, -, hinv⟩ := treeInv_of_absorbed h hok
  rintro (hdup | ⟨part, hpart, c, hc, heq⟩)
  · exact hdup hinv.ids_nodup
  · obtain ⟨xs, ys, rfl⟩ := List.append_of_mem hpart
    have hrange : 0 ≤ partNodeId part :=
      (hinv.ids_range _ (List.mem_map_of_mem (by simp))).1
    have hearlier : partNodeId part ∈ partIds xs := by
      rw [← heq]
      refine ((parts_ordered h).2 xs part ys rfl c hc).resolve_left ?_
      omega
    have hnodup := hinv.ids_nodup
    have hsplit : partIds (xs ++ part :: ys) = partIds xs ++ partNodeId part :: partIds ys := by
      simp [partIds]
    rw [hsplit] at hnodup
    exact (List.nodup_append.mp hnodup).2.2 _ hearlier _ List.mem_cons_self rfl

variable {st st' : Prepared}

/-- A verdict that does not refuse says that there was no error, if every error
refuses. -/
theorem ok_of_verdict (hrefuses : ErrorRefuses st.tree) (h : (applyNodeTreeVerdict st).2 = 0) :
    st.tree.err = .ok := by
  by_contra hne
  have himp : treeErrorIsImpossible st.tree.err = true := hrefuses.resolve_left hne
  -- The sweep keeps the error that is there.
  have herr : (treeVerifyComplete st.tree).err = st.tree.err := by
    show (st.tree.setTreeError (sweepNodes st.tree.nodes)).err = st.tree.err
    rw [TreeCheck.setTreeError, if_neg hne]
  unfold applyNodeTreeVerdict at h
  dsimp only at h
  rw [herr, if_neg hne, if_pos himp] at h
  have hsw : Sw.txInvalidNodeTree = 0 := h
  exact absurd hsw (by decide)

/-! ## Runs -/

variable {ok : Prepared → PartEvent → Prop} {es : List PartEvent}

/-- Once a message has been accepted after the node parts of a tracked header, they are
known not to be impossible: the first such message brought the verdict. -/
theorem possible_of_rest (h : (receiving d).Reach ok es st) {nodes rest : List Bytes}
    (hbufs : partBuffers es = nodes ++ rest) (hrest : rest ≠ []) (hsent : NodesSent nodes tx parts)
    (hcount : (parts.length : Int) = tx.nodesCount) (htracked : 0 < tx.nodesCount → Tracked tx) :
    ¬ ImpossibleParts parts := by
  by_cases hpos : 0 < tx.nodesCount
  · induction h generalizing rest with
    | start _ =>
      -- No message has been accepted yet.
      exact absurd (List.append_eq_nil_iff.mp hbufs.symm).2 hrest
    | @step es st st' e hreach hok hstep ih =>
      rw [partBuffers_append] at hbufs
      rcases receiving_step_cases hstep with ⟨parsed, buf, rfl, hacc⟩ |
        ⟨pairs, signature, rfl, rfl⟩
      · obtain ⟨rest', last, rfl⟩ := List.eq_nil_or_concat rest |>.resolve_left hrest
        rw [List.concat_eq_append, ← List.append_assoc] at hbufs
        have hbefore : partBuffers es = nodes ++ rest' := (List.append_inj' hbufs rfl).1
        by_cases hnil : rest' = []
        · subst hnil
          rw [List.append_nil] at hbefore
          -- This message came right after the node parts: it is the metadata.
          have hreceived := nodesReceived_of_reach hreach (hbefore ▸ hsent) hcount
          obtain ⟨store, habs⟩ := hreceived.absorbed
          have hrefuses := errorRefuses_of_absorbed (htracked hpos) (by omega) habs
          obtain ⟨md, hmd⟩ := metadataStep_of_nodes hreach (hbefore ▸ hsent) hcount hacc
          exact possible_of_ok habs (ok_of_verdict hrefuses hmd.verdict)
        · exact ih hbefore hnil
      · exact ih (by simpa [partBuffers] using hbufs) hrest
  · exact not_impossible_nil (List.length_eq_zero_iff.mp (by omega))

/-- The header of a guarded flow is tracked if it announces nodes. -/
theorem tracked_of_reach (h : (receiving d).Reach (onParts TreeGuarded) es st)
    {header : Bytes} {rest : List Bytes} (hbufs : partBuffers es = header :: rest)
    (hdec : decodeDamlTransaction header = some tx) (hpos : 0 < tx.nodesCount) : Tracked tx := by
  induction h generalizing rest with
  | start _ => cases hbufs
  | @step es st st' e hreach hok hstep ih =>
    rw [partBuffers_append] at hbufs
    cases e with
    | rows pairs signature => exact ih (by simpa [partBuffers] using hbufs)
    | part parsed buf =>
      -- Only the first message is read as the header.
      rcases nodesPhase_of_reach hreach with ⟨hstate, hnil⟩ | ⟨tx', parts, hsent, -⟩ |
        ⟨-, nodes, rest', tx', parts, hsplit, -, hsent, -⟩
      · rw [hnil] at hbufs
        obtain ⟨rfl, -⟩ := List.cons.inj hbufs
        have hguard : TreeGuarded st parsed buf := hok
        unfold TreeGuarded at hguard
        rw [hstate] at hguard
        exact (hguard tx hdec).2 hpos
      · obtain ⟨header', nodes, hcons, -⟩ := hsent.bytes
        rw [hcons, List.cons_append] at hbufs
        exact ih (hcons.trans (by rw [(List.cons.inj hbufs).1]))
      · obtain ⟨header', nodes', hcons, -⟩ := hsent.bytes
        rw [hsplit, hcons, List.cons_append, List.cons_append] at hbufs
        have hhead : partBuffers es = header :: (nodes' ++ rest') := by
          rw [hsplit, hcons, List.cons_append, (List.cons.inj hbufs).1]
        exact ih hhead

/-- A guarded message that is marked as the last one comes after all node parts, or it is
the header of a transaction without nodes. -/
theorem nodes_of_guarded {log : List PartEvent} {buf : Bytes} (h : (receiving d).Reach ok log st)
    (hguard : TreeGuarded st true buf) (hacc : processPreparedTxPart d true st buf = (st', 0)) :
    ∃ nodes rest tx parts, partBuffers log ++ [buf] = nodes ++ rest ∧
      (rest ≠ [] ∨ parts = []) ∧ NodesSent nodes tx parts ∧
      (parts.length : Int) = tx.nodesCount := by
  unfold TreeGuarded at hguard
  rcases nodesPhase_of_reach h with ⟨hstate, hnil⟩ | ⟨tx, parts, hsent, -, ⟨hstate, -⟩ |
    ⟨-, hcount⟩⟩ | ⟨-, nodes, rest, tx, parts, hsplit, hrest, hsent, hcount⟩
  · -- The header itself is reviewed.
    rw [hstate] at hguard
    rcases accepted_cases hacc with ⟨tx, hs⟩ | ⟨part, ctx, hs⟩ | ⟨md, hs⟩ |
      ⟨ic, v, values, shown, hs⟩
    · have hzero : tx.nodesCount = 0 := by
        by_contra hne
        exact absurd ((hguard tx hs.decoded).1 hne) (by decide)
      refine ⟨[buf], [], tx, [], by rw [hnil]; rfl, .inr rfl, ?_, by simp [hzero]⟩
      exact (nodesReceived_header (d := d) hs).1
    · exact absurd (hs.state.symm.trans hstate) (by decide)
    · exact absurd (hs.state.symm.trans hstate) (by decide)
    · exact absurd (hs.state.symm.trans hstate) (by decide)
  · rw [hstate] at hguard
    have hmarked : true = false := hguard
    cases hmarked
  · exact ⟨partBuffers log, [buf], tx, parts, rfl, .inl (by simp), hsent, hcount⟩
  · exact ⟨nodes, rest ++ [buf], tx, parts, by rw [hsplit, List.append_assoc], .inl (by simp),
      hsent, hcount⟩

/-- A header with these roots and these node parts. -/
def rollbackFlow (roots : List String) (parts : List NodePart) : List Event :=
  preparedFlow (Host.headerOf roots parts.length [] :: parts.map Host.node)

instance (tx : DamlTransaction) : Decidable (Tracked tx) := inferInstanceAs (Decidable (_ ∧ _))

instance (st : Prepared) (parsed : Bool) (buf : Bytes) : Decidable (TreeGuarded st parsed buf) :=
  match h : st.txState with
  | .damlTxPart =>
    decidable_of_iff (∀ tx ∈ decodeDamlTransaction buf,
      (tx.nodesCount ≠ 0 → parsed = false) ∧ (0 < tx.nodesCount → Tracked tx))
      (by simp [TreeGuarded, h])
  | .damlNodes => decidable_of_iff (parsed = false) (by simp [TreeGuarded, h])
  | .metadata => .isTrue (by simp [TreeGuarded, h])
  | .metadataInputContracts => .isTrue (by simp [TreeGuarded, h])

/-- `onMessages TreeGuarded`, computed. -/
def treeGuardedStep (d : Device) (s : App × List PartEvent) (e : Event) : Bool :=
  (messageOf d s.1 e).all fun (parsed, buf) => decide (TreeGuarded s.1.prepared parsed buf)

theorem onMessages_of_treeGuardedStep (s : App × List PartEvent) (e : Event)
    (h : treeGuardedStep d s e = true) :
    onMessages d (fun st _ parsed buf => TreeGuarded st parsed buf) s e := by
  intro _ parsed buf hmsg
  simpa [treeGuardedStep, hmsg] using h

/-- Two parts with the id of the root. -/
def sameId : List NodePart := [rollbackPart "0" [[]], rollbackPart "0" [[]]]

end CantonSigner
