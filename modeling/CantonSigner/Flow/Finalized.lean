import CantonSigner.Flow.Completion

/-!
# Finalised flows

Once the announced node parts, the metadata and the announced input contracts have
arrived, the flow is finalised, and the three hashes are those of what was sent
(`finalized_of_reach`). Nothing is assumed of the flags of the host or of what is
shown in between: a part that is refused ends the run, so a run that has delivered
everything has been finalised.
-/

namespace CantonSigner

open ByteCodec

variable {d : Device} {st st' : Prepared} {buf : Bytes} {bufs : List Bytes} {parsed : Bool}
  {tx : DamlTransaction} {parts : List NodePart} {md : Metadata} {ics : List InputContract}

/-- The counts that a state is waiting for have not been reached. -/
def Waiting (st : Prepared) : Prop :=
  match st.txState with
  | .damlNodes => 0 ≤ st.header.nodesCount → st.recvNodeIdx < st.header.nodesCount
  | .metadataInputContracts =>
    0 ≤ st.inputContractsCount → st.recvNodeIdx < st.inputContractsCount
  | _ => True

/-- There is more to come, and the transaction hash has not been computed. -/
structure Unfinished (st : Prepared) : Prop where
  opened : st.mHashLen ≠ 32
  waiting : Waiting st

/-- The hashes of a finalised flow. -/
structure FinalizedHashes (d : Device) (st : Prepared) (tx : DamlTransaction)
    (parts : List NodePart) (md : Metadata) (ics : List InputContract) : Prop where
  nodes : ∃ store s, parts.foldlM (absorbNode d tx) (.afterHeader store tx) = some s ∧
    st.partialTxHash = d.sha s.hasher
  contracts : ∃ hasher, ics.foldlM (absorbContract d) (hashMetadata .ok md).bytes = some hasher ∧
    st.partialMdHash = d.sha hasher
  mHash : st.mHash = finalizeHash d st.partialTxHash st.partialMdHash

/-- Messages that make up a whole transaction. -/
structure AllSent (bufs : List Bytes) (tx : DamlTransaction) (parts : List NodePart)
    (md : Metadata) (ics : List InputContract) : Prop where
  sent : ContractsSent bufs tx parts md ics
  contractsCount : (ics.length : Int) = md.inputContractsCount

/-- A run is under way, has just delivered a whole transaction, or went on after it. -/
def FlowPhase (d : Device) (st : Prepared) (bufs : List Bytes) : Prop :=
  (FlowInv d st bufs ∧ Unfinished st) ∨
  (∃ tx parts md ics, AllSent bufs tx parts md ics ∧ FinalizedHashes d st tx parts md ics) ∨
  (∃ all rest tx parts md ics, bufs = all ++ rest ∧ rest ≠ [] ∧ AllSent all tx parts md ics)

/-! ## One part -/

theorem finalizedHashes_of_received {st₀ : Prepared}
    (h : ContractsReceived d st₀ tx parts md ics) :
    FinalizedHashes d (st₀.finalized d) tx parts md ics := by
  obtain ⟨store, s, hs, hpartial⟩ := h.absorbed
  rw [finalized_eq]
  exact ⟨⟨store, s, hs, hpartial⟩, ⟨st₀.hasher, h.hasher, rfl⟩, rfl⟩

theorem unfinished_header (h : Unfinished st) (hs : HeaderStep st buf st' tx) :
    Unfinished st' := by
  rw [hs.result]
  refine ⟨h.opened, ?_⟩
  unfold Waiting
  by_cases hzero : tx.nodesCount = 0
  · simp [Prepared.withHeader, hzero]
  · simp only [Prepared.withHeader, hzero, ↓reduceIte]
    intro h0
    omega

theorem unfinished_node {part : NodePart} {ctx : HashingParser.Ctx} (h : Unfinished st)
    (hs : NodeStep d st buf st' part ctx) : Unfinished st' := by
  obtain ⟨shown, hdisplay, rfl⟩ := hs.result
  have hframe : shown.header = st.header ∧ shown.recvNodeIdx = st.recvNodeIdx ∧
      shown.txState = .damlNodes ∧ shown.mHashLen = st.mHashLen := by
    rcases displayNodePart_cases hdisplay with ⟨-, rfl⟩ | ⟨-, r, -, rfl⟩ <;>
      simp [hs.state, withNode_mHashLen]
  obtain ⟨hopened, h⟩ := h
  refine ⟨hframe.2.2.2 ▸ hopened, ?_⟩
  unfold Waiting at h ⊢
  rw [hs.state] at h
  by_cases hlast : shown.recvNodeIdx + 1 = shown.header.nodesCount
  · simp [advanceNode, hlast]
  · simp only [advanceNode, hlast, ↓reduceIte, hframe.2.2.1]
    intro h0
    rw [hframe.1] at h0 hlast ⊢
    rw [hframe.2.1] at hlast ⊢
    have := h h0
    omega

/-- A part in the middle of a transaction keeps it under way, or completes it. -/
theorem flowPhase_of_inv (h : FlowInv d st bufs) (hun : Unfinished st)
    (hacc : processPreparedTxPart d parsed st buf = (st', 0)) :
    FlowPhase d st' (bufs ++ [buf]) := by
  rcases accepted_cases hacc with ⟨tx, hs⟩ | ⟨part, ctx, hs⟩ | ⟨md, hs⟩ | ⟨ic, v, values, shown, hs⟩
  · exact .inl ⟨flowInv_header h hs, unfinished_header hun hs⟩
  · exact .inl ⟨flowInv_node h hs, unfinished_node hun hs⟩
  · -- the metadata finalises the flow if it announces no contract
    obtain ⟨tx, parts, hsent, hreceived, hcount⟩ := h.metadata hs.state
    have hsent' := contractsSent_metadata hsent hcount hs.decoded
    have hr := contractsReceived_metadata hreceived hs
    rcases hs.result with ⟨hzero, -, rfl⟩ | ⟨hne, rfl⟩
    · exact .inr (.inl ⟨tx, parts, md, [], ⟨hsent', by simp [hzero]⟩,
        finalizedHashes_of_received hr⟩)
    · have hopened : (applyNodeTreeVerdict st).1.mHashLen ≠ 32 := by
        rw [applyNodeTreeVerdict_accepted hs.verdict]
        exact hun.opened
      refine .inl ⟨⟨tx, parts, md, [], hsent', hr.hashErr, hr.count, hr.idx, hr.absorbed,
        hr.hasher⟩, hopened, fun h0 => ?_⟩
      show (0 : Int) < md.inputContractsCount
      have h0 : 0 ≤ md.inputContractsCount := h0
      omega
  · -- the last announced contract finalises it
    obtain ⟨tx, parts, md, ics, hsent, hreceived⟩ := h.contracts hs.state
    have hsent' := contractsSent_contract hsent hs.decoded
    have hr := contractsReceived_contract hreceived hs
    rcases hs.result with ⟨hlast, -, rfl⟩ | ⟨hne, rfl⟩
    · refine .inr (.inl ⟨tx, parts, md, ics ++ [ic], ⟨hsent', ?_⟩, finalizedHashes_of_received hr⟩)
      rw [← hr.idx, ← hr.count]
      exact hlast
    · have hstate : (st.withContract d ic v shown).txState = .metadataInputContracts := hs.state
      refine .inl ⟨?_, hun.opened, ?_⟩
      · unfold FlowInv
        rw [hstate]
        exact ⟨tx, parts, md, ics ++ [ic], hsent', hr⟩
      · have hwaiting := hun.waiting
        unfold Waiting at hwaiting ⊢
        rw [hs.state] at hwaiting
        rw [hstate]
        intro h0
        have hlt := hwaiting h0
        show st.recvNodeIdx + 1 < st.inputContractsCount
        omega

theorem flowPhase_part (h : FlowPhase d st bufs)
    (hacc : processPreparedTxPart d parsed st buf = (st', 0)) :
    FlowPhase d st' (bufs ++ [buf]) := by
  rcases h with ⟨hinv, hun⟩ | ⟨tx, parts, md, ics, hall, -⟩ |
    ⟨all, rest, tx, parts, md, ics, rfl, -, hall⟩
  · exact flowPhase_of_inv hinv hun hacc
  · exact .inr (.inr ⟨bufs, [buf], tx, parts, md, ics, rfl, by simp, hall⟩)
  · exact .inr (.inr ⟨all, rest ++ [buf], tx, parts, md, ics, by simp, by simp, hall⟩)

/-! ## Whole runs -/

theorem flowPhase_of_reach {ok : Prepared → PartEvent → Prop} {es : List PartEvent}
    (h : (receiving d).Reach ok es st) : FlowPhase d st (partBuffers es) := by
  refine h.invariant (P := fun es st => FlowPhase d st (partBuffers es)) ?_ ?_
  · rintro _ ⟨p, rfl⟩
    exact .inl ⟨rfl, Nat.zero_ne_add_one 31, trivial⟩
  · intro es st e st' hinv _ hstep
    rw [partBuffers_append]
    rcases receiving_step_cases hstep with ⟨parsed, buf, rfl, hacc⟩ | ⟨pairs, signature, rfl, rfl⟩
    · exact flowPhase_part hinv hacc
    · simp only [partBuffers, List.append_nil]
      rcases hinv with ⟨hinv, hun⟩ | ⟨tx, parts, md, ics, hall, hh⟩ | h
      · exact .inl ⟨flowInv_setRows hinv, hun.opened, hun.waiting⟩
      · exact .inr (.inl ⟨tx, parts, md, ics, hall, hh.nodes, hh.contracts, hh.mHash⟩)
      · exact .inr (.inr h)

/-- A list related to a concatenation is a concatenation. -/
theorem forall₂_append_left {α β : Type} {R : α → β → Prop} {l₁ l₂ : List α} {m : List β}
    (h : List.Forall₂ R (l₁ ++ l₂) m) :
    ∃ m₁ m₂, m = m₁ ++ m₂ ∧ List.Forall₂ R l₁ m₁ ∧ List.Forall₂ R l₂ m₂ := by
  induction l₁ generalizing m with
  | nil => exact ⟨[], m, rfl, .nil, h⟩
  | cons a l₁ ih =>
    cases h with
    | cons hab hrest =>
      obtain ⟨m₁, m₂, rfl, h₁, h₂⟩ := ih hrest
      exact ⟨_ :: m₁, m₂, rfl, .cons hab h₁, h₂⟩

theorem ContractsSent.length (h : ContractsSent bufs tx parts md ics) :
    bufs.length = parts.length + 2 + ics.length := by
  obtain ⟨nodes, metadata, contracts, rfl, hnodes, -, hcs⟩ := h.bytes
  rw [List.length_append, List.length_cons, hnodes.length, hcs.length_eq]
  omega

/-- The header that messages start with. -/
theorem ContractsSent.header_eq {tx' : DamlTransaction} {parts' : List NodePart}
    {rest : List Bytes} {nodes : List Bytes} (h : ContractsSent (nodes ++ rest) tx parts md ics)
    (h' : NodesSent nodes tx' parts') : tx = tx' := by
  obtain ⟨nodes₁, metadata, contracts, heq, hnodes, -, -⟩ := h.bytes
  obtain ⟨header, bs, rfl, htx, -⟩ := hnodes.bytes
  obtain ⟨header', bs', rfl, htx', -⟩ := h'.bytes
  obtain rfl := (List.cons.inj heq).1
  exact Option.some.inj (htx.symm.trans htx')

/-- A transaction that starts a list of messages is determined by them. -/
theorem ContractsSent.unique {all rest : List Bytes} {tx' : DamlTransaction}
    {parts' : List NodePart} {md' : Metadata} {ics' : List InputContract}
    (h : ContractsSent (all ++ rest) tx parts md ics)
    (h' : ContractsSent all tx' parts' md' ics') :
    tx = tx' ∧ parts = parts' ∧ md = md' ∧ ∃ more, ics = ics' ++ more ∧
      more.length = rest.length := by
  obtain ⟨nodes', metadata', contracts', rfl, hnodes', hmd', hcs'⟩ := h'.bytes
  rw [List.append_assoc] at h
  have htx : tx = tx' := h.header_eq hnodes'
  obtain ⟨nodes, metadata, contracts, heq, hnodes, hmd, hcs⟩ := h.bytes
  have hlen : nodes'.length = nodes.length := by
    have hcount := h.nodesCount
    have hcount' := h'.nodesCount
    rw [htx] at hcount
    rw [hnodes.length, hnodes'.length]
    omega
  obtain ⟨rfl, htail⟩ := List.append_inj heq hlen
  obtain ⟨rfl, rfl⟩ := List.cons.inj htail
  obtain ⟨-, hparts⟩ := hnodes.unique hnodes'
  refine ⟨htx, hparts, Option.some.inj (hmd.symm.trans hmd'), ?_⟩
  obtain ⟨m₁, m₂, rfl, h₁, h₂⟩ := forall₂_append_left hcs
  have hsame : m₁ = ics' := List.right_unique_forall₂'
    (fun _ _ _ ha hb => Option.some.inj (ha.symm.trans hb)) h₁ hcs'
  exact ⟨m₂, by rw [hsame], h₂.length_eq.symm⟩

/-- A run that has delivered a whole transaction has finalised it. -/
theorem finalized_of_reach {ok : Prepared → PartEvent → Prop} {es : List PartEvent}
    (h : (receiving d).Reach ok es st) (hall : AllSent (partBuffers es) tx parts md ics) :
    FinalizedHashes d st tx parts md ics := by
  have hlen := hall.sent.length
  have hcount := hall.sent.nodesCount
  have hics := hall.contractsCount
  rcases flowPhase_of_reach h with ⟨hinv, hun⟩ | ⟨tx', parts', md', ics', hall', hh⟩ |
    ⟨all, rest, tx', parts', md', ics', hbufs, hrest, hall'⟩
  · -- Still under way: the counts are not reached, but everything has been sent.
    exfalso
    have hun := hun.waiting
    unfold Waiting at hun
    cases hst : st.txState with
    | damlTxPart =>
      rw [hinv.header hst, List.length_nil] at hlen
      omega
    | damlNodes =>
      rw [hst] at hun
      obtain ⟨tx', parts', hsent', hreceived⟩ := hinv.nodes hst
      have hsent := hall.sent
      rw [← List.append_nil (partBuffers es)] at hsent
      have htx := hsent.header_eq hsent'
      have hlen' := hsent'.length
      rw [hreceived.header, hreceived.idx, ← htx] at hun
      have := hun (by omega)
      omega
    | metadata =>
      obtain ⟨tx', parts', hsent', -, hcount'⟩ := hinv.metadata hst
      have hsent := hall.sent
      rw [← List.append_nil (partBuffers es)] at hsent
      have htx := hsent.header_eq hsent'
      have hlen' := hsent'.length
      rw [← htx] at hcount'
      omega
    | metadataInputContracts =>
      rw [hst] at hun
      obtain ⟨tx', parts', md', ics', hsent', hreceived⟩ := hinv.contracts hst
      have hsent := hall.sent
      rw [← List.append_nil (partBuffers es)] at hsent
      obtain ⟨-, -, hmd, more, hmore, hzero⟩ := hsent.unique hsent'
      rw [hreceived.count, hreceived.idx, ← hmd] at hun
      have hsame : ics'.length = ics.length := by
        rw [hmore, List.length_append, hzero]
        rfl
      have := hun (by omega)
      omega
  · -- Finalised with a transaction that starts like the delivered one, so it is that one.
    have hsent := hall.sent
    rw [← List.append_nil (partBuffers es)] at hsent
    obtain ⟨rfl, rfl, rfl, more, hmore, hzero⟩ := hsent.unique hall'.sent
    obtain rfl : more = [] := List.length_eq_zero_iff.mp hzero
    rw [hmore, List.append_nil]
    exact hh
  · -- More than the transaction cannot have been sent.
    exfalso
    have hsent := hall.sent
    rw [hbufs] at hsent
    obtain ⟨-, -, rfl, more, rfl, hmore⟩ := hsent.unique hall'.sent
    have hics' := hall'.contractsCount
    have hpos : 0 < rest.length := List.length_pos_iff.mpr hrest
    rw [List.length_append] at hics
    omega

/-- The header of a run was hashed without error. -/
theorem header_hashed_of_reach {ok : Prepared → PartEvent → Prop} {es : List PartEvent}
    (h : (receiving d).Reach ok es st) {header : Bytes} {rest : List Bytes}
    (hbufs : partBuffers es = header :: rest) (hdec : decodeDamlTransaction header = some tx) :
    (hashTransaction tx).err = .ok := by
  refine (h.invariant (P := fun es st => NodesPhase d st (partBuffers es) ∧
    ∀ header rest, partBuffers es = header :: rest → decodeDamlTransaction header = some tx →
      (hashTransaction tx).err = .ok) ?_ ?_).2 header rest hbufs hdec
  · rintro _ ⟨p, rfl⟩
    exact ⟨.inl ⟨rfl, rfl⟩, fun _ _ hnil => nomatch hnil⟩
  · intro es st e st' ⟨hphase, ih⟩ _ hstep
    rw [partBuffers_append]
    rcases receiving_step_cases hstep with ⟨parsed, buf, rfl, hacc⟩ | ⟨pairs, signature, rfl, rfl⟩
    · refine ⟨nodesPhase_part hphase hacc, fun header rest heq hdec => ?_⟩
      cases hb : partBuffers es with
      | cons header' rest' =>
        rw [hb] at heq
        obtain ⟨rfl, -⟩ := List.cons.inj heq
        exact ih header' rest' hb hdec
      | nil =>
        rw [hb] at heq hphase
        obtain ⟨rfl, -⟩ := List.cons.inj heq
        -- The first message is the header.
        have hstate : st.txState = .damlTxPart := by
          rcases hphase with ⟨hst, -⟩ | ⟨_, _, hsent, -⟩ | ⟨-, nodes, _, _, _, hnil, -, hsent, -⟩
          · exact hst
          · exact absurd hsent.length (by simp)
          · have hzero := congrArg List.length hnil
            rw [List.length_nil, List.length_append, hsent.length] at hzero
            omega
        rcases accepted_cases hacc with ⟨tx', hs⟩ | ⟨part, ctx, hs⟩ | ⟨md, hs⟩ |
          ⟨ic, v, values, shown, hs⟩
        · rw [Option.some.inj (hdec.symm.trans hs.decoded)]
          exact hs.hashed
        all_goals exact absurd (hs.state.symm.trans hstate) (by decide)
    · exact ⟨by simpa [partBuffers] using nodesPhase_setRows hphase,
        by simpa [partBuffers] using ih⟩

end CantonSigner
