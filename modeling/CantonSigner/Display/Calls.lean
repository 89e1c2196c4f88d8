import CantonSigner.Display.Verdict

/-!
# The calls of a part

Each pass over a part makes calls into the value check: the hashing pass records the contracts
that nodes use and checks the disclosed ones, and the holding pass reports what create nodes
write. `partCalls` and `contractCalls` list them from the part alone. `Follows` says that a store
is what calls come to as far as the verdict can tell; the passes keep it
(`decodeNodePart_follows`, `valuesCollectFromNode_follows`, `decodeInputContractPart_follows`).
-/

namespace CantonSigner

open ByteCodec HoldingParser

/-! ## The calls -/

/-- The holding of a create node, by its texts. -/
def holdingTextOf (c : Create) : Option HoldingText := do
  let owner ← createString .owner c
  let amount ← createString .amount c
  let admin ← createString .admin c
  some ⟨owner, amount, admin, createString .instrument c⟩

/-- The report of a holding. -/
def HoldingText.call (h : HoldingText) : ValuesCall :=
  .holding h.owner h.amount h.admin h.instrument

/-- What is reported of a create node. -/
def createCalls (d : Device) (c : Create) : List ValuesCall :=
  match readCreate d c with
  | none => [.unreadableHolding]
  | some _ => (holdingTextOf c).toList.map HoldingText.call

/-- The calls of a node part: its contracts are recorded before its creates are looked at. -/
def partCalls (d : Device) (part : NodePart) : List ValuesCall :=
  (nodeKinds part).map (fun k => .recordUsed k.usedContract) ++
    (createNodes (nodeKinds part)).flatMap (createCalls d)

/-- The calls of an input contract. -/
def contractCalls (ic : InputContract) : List ValuesCall :=
  ic.v1.map fun c => .disclosed c.contractId

/-! ## What a store keeps of calls -/

/-- The store gives up like the calls, and until then it keeps the same holdings and contracts. -/
structure Follows (d : Device) (calls : List ValuesCall) (s : ValuesStore) : Prop where
  ok : s.ok = (valuesAfter d calls).ok
  used : s.ok = true → s.usedContracts = (valuesAfter d calls).usedContracts
  collected : s.ok = true → s.collected = (valuesAfter d calls).collected

variable {d : Device} {calls : List ValuesCall} {s s' : ValuesStore}

theorem Follows.start : Follows d [] valuesCheckReset := ⟨rfl, fun _ => rfl, fun _ => rfl⟩

/-- The screen is none of it. -/
theorem Follows.congr (h : Follows d calls s) (hok : s'.ok = s.ok)
    (hused : s'.usedContracts = s.usedContracts) (hcollected : s'.collected = s.collected) :
    Follows d calls s' :=
  ⟨hok.trans h.ok, fun h' => hused.trans (h.used (hok ▸ h')),
    fun h' => hcollected.trans (h.collected (hok ▸ h'))⟩

/-- Two stores that agree, except for the screen, agree after a call. -/
theorem run_agree {t : ValuesStore} (c : ValuesCall) (hok : s.ok = true) (hok' : t.ok = true)
    (hused : s.usedContracts = t.usedContracts) (hcollected : s.collected = t.collected) :
    (c.run d s).ok = (c.run d t).ok ∧ (c.run d s).usedContracts = (c.run d t).usedContracts ∧
      (c.run d s).collected = (c.run d t).collected := by
  have hholdings : s.holdings = t.holdings := congrArg Prod.fst hcollected
  have hinstrument : s.holdingsInstrument = t.holdingsInstrument := congrArg Prod.snd hcollected
  cases c with
  -- these two read the contracts that are used
  | recordUsed id =>
    cases id with
    | none => exact ⟨hok.trans hok'.symm, hused, hcollected⟩
    | some id =>
      simp only [ValuesCall.run, valuesRecordUsedContract, hok, hok', hused]
      split
      · exact ⟨hok.trans hok'.symm, hused, hcollected⟩
      · split
        · exact ⟨hok.trans hok'.symm, hused, hcollected⟩
        · split
          · exact ⟨rfl, hused, hcollected⟩
          · exact ⟨rfl, rfl, hcollected⟩
  | disclosed id =>
    cases id with
    | none => exact ⟨hok.trans hok'.symm, hused, hcollected⟩
    | some id =>
      simp only [ValuesCall.run, valuesCheckDisclosedContract, hok, hok', hused]
      split
      · exact ⟨hok.trans hok'.symm, hused, hcollected⟩
      · split
        · exact ⟨hok.trans hok'.symm, hused, hcollected⟩
        · exact ⟨rfl, hused, hcollected⟩
  -- and this one the holdings and the instrument
  | holding owner amount admin instrument =>
    simp only [ValuesCall.run, valuesReportHolding, hholdings, hinstrument]
    split
    · exact ⟨rfl, hused, hcollected⟩
    · split
      · exact ⟨hok.trans hok'.symm, hused, rfl⟩
      · exact ⟨hok.trans hok'.symm, hused, rfl⟩
      · split
        · exact ⟨hok.trans hok'.symm, hused, rfl⟩
        · exact ⟨rfl, hused, rfl⟩
  | unknownTemplate | unreadableHolding | parseFailure => exact ⟨rfl, hused, hcollected⟩
  | bind => exact ⟨hok.trans hok'.symm, hused, hcollected⟩

/-- What has given up stays so. -/
theorem runs_not_ok (cs : List ValuesCall) (h : s.ok = false) :
    (cs.foldl (ValuesCall.run d) s).ok = false := by
  induction cs generalizing s with
  | nil => exact h
  | cons c cs ih =>
    refine ih ?_
    cases hok : (c.run d s).ok with
    | false => rfl
    | true => exact absurd (h.symm.trans (run_ok hok)) (by decide)

theorem valuesAfter_append (calls cs : List ValuesCall) :
    valuesAfter d (calls ++ cs) = cs.foldl (ValuesCall.run d) (valuesAfter d calls) :=
  List.foldl_append

/-- After a store has given up, it follows whatever calls are made. -/
theorem Follows.stopped (h : Follows d calls s) (hstop : s.ok = false) (cs : List ValuesCall)
    (hs' : s'.ok = false) : Follows d (calls ++ cs) s' := by
  have hnot : ¬ s'.ok = true := by simp [hs']
  refine ⟨?_, fun hok => absurd hok hnot, fun hok => absurd hok hnot⟩
  rw [hs', valuesAfter_append, runs_not_ok cs (h.ok.symm.trans hstop)]

/-- One call. -/
theorem Follows.run (h : Follows d calls s) (c : ValuesCall) :
    Follows d (calls ++ [c]) (c.run d s) := by
  cases hok : s.ok with
  | false => exact h.stopped hok [c] (runs_not_ok [c] hok)
  | true =>
    obtain ⟨hok', hused, hcollected⟩ :=
      run_agree (d := d) c hok (h.ok.symm.trans hok) (h.used hok) (h.collected hok)
    rw [← valuesAfter_concat] at hok' hused hcollected
    exact ⟨hok', fun _ => hused, fun _ => hcollected⟩

/-! ## The hashing pass -/

theorem nodeKinds_append (p q : NodePart) : nodeKinds (p ++ q) = nodeKinds p ++ nodeKinds q := by
  induction p with
  | nil => rfl
  | cons item p ih => cases item <;> simp [nodeKinds, ih]

namespace HashingParser

variable {lookup : Bytes → Option Bytes} {tx : DamlTransaction}

/-- The hashing pass over a node part records the contracts of its nodes. -/
theorem decodeNodePart_follows {tree : TreeCheck} {err : HashError} {part : NodePart} {ctx : Ctx}
    (hs : Follows d calls s) (h : decodeNodePart d lookup tx tree s err part = some ctx) :
    Follows d (calls ++ (nodeKinds part).map fun k => .recordUsed k.usedContract) ctx.values := by
  refine List.foldlM_history (P := fun items (ctx : Ctx) => Follows d
    (calls ++ (nodeKinds items).map fun k => .recordUsed k.usedContract) ctx.values) ?_ ?_ h
  · simpa [nodeKinds] using hs
  · intro items item ctx ctx' hctx hitem
    rw [nodeKinds_append, List.map_append, ← List.append_assoc]
    cases item with
    | nodeId id =>
      simp only [decodeNodeItem, decodeNodeIdField] at hitem
      split at hitem
      · cases hitem
      · cases hitem
        simpa [nodeKinds] using hctx
    | v1 kinds =>
      have hkinds : nodeKinds [.v1 kinds] = kinds := by simp [nodeKinds]
      rw [hkinds]
      refine List.foldlM_history (P := fun ks (ctx : Ctx) => Follows d
        (calls ++ ((nodeKinds items).map fun k => .recordUsed k.usedContract) ++
          ks.map fun k => .recordUsed k.usedContract) ctx.values) ?_ ?_ hitem
      · simpa using hctx
      · intro ks k ctx ctx' hctx hk
        rw [List.map_append, ← List.append_assoc, nodeDecodeCallback_values hk]
        exact hctx.run (.recordUsed k.usedContract)

/-- The hashing pass over an input contract checks its ids. -/
theorem decodeInputContractPart_follows {err : HashError} {ic : InputContract} {v : VState}
    (hs : Follows d calls s) (h : decodeInputContractPart d s err ic = some (v, s')) :
    Follows d (calls ++ contractCalls ic) s' := by
  refine List.foldlM_history (P := fun cs (st : VState × ValuesStore) =>
    Follows d (calls ++ cs.map fun c => .disclosed c.contractId) st.2) ?_ ?_ h
  · simpa using hs
  · intro cs c st st' hst hc
    unfold decodeContract at hc
    split at hc
    · cases hc
    · obtain ⟨v, -, hv⟩ := Option.map_eq_some_iff.mp hc
      cases hv
      rw [List.map_append, ← List.append_assoc]
      exact hst.run (.disclosed c.contractId)

end HashingParser

/-! ## The holding pass -/

namespace HoldingParser

/-- What a create node comes to, by what can be read of it. -/
def reportCreate (d : Device) (s : ValuesStore) (c : Create) : ValuesStore :=
  match readCreate d c with
  | none => s.giveUp
  | some none => s
  | some (some (x, i)) => valuesReportHolding s x i

theorem decodeCreate_read {c : Create} (h : decodeCreate d s c = (s', true)) :
    s' = reportCreate d s c := by
  unfold decodeCreate at h
  unfold reportCreate readCreate
  cases hid : c.templateId with
  | none =>
    simp only [hid] at h
    exact (Prod.mk.inj h).1.symm
  | some id =>
    simp only [hid] at h
    cases hfind : findHolding id with
    | none =>
      simp only [hfind] at h ⊢
      by_cases hnon : isNonHolding id = true
      · rw [if_pos hnon] at h ⊢
        exact (Prod.mk.inj h).1.symm
      · rw [if_neg hnon] at h ⊢
        exact (Prod.mk.inj h).1.symm
    | some cfg =>
      simp only [hfind] at h ⊢
      cases hwalk : c.argument.foldlM (fun s v => walkValue d 0 v s) (Ctx.start cfg) with
      | none =>
        simp only [hwalk] at h
        cases h
      | some w =>
        simp only [hwalk, Option.bind_some] at h ⊢
        rw [← (Prod.mk.inj h).1, reportWalk_eq]
        cases readWalk cfg w <;> rfl

/-- A walk that fails reads nothing. -/
theorem decodeCreate_failed {c : Create} (h : decodeCreate d s c = (s', false)) :
    readCreate d c = none := by
  unfold decodeCreate at h
  unfold readCreate
  cases hid : c.templateId with
  | none => rfl
  | some id =>
    simp only [hid] at h
    cases hfind : findHolding id with
    | none =>
      simp only [hfind] at h
      split at h <;> cases h
    | some cfg =>
      simp only [hfind] at h ⊢
      cases hwalk : c.argument.foldlM (fun s v => walkValue d 0 v s) (Ctx.start cfg) with
      | none => rfl
      | some w =>
        simp only [hwalk] at h
        cases h

/-- The texts of a holding that was read. -/
theorem holdingTextOf_read {c : Create} {x : Holding} {i : Option Bytes}
    (h : readCreate d c = some (some (x, i))) :
    ∃ t, holdingTextOf c = some t ∧ t.digests d = x ∧ t.instrument.map d.sha = i := by
  obtain ⟨id, cfg, hid, hfind, ho⟩ := readCreate_strings h
  have hcfg : holdingConfig c = some cfg := by rw [holdingConfig, hid]; exact hfind
  have hstring : ∀ slot, createString slot c = holdingString cfg slot c := fun slot => by
    rw [createString, hcfg]
    rfl
  obtain ⟨owner, howner, hosha⟩ := ho.owner
  obtain ⟨amount, hamount, hasha⟩ := ho.amount
  obtain ⟨admin, hadmin, hdsha⟩ := ho.admin
  refine ⟨⟨owner, amount, admin, createString .instrument c⟩, ?_, ?_, ?_⟩
  · simp [holdingTextOf, hstring, howner, hamount, hadmin]
  · cases x
    simp_all [HoldingText.digests]
  · show (createString .instrument c).map d.sha = i
    have hinstrument := ho.instrument
    rw [hstring]
    split at hinstrument
    · obtain ⟨t, ht, rfl⟩ := hinstrument
      rw [ht]
      rfl
    · rename_i hnone
      have hpath : cfg.idPath = none := by simpa using hnone
      have htakes : ∀ f, Slot.takes cfg .instrument f = none := by
        intro f
        unfold Slot.takes
        split <;> simp [Slot.path, hpath]
      rw [hinstrument, holdingString, List.findSome?_eq_none_iff.mpr fun f _ => htakes f]
      rfl

/-- A node that writes no holding has no texts. -/
theorem holdingTextOf_none {c : Create} (h : readCreate d c = some none) :
    holdingTextOf c = none := by
  have hcfg : holdingConfig c = none := by
    unfold readCreate at h
    split at h
    · cases h
    · rename_i id hid
      rw [holdingConfig, hid, Option.bind_some]
      split at h
      · rename_i hfind
        exact hfind
      · obtain ⟨x, -, hx⟩ := Option.map_eq_some_iff.mp h
        cases hx
  rw [holdingTextOf, createString_none .owner hcfg]
  rfl

/-- A create node is reported by its calls. -/
theorem decodeCreate_follows {c : Create} (hs : Follows d calls s)
    (h : decodeCreate d s c = (s', true)) : Follows d (calls ++ createCalls d c) s' := by
  rw [decodeCreate_read h]
  unfold createCalls reportCreate
  cases hc : readCreate d c with
  | none => exact hs.run .unreadableHolding
  | some r =>
    cases r with
    | none =>
      dsimp only
      rw [holdingTextOf_none hc]
      simpa using hs
    | some r =>
      obtain ⟨x, i⟩ := r
      obtain ⟨t, ht, rfl, rfl⟩ := holdingTextOf_read hc
      dsimp only
      rw [ht]
      exact hs.run t.call

/-- The creates of a part are reported until the pass fails, and then it gives up. -/
theorem decodeNodeKinds_follows {kinds : List NodeKind} (hs : Follows d calls s) :
    ∀ ok, decodeNodeKinds d s kinds = (s', ok) →
      if ok then Follows d (calls ++ (createNodes kinds).flatMap (createCalls d)) s'
      else Follows d (calls ++ (createNodes kinds).flatMap (createCalls d)) s'.giveUp := by
  induction kinds generalizing calls s with
  | nil =>
    rintro ok ⟨⟩
    simpa [createNodes] using hs
  | cons k kinds ih =>
    intro ok h
    cases k with
    | create c =>
      have hcons : createNodes (.create c :: kinds) = c :: createNodes kinds := rfl
      rw [hcons, List.flatMap_cons, ← List.append_assoc]
      unfold decodeNodeKinds at h
      split at h
      · rename_i s₁ hc
        cases h
        -- Nothing is made of the creates after the one that fails.
        have hcall : createCalls d c = [.unreadableHolding] := by
          rw [createCalls, decodeCreate_failed hc]
        rw [hcall]
        exact (hs.run .unreadableHolding).stopped rfl _ rfl
      · rename_i s₁ hc
        exact ih (decodeCreate_follows hs hc) ok h
    | exercise e => exact ih hs ok h
    | fetch f => exact ih hs ok h
    | rollback r => exact ih hs ok h
    | queryByKey => exact ih hs ok h

/-- The holding pass over a part. -/
theorem valuesCollectFromNode_follows {part : NodePart} (hs : Follows d calls s) :
    Follows d (calls ++ (createNodes (nodeKinds part)).flatMap (createCalls d))
      (valuesCollectFromNode d s part) := by
  unfold valuesCollectFromNode
  split
  · rename_i hstop
    have hstop : s.ok = false := by simpa using hstop
    exact hs.stopped hstop _ hstop
  · split
    · rename_i s' heq
      exact decodeNodeKinds_follows hs true heq
    · rename_i s' heq
      exact decodeNodeKinds_follows hs false heq

end HoldingParser

end CantonSigner
