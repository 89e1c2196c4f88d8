import CantonSigner.Lib.Run
import CantonSigner.Hash.Extends
import CantonSigner.Model.HoldingParser

/-!
# What the value store collects

Three passes write to the value store. The hashing pass records the contracts that nodes
use and checks the disclosed ones (`UseKept`), the holding pass adds the holding of every
create node (`Collects`), and the display pass binds the screen. A store that has not given
up has been through all of it: `Collects.holdings` says that its holdings are those of the
creates, each read from its own argument (`readCreate`).
-/

namespace CantonSigner

open ByteCodec

namespace ValuesStore

/-- What the store keeps of the screen. -/
def screen (s : ValuesStore) :=
  (s.destination, s.amount, s.admin, s.instrument, s.sender, s.bound, s.boundDestination)

/-- What it keeps of the holdings. -/
def collected (s : ValuesStore) := (s.holdings, s.holdingsInstrument)

end ValuesStore

variable {d : Device} {s s' s'' : ValuesStore}

/-! ## Contracts -/

/-- Contracts were recorded, checked or released: no more than that changes, unless the
store gives up. -/
structure UseKept (s s' : ValuesStore) : Prop where
  ok : s'.ok = true → s.ok = true
  screen : s'.screen = s.screen
  collected : s'.collected = s.collected

theorem UseKept.refl (s : ValuesStore) : UseKept s s := ⟨id, rfl, rfl⟩

theorem UseKept.trans (h : UseKept s s') (h' : UseKept s' s'') : UseKept s s'' :=
  ⟨fun hok => h.ok (h'.ok hok), h'.screen.trans h.screen, h'.collected.trans h.collected⟩

theorem useKept_giveUp (s : ValuesStore) : UseKept s s.giveUp := ⟨nofun, rfl, rfl⟩

theorem useKept_record (s : ValuesStore) (contractId : Option Bytes) :
    UseKept s (valuesRecordUsedContract d s contractId) := by
  unfold valuesRecordUsedContract
  split
  · exact .refl s
  · split
    · exact .refl s
    · split
      · exact .refl s
      · split
        · exact useKept_giveUp s
        · exact ⟨id, rfl, rfl⟩

theorem useKept_check (s : ValuesStore) (contractId : Option Bytes) :
    UseKept s (valuesCheckDisclosedContract d s contractId) := by
  unfold valuesCheckDisclosedContract
  split
  · exact .refl s
  · split
    · exact .refl s
    · split
      · exact .refl s
      · exact useKept_giveUp s

theorem useKept_canClearSign (s : ValuesStore) : UseKept s (valuesCanClearSign s).1 := by
  unfold valuesCanClearSign
  split
  · exact .refl s
  · split
    · exact .refl s
    · exact useKept_giveUp s

theorem useKept_release (s : ValuesStore) : UseKept s (valuesReleaseUsedContracts s) :=
  ⟨id, rfl, rfl⟩

/-- The contract that a node uses. -/
def NodeKind.usedContract : NodeKind → Option Bytes
  | .create c => c.contractId
  | .fetch f => f.contractId
  | .exercise e => e.contractId
  | .rollback _ | .queryByKey => none

namespace HashingParser

variable {lookup : Bytes → Option Bytes} {tx : DamlTransaction}

/-- Claiming children leaves the store alone. -/
theorem claimChildren_values (ctx : Ctx) (children : List Bytes) :
    (claimChildren ctx children).values = ctx.values := by
  unfold claimChildren
  split <;> rfl

/-- A node records its contract. -/
theorem nodeDecodeCallback_values {k : NodeKind} {ctx ctx' : Ctx}
    (h : nodeDecodeCallback d lookup tx ctx k = some ctx') :
    ctx'.values = valuesRecordUsedContract d ctx.values k.usedContract := by
  cases k with
  | create c =>
    obtain ⟨-, seed, v, -, -, rfl⟩ := decodeCreate_eq_some.mp h
    rfl
  | fetch f =>
    obtain ⟨-, rfl⟩ := decodeFetch_eq_some.mp h
    rfl
  | exercise e =>
    obtain ⟨-, seed, v, -, -, rfl⟩ := decodeExercise_eq_some.mp h
    exact claimChildren_values _ _
  | rollback r =>
    cases h
    exact claimChildren_values _ _
  | queryByKey => cases h

/-- The hashing pass over a node part only records contracts. -/
theorem decodeNodePart_values {tree : TreeCheck} {err : HashError} {part : NodePart} {ctx : Ctx}
    (h : decodeNodePart d lookup tx tree s err part = some ctx) : UseKept s ctx.values := by
  refine List.foldlM_invariant (P := fun ctx : Ctx => UseKept s ctx.values) part ?_ (.refl s) h
  intro item _ ctx ctx' hs hitem
  cases item with
  | nodeId id =>
    simp only [decodeNodeItem, decodeNodeIdField] at hitem
    split at hitem
    · cases hitem
    · cases hitem
      exact hs
  | v1 kinds =>
    refine List.foldlM_invariant (P := fun ctx : Ctx => UseKept s ctx.values) kinds ?_ hs hitem
    intro k _ ctx ctx' hs hk
    rw [nodeDecodeCallback_values hk]
    exact hs.trans (useKept_record _ _)

/-- The hashing pass over an input contract only checks its id. -/
theorem decodeInputContractPart_values {err : HashError} {ic : InputContract} {v : VState}
    (h : decodeInputContractPart d s err ic = some (v, s')) : UseKept s s' := by
  refine List.foldlM_invariant (P := fun st : VState × ValuesStore => UseKept s st.2) ic.v1 ?_
    (.refl s) h
  intro c _ st st' hs hc
  unfold decodeContract at hc
  split at hc
  · cases hc
  · obtain ⟨v, -, hv⟩ := Option.map_eq_some_iff.mp hc
    cases hv
    exact hs.trans (useKept_check _ _)

end HashingParser

/-! ## Holdings -/

namespace HoldingParser

/-- The holding a finished walk found, and the instrument it names. -/
def readWalk (cfg : HoldingPathConfig) (s : Ctx) : Option (Holding × Option Bytes) :=
  match s.owner, s.amount, s.admin with
  | some owner, some amount, some admin =>
    if s.unreadable || (cfg.idPath.isSome && s.instrument.isNone) then none
    else some (⟨owner, amount, admin⟩, if cfg.idPath.isSome then s.instrument else none)
  | _, _, _ => none

theorem reportWalk_eq (cfg : HoldingPathConfig) (store : ValuesStore) (s : Ctx) :
    reportWalk cfg store s =
      match readWalk cfg s with
      | none => store.giveUp
      | some r => valuesReportHolding store r.1 r.2 := by
  unfold reportWalk readWalk
  cases s.owner with
  | none => rfl
  | some owner =>
    cases s.amount with
    | none => rfl
    | some amount =>
      cases s.admin with
      | none => rfl
      | some admin =>
        dsimp only
        split <;> rfl

/-- What a create node writes, read from the node alone: nothing that counts as a holding,
or one holding. It is `none` when the node cannot be read. -/
def readCreate (d : Device) (c : Create) : Option (Option (Holding × Option Bytes)) :=
  match c.templateId with
  | none => none
  | some id =>
    match findHolding id with
    | none => if isNonHolding id then some none else none
    | some cfg =>
      ((c.argument.foldlM (fun s v => walkValue d 0 v s) (Ctx.start cfg)).bind (readWalk cfg)).map
        some

/-- The holding of a create node. -/
def createHolding (d : Device) (c : Create) : Option Holding := (readCreate d c).join.map Prod.fst

/-- The instrument its holding names. -/
def createInstrument (d : Device) (c : Create) : Option Bytes := (readCreate d c).join.bind Prod.snd

/-- The create nodes of a part. -/
def createNodes (kinds : List NodeKind) : List Create :=
  kinds.filterMap fun
    | .create c => some c
    | _ => none

/-- The store after the creates `cs` from the store before. -/
structure Collects (d : Device) (s : ValuesStore) (cs : List Create) (s' : ValuesStore) : Prop where
  ok : s'.ok = true → s.ok = true
  readable : s'.ok = true → ∀ c ∈ cs, (readCreate d c).isSome = true
  holdings : s'.ok = true → s'.holdings = s.holdings ++ cs.filterMap (createHolding d)
  bounded : s'.ok = true → s.holdings.length ≤ maxHoldings → s'.holdings.length ≤ maxHoldings
  instrument : s'.ok = true → ∀ i, s.holdingsInstrument = some i → s'.holdingsInstrument = some i
  instruments : s'.ok = true → ∀ c ∈ cs, ∀ i, createInstrument d c = some i →
    s'.holdingsInstrument = some i

theorem Collects.refl (s : ValuesStore) : Collects d s [] s :=
  ⟨id, nofun, by simp, fun _ h => h, fun _ _ h => h, nofun⟩

theorem Collects.trans {cs cs' : List Create} (h : Collects d s cs s')
    (h' : Collects d s' cs' s'') :
    Collects d s (cs ++ cs') s'' := by
  refine ⟨fun hok => h.ok (h'.ok hok), ?_, ?_, ?_, ?_, ?_⟩
  · intro hok c hc
    rcases List.mem_append.mp hc with hc | hc
    · exact h.readable (h'.ok hok) c hc
    · exact h'.readable hok c hc
  · intro hok
    rw [h'.holdings hok, h.holdings (h'.ok hok), List.filterMap_append, List.append_assoc]
  · intro hok hlen
    exact h'.bounded hok (h.bounded (h'.ok hok) hlen)
  · intro hok i hi
    exact h'.instrument hok i (h.instrument (h'.ok hok) i hi)
  · intro hok c hc i hi
    rcases List.mem_append.mp hc with hc | hc
    · exact h'.instrument hok i (h.instruments (h'.ok hok) c hc i hi)
    · exact h'.instruments hok c hc i hi

/-- A store that gave up has nothing to say about its holdings. -/
theorem collects_of_not_ok (cs : List Create) (hok : s'.ok = false) : Collects d s cs s' := by
  have hnot : ¬ s'.ok = true := by simp [hok]
  exact ⟨fun h => absurd h hnot, fun h => absurd h hnot, fun h => absurd h hnot,
    fun h => absurd h hnot, fun h => absurd h hnot, fun h => absurd h hnot⟩

theorem collects_report {c : Create} {h : Holding} {i : Option Bytes}
    (hread : readCreate d c = some (some (h, i))) :
    Collects d s [c] (valuesReportHolding s h i) := by
  have hholding : [c].filterMap (createHolding d) = [h] := by simp [createHolding, hread]
  have hinstrument : createInstrument d c = i := by simp [createInstrument, hread]
  unfold valuesReportHolding
  split
  · exact collects_of_not_ok _ rfl
  · rename_i hroom
    have hlen : (s.holdings ++ [h]).length ≤ maxHoldings := by
      rw [List.length_append, List.length_singleton]
      omega
    dsimp only
    split
    · refine ⟨id, by simp [hread], fun _ => by rw [hholding], fun _ _ => hlen,
        fun _ _ hi => hi, ?_⟩
      simp [hinstrument]
    · rename_i j hnone
      refine ⟨id, by simp [hread], fun _ => by rw [hholding], fun _ _ => hlen, ?_, ?_⟩
      · intro _ k hk
        exact absurd (hnone.symm.trans hk) nofun
      · simp [hinstrument]
    · rename_i j k hk
      split
      · rename_i hjk
        subst hjk
        refine ⟨id, by simp [hread], fun _ => by rw [hholding], fun _ _ => hlen,
          fun _ _ hi => hi, ?_⟩
        intro _ c' hc' k' hk'
        have hc' : c' = c := List.mem_singleton.mp hc'
        rw [hc', hinstrument] at hk'
        cases hk'
        exact hk
      · exact collects_of_not_ok _ rfl

/-- One create node. -/
theorem decodeCreate_collects {c : Create} (h : decodeCreate d s c = (s', true)) :
    Collects d s [c] s' := by
  unfold decodeCreate at h
  split at h
  · cases h
    exact collects_of_not_ok _ rfl
  · rename_i template hid
    split at h
    · rename_i hfind
      split at h
      · -- A template that is known not to be a holding.
        rename_i hnon
        cases h
        have hread : readCreate d c = some none := by simp [readCreate, hid, hfind, hnon]
        exact ⟨id, by simp [hread], by simp [createHolding, hread], fun _ h => h,
          fun _ _ h => h, by simp [createInstrument, hread]⟩
      · cases h
        exact collects_of_not_ok _ rfl
    · rename_i cfg hfind
      split at h
      · cases h
      · rename_i w hwalk
        cases h
        rw [reportWalk_eq]
        cases hread : readWalk cfg w with
        | none => exact collects_of_not_ok _ rfl
        | some r =>
          obtain ⟨h, i⟩ := r
          refine collects_report ?_
          simp [readCreate, hid, hfind, hwalk, hread]

/-- The node kinds of a part, when none of them fails. -/
theorem decodeNodeKinds_collects {kinds : List NodeKind}
    (h : decodeNodeKinds d s kinds = (s', true)) : Collects d s (createNodes kinds) s' := by
  induction kinds generalizing s with
  | nil =>
    cases h
    exact .refl _
  | cons k kinds ih =>
    cases k with
    | create c =>
      unfold decodeNodeKinds at h
      split at h
      · cases h
      · rename_i s₁ hc
        exact (decodeCreate_collects hc).trans (ih h)
    | exercise e => exact ih h
    | fetch f => exact ih h
    | rollback r => exact ih h
    | queryByKey => exact ih h

theorem valuesReportHolding_screen (s : ValuesStore) (h : Holding) (i : Option Bytes) :
    (valuesReportHolding s h i).screen = s.screen := by
  unfold valuesReportHolding
  split
  · rfl
  · dsimp only
    split
    · rfl
    · rfl
    · split <;> rfl

theorem decodeCreate_screen (c : Create) : (decodeCreate d s c).1.screen = s.screen := by
  unfold decodeCreate
  split
  · rfl
  · split
    · split <;> rfl
    · split
      · rfl
      · rw [reportWalk_eq]
        split
        · rfl
        · exact valuesReportHolding_screen _ _ _

theorem decodeNodeKinds_screen (kinds : List NodeKind) :
    (decodeNodeKinds d s kinds).1.screen = s.screen := by
  induction kinds generalizing s with
  | nil => rfl
  | cons k kinds ih =>
    cases k with
    | create c =>
      unfold decodeNodeKinds
      have hc := decodeCreate_screen (d := d) (s := s) c
      split
      · rename_i s₁ heq
        rw [heq] at hc
        exact hc
      · rename_i s₁ heq
        rw [heq] at hc
        exact ih.trans hc
    | exercise e => exact ih
    | fetch f => exact ih
    | rollback r => exact ih
    | queryByKey => exact ih

theorem valuesCollectFromNode_screen (s : ValuesStore) (part : NodePart) :
    (valuesCollectFromNode d s part).screen = s.screen := by
  have hscreen := decodeNodeKinds_screen (d := d) (s := s) (nodeKinds part)
  unfold valuesCollectFromNode
  split
  · rfl
  · split
    · rename_i heq
      rw [heq] at hscreen
      exact hscreen
    · rename_i heq
      rw [heq] at hscreen
      exact hscreen

/-- The holding pass over a part. -/
theorem valuesCollectFromNode_collects (s : ValuesStore) (part : NodePart) :
    Collects d s (createNodes (nodeKinds part)) (valuesCollectFromNode d s part) := by
  unfold valuesCollectFromNode
  split
  · rename_i hok
    exact collects_of_not_ok _ (by simpa using hok)
  · split
    · rename_i s' heq
      exact decodeNodeKinds_collects heq
    · exact collects_of_not_ok _ rfl

/-- What changes no holding, and may give up, changes nothing of this. -/
theorem Collects.congr {cs : List Create} (h : Collects d s cs s')
    (hcollected : s''.collected = s'.collected) (hok : s''.ok = true → s'.ok = true) :
    Collects d s cs s'' := by
  have hholdings : s''.holdings = s'.holdings := congrArg Prod.fst hcollected
  have hinstrument : s''.holdingsInstrument = s'.holdingsInstrument := congrArg Prod.snd hcollected
  refine ⟨fun h'' => h.ok (hok h''), fun h'' => h.readable (hok h''), ?_, ?_, ?_, ?_⟩
  · intro h''
    rw [hholdings]
    exact h.holdings (hok h'')
  · intro h''
    rw [hholdings]
    exact h.bounded (hok h'')
  · intro h''
    rw [hinstrument]
    exact h.instrument (hok h'')
  · intro h''
    rw [hinstrument]
    exact h.instruments (hok h'')

end HoldingParser

end CantonSigner
