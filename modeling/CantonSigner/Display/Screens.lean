import CantonSigner.Display.Walk

/-!
# Which node a screen belongs to

The outermost record of an argument selects a screen only if the node performs the
matching action. `PerformsAction` says so of a node by itself, and
`walkNode_selected` shows that a walk over a node part selects or defers only screens
of its nodes.

An input contract is read for a deferred screen. `walkInputContract_selected` needs
`OffersNoScreen`: a contract that does not fit the deferred screen goes on to the
table, where its own template may select another one.
-/

namespace CantonSigner

open ByteCodec

/-- The template of a node is the one of a table entry. -/
def TemplateIs (templateId : Option Identifier) (c : IdentifierConfig) : Prop :=
  ∃ id, templateId = some id ∧ id.moduleName = some c.moduleName ∧
    id.entityName = some c.entityName

/-- The node performs the action that the screen reports. -/
def PerformsAction (c : DisplayConfig) : NodeKind → Prop
  | .exercise e => (∃ n ∈ c.nodeIdentifiers, TemplateIs e.templateId n) ∧
      e.choiceId = some c.identifier.entityName
  | .create cr => TemplateIs cr.templateId c.identifier
  | _ => False

/-- A screen whose fields are read from an input contract: accept, reject and withdraw. -/
def IsDeferred (c : DisplayConfig) : Prop :=
  c ∈ displayConfigs ∧ c.metadataContractIdentifiers ≠ []

/-- A created contract whose template is not the record of a deferred screen. -/
def DefersNoScreen (cr : Create) : Prop :=
  ∀ c, IsDeferred c → ¬ TemplateIs cr.templateId c.identifier

/-- A contract whose template is not the record of any screen. -/
def OffersNoScreen (cr : Create) : Prop :=
  ∀ c ∈ displayConfigs, ¬ TemplateIs cr.templateId c.identifier

namespace DisplayParser

/-- The node identity a context carries. -/
structure Ctx.IsAt (s : Ctx) (contractId : Option Bytes) (templateId : Option Identifier)
    (choiceId : Option Bytes) : Prop where
  contractId : s.lastParsedContractId = contractId
  moduleName : s.nodeModule = templateId.bind (·.moduleName)
  entityName : s.nodeEntity = templateId.bind (·.entityName)
  choiceId : s.nodeChoiceId = choiceId

theorem setNodeIdentity_isAt (s : Ctx) (contractId : Option Bytes)
    (templateId : Option Identifier) (choiceId : Option Bytes) :
    (setNodeIdentity s contractId templateId choiceId).IsAt contractId templateId choiceId :=
  ⟨rfl, rfl, rfl, rfl⟩

variable {s s' : Ctx} {id : Identifier} {contractId choiceId : Option Bytes}
  {templateId : Option Identifier} {c : DisplayConfig}

theorem isNodeTemplate_templateIs {n : IdentifierConfig}
    (hat : s.IsAt contractId templateId choiceId)
    (h : isNodeTemplate s (some n.moduleName) (some n.entityName) = true) :
    TemplateIs templateId n := by
  simp only [isNodeTemplate, Option.isSome_some, Bool.true_and, Bool.and_eq_true, beq_iff_eq] at h
  obtain ⟨hm, he⟩ := h
  rw [hat.moduleName] at hm
  rw [hat.entityName] at he
  obtain ⟨tid, htid, hmodule⟩ := Option.bind_eq_some_iff.mp hm
  refine ⟨tid, htid, hmodule, ?_⟩
  rw [htid] at he
  exact he

/-- A table entry that fits the record and a created contract is its template. -/
theorem create_of_match (hat : s.IsAt contractId templateId none)
    (hid : matchIdentifier id c.identifier = true)
    (hact : configMatchesNodeAction s c id = true) : TemplateIs templateId c.identifier := by
  simp only [matchIdentifier, Bool.and_eq_true, beq_iff_eq] at hid
  unfold configMatchesNodeAction at hact
  rw [hat.choiceId] at hact
  dsimp only at hact
  rw [hid.1, hid.2] at hact
  exact isNodeTemplate_templateIs hat hact

/-- A table entry that fits the record and an exercised choice is its action. -/
theorem exercise_of_match {choice : Bytes} (hat : s.IsAt contractId templateId (some choice))
    (hid : matchIdentifier id c.identifier = true)
    (hact : configMatchesNodeAction s c id = true) :
    (∃ n ∈ c.nodeIdentifiers, TemplateIs templateId n) ∧ choice = c.identifier.entityName := by
  simp only [matchIdentifier, Bool.and_eq_true, beq_iff_eq] at hid
  unfold configMatchesNodeAction at hact
  rw [hat.choiceId] at hact
  dsimp only at hact
  rw [Bool.and_eq_true, beq_iff_eq, List.any_eq_true] at hact
  obtain ⟨⟨n, hn, htemplate⟩, hchoice⟩ := hact
  refine ⟨⟨n, hn, isNodeTemplate_templateIs hat htemplate⟩, ?_⟩
  rw [hid.2] at hchoice
  exact (Option.some.inj hchoice).symm

/-- What the table search does: nothing, or it selects or defers an entry that fits. -/
theorem findInTable_cases (s : Ctx) (id : Identifier) :
    findInTable s id = s ∨ ∃ c ∈ displayConfigs, matchIdentifier id c.identifier = true ∧
      configMatchesNodeAction s c id = true ∧
      ((c.metadataContractIdentifiers = [] ∧ findInTable s id = setDisplayConfig s c) ∨
        (c.metadataContractIdentifiers ≠ [] ∧
          findInTable s id = { s with globals := some ⟨c, s.lastParsedContractId⟩ })) := by
  unfold findInTable
  split
  · exact .inl rfl
  · rename_i c hfind
    have hmatch := List.find?_some hfind
    rw [Bool.and_eq_true] at hmatch
    refine .inr ⟨c, List.mem_of_find?_eq_some hfind, hmatch.1, hmatch.2, ?_⟩
    split
    · rename_i hempty
      exact .inl ⟨List.isEmpty_iff.mp hempty, rfl⟩
    · rename_i hempty
      exact .inr ⟨fun h => hempty (List.isEmpty_iff.mpr h), rfl⟩

/-! ## Node parts -/

/-- What the walk over some nodes of a part has selected and deferred: screens whose
action one of the nodes performs, deferred ones by an exercise. -/
structure SelectedBy (kinds : List NodeKind) (s : Ctx) : Prop where
  conf : ∀ c, s.conf = some c → c ∈ displayConfigs ∧ ∃ k ∈ kinds, PerformsAction c k
  deferred : ∀ g, s.globals = some g → IsDeferred g.conf ∧ ∃ e, .exercise e ∈ kinds ∧
    PerformsAction g.conf (.exercise e) ∧ g.expectedContractId = e.contractId

theorem SelectedBy.append {kinds : List NodeKind} (h : SelectedBy kinds s) (k : NodeKind) :
    SelectedBy (kinds ++ [k]) s := by
  constructor
  · intro c hc
    obtain ⟨htable, k', hk', hact⟩ := h.conf c hc
    exact ⟨htable, k', List.mem_append_left _ hk', hact⟩
  · intro g hg
    obtain ⟨hdef, e, he, hrest⟩ := h.deferred g hg
    exact ⟨hdef, e, List.mem_append_left _ he, hrest⟩

/-- One selection, where the entries that fit are actions of the nodes. -/
theorem findTxTypeAndConfig_selected {kinds : List NodeKind} (h : SelectedBy kinds s)
    (hat : s.IsAt contractId templateId choiceId)
    (hselect : ∀ c ∈ displayConfigs, matchIdentifier id c.identifier = true →
      configMatchesNodeAction s c id = true → ∃ k ∈ kinds, PerformsAction c k)
    (hdefer : ∀ c ∈ displayConfigs, c.metadataContractIdentifiers ≠ [] →
      matchIdentifier id c.identifier = true → configMatchesNodeAction s c id = true →
      ∃ e, .exercise e ∈ kinds ∧ PerformsAction c (.exercise e) ∧ contractId = e.contractId) :
    SelectedBy kinds (findTxTypeAndConfig s id) ∧
      (findTxTypeAndConfig s id).IsAt contractId templateId choiceId := by
  -- what the table selects is an action of the nodes, at once or deferred
  have htable : SelectedBy kinds (findInTable s id) ∧
      (findInTable s id).IsAt contractId templateId choiceId := by
    rcases findInTable_cases s id with heq | ⟨c, hc, hid, hact, ⟨-, heq⟩ | ⟨hmeta, heq⟩⟩
    · rw [heq]
      exact ⟨h, hat⟩
    · rw [heq]
      refine ⟨⟨?_, h.deferred⟩, hat.contractId, hat.moduleName, hat.entityName, hat.choiceId⟩
      rintro c' ⟨⟩
      exact ⟨hc, hselect c hc hid hact⟩
    · rw [heq]
      refine ⟨⟨h.conf, ?_⟩, hat.contractId, hat.moduleName, hat.entityName, hat.choiceId⟩
      rintro g ⟨⟩
      obtain ⟨e, he, hperf, hcid⟩ := hdefer c hc hmeta hid hact
      exact ⟨⟨hc, hmeta⟩, e, he, hperf, hat.contractId.trans hcid⟩
  unfold findTxTypeAndConfig
  split
  · exact ⟨h, hat⟩
  · split
    · exact htable
    · rename_i g hg
      split
      · -- A node of the same part is the contract that an earlier one exercises.
        refine ⟨⟨?_, h.deferred⟩, hat.contractId, hat.moduleName, hat.entityName, hat.choiceId⟩
        rintro c' ⟨⟩
        obtain ⟨hdef, e, he, hperf, -⟩ := h.deferred g hg
        exact ⟨hdef.1, .exercise e, he, hperf⟩
      · exact htable

/-- What the selection of a screen reads and writes of a context. -/
def Ctx.selection (s : Ctx) : Option DisplayConfig × Globals × Option Bytes × Option Bytes ×
    Option Bytes × Option Bytes × Option Bytes :=
  (s.conf, s.globals, s.lastParsedContractId, s.nodeModule, s.nodeEntity, s.nodeChoiceId,
    s.reviewTitle)

/-- Between two selections a walk leaves all that alone. -/
theorem WalkInvariant.of_selection {P : Ctx → Prop}
    (hsame : ∀ s s' : Ctx, s'.selection = s.selection → P s → P s')
    (hselect : ∀ s id, P s → P (findTxTypeAndConfig s id)) : WalkInvariant P where
  opened s h := hsame s _ rfl h
  entered s h := hsame s _ rfl h
  left s h := hsame s _ rfl h
  unreadable s h := hsame s _ rfl h
  path s _ h := hsame s _ rfl h
  field s _ h := hsame s _ rfl h
  select s id h _ := hselect s id h

theorem Ctx.IsAt.congr (h : s.IsAt contractId templateId choiceId)
    (heq : s'.selection = s.selection) : s'.IsAt contractId templateId choiceId := by
  simp only [Ctx.selection, Prod.mk.injEq] at heq
  obtain ⟨-, -, hcid, hmod, hent, hchoice, -⟩ := heq
  exact ⟨hcid.trans h.contractId, hmod.trans h.moduleName, hent.trans h.entityName,
    hchoice.trans h.choiceId⟩

theorem SelectedBy.congr {kinds : List NodeKind} (h : SelectedBy kinds s)
    (heq : s'.selection = s.selection) : SelectedBy kinds s' := by
  simp only [Ctx.selection, Prod.mk.injEq] at heq
  obtain ⟨hconf, hglobals, -⟩ := heq
  exact ⟨fun c hc => h.conf c (hconf ▸ hc), fun g hg => h.deferred g (hglobals ▸ hg)⟩

variable {d : Device}

/-- The argument of one node selects and defers screens of that node. -/
theorem selectedBy_walk {kinds : List NodeKind}
    (haction : ∀ s id, s.IsAt contractId templateId choiceId → ∀ c ∈ displayConfigs,
      matchIdentifier id c.identifier = true → configMatchesNodeAction s c id = true →
        (∃ k ∈ kinds, PerformsAction c k) ∧
        (c.metadataContractIdentifiers ≠ [] → ∃ e, .exercise e ∈ kinds ∧
          PerformsAction c (.exercise e) ∧ contractId = e.contractId)) :
    WalkInvariant fun s => SelectedBy kinds s ∧ s.IsAt contractId templateId choiceId := by
  refine .of_selection ?_ ?_
  · rintro s s' heq ⟨hsel, hat⟩
    exact ⟨hsel.congr heq, hat.congr heq⟩
  · rintro s id ⟨hsel, hat⟩
    refine findTxTypeAndConfig_selected hsel hat ?_ ?_
    · intro c hc hid hact
      exact (haction s id hat c hc hid hact).1
    · intro c hc hmeta hid hact
      exact (haction s id hat c hc hid hact).2 hmeta

/-- Nodes that defer a screen only by exercising a choice. -/
def NodeSelects : NodeKind → Prop
  | .exercise e => e.choiceId.isSome = true
  | .create cr => DefersNoScreen cr
  | _ => True

/-- One node of a part. -/
theorem selectedBy_node {kinds : List NodeKind} {k : NodeKind} (h : SelectedBy kinds s)
    (hk : NodeSelects k) (hstep : nodeDecodeCallback d s k = some s') :
    SelectedBy (kinds ++ [k]) s' := by
  have hmem : k ∈ kinds ++ [k] := by simp
  -- The identity of the node is set first, then its argument is walked.
  have hvalues : ∀ field contractId templateId choiceId (vs : List Value),
      WalkInvariant (fun s => SelectedBy (kinds ++ [k]) s ∧ s.IsAt contractId templateId choiceId) →
      walkValues d field (setNodeIdentity s contractId templateId choiceId) vs = some s' →
      SelectedBy (kinds ++ [k]) s' := by
    intro field contractId templateId choiceId vs hinv hwalk
    have hstart : SelectedBy (kinds ++ [k]) (setNodeIdentity s contractId templateId choiceId) :=
      ⟨(h.append k).conf, (h.append k).deferred⟩
    exact (List.foldlM_invariant vs (fun v _ s s' => hinv.value [field] v s s')
      ⟨hstart, setNodeIdentity_isAt ..⟩ hwalk).1
  unfold nodeDecodeCallback at hstep
  split at hstep
  · rename_i e
    obtain ⟨choice, hchoice⟩ := Option.isSome_iff_exists.mp hk
    split at hstep
    · cases hstep
    · refine hvalues _ _ _ _ _ (selectedBy_walk ?_) hstep
      intro s id hat c _ hid hact
      obtain ⟨htemplate, heq⟩ := exercise_of_match (hchoice ▸ hat) hid hact
      have hperf : PerformsAction c (.exercise e) := ⟨htemplate, by rw [hchoice, heq]⟩
      exact ⟨⟨_, hmem, hperf⟩, fun _ => ⟨e, hmem, hperf, rfl⟩⟩
  · rename_i cr
    split at hstep
    · cases hstep
    · refine hvalues _ _ _ _ _ (selectedBy_walk ?_) hstep
      intro s id hat c hc hid hact
      have hperf : TemplateIs cr.templateId c.identifier := create_of_match hat hid hact
      exact ⟨⟨_, hmem, hperf⟩, fun hmeta => absurd hperf (hk c ⟨hc, hmeta⟩)⟩
  · cases hstep
    exact h.append k

/-- **A node part selects and defers only screens of its own nodes.** -/
theorem walkNode_selected {part : NodePart} {r : Review}
    (hpart : ∀ k ∈ nodeKinds part, NodeSelects k)
    (h : walkNode d (Ctx.start none r) part = some s) : SelectedBy (nodeKinds part) s := by
  suffices hgen : ∀ (ks kinds : List NodeKind) (s₀ : Ctx), (∀ k ∈ ks, NodeSelects k) →
      SelectedBy kinds s₀ → ks.foldlM (nodeDecodeCallback d) s₀ = some s →
      SelectedBy (kinds ++ ks) s by
    have hstart : SelectedBy [] (Ctx.start none r) := by
      constructor
      · intro c hc
        cases hc
      · intro g hg
        cases hg
    exact hgen (nodeKinds part) [] _ hpart hstart h
  intro ks
  induction ks with
  | nil =>
    rintro kinds s₀ - hsel ⟨⟩
    simpa using hsel
  | cons k ks ih =>
    intro kinds s₀ hks hsel hfold
    rw [List.foldlM_cons] at hfold
    obtain ⟨s₁, h₁, h₂⟩ := Option.bind_eq_some_iff.mp hfold
    have hsel₁ := selectedBy_node hsel (hks k List.mem_cons_self) h₁
    simpa using ih (kinds ++ [k]) s₁ (fun k' hk' => hks k' (List.mem_cons_of_mem _ hk')) hsel₁ h₂

/-! ## Input contracts -/

/-- What the walk over an input contract has selected: the deferred screen, and only on
the contract that the deferring node exercised. The deferred match itself is kept. -/
structure SelectedFrom (g : Deferred) (crs : List Create) (s : Ctx) : Prop where
  conf : ∀ c, s.conf = some c → c = g.conf ∧ ∃ cr ∈ crs, cr.contractId.isSome = true ∧
    cr.contractId = g.expectedContractId
  globals : s.globals = some g

/-- A contract of the flow that offers no screen of its own finds nothing in the table. -/
theorem findInTable_offersNoScreen {cr : Create} (hcr : OffersNoScreen cr)
    (hat : s.IsAt contractId cr.templateId none) : findInTable s id = s := by
  rcases findInTable_cases s id with heq | ⟨c, hc, hid, hact, -⟩
  · exact heq
  · exact absurd (create_of_match hat hid hact) (hcr c hc)

theorem selectedFrom_walk {g : Deferred} {crs : List Create} {cr : Create} (hmem : cr ∈ crs)
    (hcr : OffersNoScreen cr) :
    WalkInvariant fun s => SelectedFrom g crs s ∧ s.IsAt cr.contractId cr.templateId none := by
  refine .of_selection ?_ ?_
  · rintro s s' heq ⟨hsel, hat⟩
    have hsame := heq
    simp only [Ctx.selection, Prod.mk.injEq] at hsame
    obtain ⟨hconf, hglobals, -⟩ := hsame
    exact ⟨⟨fun c hc => hsel.conf c (hconf ▸ hc), hglobals.trans hsel.globals⟩, hat.congr heq⟩
  · rintro s id ⟨hsel, hat⟩
    unfold findTxTypeAndConfig
    rw [hsel.globals, findInTable_offersNoScreen hcr hat]
    split
    · exact ⟨hsel, hat⟩
    · dsimp only
      split
      · rename_i hmatch
        simp only [deferredMatches, Bool.and_eq_true, beq_iff_eq] at hmatch
        obtain ⟨⟨-, hsome, hexpected⟩, -⟩ := hmatch
        rw [hat.contractId] at hsome hexpected
        refine ⟨⟨?_, hsel.globals⟩, hat.contractId, hat.moduleName, hat.entityName, hat.choiceId⟩
        rintro c ⟨⟩
        exact ⟨rfl, cr, hmem, hsome, hexpected⟩
      · exact ⟨hsel, hat⟩

/-- **An input contract selects only the deferred screen**, unless its own template
selects one. -/
theorem walkInputContract_selected {ic : InputContract} {g : Deferred} {r : Review}
    (hic : ∀ cr ∈ ic.v1, OffersNoScreen cr)
    (h : walkInputContract d (Ctx.start (some g) r) ic = some s) : SelectedFrom g ic.v1 s := by
  have hstart : SelectedFrom g ic.v1 (Ctx.start (some g) r) := by
    refine ⟨?_, rfl⟩
    intro c hc
    cases hc
  refine List.foldlM_invariant (P := SelectedFrom g ic.v1) ic.v1 ?_ hstart h
  intro cr hcr s₁ s₂ hs₁ hstep
  have hinv := selectedFrom_walk (g := g) hcr (hic cr hcr)
  have hs₁' : SelectedFrom g ic.v1 (setNodeIdentity s₁ cr.contractId cr.templateId none) :=
    ⟨hs₁.conf, hs₁.globals⟩
  exact (List.foldlM_invariant cr.argument
    (fun v _ s s' => hinv.elems [.displayContractArgument] _ s s')
    ⟨hs₁', setNodeIdentity_isAt ..⟩ hstep).1

/-! ## Titles -/

/-- The title that a screen is reviewed under: its own, or the one for Canton Coin when
the ticker of a token transfer is that of Canton Coin. -/
def ScreenTitle (c : DisplayConfig) (title : Option Bytes) : Prop :=
  title = some c.reviewTitle ∨
    (c.reviewTitle = tokenTransferReviewTitle ∧ title = some nativeCoinTransferReviewTitle)

/-- The title of a context is the one of the screen it selected. -/
def Titled (s : Ctx) : Prop := ∀ c, s.conf = some c → s.reviewTitle = some c.reviewTitle

theorem titled_walk : WalkInvariant Titled := by
  refine .of_selection ?_ ?_
  · intro s s' heq h c hc
    simp only [Ctx.selection, Prod.mk.injEq] at heq
    obtain ⟨hconf, -, -, -, -, -, htitle⟩ := heq
    exact htitle.trans (h c (hconf ▸ hc))
  · intro s id h
    have hset : ∀ c, Titled (setDisplayConfig s c) := by
      rintro c c' ⟨⟩
      rfl
    have htable : Titled (findInTable s id) := by
      rcases findInTable_cases s id with heq | ⟨c, -, -, -, ⟨-, heq⟩ | ⟨-, heq⟩⟩
      · rw [heq]
        exact h
      · rw [heq]
        exact hset c
      · rw [heq]
        exact h
    unfold findTxTypeAndConfig
    split
    · exact h
    · split
      · exact htable
      · split
        · exact hset _
        · exact htable

theorem titled_start (g : Globals) (r : Review) : Titled (Ctx.start g r) := by
  intro c hc
  cases hc

/-- Only the ticker changes a title. -/
theorem formatField_title (s : Ctx) (i : Nat) (f : TxField) (block : Bytes) :
    (formatField d s i f block).reviewTitle = s.reviewTitle ∨
      (s.reviewTitle = some tokenTransferReviewTitle ∧
        (formatField d s i f block).reviewTitle = some nativeCoinTransferReviewTitle) := by
  unfold formatField runFormatCallback formatTokenAmount
  grind

theorem formatLoop_title {n i : Nat} {s s' : Ctx} (h : formatLoop d n i s = .formatted s') :
    s'.reviewTitle = s.reviewTitle ∨ (s.reviewTitle = some tokenTransferReviewTitle ∧
      s'.reviewTitle = some nativeCoinTransferReviewTitle) := by
  induction n generalizing i s with
  | zero =>
    cases h
    exact .inl rfl
  | succ n ih =>
    rw [formatLoop_succ] at h
    split at h
    · cases h
      exact .inl rfl
    · rename_i f _
      split at h
      · cases h
      · split at h
        · split at h
          · cases h
          · exact ih h
        · rename_i block _
          split at h
          · cases h
          · rcases formatField_title (d := d) s i f block with hkept | ⟨hbefore, hafter⟩
            · rw [← hkept]
              exact ih h
            · rcases ih h with hrest | ⟨hrest, -⟩
              · exact .inr ⟨hbefore, hrest.trans hafter⟩
              · -- The title for Canton Coin is not the one for tokens.
                exact absurd (Option.some.inj (hafter.symm.trans hrest)) (by decide +kernel)

end DisplayParser

end CantonSigner
