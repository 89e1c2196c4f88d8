import CantonSigner.Display.Blocks

/-!
# How stored values are read

Any of the four wire types is stored at any path, so a block is read as what it was stored as
exactly when the first value at each path is of the type its field expects (`stored_typed_iff`).
-/

namespace CantonSigner

open ByteCodec

namespace DisplayParser

variable {f f₀ : TxField} {w : Which} {ws : List Which} {b : Bytes}
variable {d : Device} {heap : Bytes → Bytes} {fs cur : List TxField} {s s' : Ctx} {i n : Nat}
  {block : Bytes}

/-! ## Clear screens -/

/-- Formatting a field fails no other. -/
theorem formatField_failed (hs : s.fields = some cur) :
    ∃ cur', (formatField d s i f block).fields = some cur' ∧
      cur'.map (·.storeFailed) = cur.map (·.storeFailed) := by
  -- writing a text or hiding a field leaves the marks alone
  have hset : ∀ (l : List TxField) text,
      (setFieldText l i text).map (·.storeFailed) = l.map (·.storeFailed) := by
    intro l text
    refine List.ext_getElem? fun j => ?_
    rw [setFieldText, List.getElem?_map, List.getElem?_map, List.getElem?_modify]
    by_cases hij : i = j
    · cases l[j]? <;> simp [hij]
    · simp [hij]
  have hhide : ∀ p q (l : List TxField),
      (hideLastFieldAt p q l).map (·.storeFailed) = l.map (·.storeFailed) := by
    intro p q l
    unfold hideLastFieldAt
    induction l with
    | nil => rfl
    | cons g l ih =>
      rw [List.foldr_cons]
      split
      · simpa using ih
      · simpa using ih
  unfold formatField
  split
  · rw [hs, Option.getD_some]
    cases f.config.formatCallback with
    | none => exact ⟨cur, hs, rfl⟩
    | some cb =>
      cases cb with
      | nativeAmount => exact ⟨_, rfl, hset _ _⟩
      | timestamp => exact ⟨_, rfl, hset _ _⟩
      -- each branch writes the text of the field and hides at most two others
      | tokenAmount =>
        show ∃ cur', (formatTokenAmount d s cur i _).fields = some cur' ∧ _
        unfold formatTokenAmount
        dsimp only
        split
        · split
          · exact ⟨_, rfl, hset _ _⟩
          · split
            · refine ⟨_, rfl, ?_⟩
              rw [hhide, hhide, hset, hset]
            · refine ⟨_, rfl, ?_⟩
              rw [hhide, hhide, hset, hset]
        · exact ⟨_, rfl, hset _ _⟩
  · exact ⟨cur, hs, rfl⟩

/-- A loop that formats every field has met no failed one. -/
theorem formatLoop_stored (hs : s.fields = some cur) (h : formatLoop d n i s = .formatted s') :
    ∀ (j : Nat) f, i ≤ j → j < i + n → cur[j]? = some f → f.storeFailed = false := by
  induction n generalizing i s cur with
  | zero => exact fun j f hij hjn => absurd hij (by omega)
  | succ n ih =>
    rw [formatLoop_succ, hs, Option.getD_some] at h
    intro j g hij hjn hg
    cases hf : cur[i]? with
    | none =>
      have hlen := List.getElem?_eq_none_iff.mp hf
      have hlt := (List.getElem?_eq_some_iff.mp hg).1
      omega
    | some f =>
      rw [hf] at h
      dsimp only at h
      split at h
      · cases h
      · rename_i hok
        -- the field of this round was looked at; a later one keeps its mark through the round
        by_cases hji : j = i
        · subst hji
          obtain rfl : f = g := Option.some.inj (hf.symm.trans hg)
          simpa using hok
        · split at h
          · split at h
            · cases h
            · exact ih hs h j g (by omega) (by omega) hg
          · rename_i block hblock
            split at h
            · cases h
            · obtain ⟨cur', hs', hsame⟩ : ∃ cur', (formatField d s i f block).fields = some cur' ∧
                  cur'.map (·.storeFailed) = cur.map (·.storeFailed) := formatField_failed hs
              have hj : (cur'[j]?).map (·.storeFailed) = (cur[j]?).map (·.storeFailed) := by
                rw [← List.getElem?_map, hsame, List.getElem?_map]
              rw [hg, Option.map_some] at hj
              obtain ⟨g', hg', heq⟩ := Option.map_eq_some_iff.mp hj
              rw [← heq]
              exact ih hs' h j g' (by omega) (by omega) hg'

/-- A screen stays clear only if the walk was readable and the loop got to the end. -/
theorem finishParsing_clear {c : DisplayConfig} {values values' : ValuesStore} {g : Globals}
    {r : Review} (hselected : s.conf = some c) (h : finishParsing d values s = some (g, r, values'))
    (hclear : r.clearSigningAvailable = true) :
    ∃ fs s', s.fields = some fs ∧ s.unreadable = false ∧
      formatLoop d fs.length 0 s = .formatted s' ∧
      r.pairs = some (populateRows d (s'.fields.getD [])) ∧
      values' = valuesBindFromDisplay d values fs c.destination c.amountCheck := by
  unfold finishParsing at h
  rw [hselected] at h
  cases hs : s.fields with
  | none =>
    rw [hs] at h
    cases h
    cases hclear
  | some fs =>
    rw [hs] at h
    obtain ⟨review, hreview, heq⟩ := Option.bind_eq_some_iff.mp h
    cases heq
    unfold formatAndPopulate at hreview
    dsimp only at hreview
    split at hreview
    · cases hreview
      cases hclear
    · rename_i hread
      split at hreview
      · cases hreview
        cases hclear
      · cases hreview
      · rename_i s' hloop
        cases hreview
        exact ⟨fs, s', rfl, by simpa using hread, hloop, rfl, rfl⟩

/-- A screen that stays clear has its mandatory values, and all that it stored. -/
theorem clear_stored {c : DisplayConfig} {values values' : ValuesStore} {g : Globals} {r : Review}
    (hc : c ∈ displayConfigs) (hconf : fs.map (·.config) = c.fields) (hs : s.fields = some fs)
    (hselected : s.conf = some c) (h : finishParsing d values s = some (g, r, values'))
    (hclear : r.clearSigningAvailable = true) :
    ∀ f ∈ fs, f.storeFailed = false ∧ (f.config.mandatory = true → f.value.isSome = true) := by
  have hplain : PlainTokens fs := fun f hf hp =>
    ((displayConfigs_fields c hc).2.1 f.config (hconf ▸ List.mem_map_of_mem hf) hp).1
  obtain ⟨fs', s', hs', -, hloop, -⟩ := finishParsing_clear hselected h hclear
  obtain rfl : fs = fs' := Option.some.inj (hs.symm.trans hs')
  obtain ⟨-, hmand⟩ := formatLoop_kept hplain hs
    (List.forall₂_same.mpr fun f _ => FieldKept.refl f) hloop
  intro f hf
  obtain ⟨j, hj⟩ := List.mem_iff_getElem?.mp hf
  have hlt := (List.getElem?_eq_some_iff.mp hj).1
  exact ⟨formatLoop_stored hs hloop j f (by omega) (by omega) hj,
    hmand j f (by omega) (by omega) hj⟩

/-! ## Whole parts -/

/-- A walk over a part, from the state a parse starts in: what it found, and the state it ends
in. A deferred screen is one of the table. -/
inductive Finds (d : Device) : List Found → Ctx → Prop
  | node {r : Review} {part : NodePart} {s : Ctx}
    (h : walkNode d (Ctx.start none r) part = some s) :
    Finds d (foundNode d (Ctx.start none r) part) s
  | contract {g : Deferred} {r : Review} {ic : InputContract} {s : Ctx}
    (hg : g.conf ∈ displayConfigs) (h : walkInputContract d (Ctx.start (some g) r) ic = some s) :
    Finds d (foundContract d (Ctx.start (some g) r) ic) s

variable {found : List Found} {c : DisplayConfig}

theorem screenFields_table : ∀ c ∈ displayConfigs,
    (screenFields c).map (·.config) = c.fields ∧
      ((screenFields c).map (·.config.path)).Nodup ∧ ∀ f ∈ screenFields c, f.display = true := by
  decide +kernel

theorem settle_keeps (ws : List Which) (f : TxField) :
    (settle ws f).config = f.config ∧ (settle ws f).display = f.display := by
  induction ws generalizing f with
  | nil => exact ⟨rfl, rfl⟩
  | cons w ws ih =>
    obtain ⟨hconfig, hdisplay⟩ := matchField_keeps w f
    exact ⟨(ih _).1.trans hconfig, (ih _).2.trans hdisplay⟩

/-- The fields that a walk leaves: each was settled by what was found at its path. -/
theorem Finds.fields (h : Finds d found s) (hc : s.conf = some c) : c ∈ displayConfigs ∧
    s.fields = some ((screenFields c).map fun f => settle (foundAt found f.config.path) f) := by
  obtain ⟨hinv, hfilled⟩ : FieldsInv s ∧
      ∃ s₀ : Ctx, s₀.fields = none ∧ Filled s₀ found s := by
    cases h with
    | node h =>
      refine ⟨fieldsInv_walk.node (fun _ _ _ _ h => h) _ (fieldsInv_start _ ?_) h, _, rfl,
        filled_node h⟩
      rintro g ⟨⟩
    | contract hg h =>
      refine ⟨fieldsInv_walk.inputContract (fun _ _ _ _ h => h) _ (fieldsInv_start _ ?_) h, _, rfl,
        filled_contract h⟩
      rintro g ⟨⟩
      exact hg
  obtain ⟨htable, fs, hfs, -⟩ := hinv.1 c hc
  obtain ⟨s₀, hnone, hfilled⟩ := hfilled
  refine ⟨htable, ?_⟩
  rcases hfilled.waiting hnone with ⟨hnone, -⟩ | ⟨c', hc', hfields⟩
  · rw [hnone] at hfs
    cases hfs
  · obtain rfl : c' = c := Option.some.inj (hc'.symm.trans hc)
    rw [hfields, fillFound_eq_map (screenFields_table c' htable).2.1]

/-- Blocks that are read as they were stored end where they should. -/
theorem bounded_of_read (hc : c ∈ displayConfigs)
    (h : ∀ f ∈ screenFields c, ReadAsStored found f (settle (foundAt found f.config.path) f)) :
    Bounded 0 ((screenFields c).map fun f => settle (foundAt found f.config.path) f) := by
  intro j f b hf hb
  rw [List.getElem?_map] at hf
  obtain ⟨f₀, hf₀, rfl⟩ := Option.map_eq_some_iff.mp hf
  have hmem := List.mem_of_getElem? hf₀
  rw [(settle_keeps _ f₀).1]
  rcases h f₀ hmem b hb with hown | ⟨w, -, hread⟩
  · -- The text that the screen brings along.
    rcases (screenFields_fresh c hc f₀ hmem).2 with ⟨-, hnone⟩ | ⟨-, hstatic, hcb⟩
    · rw [hnone] at hown
      cases hown
    · rw [hcb, if_neg (by simp)]
      rw [hstatic] at hown
      rw [← Option.some.inj hown]
      simp
  · unfold ReadAs at hread
    split at hread
    · rename_i hcb
      obtain ⟨t, -, rfl⟩ := hread
      rw [if_pos ⟨Nat.zero_le j, hcb⟩]
      simp
    · rename_i hcb
      obtain ⟨s, -, rfl⟩ := hread
      rw [if_neg fun hor => hcb hor.2]
      simp

/-- On a clear screen, whatever was found is of the expected type if what was stored is. -/
theorem allExpected_of_clear (hc : c ∈ displayConfigs)
    (hstored : ∀ f ∈ screenFields c, (settle (foundAt found f.config.path) f).storeFailed = false ∧
      (f.config.mandatory = true →
        (settle (foundAt found f.config.path) f).value.isSome = true))
    (h : FirstExpected found c) : AllExpected found c := by
  intro cfg hcfg e he hpath
  rw [← (screenFields_table c hc).1] at hcfg
  obtain ⟨f, hf, rfl⟩ := List.mem_map.mp hcfg
  have hmem : e.2 ∈ foundAt found f.config.path :=
    List.mem_map_of_mem (List.mem_filter.mpr ⟨he, by simpa using hpath⟩)
  have hoptional : ∀ w : Which, w = .optional → Expected f.config.formatCallback w := by
    rintro w rfl
    trivial
  obtain ⟨hok, hmand⟩ := hstored f hf
  rcases (screenFields_fresh c hc f hf).2 with ⟨hnew, hempty⟩ | ⟨hmatched, -⟩
  · rcases settle_ok hok with ⟨-, hall⟩ | ⟨p, honly, hstorable, hvalue⟩
    · exact hoptional _ (hall _ hmem)
    · by_cases hopt : e.2 = .optional
      · exact hoptional _ hopt
      -- The one value found is the one that was stored.
      have hthis : e.2 = .prim p := by
        have hmem' : e.2 ∈ (foundAt found f.config.path).filter fun w => w ≠ .optional :=
          List.mem_filter.mpr ⟨hmem, by simpa using hopt⟩
        rw [honly] at hmem'
        exact List.mem_singleton.mp hmem'
      have hstores : stores (.prim p) = true := by
        cases p with
        | party s => rfl
        | numeric s => rfl
        | text s => rfl
        | timestamp t => rfl
        | _ => cases hstorable
      have hfirst : (foundAt found f.config.path).find? stores = some (.prim p) := by
        have hskip : (foundAt found f.config.path).find? stores =
            ((foundAt found f.config.path).filter fun w => w ≠ .optional).find? stores := by
          rw [List.find?_filter]
          congr 1
          funext w
          cases w <;> simp [stores]
        rw [hskip, honly, List.find?_cons_of_pos hstores]
      rw [hthis]
      by_cases hkept : (storedBlock (.prim p)).isSome = true
      · exact h f hf hnew _ hfirst hkept
      · -- An empty text may only stand where nothing has to be shown.
        have hnone : (settle (foundAt found f.config.path) f).value = none := by
          rw [(settle_first hnew hempty).1, hfirst]
          simpa using hkept
        have hcb : f.config.formatCallback ≠ some .timestamp := by
          intro hcb
          have hfield : f.config ∈ c.fields := by
            rw [← (screenFields_table c hc).1]
            exact List.mem_map_of_mem hf
          have hsome := hmand (displayConfigs_timestamp c hc f.config hfield hcb).1
          rw [hnone] at hsome
          cases hsome
        cases p with
        | party s => exact hcb
        | numeric s => exact hcb
        | text s => exact hcb
        | timestamp t => exact absurd rfl hkept
        | _ => cases hstorable
  · exact hoptional _ ((settle_matched hmatched hok).2 _ hmem)

/-- Where the first value found for each field has a type the field expects, the fields are read
as what they were stored from. -/
theorem readAsStored_of_first (hc : c ∈ displayConfigs) (h : FirstExpected found c) :
    ∀ f ∈ screenFields c, ReadAsStored found f (settle (foundAt found f.config.path) f) := by
  intro f hf
  rcases (screenFields_fresh c hc f hf).2 with hfresh | ⟨hmatched, -⟩
  · exact (readAsStored_iff hfresh).mpr (h f hf hfresh.1)
  · intro b hb
    rw [(settle_again hmatched).2] at hb
    exact .inl hb

/-- The configurations of the fields stay those of the screen. -/
theorem settle_configs (hc : c ∈ displayConfigs) :
    ((screenFields c).map fun f => settle (foundAt found f.config.path) f).map (·.config) =
      c.fields := by
  rw [List.map_map, ← (screenFields_table c hc).1]
  exact List.map_congr_left fun f _ => (settle_keeps _ f).1

/-- The screen is then bound and formatted within the blocks. -/
theorem finishParsing_first {values : ValuesStore} (h : Finds d found s) (hc : s.conf = some c)
    (hfirst : FirstExpected found c) :
    finishParsing { d with heapAfter := heap } values s = finishParsing d values s := by
  obtain ⟨htable, hfields⟩ := h.fields hc
  refine finishParsing_heap htable (settle_configs htable) ?_ hfields
    (bounded_of_read htable (readAsStored_of_first htable hfirst))
  intro f hf
  obtain ⟨f₀, hf₀, rfl⟩ := List.mem_map.mp hf
  rw [(settle_keeps _ f₀).2]
  exact (screenFields_table c htable).2.2 f₀ hf₀

/-- **Stored values are read as what they were stored as**, within their blocks, and a value of an
unexpected type turns clear signing off, exactly when the first value found for each field has a
type the field expects. -/
theorem stored_typed_iff {values : ValuesStore} (h : Finds d found s) (hc : s.conf = some c) :
    (List.Forall₂ (ReadAsStored found) (screenFields c) (s.fields.getD []) ∧
      (∀ heap, finishParsing { d with heapAfter := heap } values s = finishParsing d values s) ∧
      ∀ g r values', finishParsing d values s = some (g, r, values') →
        r.clearSigningAvailable = true → AllExpected found c) ↔
      FirstExpected found c := by
  obtain ⟨htable, hfields⟩ := h.fields hc
  have hread : List.Forall₂ (ReadAsStored found) (screenFields c) (s.fields.getD []) ↔
      ∀ f ∈ screenFields c, ReadAsStored found f (settle (foundAt found f.config.path) f) := by
    rw [hfields, Option.getD_some, List.forall₂_map_right_iff, List.forall₂_same]
  rw [hread]
  constructor
  · rintro ⟨hall, -, -⟩ f hf hnew
    rcases (screenFields_fresh c htable f hf).2 with hfresh | ⟨hmatched, -⟩
    · exact (readAsStored_iff hfresh).mp (hall f hf)
    · rw [hnew] at hmatched
      cases hmatched
  · intro hfirst
    refine ⟨readAsStored_of_first htable hfirst, fun heap => finishParsing_first h hc hfirst,
      fun g r values' hfinish hclear => ?_⟩
    refine allExpected_of_clear htable (fun f hf => ?_) hfirst
    have hthis := clear_stored htable (settle_configs htable) hfields hc hfinish hclear _
      (List.mem_map_of_mem hf)
    rwa [(settle_keeps _ f).1] at hthis

/-- The proposal of a transfer pre-approval. -/
def proposalOf (receiver : Value) : NodePart :=
  let id := Host.ident "Splice.Wallet.TransferPreapproval" "TransferPreapprovalProposal"
  [.nodeId (str "0"), .v1 [.create (Host.createOf "contract" id
    (Host.recordOf id [("receiver", receiver), ("provider", Host.party "validator")]))]]

/-- The screen of a proposal, which is the fourth of the table. -/
def proposalScreen : DisplayConfig := displayConfigs.get ⟨3, by decide⟩

/-- A proposal whose receiver is a party. -/
theorem stored_typed_iff_proposal :
    let start := Ctx.start none TxInfo.zero.review
    let part := proposalOf (Host.party "alice")
    ∃ s, walkNode testDevice start part = some s ∧ ∀ heap,
      finishParsing { testDevice with heapAfter := heap } valuesCheckReset s =
        finishParsing testDevice valuesCheckReset s := by
  intro start part
  have hwalk : (walkNode testDevice start part).map (·.conf) = some (some proposalScreen) := by
    decide +kernel
  obtain ⟨s, hs, hconf⟩ := Option.map_eq_some_iff.mp hwalk
  refine ⟨s, hs, ((stored_typed_iff (.node hs) hconf).mpr ?_).2.1⟩
  have hfirst : ∀ f ∈ screenFields proposalScreen, f.matched = false →
      f.config.formatCallback = none ∧ ∃ p ∈ [str "alice", str "validator"],
        (foundAt (foundNode testDevice start part) f.config.path).find? stores =
          some (.prim (.party p)) := by
    decide +kernel
  intro f hf hnew w hw _
  obtain ⟨hcb, p, -, hparty⟩ := hfirst f hf hnew
  rw [hparty] at hw
  obtain rfl := Option.some.inj hw
  rw [hcb]
  exact nofun

/-- A proposal whose receiver is a timestamp is shown on a clear screen as the bytes of the
timestamp, and after them whatever the heap holds. -/
theorem proposal_shows_timestamp :
    let start := Ctx.start none TxInfo.zero.review
    let part := proposalOf (Host.timestamp 0x4142434445464748)
    ∃ s, walkNode testDevice start part = some s ∧ s.conf = some proposalScreen ∧
      (∃ g r values, finishParsing testDevice valuesCheckReset s = some (g, r, values) ∧
        r.clearSigningAvailable = true ∧ r.pairs = some [
          (str "Pre-approve for account", str "ABCDEFGH"),
          (str "For asset", str "Canton Coin (CC)"), (str "By validator", str "validator")]) ∧
      ¬ AllExpected (foundNode testDevice start part) proposalScreen ∧
      finishParsing { testDevice with heapAfter := fun _ => str "IJK" } valuesCheckReset s ≠
        finishParsing testDevice valuesCheckReset s := by
  intro start part
  have hwalk : (walkNode testDevice start part).map (·.conf) = some (some proposalScreen) := by
    decide +kernel
  have hclear : (walkNode testDevice start part).bind (fun s =>
      (finishParsing testDevice valuesCheckReset s).map fun r => (r.2.1.clearSigningAvailable,
        r.2.1.pairs)) = some (true, some [(str "Pre-approve for account", str "ABCDEFGH"),
          (str "For asset", str "Canton Coin (CC)"), (str "By validator", str "validator")]) := by
    decide +kernel
  have hheap : (walkNode testDevice start part).map (fun s => decide
      (finishParsing { testDevice with heapAfter := fun _ => str "IJK" } valuesCheckReset s =
        finishParsing testDevice valuesCheckReset s)) = some false := by
    decide +kernel
  obtain ⟨s, hs, hconf⟩ := Option.map_eq_some_iff.mp hwalk
  rw [hs, Option.bind_some] at hclear
  rw [hs, Option.map_some, Option.some.injEq, decide_eq_false_iff_not] at hheap
  obtain ⟨⟨g, r, values⟩, hfinish, hreview⟩ := Option.map_eq_some_iff.mp hclear
  refine ⟨s, hs, hconf, ⟨g, r, values, hfinish, congrArg Prod.fst hreview,
    congrArg Prod.snd hreview⟩, fun hall => ?_, hheap⟩
  have hfound : (str "receiver", Which.prim (.timestamp 0x4142434445464748)) ∈
      foundNode testDevice start part := by
    decide +kernel
  have hfield : (⟨str "receiver", some (str "Pre-approve for account"), none, true, .receiver⟩ :
      FieldConfig) ∈ proposalScreen.fields := by
    decide +kernel
  exact absurd (hall _ hfield _ hfound rfl) nofun

end DisplayParser

end CantonSigner
