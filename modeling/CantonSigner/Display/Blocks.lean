import CantonSigner.Display.Stored

/-!
# Reading within the block

`format_timestamp_field` reads the 8 bytes of a timestamp from a block, and every other reader a
text up to its terminator. As long as each block holds what its readers read, nothing behind it
in the heap is looked at (`Bounded`, `finishParsing_heap`).
-/

namespace CantonSigner

open ByteCodec

namespace DisplayParser

variable {f f₀ : TxField} {w : Which} {ws : List Which} {b : Bytes}

/-! ## Reading within the block -/

variable {d : Device} {heap : Bytes → Bytes} {fs cur : List TxField} {s s' : Ctx} {i n : Nat}
  {block : Bytes}

theorem blockText_heap (h : 0 ∈ b) : blockText { d with heapAfter := heap } b = blockText d b := by
  unfold blockText
  rw [if_pos h, if_pos h]

theorem formatTimestampText_heap (h : b.length = 8) :
    formatTimestampText { d with heapAfter := heap } b = formatTimestampText d b := by
  have hread : ∀ heap : Bytes → Bytes, readU64 { d with heapAfter := heap } b =
      b.foldl (fun n b => n * 256 + b.toNat) 0 := by
    intro heap
    unfold readU64
    rw [List.take_append_of_le_length (by omega), List.take_of_length_le (by omega)]
  rw [formatTimestampText, formatTimestampText, hread heap, ← hread d.heapAfter]

/-- The blocks in the loop before field `i`: a timestamp that was not formatted yet has its
8 bytes, and everything else its terminator. -/
def Bounded (i : Nat) (cur : List TxField) : Prop :=
  ∀ (j : Nat) f b, cur[j]? = some f → f.value = some b →
    if i ≤ j ∧ f.config.formatCallback = some .timestamp then b.length = 8 else 0 ∈ b

theorem Bounded.terminated {j : Nat} (h : Bounded i cur) (hj : cur[j]? = some f)
    (hb : f.value = some b) (hcb : f.config.formatCallback ≠ some .timestamp) : 0 ∈ b := by
  have := h j f b hj hb
  rwa [if_neg fun hor => hcb hor.2] at this

/-- The unit of an amount is looked up by texts that end in their blocks. -/
theorem formatTokenAmount_heap (hplain : PlainTokens cur) (hbound : Bounded i cur)
    (amount : Bytes) : formatTokenAmount { d with heapAfter := heap } s cur i amount =
      formatTokenAmount d s cur i amount := by
  have hlookup : ∀ p q v, TokenPath p → TokenPath q →
      (lastFieldAt p q (setFieldText cur i amount)).bind (·.value) = some v → 0 ∈ v := by
    intro p q v hp hq hv
    obtain ⟨g, hg, hv⟩ := Option.bind_eq_some_iff.mp hv
    obtain ⟨hmem, hpath⟩ := lastFieldAt_mem hg
    obtain ⟨j, hj⟩ := List.mem_iff_getElem?.mp hmem
    unfold setFieldText at hj
    rw [List.getElem?_modify] at hj
    obtain ⟨g₀, hg₀, rfl⟩ := Option.map_eq_some_iff.mp hj
    by_cases hij : i = j
    · -- The amount itself was just set.
      rw [if_pos hij] at hv
      rw [← Option.some.inj hv]
      simp
    · rw [if_neg hij] at hv hpath
      refine hbound.terminated hg₀ hv ?_
      rw [hplain g₀ (List.mem_of_getElem? hg₀) ?_]
      · exact nofun
      · rcases hpath with heq | heq
        · exact heq ▸ hp
        · exact heq ▸ hq
  unfold formatTokenAmount
  dsimp only
  split
  · rename_i instrument admin hi ha
    rw [blockText_heap (hlookup _ _ _ (.inl rfl) (.inr (.inl rfl)) hi),
      blockText_heap (hlookup _ _ _ (.inr (.inr (.inl rfl))) (.inr (.inr (.inr rfl))) ha)]
  · rfl

/-- Formatting a field stays within its block. -/
theorem formatField_heap (hs : s.fields = some cur) (hplain : PlainTokens cur)
    (hbound : Bounded i cur) (hf : cur[i]? = some f) (hblock : f.value = some block) :
    formatField { d with heapAfter := heap } s i f block = formatField d s i f block := by
  have hthis := hbound i f block hf hblock
  unfold formatField
  rw [hs, Option.getD_some]
  split
  · unfold runFormatCallback
    cases hcb : f.config.formatCallback with
    | none => rfl
    | some cb =>
      rw [hcb] at hthis
      cases cb with
      | tokenAmount =>
        have hend : 0 ∈ block := by simpa using hthis
        dsimp only
        rw [blockText_heap hend, formatTokenAmount_heap hplain hbound]
      | nativeAmount =>
        have hend : 0 ∈ block := by simpa using hthis
        dsimp only
        rw [blockText_heap hend]
      | timestamp =>
        have hlen : block.length = 8 := by simpa using hthis
        dsimp only
        rw [formatTimestampText_heap hlen]
  · rfl

/-- A formatted field holds a text. -/
theorem formatField_self (hs : s.fields = some cur) (hf : cur[i]? = some f)
    (hcb : f.config.formatCallback ≠ none) (hdisplay : f.display = true) :
    ∃ cur' text, (formatField d s i f block).fields = some cur' ∧
      (cur'[i]?).map (·.value) = some (some (text ++ [0])) := by
  have hset : ∀ l : List TxField, (l[i]?).isSome = true → ∀ text,
      ((setFieldText l i text)[i]?).map (·.value) = some (some (text ++ [0])) := by
    intro l hl text
    obtain ⟨g, hg⟩ := Option.isSome_iff_exists.mp hl
    simp [setFieldText, hg]
  have hsome : (cur[i]?).isSome = true := by simp [hf]
  unfold formatField
  rw [if_pos hdisplay, hs, Option.getD_some]
  cases hcb' : f.config.formatCallback with
  | none => exact absurd hcb' hcb
  | some cb =>
    cases cb with
    | nativeAmount => exact ⟨_, _, rfl, hset cur hsome _⟩
    | timestamp => exact ⟨_, _, rfl, hset cur hsome _⟩
    -- the unit is added to the amount, and only other fields are hidden
    | tokenAmount =>
      show ∃ cur' text, (formatTokenAmount d s cur i _).fields = some cur' ∧ _
      unfold formatTokenAmount
      dsimp only
      split
      · split
        · exact ⟨_, _, rfl, hset cur hsome _⟩
        · rename_i amount _ ticker _
          have hunit : ((hideLastFieldAt instrumentIdAdminPath instrumentIdProxyAdminPath
              (hideLastFieldAt instrumentIdPath proxyInstrumentIdPath
                (setFieldText (setFieldText cur i (formatAmountText (blockText d block))) i
                  (formatAmountText (blockText d block) ++ [32] ++ ticker))))[i]?).map (·.value) =
              some (some (formatAmountText (blockText d block) ++ [32] ++ ticker ++ [0])) := by
            rw [hideLastFieldAt_value, hideLastFieldAt_value]
            exact hset _ (by simp [setFieldText, hf]) _
          split
          · exact ⟨_, _, rfl, hunit⟩
          · exact ⟨_, _, rfl, hunit⟩
      · exact ⟨_, _, rfl, hset cur hsome _⟩

/-- The loop goes on: what was formatted has its terminator. -/
theorem bounded_formatField (hplain : PlainTokens fs) (hshown : ∀ f ∈ fs, f.display = true)
    (hs : s.fields = some cur) (hkept : List.Forall₂ (FieldKept (HiddenIn d fs)) fs cur)
    (hbound : Bounded i cur) (hf : cur[i]? = some f) (hblock : f.value = some block) :
    ∃ cur', (formatField d s i f block).fields = some cur' ∧
      List.Forall₂ (FieldKept (HiddenIn d fs)) fs cur' ∧ Bounded (i + 1) cur' := by
  obtain ⟨cur', hs', hkept'⟩ := formatField_kept hplain hs hkept hf hblock
  refine ⟨cur', hs', hkept', ?_⟩
  intro j g b hg hb
  by_cases hji : j = i
  · subst hji
    rw [if_neg (by omega)]
    by_cases hcb : f.config.formatCallback = none
    · have hsame : formatField d s j f block = s := by
        unfold formatField
        rw [hcb]
        split <;> rfl
      rw [hsame, hs] at hs'
      obtain rfl := Option.some.inj hs'
      obtain rfl : f = g := Option.some.inj (hf.symm.trans hg)
      exact hbound.terminated hf hb (by rw [hcb]; exact nofun)
    · -- Only the fields that name the token are hidden, and these have no callback.
      obtain ⟨f₀, hf₀, hk⟩ := hkept.getElem? hf
      have hdisplay : f.display = true := by
        rcases hk.display with hsame | ⟨-, hpath, -⟩
        · rw [hsame]
          exact hshown f₀ (List.mem_of_getElem? hf₀)
        · exact absurd (hk.config ▸ hplain f₀ (List.mem_of_getElem? hf₀) hpath) hcb
      obtain ⟨cur'', text, hs'', htext⟩ : ∃ cur'' text,
          (formatField d s j f block).fields = some cur'' ∧ _ := formatField_self hs hf hcb hdisplay
      obtain rfl : cur' = cur'' := Option.some.inj (hs'.symm.trans hs'')
      rw [hg, Option.map_some, hb] at htext
      rw [Option.some.inj (Option.some.inj htext)]
      simp
  · -- any other field keeps its value
    obtain ⟨cur'', hs'', hvalues⟩ : ∃ cur'', (formatField d s i f block).fields = some cur'' ∧
        (cur''[j]?).map (·.value) = (cur[j]?).map (·.value) := formatField_values hs hji
    obtain rfl : cur' = cur'' := Option.some.inj (hs'.symm.trans hs'')
    obtain ⟨g₀, hg₀, hk'⟩ := hkept'.getElem? hg
    obtain ⟨g', hg', hk⟩ := hkept.getElem?_left hg₀
    rw [hg, hg', Option.map_some, Option.map_some, hb] at hvalues
    have hthis := hbound j g' b hg' (Option.some.inj hvalues).symm
    have hpast : i + 1 ≤ j ↔ i ≤ j := by omega
    rw [hk'.config, ← hk.config]
    simpa only [hpast] using hthis

/-- The loop stays within the blocks, and leaves texts. -/
theorem formatLoop_heap (hplain : PlainTokens fs) (hshown : ∀ f ∈ fs, f.display = true)
    (hs : s.fields = some cur) (hkept : List.Forall₂ (FieldKept (HiddenIn d fs)) fs cur)
    (hbound : Bounded i cur) (hend : fs.length ≤ i + n) :
    formatLoop { d with heapAfter := heap } n i s = formatLoop d n i s ∧
      ∀ s', formatLoop d n i s = .formatted s' →
        ∀ f ∈ s'.fields.getD [], ∀ b, f.value = some b → 0 ∈ b := by
  have hall : ∀ {s' : Ctx} {cur : List TxField} {k : Nat}, s'.fields = some cur → Bounded k cur →
      cur.length ≤ k → ∀ f ∈ s'.fields.getD [], ∀ b, f.value = some b → 0 ∈ b := by
    intro s' cur k hs' hbound hk f hf b hb
    rw [hs', Option.getD_some] at hf
    obtain ⟨j, hj⟩ := List.mem_iff_getElem?.mp hf
    have hlt := (List.getElem?_eq_some_iff.mp hj).1
    have := hbound j f b hj hb
    rwa [if_neg (by omega)] at this
  induction n generalizing i s cur with
  | zero =>
    refine ⟨rfl, fun s' h => ?_⟩
    cases h
    exact hall hs hbound (by rw [← hkept.length_eq]; omega)
  | succ n ih =>
    rw [formatLoop_succ, formatLoop_succ, hs, Option.getD_some]
    cases hf : cur[i]? with
    | none =>
      refine ⟨rfl, fun s' h => ?_⟩
      cases h
      exact hall hs hbound (List.getElem?_eq_none_iff.mp hf)
    | some f =>
      dsimp only
      split
      · refine ⟨rfl, fun s' h => ?_⟩
        cases h
      · cases hblock : f.value with
        | none =>
          dsimp only
          split
          · refine ⟨rfl, fun s' h => ?_⟩
            cases h
          · refine ih hs hkept ?_ (by omega)
            -- There is no block to be read at this field.
            intro j g b hg hb
            have hthis := hbound j g b hg hb
            have hne : j ≠ i := by
              rintro rfl
              rw [hf] at hg
              rw [Option.some.inj hg, hb] at hblock
              cases hblock
            have hpast : i + 1 ≤ j ↔ i ≤ j := by omega
            simpa only [hpast] using hthis
        | some block =>
          dsimp only
          rw [formatField_heap hs ?_ hbound hf hblock]
          · split
            · refine ⟨rfl, fun s' h => ?_⟩
              cases h
            · obtain ⟨cur', hs', hkept', hbound'⟩ :=
                bounded_formatField hplain hshown hs hkept hbound hf hblock
              exact ih hs' hkept' hbound' (by omega)
          · intro g hg hpath
            obtain ⟨g₀, hg₀, hk⟩ := hkept.exists_of_mem_right hg
            rw [hk.config] at hpath ⊢
            exact hplain g₀ hg₀ hpath

theorem populateRows_heap (h : ∀ f ∈ cur, ∀ b, f.value = some b → 0 ∈ b) :
    populateRows { d with heapAfter := heap } cur = populateRows d cur := by
  refine List.filterMap_congr fun f hf => ?_
  cases hblock : f.value with
  | none => cases f.display <;> rfl
  | some b =>
    have htext : blockText { d with heapAfter := heap } b = blockText d b :=
      blockText_heap (h f hf b hblock)
    cases f.display with
    | false => rfl
    | true =>
      cases f.config.itemName with
      | none => rfl
      | some item => exact congrArg (fun text => some (item, text)) htext

theorem shownText_heap {role : ShownAs}
    (h : ∀ f ∈ cur, f.config.shownAs = role → ∀ b, f.value = some b → 0 ∈ b) :
    shownText { d with heapAfter := heap } cur role = shownText d cur role := by
  refine List.foldl_ext _ _ _ fun acc f hf => ?_
  by_cases hrole : f.config.shownAs = role
  · rw [if_pos hrole, if_pos hrole]
    cases hblock : f.value with
    | none => rfl
    | some b => rw [Option.map_some, Option.map_some, blockText_heap (h f hf hrole b hblock)]
  · rw [if_neg hrole, if_neg hrole]

/-- What the tables say about the fields that show a moment. -/
theorem displayConfigs_timestamp : ∀ c ∈ displayConfigs, ∀ f ∈ c.fields,
    f.formatCallback = some .timestamp → f.mandatory = true ∧ f.shownAs = .other := by
  decide +kernel

/-- Binding and formatting a screen stays within its blocks. -/
theorem finishParsing_heap {c : DisplayConfig} {values : ValuesStore} (hc : c ∈ displayConfigs)
    (hconf : fs.map (·.config) = c.fields) (hshown : ∀ f ∈ fs, f.display = true)
    (hs : s.fields = some fs) (hbound : Bounded 0 fs) :
    finishParsing { d with heapAfter := heap } values s = finishParsing d values s := by
  have hmem : ∀ {f}, f ∈ fs → f.config ∈ c.fields := fun hf => hconf ▸ List.mem_map_of_mem hf
  have hplain : PlainTokens fs := fun f hf hp =>
    ((displayConfigs_fields c hc).2.1 f.config (hmem hf) hp).1
  -- what is bound for a role is read from a terminated block
  have hrole : ∀ role, role ≠ .other →
      shownText { d with heapAfter := heap } fs role = shownText d fs role := by
    intro role hrole
    refine shownText_heap fun f hf hshownAs b hb => ?_
    obtain ⟨j, hj⟩ := List.mem_iff_getElem?.mp hf
    refine hbound.terminated hj hb fun hcb => hrole ?_
    rw [← hshownAs]
    exact (displayConfigs_timestamp c hc f.config (hmem hf) hcb).2
  have hbind : ∀ destination amountCheck,
      valuesBindFromDisplay { d with heapAfter := heap } values fs destination amountCheck =
        valuesBindFromDisplay d values fs destination amountCheck := by
    intro destination amountCheck
    unfold valuesBindFromDisplay
    rw [hrole .sender nofun, hrole .receiver nofun, hrole .amount nofun, hrole .admin nofun,
      hrole .instrument nofun]
  -- formatting a field terminates its block, and rows are made of formatted fields
  have hformat : formatAndPopulate { d with heapAfter := heap } s fs =
      formatAndPopulate d s fs := by
    have hend : fs.length ≤ 0 + fs.length := by omega
    obtain ⟨hloop, hrows⟩ : formatLoop { d with heapAfter := heap } fs.length 0 s =
          formatLoop d fs.length 0 s ∧ _ :=
      formatLoop_heap hplain hshown hs (List.forall₂_same.mpr fun f _ => FieldKept.refl f) hbound
        hend
    unfold formatAndPopulate
    dsimp only
    split
    · rfl
    · rw [hloop]
      cases hresult : formatLoop d fs.length 0 s with
      | failed s' => rfl
      | missing => rfl
      | formatted s' =>
        dsimp only
        rw [populateRows_heap (hrows s' hresult)]
  unfold finishParsing
  rw [hs]
  split
  · rename_i fs' c' heq _
    obtain rfl := Option.some.inj heq
    rw [hbind, hformat]
  · rfl

end DisplayParser

end CantonSigner
