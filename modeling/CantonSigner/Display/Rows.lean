import CantonSigner.Display.Screens
import CantonSigner.Lib.Pointwise

/-!
# The rows of a screen

A screen that was filled has a row for each of its mandatory fields, but for the row of
the token when the amount carries its ticker. The walk keeps the fields of the screen it
selected (`ScreenFields`), the formatting loop changes texts and hides the token
(`FieldKept`), and what is left is read off into rows (`populateRows_complete`).
-/

namespace CantonSigner

open ByteCodec

namespace DisplayParser

/-! ## The fields of the selected screen -/

/-- The fields of a context are those of the screen it selected, all to be shown. -/
def ScreenFields (s : Ctx) : Prop :=
  ∀ c, s.conf = some c → c ∈ displayConfigs ∧ ∃ fs, s.fields = some fs ∧
    fs.map (·.config) = c.fields ∧ ∀ f ∈ fs, f.display = true

theorem storeValue_keeps (f : TxField) (v : Shown) :
    (storeValue f v).config = f.config ∧ (storeValue f v).display = f.display := by
  unfold storeValue
  cases v <;> grind

theorem matchField_keeps (w : Which) (f : TxField) :
    (matchField w f).config = f.config ∧ (matchField w f).display = f.display := by
  unfold matchField
  split <;> first | exact storeValue_keeps f _ | exact ⟨rfl, rfl⟩

theorem updateFieldAt_keeps {g : TxField → TxField}
    (hg : ∀ f, (g f).config = f.config ∧ (g f).display = f.display) (path : Bytes)
    (fs : List TxField) :
    (updateFieldAt path g fs).map (·.config) = fs.map (·.config) ∧
      (updateFieldAt path g fs).map (·.display) = fs.map (·.display) := by
  induction fs with
  | nil => exact ⟨rfl, rfl⟩
  | cons f fs ih =>
    unfold updateFieldAt
    split
    · simp [hg f]
    · simp [ih]

theorem setDisplayConfig_fields {s : Ctx} {c : DisplayConfig} (hc : c ∈ displayConfigs) :
    ScreenFields (setDisplayConfig s c) := by
  rintro c' ⟨⟩
  refine ⟨hc, _, rfl, ?_⟩
  have htable : ∀ c ∈ displayConfigs,
      (setPreapprovalAsset c.reviewTitle (c.fields.map freshField)).map (·.config) = c.fields ∧
        ∀ f ∈ setPreapprovalAsset c.reviewTitle (c.fields.map freshField), f.display = true := by
    decide +kernel
  exact htable c hc

/-- A deferred match is of a screen of the table. -/
def FieldsInv (s : Ctx) : Prop := ScreenFields s ∧ ∀ g, s.globals = some g → g.conf ∈ displayConfigs

theorem fieldsInv_findInTable {s : Ctx} (id : Identifier) (h : FieldsInv s) :
    FieldsInv (findInTable s id) := by
  rcases findInTable_cases s id with heq | ⟨c, hc, -, -, ⟨-, heq⟩ | ⟨-, heq⟩⟩
  · rw [heq]
    exact h
  · rw [heq]
    exact ⟨setDisplayConfig_fields hc, h.2⟩
  · rw [heq]
    refine ⟨h.1, ?_⟩
    rintro g ⟨⟩
    exact hc

theorem fieldsInv_walk : WalkInvariant FieldsInv where
  opened _ h := h
  entered _ h := h
  left _ h := h
  unreadable _ h := h
  path _ _ h := h
  field s w h := by
    refine ⟨fun c hc => ?_, h.2⟩
    obtain ⟨htable, fs, hfs, hconf, hdisplay⟩ := h.1 c hc
    obtain ⟨hkeeps, hshown⟩ := updateFieldAt_keeps (matchField_keeps w) s.path fs
    refine ⟨htable, updateFieldAt s.path (matchField w) fs, by simp [findTxField, hfs],
      hkeeps.trans hconf, ?_⟩
    intro f hf
    have hmem : f.display ∈ fs.map (·.display) := hshown ▸ List.mem_map_of_mem hf
    obtain ⟨f₀, hf₀, heq⟩ := List.mem_map.mp hmem
    rw [← heq]
    exact hdisplay f₀ hf₀
  select s id h _ := by
    unfold findTxTypeAndConfig
    split
    · exact h
    · split
      · exact fieldsInv_findInTable id h
      · rename_i g hg
        split
        · exact ⟨setDisplayConfig_fields (h.2 g hg), h.2⟩
        · exact fieldsInv_findInTable id h

theorem fieldsInv_start {g : Globals} (r : Review)
    (hg : ∀ m, g = some m → m.conf ∈ displayConfigs) : FieldsInv (Ctx.start g r) := by
  refine ⟨?_, hg⟩
  intro c hc
  cases hc

/-! ## Formatting -/

/-- The paths whose fields a known ticker hides. -/
def TokenPath (p : Bytes) : Prop :=
  p = instrumentIdPath ∨ p = proxyInstrumentIdPath ∨ p = instrumentIdAdminPath ∨
    p = instrumentIdProxyAdminPath

instance (p : Bytes) : Decidable (TokenPath p) := inferInstanceAs (Decidable (_ ∨ _ ∨ _ ∨ _))

/-- The instrument and the administrator found for a screen have a known ticker. -/
def TickerMatch (d : Device) (fs : List TxField) : Prop :=
  ∃ fi ∈ fs, ∃ fa ∈ fs, ∃ i a, fi.value = some i ∧ fa.value = some a ∧
    (fi.config.path = instrumentIdPath ∨ fi.config.path = proxyInstrumentIdPath) ∧
    (fa.config.path = instrumentIdAdminPath ∨ fa.config.path = instrumentIdProxyAdminPath) ∧
    (findTicker (blockText d a) (blockText d i)).isSome = true

/-- What formatting does to a field: its text may change if it has a callback, and it may
be hidden. -/
structure FieldKept (hidden : Bytes → Prop) (f f' : TxField) : Prop where
  config : f'.config = f.config
  value : f'.value.isSome = f.value.isSome
  plain : f.config.formatCallback = none → f'.value = f.value
  display : f'.display = f.display ∨ (f'.display = false ∧ hidden f.config.path)

variable {d : Device} {hidden : Bytes → Prop}

theorem FieldKept.refl (f : TxField) : FieldKept hidden f f := ⟨rfl, rfl, fun _ => rfl, .inl rfl⟩

theorem FieldKept.trans (f f' f'' : TxField) (h : FieldKept hidden f f')
    (h' : FieldKept hidden f' f'') : FieldKept hidden f f'' := by
  refine ⟨h'.config.trans h.config, h'.value.trans h.value, ?_, ?_⟩
  · intro hplain
    exact (h'.plain (h.config ▸ hplain)).trans (h.plain hplain)
  · rcases h'.display with heq | ⟨hoff, hhid⟩
    · rw [heq]
      exact h.display
    · rw [h.config] at hhid
      exact .inr ⟨hoff, hhid⟩

theorem setFieldText_kept {fs : List TxField} {i : Nat} {f : TxField} (hf : fs[i]? = some f)
    (hvalue : f.value.isSome = true) (hcb : f.config.formatCallback ≠ none) (text : Bytes) :
    List.Forall₂ (FieldKept hidden) fs (setFieldText fs i text) := by
  refine List.forall₂_modify FieldKept.refl fs i fun f' hf' => ?_
  obtain rfl : f = f' := Option.some.inj (hf.symm.trans hf')
  exact ⟨rfl, by simp [hvalue], fun hnone => absurd hnone hcb, .inl rfl⟩

theorem hideLastFieldAt_kept {p q : Bytes} (hp : hidden p) (hq : hidden q) (fs : List TxField) :
    List.Forall₂ (FieldKept hidden) fs (hideLastFieldAt p q fs) := by
  unfold hideLastFieldAt
  induction fs with
  | nil => exact .nil
  | cons f fs ih =>
    rw [List.foldr_cons]
    split
    · rename_i hcond
      refine .cons ⟨rfl, rfl, fun _ => rfl, .inr ⟨rfl, ?_⟩⟩ ih
      simp only [Bool.and_eq_true, Bool.or_eq_true, decide_eq_true_eq] at hcond
      rcases hcond.2 with heq | heq
      · rw [heq]; exact hp
      · rw [heq]; exact hq
    · exact .cons (FieldKept.refl f) ih

theorem lastFieldAt_mem {p q : Bytes} {fs : List TxField} {f : TxField}
    (h : lastFieldAt p q fs = some f) : f ∈ fs ∧ (f.config.path = p ∨ f.config.path = q) := by
  suffices hgen : ∀ (fs : List TxField) (acc : Option TxField),
      fs.foldl (fun acc f => if f.config.path = p || f.config.path = q then some f else acc) acc =
        some f → acc = some f ∨ (f ∈ fs ∧ (f.config.path = p ∨ f.config.path = q)) by
    rcases hgen fs none h with hnone | hmem
    · cases hnone
    · exact hmem
  intro fs
  induction fs with
  | nil => exact fun acc hacc => .inl hacc
  | cons f₀ fs ih =>
    intro acc hfold
    rw [List.foldl_cons] at hfold
    rcases ih _ hfold with hacc | ⟨hmem, hpath⟩
    · split at hacc
      · rename_i hcond
        cases hacc
        exact .inr ⟨List.mem_cons_self, by simpa using hcond⟩
      · exact .inl hacc
    · exact .inr ⟨List.mem_cons_of_mem _ hmem, hpath⟩

/-- Why a field of the screen may be hidden. -/
def HiddenIn (d : Device) (fs : List TxField) (p : Bytes) : Prop := TokenPath p ∧ TickerMatch d fs

/-- The fields that name the token are shown as they were found. -/
def PlainTokens (fs : List TxField) : Prop :=
  ∀ f ∈ fs, TokenPath f.config.path → f.config.formatCallback = none

variable {fs cur : List TxField} {s s' : Ctx} {i n : Nat} {f : TxField} {block : Bytes}

/-- A ticker that was found for the fields as they are now was there from the start. -/
theorem tickerMatch_of_lookup (hplain : PlainTokens fs)
    (hkept : List.Forall₂ (FieldKept (HiddenIn d fs)) fs cur) {instrument admin ticker : Bytes}
    (hi : (lastFieldAt instrumentIdPath proxyInstrumentIdPath cur).bind (·.value) = some instrument)
    (ha : (lastFieldAt instrumentIdAdminPath instrumentIdProxyAdminPath cur).bind (·.value) =
      some admin)
    (hticker : findTicker (blockText d admin) (blockText d instrument) = some ticker) :
    TickerMatch d fs := by
  have horigin : ∀ p q v, TokenPath p → TokenPath q →
      (lastFieldAt p q cur).bind (·.value) = some v →
      ∃ f ∈ fs, f.value = some v ∧ (f.config.path = p ∨ f.config.path = q) := by
    intro p q v hp hq hbind
    obtain ⟨f', hlast, hv⟩ := Option.bind_eq_some_iff.mp hbind
    obtain ⟨hmem, hpath⟩ := lastFieldAt_mem hlast
    obtain ⟨f, hf, hk⟩ := hkept.exists_of_mem_right hmem
    rw [hk.config] at hpath
    have hcb : f.config.formatCallback = none := by
      refine hplain f hf ?_
      rcases hpath with heq | heq
      · rw [heq]; exact hp
      · rw [heq]; exact hq
    exact ⟨f, hf, (hk.plain hcb).symm.trans hv, hpath⟩
  obtain ⟨fi, hfi, hvi, hpi⟩ := horigin _ _ _ (.inl rfl) (.inr (.inl rfl)) hi
  obtain ⟨fa, hfa, hva, hpa⟩ := horigin _ _ _ (.inr (.inr (.inl rfl))) (.inr (.inr (.inr rfl))) ha
  exact ⟨fi, hfi, fa, hfa, instrument, admin, hvi, hva, hpi, hpa, by simp [hticker]⟩

/-- The amount of a token: its text is set, and the token is hidden if its ticker is
known. -/
theorem formatTokenAmount_kept (hplain : PlainTokens fs)
    (hkept : List.Forall₂ (FieldKept (HiddenIn d fs)) fs cur) (hf : cur[i]? = some f)
    (hvalue : f.value.isSome = true) (hcb : f.config.formatCallback ≠ none) (amount : Bytes) :
    ∃ cur', (formatTokenAmount d s cur i amount).fields = some cur' ∧
      List.Forall₂ (FieldKept (HiddenIn d fs)) fs cur' := by
  have hset : ∀ {l : List TxField} {f : TxField} (text : Bytes), l[i]? = some f →
      f.value.isSome = true → f.config.formatCallback ≠ none →
      List.Forall₂ (FieldKept (HiddenIn d fs)) fs l →
      List.Forall₂ (FieldKept (HiddenIn d fs)) fs (setFieldText l i text) :=
    fun text h₁ h₂ h₃ h₄ => h₄.comp (setFieldText_kept h₁ h₂ h₃ text) FieldKept.trans
  have hkept₁ := hset amount hf hvalue hcb hkept
  unfold formatTokenAmount
  dsimp only
  split
  · rename_i instrument admin hi ha
    split
    · exact ⟨_, rfl, hkept₁⟩
    · rename_i ticker hticker
      have hmatch := tickerMatch_of_lookup hplain hkept₁ hi ha hticker
      have hf₁ : (setFieldText cur i amount)[i]? =
        some { f with value := some (amount ++ [0]) } := by
        simp [setFieldText, hf]
      have hkept₂ := hset (amount ++ [32] ++ ticker) hf₁ rfl hcb hkept₁
      have hkept₃ := hkept₂.comp (@hideLastFieldAt_kept (HiddenIn d fs) _ _
        ⟨.inl rfl, hmatch⟩ ⟨.inr (.inl rfl), hmatch⟩ _) FieldKept.trans
      have hkept₄ := hkept₃.comp (@hideLastFieldAt_kept (HiddenIn d fs) _ _
        ⟨.inr (.inr (.inl rfl)), hmatch⟩ ⟨.inr (.inr (.inr rfl)), hmatch⟩ _) FieldKept.trans
      split
      · exact ⟨_, rfl, hkept₄⟩
      · exact ⟨_, rfl, hkept₄⟩
  · exact ⟨_, rfl, hkept₁⟩

/-- One field of the loop. -/
theorem formatField_kept (hplain : PlainTokens fs) (hs : s.fields = some cur)
    (hkept : List.Forall₂ (FieldKept (HiddenIn d fs)) fs cur) (hf : cur[i]? = some f)
    (hvalue : f.value = some block) :
    ∃ cur', (formatField d s i f block).fields = some cur' ∧
      List.Forall₂ (FieldKept (HiddenIn d fs)) fs cur' := by
  have hsome : f.value.isSome = true := by simp [hvalue]
  have hset : f.config.formatCallback ≠ none → ∀ text,
      List.Forall₂ (FieldKept (HiddenIn d fs)) fs (setFieldText cur i text) :=
    fun hcb text => hkept.comp (setFieldText_kept hf hsome hcb text) FieldKept.trans
  unfold formatField
  split
  · rw [hs, Option.getD_some]
    cases hcb : f.config.formatCallback with
    | none => exact ⟨cur, hs, hkept⟩
    | some cb =>
      have hne : f.config.formatCallback ≠ none := by simp [hcb]
      cases cb with
      | tokenAmount => exact formatTokenAmount_kept hplain hkept hf hsome hne _
      | nativeAmount => exact ⟨_, rfl, hset hne _⟩
      | timestamp => exact ⟨_, rfl, hset hne _⟩
  · exact ⟨cur, hs, hkept⟩

/-- The loop, from field `i` on: what it leaves, and that no mandatory field it passed
was empty. -/
theorem formatLoop_kept (hplain : PlainTokens fs) (hs : s.fields = some cur)
    (hkept : List.Forall₂ (FieldKept (HiddenIn d fs)) fs cur)
    (h : formatLoop d n i s = .formatted s') :
    (∃ cur', s'.fields = some cur' ∧ List.Forall₂ (FieldKept (HiddenIn d fs)) fs cur') ∧
      ∀ j f, i ≤ j → j < i + n → fs[j]? = some f → f.config.mandatory = true →
        f.value.isSome = true := by
  induction n generalizing i s cur with
  | zero =>
    cases h
    exact ⟨⟨cur, hs, hkept⟩, fun j f hij hjn => absurd hij (by omega)⟩
  | succ n ih =>
    rw [formatLoop_succ, hs, Option.getD_some] at h
    split at h
    · -- Past the last field.
      rename_i hnone
      cases h
      refine ⟨⟨cur, hs, hkept⟩, fun j f hij _ hf => ?_⟩
      obtain ⟨f', hf', -⟩ := hkept.getElem?_left hf
      have hlen := (List.getElem?_eq_some_iff.mp hf').1
      have hge := List.getElem?_eq_none_iff.mp hnone
      omega
    · rename_i f hf
      obtain ⟨f₀, hf₀, hk⟩ := hkept.getElem? hf
      -- The field itself, and then the rest of the loop.
      have hsplit : (f₀.config.mandatory = true → f₀.value.isSome = true) →
          (∀ j f, i + 1 ≤ j → j < i + 1 + n → fs[j]? = some f → f.config.mandatory = true →
            f.value.isSome = true) →
          ∀ j f, i ≤ j → j < i + (n + 1) → fs[j]? = some f → f.config.mandatory = true →
            f.value.isSome = true := by
        intro hthis hrest j f' hij hjn hf' hmand
        by_cases hji : j = i
        · subst hji
          obtain rfl : f₀ = f' := Option.some.inj (hf₀.symm.trans hf')
          exact hthis hmand
        · exact hrest j f' (by omega) (by omega) hf' hmand
      split at h
      · cases h
      · split at h
        · rename_i hvalue
          split at h
          · cases h
          · rename_i hmand
            obtain ⟨hres, hrest⟩ := ih hs hkept h
            refine ⟨hres, hsplit (fun hm => ?_) hrest⟩
            rw [hk.config] at hmand
            exact absurd hm hmand
        · rename_i block hvalue
          split at h
          · cases h
          · obtain ⟨cur₁, hs₁, hkept₁⟩ := formatField_kept hplain hs hkept hf hvalue
            obtain ⟨hres, hrest⟩ := ih hs₁ hkept₁ h
            refine ⟨hres, hsplit (fun _ => ?_) hrest⟩
            rw [← hk.value, hvalue]
            rfl

/-! ## Rows -/

/-- The rows of a filled screen `c`: one for each mandatory labelled field, and the row of
the token may be left out if its ticker is known. -/
structure CompleteRows (d : Device) (c : DisplayConfig) (fs : List TxField) (rows : List Pair) :
    Prop where
  nonempty : rows ≠ []
  labels : (rows.map (·.1)).Nodup
  mandatory : ∀ f ∈ c.fields, f.mandatory = true → ∀ item, f.itemName = some item →
    (∃ text, (item, text) ∈ rows) ∨ (f.path = instrumentIdPath ∧ TickerMatch d fs)

theorem populateRows_mem {fs' : List TxField} (hf : f ∈ fs') (hdisplay : f.display = true)
    (hvalue : f.value.isSome = true) {item : Bytes} (hitem : f.config.itemName = some item) :
    ∃ text, (item, text) ∈ populateRows d fs' := by
  obtain ⟨block, hblock⟩ := Option.isSome_iff_exists.mp hvalue
  refine ⟨blockText d block, List.mem_filterMap.mpr ⟨f, hf, ?_⟩⟩
  rw [hdisplay, hblock, hitem]

/-- The labels of the rows come from the fields, in their order. -/
theorem populateRows_labels (fs' : List TxField) :
    ((populateRows d fs').map (·.1)).Sublist ((fs'.map (·.config)).filterMap (·.itemName)) := by
  induction fs' with
  | nil => exact .slnil
  | cons f fs' ih =>
    unfold populateRows at ih ⊢
    rw [List.filterMap_cons, List.map_cons, List.filterMap_cons]
    cases hitem : f.config.itemName with
    | none =>
      simpa [hitem] using ih
    | some item =>
      cases hd : f.display with
      | false => simpa [hitem] using ih.cons item
      | true =>
        cases hv : f.value with
        | none => simpa [hitem] using ih.cons item
        | some block => simpa [hitem] using ih.cons_cons item

/-- What the table of screens says about tokens and labels. -/
theorem displayConfigs_fields : ∀ c ∈ displayConfigs,
    (c.fields.filterMap (·.itemName)).Nodup ∧
    (∀ f ∈ c.fields, TokenPath f.path → f.formatCallback = none ∧
      (f.itemName.isSome = true → f.path = instrumentIdPath)) ∧
    ∃ f ∈ c.fields, f.mandatory = true ∧ f.itemName.isSome = true ∧ f.path ≠ instrumentIdPath := by
  decide +kernel

/-- A formatted screen has complete rows. -/
theorem populateRows_complete {c : DisplayConfig} (hc : c ∈ displayConfigs)
    (hconf : fs.map (·.config) = c.fields) (hshown : ∀ f ∈ fs, f.display = true)
    (hs : s.fields = some fs) (h : formatLoop d fs.length 0 s = .formatted s') :
    CompleteRows d c fs (populateRows d (s'.fields.getD [])) := by
  obtain ⟨hnodup, htoken, f₁, hf₁, hmand₁, hlabel₁, hpath₁⟩ := displayConfigs_fields c hc
  have hmem : ∀ {f}, f ∈ fs → f.config ∈ c.fields := fun hf => hconf ▸ List.mem_map_of_mem hf
  have hplain : PlainTokens fs := fun f hf hp => (htoken f.config (hmem hf) hp).1
  obtain ⟨⟨cur, hcur, hkept⟩, hfound⟩ := formatLoop_kept hplain hs
    (List.forall₂_same.mpr fun f _ => FieldKept.refl f) h
  -- a mandatory field has a value, and only the token's own fields may be hidden
  have hmandatory : ∀ f ∈ c.fields, f.mandatory = true → ∀ item, f.itemName = some item →
      (∃ text, (item, text) ∈ populateRows d (s'.fields.getD [])) ∨
        (f.path = instrumentIdPath ∧ TickerMatch d fs) := by
    intro f hf hmand item hitem
    rw [← hconf] at hf
    obtain ⟨tf, htf, rfl⟩ := List.mem_map.mp hf
    obtain ⟨j, hj⟩ := List.mem_iff_getElem?.mp htf
    have hvalue : tf.value.isSome = true :=
      hfound j tf (by omega) (by simpa using (List.getElem?_eq_some_iff.mp hj).1) hj hmand
    obtain ⟨tf', htf', hk⟩ := hkept.exists_of_mem_left htf
    rcases hk.display with hsame | ⟨-, hpath, hmatch⟩
    · left
      rw [hcur, Option.getD_some]
      refine populateRows_mem htf' ?_ (hk.value.trans hvalue) (hk.config ▸ hitem)
      rw [hsame]
      exact hshown tf htf
    · right
      exact ⟨(htoken tf.config (hmem htf) hpath).2 (by simp [hitem]), hmatch⟩
  refine ⟨?_, ?_, hmandatory⟩
  · obtain ⟨item, hitem⟩ := Option.isSome_iff_exists.mp hlabel₁
    intro hnil
    rcases hmandatory f₁ hf₁ hmand₁ item hitem with ⟨text, hrow⟩ | ⟨hp, -⟩
    · rw [hnil] at hrow
      cases hrow
    · exact hpath₁ hp
  · have hcur' : cur.map (·.config) = c.fields := by
      rw [← hconf]
      exact (hkept.map_eq fun _ _ hk => hk.config.symm).symm
    have hsub := populateRows_labels (d := d) cur
    rw [hcur'] at hsub
    rw [hcur, Option.getD_some]
    exact hsub.nodup hnodup

end DisplayParser

end CantonSigner
