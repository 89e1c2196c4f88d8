import CantonSigner.Display.Amount

/-!
# What the formatting loop computes

The loop formats the fields one after the other, and the amount of a token looks at the
fields that name the token and hides them. These are never formatted themselves, so the fields
after any number of steps are known from the fields before the loop (`formattedUpTo`).

- `formatField_upTo`: one step of the loop;
- `formatLoop_upTo`: the whole loop, by induction on the steps left;
- `populateRows_formatted`: the rows it ends with.
-/

namespace CantonSigner

open ByteCodec

namespace DisplayParser

/-! ## The fields after some steps -/

/-- What was found at one of two paths, the last field first. -/
def lookUp (p q : Bytes) (fs : List TxField) : Option Bytes := (lastFieldAt p q fs).bind (·.value)

/-- The ticker of the token that the fields name. -/
def screenTicker (d : Device) (fs : List TxField) : Option Bytes :=
  (lookUp instrumentIdPath proxyInstrumentIdPath fs).bind fun instrument =>
    (lookUp instrumentIdAdminPath instrumentIdProxyAdminPath fs).bind fun admin =>
      findTicker (blockText d admin) (blockText d instrument)

/-- The block that a format callback leaves. -/
def formattedBlock (d : Device) (ticker : Option Bytes) (block : Bytes) :
    Option FormatCallback → Bytes
  | none => block
  | some .tokenAmount =>
    formatAmountText (blockText d block) ++ ticker.elim [] (fun t => [32] ++ t) ++ [0]
  | some .nativeAmount => formatAmountText (blockText d block) ++ [32] ++ nativeCoinTicker ++ [0]
  | some .timestamp => formatTimestampText d block ++ [0]

/-- The amount of a token was found. -/
def isTokenAmount (f : TxField) : Bool :=
  f.config.formatCallback == some .tokenAmount && f.value.isSome

/-- The fields that name the token are hidden once its ticker stands beside an amount. -/
def hidesToken (d : Device) (fs : List TxField) (i : Nat) : Bool :=
  (screenTicker d fs).isSome && (fs.take i).any isTokenAmount

/-- Field `j` after the first `i` steps. -/
def formattedField (d : Device) (fs : List TxField) (i j : Nat) (f : TxField) : TxField :=
  { f with
    value :=
      if j < i then
        f.value.map fun block => formattedBlock d (screenTicker d fs) block f.config.formatCallback
      else f.value
    display := f.display && !(decide (TokenPath f.config.path) && hidesToken d fs i) }

/-- The fields after the first `i` steps. -/
def formattedUpTo (d : Device) (fs : List TxField) (i : Nat) : List TxField :=
  fs.mapIdx (formattedField d fs i)

/-- The fields of a screen before the loop: those that name the token have no format callback, and
each path is there once. -/
structure Unformatted (fs : List TxField) : Prop where
  plain : PlainTokens fs
  paths : (fs.map (·.config.path)).Nodup
  proxies : ∀ f ∈ fs, f.config.path ≠ proxyInstrumentIdPath ∧
    f.config.path ≠ instrumentIdProxyAdminPath
  shown : ∀ f ∈ fs, f.display = true

variable {d : Device} {fs cur : List TxField} {s s' : Ctx} {i n : Nat} {f : TxField} {block : Bytes}
  {p q : Bytes}

theorem formattedUpTo_getElem? (j : Nat) :
    (formattedUpTo d fs i)[j]? = (fs[j]?).map (formattedField d fs i j) := by
  rw [formattedUpTo, List.getElem?_mapIdx]

theorem formattedUpTo_zero (hfs : Unformatted fs) : formattedUpTo d fs 0 = fs := by
  refine List.ext_getElem? fun j => ?_
  rw [formattedUpTo_getElem?]
  cases hj : fs[j]? with
  | none => rfl
  | some f =>
    have hshown := hfs.shown f (List.mem_of_getElem? hj)
    obtain ⟨config, value, matched, display, storeFailed⟩ := f
    obtain rfl : display = true := hshown
    simp [formattedField, hidesToken]

/-- One more field: nothing but the field itself changes, unless the token gets hidden. -/
theorem hidesToken_succ (hf : fs[i]? = some f) : hidesToken d fs (i + 1) =
    ((screenTicker d fs).isSome && isTokenAmount f || hidesToken d fs i) := by
  unfold hidesToken
  rw [List.take_add_one, hf, Option.toList_some, List.any_append, List.any_cons, List.any_nil,
    Bool.or_false]
  cases (screenTicker d fs).isSome
  · rfl
  · simp [Bool.or_comm]

/-! ## Looking up the token -/

/-- What a lookup of the token depends on. -/
def SameToken (f g : TxField) : Prop :=
  g.config = f.config ∧ (TokenPath f.config.path → g.value = f.value)

theorem lookUp_same (h : List.Forall₂ SameToken fs cur) (hp : TokenPath p) (hq : TokenPath q) :
    lookUp p q cur = lookUp p q fs := by
  have hfold : ∀ acc acc' : Option TxField, acc'.bind (·.value) = acc.bind (·.value) →
      (cur.foldl (fun acc f => if f.config.path = p || f.config.path = q then some f else acc)
          acc').bind (·.value) =
        (fs.foldl (fun acc f => if f.config.path = p || f.config.path = q then some f else acc)
          acc).bind (·.value) := by
    induction h with
    | nil => exact fun _ _ hacc => hacc
    | @cons f g fs cur hfg _ ih =>
      intro acc acc' hacc
      rw [List.foldl_cons, List.foldl_cons]
      refine ih _ _ ?_
      rw [hfg.1]
      split
      · rename_i hpath
        have htoken : TokenPath f.config.path := by
          rcases Bool.or_eq_true_iff.mp hpath with heq | heq
          · rwa [of_decide_eq_true heq]
          · rwa [of_decide_eq_true heq]
        exact hfg.2 htoken
      · exact hacc
  exact hfold none none rfl

theorem screenTicker_same (h : List.Forall₂ SameToken fs cur) :
    screenTicker d cur = screenTicker d fs := by
  unfold screenTicker
  rw [lookUp_same h (.inl rfl) (.inr (.inl rfl)),
    lookUp_same h (.inr (.inr (.inl rfl))) (.inr (.inr (.inr rfl)))]

/-- The loop does not format the fields that name the token. -/
theorem formattedUpTo_same (hfs : Unformatted fs) :
    List.Forall₂ SameToken fs (formattedUpTo d fs i) := by
  have hlen : (formattedUpTo d fs i).length = fs.length := by
    rw [formattedUpTo, List.length_mapIdx]
  refine List.forall₂_iff_get.mpr ⟨hlen.symm, fun j hj hj' => ?_⟩
  have hget : (formattedUpTo d fs i).get ⟨j, hj'⟩ = formattedField d fs i j (fs.get ⟨j, hj⟩) := by
    simp [formattedUpTo]
  rw [hget]
  refine ⟨rfl, fun htoken => ?_⟩
  rw [formattedField, hfs.plain _ (List.get_mem ..) htoken]
  simp [formattedBlock]

/-- Hiding the last field at a path hides the only one. -/
theorem hideLastFieldAt_eq_map (h : (fs.map (·.config.path)).Nodup)
    (hq : ∀ f ∈ fs, f.config.path ≠ q) :
    hideLastFieldAt p q fs =
      fs.map fun f => if f.config.path = p then { f with display := false } else f := by
  have hfold : fs.foldr (fun f (acc : List TxField × Bool) =>
      if !acc.2 && (f.config.path = p || f.config.path = q) then
        ({ f with display := false } :: acc.1, true)
      else (f :: acc.1, acc.2)) ([], false) =
      (fs.map fun f => if f.config.path = p then { f with display := false } else f,
        fs.any fun f => f.config.path = p) := by
    induction fs with
    | nil => rfl
    | cons f fs ih =>
      rw [List.map_cons, List.nodup_cons] at h
      rw [List.foldr_cons, ih h.2 fun f hf => hq f (List.mem_cons_of_mem _ hf)]
      have hqf : f.config.path ≠ q := hq f List.mem_cons_self
      by_cases hpath : f.config.path = p
      · have hnone : (fs.any fun f => decide (f.config.path = p)) = false := by
          rw [List.any_eq_false]
          intro g hg hgp
          exact h.1 (hpath ▸ of_decide_eq_true hgp ▸ List.mem_map_of_mem hg)
        simp [hnone, hpath]
      · simp [hpath, hqf]
  unfold hideLastFieldAt
  rw [hfold]

/-! ## One step -/

theorem formatTokenAmount_fields (amount : Bytes) :
    let set := setFieldText cur i amount
    (formatTokenAmount d s cur i amount).fields =
      some ((screenTicker d set).elim set fun ticker =>
        hideLastFieldAt instrumentIdAdminPath instrumentIdProxyAdminPath
          (hideLastFieldAt instrumentIdPath proxyInstrumentIdPath
            (setFieldText set i (amount ++ [32] ++ ticker)))) := by
  intro set
  unfold formatTokenAmount screenTicker lookUp
  dsimp only
  split
  · rename_i instrument admin hinstrument hadmin
    rw [hinstrument, hadmin, Option.bind_some, Option.bind_some]
    cases findTicker (blockText d admin) (blockText d instrument) with
    | none => rfl
    | some ticker =>
      dsimp only
      split <;> rfl
  · rename_i hnone
    cases hinstrument : (lastFieldAt instrumentIdPath proxyInstrumentIdPath
        (setFieldText cur i amount)).bind (·.value) with
    | none => rfl
    | some instrument =>
      cases hadmin : (lastFieldAt instrumentIdAdminPath instrumentIdProxyAdminPath
          (setFieldText cur i amount)).bind (·.value) with
      | none => rfl
      | some admin => exact absurd hadmin (hnone instrument admin hinstrument)

/-- A token that is looked up without success makes the screen unreadable. -/
theorem formatTokenAmount_unknown {amount : Bytes}
    (hinstrument : (lookUp instrumentIdPath proxyInstrumentIdPath
      (setFieldText cur i amount)).isSome = true)
    (hadmin : (lookUp instrumentIdAdminPath instrumentIdProxyAdminPath
      (setFieldText cur i amount)).isSome = true)
    (hknown : (formatTokenAmount d s cur i amount).unknownToken = false) :
    (screenTicker d (setFieldText cur i amount)).isSome = true := by
  obtain ⟨instrument, hinstrument⟩ := Option.isSome_iff_exists.mp hinstrument
  obtain ⟨admin, hadmin⟩ := Option.isSome_iff_exists.mp hadmin
  unfold screenTicker
  rw [hinstrument, hadmin, Option.bind_some, Option.bind_some]
  unfold formatTokenAmount at hknown
  dsimp only at hknown
  unfold lookUp at hinstrument hadmin
  rw [hinstrument, hadmin] at hknown
  dsimp only at hknown
  cases hticker : findTicker (blockText d admin) (blockText d instrument) with
  | none =>
    rw [hticker] at hknown
    cases hknown
  | some ticker => rfl

/-- Setting the text of a field that has a format callback. -/
theorem setFieldText_same (hplain : PlainTokens cur) (hf : cur[i]? = some f)
    (hcb : f.config.formatCallback ≠ none) (text : Bytes) :
    List.Forall₂ SameToken cur (setFieldText cur i text) := by
  refine List.forall₂_modify (fun _ => ⟨rfl, fun _ => rfl⟩) cur i fun g hg => ?_
  obtain rfl : f = g := Option.some.inj (hf.symm.trans hg)
  exact ⟨rfl, fun htoken => absurd (hplain f (List.mem_of_getElem? hf) htoken) hcb⟩

theorem unformatted_plain (hfs : Unformatted fs) : PlainTokens (formattedUpTo d fs i) := by
  intro g hg htoken
  obtain ⟨f, hf, hfg⟩ := (formattedUpTo_same (d := d) (i := i) hfs).exists_of_mem_right hg
  rw [hfg.1] at htoken ⊢
  exact hfs.plain f hf htoken

theorem formattedUpTo_paths (hfs : Unformatted fs) :
    (formattedUpTo d fs i).map (·.config.path) = fs.map (·.config.path) :=
  ((formattedUpTo_same hfs).map_eq fun f g hfg => by rw [hfg.1]).symm

theorem setFieldText_getElem? (text : Bytes) (j : Nat) : (setFieldText cur i text)[j]? =
    if i = j then (cur[j]?).map fun f => { f with value := some (text ++ [0]) } else cur[j]? := by
  rw [setFieldText, List.getElem?_modify]
  cases cur[j]? <;> split <;> rfl

theorem setFieldText_paths (text : Bytes) :
    (setFieldText cur i text).map (·.config.path) = cur.map (·.config.path) := by
  refine List.ext_getElem? fun j => ?_
  rw [List.getElem?_map, List.getElem?_map, setFieldText_getElem?]
  cases cur[j]? <;> split <;> rfl

/-- The fields that differ after one more step: the field itself, unless the token gets hidden. -/
theorem formattedUpTo_setFieldText (hf : fs[i]? = some f) (hblock : f.value = some block)
    (hhides : hidesToken d fs (i + 1) = hidesToken d fs i) {text : Bytes}
    (htext : formattedBlock d (screenTicker d fs) block f.config.formatCallback = text ++ [0]) :
    setFieldText (formattedUpTo d fs i) i text = formattedUpTo d fs (i + 1) := by
  refine List.ext_getElem? fun j => ?_
  rw [setFieldText_getElem?, formattedUpTo_getElem?, formattedUpTo_getElem?]
  by_cases hij : i = j
  · subst hij
    rw [if_pos rfl, hf]
    simp [formattedField, hhides, hblock, htext]
  · rw [if_neg hij]
    cases fs[j]? with
    | none => rfl
    | some g =>
      have hlt : j < i + 1 ↔ j < i := by omega
      simp only [Option.map_some, formattedField, hhides, hlt]

/-- The token is hidden, and its ticker stands beside the amount. -/
theorem formattedUpTo_hidden (hfs : Unformatted fs) (hf : fs[i]? = some f)
    (hblock : f.value = some block) (hcb : f.config.formatCallback = some .tokenAmount)
    {ticker text : Bytes} (hticker : screenTicker d fs = some ticker)
    (htext : formattedBlock d (screenTicker d fs) block f.config.formatCallback = text ++ [0])
    (amount : Bytes) :
    hideLastFieldAt instrumentIdAdminPath instrumentIdProxyAdminPath
        (hideLastFieldAt instrumentIdPath proxyInstrumentIdPath
          (setFieldText (setFieldText (formattedUpTo d fs i) i amount) i text)) =
      formattedUpTo d fs (i + 1) := by
  have hpaths : (setFieldText (setFieldText (formattedUpTo d fs i) i amount) i text).map
      (·.config.path) = fs.map (·.config.path) := by
    rw [setFieldText_paths, setFieldText_paths, formattedUpTo_paths hfs]
  have hproxies : ∀ {l : List TxField}, l.map (·.config.path) = fs.map (·.config.path) →
      ∀ g ∈ l, g.config.path ≠ proxyInstrumentIdPath ∧
        g.config.path ≠ instrumentIdProxyAdminPath := by
    intro l hl g hg
    obtain ⟨f', hf', heq⟩ := List.mem_map.mp (hl ▸ List.mem_map_of_mem hg)
    rw [← heq]
    exact hfs.proxies f' hf'
  rw [hideLastFieldAt_eq_map (by rw [hpaths]; exact hfs.paths) fun g hg => (hproxies hpaths g hg).1]
  have hpaths' : ((setFieldText (setFieldText (formattedUpTo d fs i) i amount) i text).map fun f =>
      if f.config.path = instrumentIdPath then { f with display := false } else f).map
        (·.config.path) = fs.map (·.config.path) := by
    rw [← hpaths, List.map_map]
    refine List.map_congr_left fun g _ => ?_
    dsimp only [Function.comp_apply]
    split <;> rfl
  rw [hideLastFieldAt_eq_map (by rw [hpaths']; exact hfs.paths)
    fun g hg => (hproxies hpaths' g hg).2, List.map_map]
  have hhides : hidesToken d fs (i + 1) = true := by
    rw [hidesToken_succ hf, hticker]
    simp [isTokenAmount, hcb, hblock]
  -- Field by field: the amount has its text, the token is hidden, and the others stay.
  refine List.ext_getElem? fun j => ?_
  rw [List.getElem?_map, setFieldText_getElem?, setFieldText_getElem?, formattedUpTo_getElem?,
    formattedUpTo_getElem?]
  cases hj : fs[j]? with
  | none => simp
  | some g =>
    have hproxy := hfs.proxies g (List.mem_of_getElem? hj)
    have htoken : TokenPath g.config.path ↔
        g.config.path = instrumentIdPath ∨ g.config.path = instrumentIdAdminPath := by
      simp [TokenPath, hproxy.1, hproxy.2]
    by_cases hij : i = j
    · subst hij
      obtain rfl : f = g := Option.some.inj (hf.symm.trans hj)
      have hnot : ¬ TokenPath f.config.path := fun hpath => by
        rw [hfs.plain f (List.mem_of_getElem? hf) hpath] at hcb
        cases hcb
      have hpath : f.config.path ≠ instrumentIdPath ∧ f.config.path ≠ instrumentIdAdminPath :=
        not_or.mp fun hpath => hnot (htoken.mpr hpath)
      simp [formattedField, hnot, hpath, hblock, htext]
    · have hlt : j < i + 1 ↔ j < i := by omega
      by_cases hpath : TokenPath g.config.path
      · rcases htoken.mp hpath with heq | heq
        · have htoken' : TokenPath instrumentIdPath := heq ▸ hpath
          simp [formattedField, hhides, hij, hlt, htoken', heq]
        · have htoken' : TokenPath instrumentIdAdminPath := heq ▸ hpath
          have hother : instrumentIdAdminPath ≠ instrumentIdPath := by decide
          simp [formattedField, hhides, hij, hlt, htoken', heq, hother]
      · have hpath' : g.config.path ≠ instrumentIdPath ∧ g.config.path ≠ instrumentIdAdminPath :=
          not_or.mp fun h => hpath (htoken.mpr h)
        simp [formattedField, hij, hlt, hpath, hpath']

/-- The amount of a token that was found is formatted as such. -/
theorem formatField_amount (hfs : Unformatted fs) (hs : s.fields = some (formattedUpTo d fs i))
    (hf : fs[i]? = some f) (hcb : f.config.formatCallback = some .tokenAmount) :
    let amount := formatAmountText (blockText d block)
    formatField d s i (formattedField d fs i i f) block =
        formatTokenAmount d s (formattedUpTo d fs i) i amount ∧
      List.Forall₂ SameToken fs (setFieldText (formattedUpTo d fs i) i amount) := by
  have hmem := List.mem_of_getElem? hf
  have hnot : ¬ TokenPath f.config.path := fun hpath => by
    rw [hfs.plain f hmem hpath] at hcb
    cases hcb
  have hshown : (formattedField d fs i i f).display = true := by
    simp [formattedField, hnot, hfs.shown f hmem]
  have hcur : (formattedUpTo d fs i)[i]? = some (formattedField d fs i i f) := by
    rw [formattedUpTo_getElem?, hf, Option.map_some]
  have hcb' : (formattedField d fs i i f).config.formatCallback = some .tokenAmount := hcb
  constructor
  · unfold formatField
    rw [if_pos hshown, hs, Option.getD_some, hcb']
    rfl
  · have hset := setFieldText_same (unformatted_plain (d := d) hfs) hcur
      (by rw [hcb']; exact nofun) (formatAmountText (blockText d block))
    exact (formattedUpTo_same hfs).comp hset fun f g g' h h' =>
      ⟨h'.1.trans h.1, fun htoken => (h'.2 (h.1 ▸ htoken)).trans (h.2 htoken)⟩

/-- One step of the loop, on a field that was found. -/
theorem formatField_upTo (hfs : Unformatted fs) (hs : s.fields = some (formattedUpTo d fs i))
    (hf : fs[i]? = some f) (hblock : f.value = some block) :
    (formatField d s i (formattedField d fs i i f) block).fields =
      some (formattedUpTo d fs (i + 1)) := by
  have hmem := List.mem_of_getElem? hf
  have hplain : f.config.formatCallback ≠ some .tokenAmount →
      hidesToken d fs (i + 1) = hidesToken d fs i := by
    intro hcb
    rw [hidesToken_succ hf]
    simp [isTokenAmount, hcb]
  cases hcb : f.config.formatCallback with
  | none =>
    -- Nothing is formatted.
    have hsame : formatField d s i (formattedField d fs i i f) block = s := by
      unfold formatField
      rw [show (formattedField d fs i i f).config.formatCallback = none from hcb]
      split <;> rfl
    rw [hsame, hs]
    refine congrArg some (List.ext_getElem? fun j => ?_)
    rw [formattedUpTo_getElem?, formattedUpTo_getElem?]
    by_cases hij : i = j
    · subst hij
      rw [hf]
      simp [formattedField, hplain, hcb, hblock, formattedBlock]
    · cases fs[j]? with
      | none => rfl
      | some g =>
        have hlt : j < i + 1 ↔ j < i := by omega
        simp [formattedField, hplain, hcb, hlt]
  | some cb =>
    have hnot : ¬ TokenPath f.config.path := fun hpath => by
      rw [hfs.plain f hmem hpath] at hcb
      cases hcb
    have hshown : (formattedField d fs i i f).display = true := by
      simp [formattedField, hnot, hfs.shown f hmem]
    unfold formatField
    rw [if_pos hshown, hs, Option.getD_some,
      show (formattedField d fs i i f).config.formatCallback = some cb from hcb]
    cases cb with
    | nativeAmount =>
      refine congrArg some (formattedUpTo_setFieldText hf hblock (hplain (by simp [hcb])) ?_)
      rw [hcb]
      rfl
    | timestamp =>
      refine congrArg some (formattedUpTo_setFieldText hf hblock (hplain (by simp [hcb])) ?_)
      rw [hcb]
      rfl
    | tokenAmount =>
      obtain ⟨hfield, hsame⟩ : _ ∧ _ := formatField_amount hfs hs hf hcb
      unfold formatField at hfield
      rw [if_pos hshown, hs, Option.getD_some,
        show (formattedField d fs i i f).config.formatCallback = _ from hcb] at hfield
      rw [hfield, formatTokenAmount_fields, screenTicker_same hsame]
      cases hticker : screenTicker d fs with
      | none =>
        refine congrArg some (formattedUpTo_setFieldText hf hblock ?_ ?_)
        · rw [hidesToken_succ hf, hticker]
          rfl
        · rw [hcb, hticker]
          simp [formattedBlock]
      | some ticker =>
        refine congrArg some (formattedUpTo_hidden hfs hf hblock hcb hticker ?_ _)
        rw [hcb, hticker]
        simp [formattedBlock]

/-! ## The loop -/

/-- Instrument and administrator were found. -/
def TokenFound (fs : List TxField) : Prop :=
  (lookUp instrumentIdPath proxyInstrumentIdPath fs).isSome = true ∧
    (lookUp instrumentIdAdminPath instrumentIdProxyAdminPath fs).isSome = true

/-- The whole loop. If the token was found, its amount is formatted only with its ticker. -/
theorem formatLoop_upTo (hfs : Unformatted fs) (hs : s.fields = some (formattedUpTo d fs i))
    (hn : i + n = fs.length) (h : formatLoop d n i s = .formatted s') :
    s'.fields = some (formattedUpTo d fs fs.length) ∧
      (TokenFound fs → ∀ j f, i ≤ j → fs[j]? = some f → isTokenAmount f = true →
        (screenTicker d fs).isSome = true) := by
  induction n generalizing i s with
  | zero =>
    cases h
    obtain rfl : i = fs.length := by omega
    refine ⟨hs, fun _ j f hj hf => ?_⟩
    have := (List.getElem?_eq_some_iff.mp hf).1
    omega
  | succ n ih =>
    obtain ⟨f, hf⟩ : ∃ f, fs[i]? = some f := ⟨fs[i], List.getElem?_eq_getElem (by omega)⟩
    rw [formatLoop_succ, hs, Option.getD_some, formattedUpTo_getElem?, hf, Option.map_some] at h
    dsimp only at h
    have hvalue : (formattedField d fs i i f).value = f.value := by
      simp [formattedField]
    rw [hvalue] at h
    split at h
    · cases h
    · cases hblock : f.value with
      | none =>
        -- A field that was not found is left out.
        have hnone : isTokenAmount f = false := by simp [isTokenAmount, hblock]
        have hnext : s.fields = some (formattedUpTo d fs (i + 1)) := by
          rw [hs]
          refine congrArg some (List.ext_getElem? fun j => ?_)
          rw [formattedUpTo_getElem?, formattedUpTo_getElem?]
          by_cases hij : i = j
          · subst hij
            rw [hf]
            simp [formattedField, hidesToken_succ hf, hnone, hblock]
          · cases fs[j]? with
            | none => rfl
            | some g =>
              have hlt : j < i + 1 ↔ j < i := by omega
              simp [formattedField, hidesToken_succ hf, hnone, hlt]
        rw [hblock] at h
        dsimp only at h
        split at h
        · cases h
        · obtain ⟨hend, hknown⟩ := ih hnext (by omega) h
          refine ⟨hend, fun hfound j g hj hg hamount => ?_⟩
          by_cases hij : i = j
          · subst hij
            obtain rfl : f = g := Option.some.inj (hf.symm.trans hg)
            rw [hnone] at hamount
            cases hamount
          · exact hknown hfound j g (by omega) hg hamount
      | some block =>
        rw [hblock] at h
        dsimp only at h
        split at h
        · cases h
        · rename_i hok
          obtain ⟨hend, hknown⟩ := ih (formatField_upTo hfs hs hf hblock) (by omega) h
          refine ⟨hend, fun hfound j g hj hg hamount => ?_⟩
          by_cases hij : i = j
          · -- This is the amount.
            subst hij
            obtain rfl : f = g := Option.some.inj (hf.symm.trans hg)
            obtain ⟨hcb, -⟩ := (Bool.and_eq_true_iff.mp hamount)
            obtain ⟨hfield, hsame⟩ : _ ∧ _ :=
              formatField_amount hfs hs hf (eq_of_beq hcb)
            rw [hfield] at hok
            rw [← screenTicker_same hsame]
            refine formatTokenAmount_unknown ?_ ?_ (by simpa using hok)
            · rw [lookUp_same hsame (.inl rfl) (.inr (.inl rfl))]
              exact hfound.1
            · rw [lookUp_same hsame (.inr (.inr (.inl rfl))) (.inr (.inr (.inr rfl)))]
              exact hfound.2
          · exact hknown hfound j g (by omega) hg hamount

/-! ## The rows -/

/-- The row that a field ends with. -/
def formattedRow (d : Device) (fs : List TxField) (f : TxField) : Option Pair :=
  if TokenPath f.config.path ∧ hidesToken d fs fs.length = true then none
  else
    f.value.bind fun block => f.config.itemName.map fun item =>
      (item, blockText d (formattedBlock d (screenTicker d fs) block f.config.formatCallback))

theorem populateRows_formatted (hfs : Unformatted fs) :
    populateRows d (formattedUpTo d fs fs.length) = fs.filterMap (formattedRow d fs) := by
  have hall : formattedUpTo d fs fs.length = fs.map fun f => { f with
      value := f.value.map fun block =>
        formattedBlock d (screenTicker d fs) block f.config.formatCallback
      display := f.display &&
        !(decide (TokenPath f.config.path) && hidesToken d fs fs.length) } := by
    refine List.ext_getElem? fun j => ?_
    rw [formattedUpTo_getElem?, List.getElem?_map]
    cases hj : fs[j]? with
    | none => rfl
    | some f =>
      have hlt := (List.getElem?_eq_some_iff.mp hj).1
      simp only [Option.map_some, formattedField, if_pos hlt]
  rw [hall]
  unfold populateRows
  rw [List.filterMap_map]
  refine List.filterMap_congr fun f hf => ?_
  unfold formattedRow
  dsimp only [Function.comp_apply]
  rw [hfs.shown f hf]
  by_cases htoken : TokenPath f.config.path
  · cases hidesToken d fs fs.length with
    | true => simp [htoken]
    | false => cases f.value <;> cases f.config.itemName <;> simp
  · cases f.value <;> cases f.config.itemName <;> simp [htoken]

end DisplayParser

end CantonSigner
