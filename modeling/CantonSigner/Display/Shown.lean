import CantonSigner.Display.Expiration
import CantonSigner.Display.Formatted
import CantonSigner.Display.Located
import CantonSigner.Display.Paths
import CantonSigner.Display.Typed

/-!
# The display shows the value at the configured path

What a clear screen shows is said here from the argument alone: `valueAt` is the value at the
labels and keys of a configured path, and `shownRow` the row it gives. The walk finds these
values (`Walked.found`), a field that did not fail holds the only one at its path
(`settled_value`), and the formatting loop turns each into its row (`shown_at_path`).
-/

namespace CantonSigner

open ByteCodec

namespace DisplayParser

/-! ## The screen of an argument -/

/-- The labels and keys of a configured path. A dot after a backslash belongs to its segment. -/
def segments : Bytes → List Bytes
  | [] => [[]]
  | [c] => if c = 46 then [[], []] else [[c]]
  | c :: c' :: cs =>
    if c = 92 ∧ c' = 46 then (segments cs).modifyHead (List.cons 46)
    else if c = 46 then [] :: segments (c' :: cs)
    else (segments (c' :: cs)).modifyHead (List.cons c)

/-- The values of an argument at these labels and keys, Optionals passed over. -/
def valuesAt (vs : List Value) (labels : List Bytes) : List Which :=
  ((vs.flatMap (locatedValue [])).filter fun e => e.1 = labels && e.2 ≠ .optional).map (·.2)

/-- The value at a configured path. -/
def valueAt (vs : List Value) (path : Bytes) : Option Prim :=
  match valuesAt vs (segments path) with
  | [.prim p] => some p
  | _ => none

/-- The text of a value; an empty one is not shown. -/
def contentOf : Prim → Option Bytes
  | .party s | .numeric s | .text s => if s.isEmpty then none else some (cstr s)
  | _ => none

/-- The ticker of the token that an argument names. -/
def knownTicker (vs : List Value) : Option Bytes :=
  ((valueAt vs instrumentIdPath).bind contentOf).bind fun instrument =>
    ((valueAt vs instrumentIdAdminPath).bind contentOf).bind fun admin =>
      findTicker admin instrument

/-- A value as its formatter writes it. -/
def formatValue (d : Device) (ticker : Option Bytes) : Option FormatCallback → Prim → Option Bytes
  | none, p => contentOf p
  | some .tokenAmount, p => (contentOf p).map fun text =>
    formatAmountText text ++ ticker.elim [] fun t => [32] ++ t
  | some .nativeAmount, p => (contentOf p).map fun text =>
    formatAmountText text ++ [32] ++ nativeCoinTicker
  | some .timestamp, .timestamp t => some (formatTimestampText d (beBytes 8 (t % 2 ^ 64).toNat))
  | some .timestamp, _ => none

/-- The row of a field: none for the token, whose ticker stands beside the amount. -/
def shownRow (d : Device) (vs : List Value) (f : FieldConfig) : Option Pair :=
  if f = preapprovalAssetField then some (str "For asset", preapprovalAssetFieldValue)
  else if TokenPath f.path then none
  else
    (valueAt vs f.path).bind fun p => (formatValue d (knownTicker vs) f.formatCallback p).bind
      fun text => f.itemName.map fun item => (item, text)

/-- The text that is bound in a role. -/
def boundText (c : DisplayConfig) (vs : List Value) (role : ShownAs) : Option Bytes :=
  (c.fields.find? fun f => f.shownAs = role).bind fun f => (valueAt vs f.path).bind contentOf

/-- What an argument has at the path of a field that is read from it. -/
structure ShownAt (vs : List Value) (f : FieldConfig) : Prop where
  only : valuesAt vs (segments f.path) = (valueAt vs f.path).toList.map Which.prim
  mandatory : f.mandatory = true → ∃ p ∈ valueAt vs f.path, (blockOf p).isSome = true
  kept : ∀ p ∈ valueAt vs f.path, Storable p

/-! ## What the table says -/

theorem displayConfigs_segments : ∀ c ∈ displayConfigs, ∀ f ∈ c.fields,
    fieldPath (segments f.path) = f.path ∧ segments f.path ≠ [] ∧
      ∀ l ∈ segments f.path, l ≠ [] ∧ 92 ∉ l := by
  decide +kernel

theorem displayConfigs_asset : ∀ c ∈ displayConfigs, ∀ f ∈ screenFields c,
    (f.matched = true ↔ f.config = preapprovalAssetField) := by
  decide +kernel

theorem displayConfigs_proxies : ∀ c ∈ displayConfigs, ∀ f ∈ c.fields,
    f.path ≠ proxyInstrumentIdPath ∧ f.path ≠ instrumentIdProxyAdminPath := by
  decide +kernel

/-- Roles are given once, and not to times. -/
theorem displayConfigs_roles : ∀ c ∈ displayConfigs,
    c.fields.Pairwise (fun f g => f.shownAs = g.shownAs → f.shownAs = .other) ∧
      ∀ f ∈ c.fields, f.shownAs ≠ .other → f.formatCallback ≠ some .timestamp ∧
        f ≠ preapprovalAssetField := by
  decide +kernel

/-- A screen with an amount of a token names the token, and no other does. -/
theorem displayConfigs_token : ∀ c ∈ displayConfigs,
    (∀ f ∈ c.fields, ¬ TokenPath f.path ∧ f.formatCallback ≠ some .tokenAmount) ∨
      (∃ f ∈ c.fields, f.path = instrumentIdPath ∧ f.mandatory = true) ∧
      (∃ f ∈ c.fields, f.path = instrumentIdAdminPath ∧ f.mandatory = true) ∧
      ∃ f ∈ c.fields, f.formatCallback = some .tokenAmount ∧ f.mandatory = true := by
  decide +kernel

/-! ## What the walk finds -/

/-- Without backslashes, labels and keys are known from their path. -/
theorem fieldPath_inj {ls ms : List Bytes} (hls : ∀ l ∈ ls, l ≠ [] ∧ 92 ∉ l)
    (hms : ∀ m ∈ ms, m ≠ [] ∧ 92 ∉ m) (h : fieldPath ls = fieldPath ms) : ls = ms := by
  have hescaped {segs : List Bytes} (hsegs : ∀ seg ∈ segs, seg ≠ [] ∧ 92 ∉ seg) :
      ∀ l ∈ segs.map escapeSegment, l ≠ [] := by
    intro l hl
    obtain ⟨seg, hseg, rfl⟩ := List.mem_map.mp hl
    obtain ⟨c, cs, rfl⟩ := List.exists_cons_of_ne_nil (hsegs seg hseg).1
    unfold escapeSegment
    split <;> exact List.cons_ne_nil _ _
  unfold fieldPath at h
  rw [joinPath_eq_iff (hescaped hls) (hescaped hms)] at h
  simp only [List.flatMap_map, splitOn_escapeSegment] at h
  exact flatMap_breakDots_inj (fun l hl => (hls l hl).2) (fun m hm => (hms m hm).2) h

/-- Labels and keys above the values of an argument contain no backslash. -/
def NoBackslash (vs : List Value) : Prop :=
  ∀ e ∈ vs.flatMap (locatedValue []), ∀ l ∈ e.1, 92 ∉ l

instance (vs : List Value) : Decidable (NoBackslash vs) :=
  inferInstanceAs (Decidable (∀ e ∈ vs.flatMap (locatedValue []), ∀ l ∈ e.1, 92 ∉ l))

variable {d : Device} {c : DisplayConfig} {vs : List Value} {s s' : Ctx} {f : FieldConfig}
  {fs : List TxField} {tf tf₀ : TxField}

/-- At the path of a field the walk finds what stands at its labels and keys. -/
theorem Walked.found (h : Walked d vs s) (hc : c ∈ displayConfigs) (hconf : s.conf = some c)
    (hfields : s.fields.isSome = true) (hread : s.unreadable = false)
    (hids : IdsFirst (vs.flatMap outerValue)) (hlabels : NoBackslash vs) :
    ∃ found, s.fields = some (fillFound found (screenFields c)) ∧ ∀ f ∈ c.fields,
      ((foundAt found f.path).filter fun w => w ≠ .optional) = valuesAt vs (segments f.path) := by
  obtain ⟨es, hes, hbelow⟩ := h.reads hids hfields hconf
  refine ⟨es.map fun e => (fieldPath e.1, e.2), ?_, fun f hf => ?_⟩
  · rw [hes.fields hread, fill, fillFound, List.foldl_map]
  obtain ⟨hpath, hroot, hsegs⟩ := displayConfigs_segments c hc f hf
  -- The root has no configured path, and elsewhere the labels are known from the path.
  have hat : ∀ e ∈ es, fieldPath e.1 = f.path ↔ e.1 = segments f.path := by
    intro e he
    constructor
    · intro heq
      by_cases hempty : e.1 = []
      · have hnil : segments f.path = [] :=
          (fieldPath_inj (List.forall_mem_nil _) hsegs (by rw [hpath, ← heq, hempty])).symm
        exact absurd hnil hroot
      · have hmem : e ∈ belowRoot (vs.flatMap (locatedValue [])) := by
          rw [← hbelow]
          exact List.mem_filter.mpr ⟨he, by simpa using hempty⟩
        have hnone := hlabels e (List.mem_filter.mp hmem).1
        exact fieldPath_inj (fun l hl => ⟨hes.segments hread e he l hl, hnone l hl⟩) hsegs
          (heq.trans hpath.symm)
    · intro heq
      rw [heq, hpath]
  have hfilter : ∀ l : List Located, (belowRoot l).filter (fun e => e.1 = segments f.path &&
      e.2 ≠ .optional) = l.filter fun e => e.1 = segments f.path && e.2 ≠ .optional := by
    intro l
    unfold belowRoot
    rw [List.filter_filter]
    refine List.filter_congr fun e _ => ?_
    by_cases heq : e.1 = segments f.path
    · simp [heq, hroot]
    · simp [heq]
  unfold valuesAt
  rw [← hfilter, ← hbelow, hfilter]
  unfold foundAt
  rw [List.filter_map, List.filter_filter, List.filter_map, List.map_map]
  refine congrArg₂ List.map rfl (List.filter_congr fun e he => ?_)
  by_cases heq : e.1 = segments f.path
  · simp [heq, hpath]
  · have hne : fieldPath e.1 ≠ f.path := fun h => heq ((hat e he).mp h)
    simp [heq, hne]

/-! ## What a field holds -/

/-- A field that has not failed holds the only value found for it. -/
theorem settled_value {ws : List Which} (hnew : tf₀.value = none)
    (hok : (settle ws tf₀).storeFailed = false) (hws : (ws.filter fun w => w ≠ .optional) =
      valuesAt vs (segments f.path)) :
    valuesAt vs (segments f.path) = (valueAt vs f.path).toList.map Which.prim ∧
      (∀ p ∈ valueAt vs f.path, Storable p) ∧
      (settle ws tf₀).value = (valueAt vs f.path).bind blockOf := by
  unfold valueAt
  rcases settle_ok hok with ⟨hsame, hall⟩ | ⟨p, hone, hstorable, hvalue⟩
  · have hnone : valuesAt vs (segments f.path) = [] := by
      rw [← hws, List.filter_eq_nil_iff]
      intro w hw
      simp [hall w hw]
    rw [hnone, hsame]
    exact ⟨rfl, nofun, hnew⟩
  · rw [hone] at hws
    rw [← hws, hvalue, hnew]
    refine ⟨rfl, ?_, Option.or_none ..⟩
    rintro q ⟨⟩
    exact hstorable

theorem blockText_text (d : Device) (s : Bytes) : blockText d (s ++ [0]) = cstr s := by
  unfold blockText cstr
  rw [if_pos (by simp)]
  induction s with
  | nil => rfl
  | cons c cs ih =>
    rw [List.cons_append, List.takeWhile_cons, List.takeWhile_cons, ih]

/-- Everything but a timestamp is read as a text. -/
theorem blockText_blockOf {p : Prim} (hp : ∀ t, p ≠ .timestamp t) :
    (blockOf p).map (blockText d) = contentOf p := by
  have htext : ∀ s : Bytes, Option.map (blockText d) (if s.isEmpty then none else some (s ++ [0])) =
      if s.isEmpty then none else some (cstr s) := by
    intro s
    split
    · rfl
    · rw [Option.map_some, blockText_text]
  cases p with
  | party s => exact htext s
  | numeric s => exact htext s
  | text s => exact htext s
  | timestamp t => exact absurd rfl (hp t)
  | bool | int64 | date | contractId => rfl

/-- What is shown of a stored value is its formatting. -/
theorem blockText_formatted {p : Prim} {ticker : Option Bytes} {cb : Option FormatCallback}
    (hexp : stores (.prim p) = true → Expected cb (.prim p)) (hp : Storable p)
    (hticker : ∀ t ∈ ticker, NulFree t) :
    ((blockOf p).map fun block => blockText d (formattedBlock d ticker block cb)) =
      formatValue d ticker cb p := by
  by_cases htime : ∃ t, p = .timestamp t
  · -- a timestamp is stored as a number and always formatted
    obtain ⟨t, rfl⟩ := htime
    obtain rfl : cb = some .timestamp := hexp rfl
    have hnul : NulFree (formatTimestampText d (beBytes 8 (t % 2 ^ 64).toNat)) := by
      rw [formatTimestampText_eq]
      exact nulFree_expirationText d _
    exact congrArg some (blockText_terminated d hnul)
  · -- every other block is the text itself, terminated
    have htime' : ∀ t, p ≠ .timestamp t := fun t heq => htime ⟨t, heq⟩
    have hcb : cb ≠ some .timestamp := by
      cases p with
      | party s => exact hexp rfl
      | numeric s => exact hexp rfl
      | text s => exact hexp rfl
      | timestamp t => exact absurd rfl (htime' t)
      | bool | int64 | date | contractId => exact hp.elim
    have hnul : ∀ {block : Bytes}, NulFree (formatAmountText (blockText d block)) :=
      fun b hb => blockText_nulFree d _ b (mem_formatAmountText hb)
    have happend : ∀ {s t : Bytes}, NulFree s → NulFree t → NulFree (s ++ t) :=
      fun hs ht b hb => (List.mem_append.mp hb).elim (hs b) (ht b)
    have hspace : NulFree ([32] : Bytes) := by
      intro b hb
      rw [List.mem_singleton.mp hb]
      decide
    cases cb with
    | none => exact blockText_blockOf htime'
    | some cb =>
      cases cb with
      | timestamp => exact absurd rfl hcb
      -- an amount is printed from the text of its block
      | nativeAmount =>
        show _ = (contentOf p).map _
        rw [← blockText_blockOf (d := d) htime', Option.map_map]
        refine congrArg (fun g => Option.map g (blockOf p)) (funext fun block => ?_)
        exact blockText_terminated d (happend (happend hnul hspace) (by decide +kernel))
      | tokenAmount =>
        show _ = (contentOf p).map _
        rw [← blockText_blockOf (d := d) htime', Option.map_map]
        refine congrArg (fun g => Option.map g (blockOf p)) (funext fun block => ?_)
        refine blockText_terminated d (happend hnul ?_)
        cases ticker with
        | none => exact nofun
        | some t => exact happend hspace (hticker t rfl)

/-- A lookup finds the only field at its path. -/
theorem lookUp_eq {p q : Bytes} (hpaths : (fs.map (·.config.path)).Nodup)
    (hq : ∀ g ∈ fs, g.config.path ≠ q) (hmem : tf ∈ fs) (hp : tf.config.path = p) :
    lookUp p q fs = tf.value := by
  obtain ⟨before, after, rfl⟩ := List.append_of_mem hmem
  have hafter : ∀ g ∈ after, ¬ (g.config.path = p || g.config.path = q) = true := by
    intro g hg
    have hne : g.config.path ≠ q := hq g (by simp [hg])
    rw [List.map_append, List.map_cons] at hpaths
    have hnot := (List.nodup_cons.mp (List.Nodup.of_append_right hpaths)).1
    have hother : g.config.path ≠ p := fun heq =>
      hnot (by rw [hp, ← heq]; exact List.mem_map_of_mem hg)
    simp [hne, hother]
  have hkeep : ∀ (l : List TxField) (acc : Option TxField),
      (∀ g ∈ l, ¬ (g.config.path = p || g.config.path = q) = true) →
      l.foldl (fun acc f => if f.config.path = p || f.config.path = q then some f else acc) acc =
        acc := by
    intro l
    induction l with
    | nil => exact fun _ _ => rfl
    | cons g l ih =>
      intro acc hl
      rw [List.foldl_cons, if_neg (hl g List.mem_cons_self)]
      exact ih acc fun g hg => hl g (List.mem_cons_of_mem _ hg)
  unfold lookUp lastFieldAt
  rw [List.foldl_append, List.foldl_cons, if_pos (by simp [hp]), hkeep after _ hafter,
    Option.bind_some]

/-- The text in a role is that of the only field in it. -/
theorem shownText_eq {role : ShownAs} (hrole : role ≠ .other)
    (h : fs.Pairwise fun f g => f.config.shownAs = g.config.shownAs → f.config.shownAs = .other) :
    shownText d fs role =
      (fs.find? fun f => f.config.shownAs = role).bind fun f => f.value.map (blockText d) := by
  have hgen : ∀ (l : List TxField) (acc : Option Bytes),
      (l.Pairwise fun f g => f.config.shownAs = g.config.shownAs → f.config.shownAs = .other) →
      l.foldl (fun acc f => if f.config.shownAs = role then (f.value.map (blockText d)).or acc
        else acc) acc =
        ((l.find? fun f => f.config.shownAs = role).bind fun f =>
          f.value.map (blockText d)).or acc := by
    intro l
    induction l with
    | nil => exact fun _ _ => rfl
    | cons f l ih =>
      intro acc hl
      rw [List.pairwise_cons] at hl
      rw [List.foldl_cons, ih _ hl.2]
      by_cases heq : f.config.shownAs = role
      · -- No later field has the role.
        have hnone : l.find? (fun f => decide (f.config.shownAs = role)) = none := by
          rw [List.find?_eq_none]
          intro g hg
          have := hl.1 g hg
          grind
        rw [hnone, List.find?_cons_of_pos (by simp [heq])]
        simp [heq]
      · rw [List.find?_cons_of_neg (by simp [heq]), if_neg heq]
  unfold shownText
  rw [hgen fs none h, Option.or_none]

/-! ## A clear screen -/

/-- What stands at the configured paths is a Timestamp where one is formatted, and none
elsewhere. -/
def TypesFit (c : DisplayConfig) (vs : List Value) : Prop :=
  ∀ f ∈ c.fields, ∀ w ∈ valuesAt vs (segments f.path), stores w = true →
    Expected f.formatCallback w

instance (c : DisplayConfig) (vs : List Value) : Decidable (TypesFit c vs) :=
  inferInstanceAs (Decidable (∀ f ∈ c.fields, ∀ w ∈ valuesAt vs (segments f.path),
    stores w = true → Expected f.formatCallback w))

/-- The fields of a clear screen: each that is read from the argument holds the only value at its
path, and the asset its fixed text. -/
structure Holds (c : DisplayConfig) (vs : List Value) (fs : List TxField) : Prop where
  configs : fs.map (·.config) = c.fields
  shown : ∀ tf ∈ fs, tf.display = true
  read : ∀ tf ∈ fs, tf.config ≠ preapprovalAssetField → ShownAt vs tf.config ∧
    tf.value = (valueAt vs tf.config.path).bind blockOf
  asset : ∀ tf ∈ fs, tf.config = preapprovalAssetField →
    tf.value = some (preapprovalAssetFieldValue ++ [0])
  mandatory : ∀ tf ∈ fs, tf.config.mandatory = true → tf.value.isSome = true

/-- A clear screen holds what the argument has at its paths. -/
theorem Walked.holds {values values' : ValuesStore} {g : Globals} {r : Review} (h : Walked d vs s)
    (hc : c ∈ displayConfigs) (hconf : s.conf = some c) (hids : IdsFirst (vs.flatMap outerValue))
    (hlabels : NoBackslash vs) (hfinish : finishParsing d values s = some (g, r, values'))
    (hclear : r.clearSigningAvailable = true) :
    ∃ fs, s.fields = some fs ∧ Holds c vs fs := by
  obtain ⟨fs, s', hfs, hread, -⟩ := finishParsing_clear hconf hfinish hclear
  -- the walk has filled the table with what it found at the paths
  obtain ⟨found, hfound, hat⟩ := h.found hc hconf (by rw [hfs]; rfl) hread hids hlabels
  obtain ⟨hconfig, hpaths, hshown⟩ := screenFields_table c hc
  have heq := hfound
  rw [fillFound_eq_map hpaths] at heq
  have hconfigs : ((screenFields c).map fun tf => settle (foundAt found tf.config.path) tf).map
      (·.config) = c.fields := by
    rw [List.map_map, ← hconfig]
    exact List.map_congr_left fun tf _ => (settle_keeps _ tf).1
  -- a clear screen has no failed field and every mandatory one
  have hstored := clear_stored hc hconfigs heq hconf hfinish hclear
  refine ⟨_, heq, hconfigs, ?_, ?_, ?_, fun tf htf => (hstored tf htf).2⟩
  · rintro tf htf
    obtain ⟨tf₀, htf₀, rfl⟩ := List.mem_map.mp htf
    rw [(settle_keeps _ tf₀).2]
    exact hshown tf₀ htf₀
  · -- fields that are read from the argument
    intro tf htf hread
    obtain ⟨hok, hmand⟩ := hstored tf htf
    obtain ⟨tf₀, htf₀, rfl⟩ := List.mem_map.mp htf
    rw [(settle_keeps _ tf₀).1] at hread hmand ⊢
    have hfield : tf₀.config ∈ c.fields := hconfig ▸ List.mem_map_of_mem htf₀
    rcases (screenFields_fresh c hc tf₀ htf₀).2 with ⟨-, hnew⟩ | ⟨hmatched, -⟩
    · obtain ⟨honly, hkept, hvalue⟩ := settled_value hnew hok (hat _ hfield)
      refine ⟨⟨honly, fun hm => ?_, hkept⟩, hvalue⟩
      have hsome := hmand hm
      rw [hvalue] at hsome
      obtain ⟨block, hblock⟩ := Option.isSome_iff_exists.mp hsome
      obtain ⟨p, hp, hpb⟩ := Option.bind_eq_some_iff.mp hblock
      exact ⟨p, hp, by rw [hpb]; rfl⟩
    · exact absurd ((displayConfigs_asset c hc tf₀ htf₀).mp hmatched) hread
  · -- fields that the table sets itself
    intro tf htf hasset
    obtain ⟨hok, -⟩ := hstored tf htf
    obtain ⟨tf₀, htf₀, rfl⟩ := List.mem_map.mp htf
    rw [(settle_keeps _ tf₀).1] at hasset
    have hmatched := (displayConfigs_asset c hc tf₀ htf₀).mpr hasset
    rcases (screenFields_fresh c hc tf₀ htf₀).2 with ⟨hnew, -⟩ | ⟨-, hvalue, -⟩
    · rw [hmatched] at hnew
      cases hnew
    · rw [(settle_matched hmatched hok).1, hvalue]

/-- The fields before the loop. -/
theorem Holds.unformatted (h : Holds c vs fs) (hc : c ∈ displayConfigs) : Unformatted fs := by
  have hmem : ∀ {tf}, tf ∈ fs → tf.config ∈ c.fields := fun htf =>
    h.configs ▸ List.mem_map_of_mem htf
  refine ⟨?_, ?_, ?_, h.shown⟩
  · exact fun tf htf hp => ((displayConfigs_fields c hc).2.1 _ (hmem htf) hp).1
  · have hpaths := (screenFields_table c hc).2.1
    have hmap : fs.map (·.config.path) = (screenFields c).map (·.config.path) := by
      have := congrArg (List.map (·.path)) (h.configs.trans (screenFields_table c hc).1.symm)
      simpa only [List.map_map, Function.comp_def] using this
    rwa [hmap]
  · exact fun tf htf => displayConfigs_proxies c hc _ (hmem htf)

/-- The value of a field that is read as a text. -/
theorem Holds.text (h : Holds c vs fs) (htypes : TypesFit c vs) (htf : tf ∈ fs)
    (hread : tf.config ≠ preapprovalAssetField)
    (hcb : tf.config.formatCallback ≠ some .timestamp) :
    tf.value.map (blockText d) = (valueAt vs tf.config.path).bind contentOf := by
  obtain ⟨hat, hvalue⟩ := h.read tf htf hread
  rw [hvalue]
  cases hp : valueAt vs tf.config.path with
  | none => rfl
  | some p =>
    rw [Option.bind_some, Option.bind_some]
    refine blockText_blockOf fun t hpt => hcb ?_
    have hfield : tf.config ∈ c.fields := h.configs ▸ List.mem_map_of_mem htf
    have hmem : Which.prim p ∈ valuesAt vs (segments tf.config.path) := by
      rw [hat.only, hp]
      exact List.mem_cons_self
    have hexp := htypes _ hfield (.prim p) hmem (by rw [hpt]; rfl)
    rw [hpt] at hexp
    exact hexp

/-- A token that the screen names is looked up as the argument names it. -/
theorem Holds.lookUp (h : Holds c vs fs) (hc : c ∈ displayConfigs) (htypes : TypesFit c vs)
    {p q : Bytes} (hq : ∀ tf ∈ fs, tf.config.path ≠ q) (htoken : TokenPath p)
    (hp : ∃ f ∈ c.fields, f.path = p ∧ f.mandatory = true) :
    (lookUp p q fs).isSome = true ∧
      (DisplayParser.lookUp p q fs).map (blockText d) = (valueAt vs p).bind contentOf := by
  obtain ⟨f, hf, rfl, hmand⟩ := hp
  rw [← h.configs] at hf
  obtain ⟨tf, htf, rfl⟩ := List.mem_map.mp hf
  rw [lookUp_eq (h.unformatted hc).paths hq htf rfl]
  refine ⟨h.mandatory tf htf hmand, h.text htypes htf ?_ ?_⟩
  · intro hasset
    rw [hasset] at htoken
    exact absurd htoken (by decide)
  · rw [(h.unformatted hc).plain tf htf htoken]
    exact nofun

theorem knownTicker_nulFree {t : Bytes} (h : knownTicker vs = some t) : NulFree t := by
  obtain ⟨instrument, -, h⟩ := Option.bind_eq_some_iff.mp h
  obtain ⟨admin, -, h⟩ := Option.bind_eq_some_iff.mp h
  exact findTicker_nulFree h

/-- On a clear screen an amount of a token has the ticker of the token that the argument names,
and the token is hidden. -/
theorem Holds.ticker (h : Holds c vs fs) (hc : c ∈ displayConfigs) (htypes : TypesFit c vs)
    (hs : s.fields = some fs) (hloop : formatLoop d fs.length 0 s = .formatted s') :
    ∀ tf ∈ fs,
      (tf.config.formatCallback = some .tokenAmount → screenTicker d fs = knownTicker vs) ∧
      (TokenPath tf.config.path → hidesToken d fs fs.length = true) := by
  have hfs := h.unformatted hc
  have hmem : ∀ {tf}, tf ∈ fs → tf.config ∈ c.fields := fun htf =>
    h.configs ▸ List.mem_map_of_mem htf
  rcases displayConfigs_token c hc with hnone | ⟨hinstrument, hadmin, f, hf, hcb, hmand⟩
  · intro tf htf
    exact ⟨fun hcb => absurd hcb (hnone _ (hmem htf)).2, fun hp => absurd hp (hnone _ (hmem htf)).1⟩
  · obtain ⟨hi, hitext⟩ := h.lookUp (d := d) hc htypes (fun tf htf => (hfs.proxies tf htf).1)
      (.inl rfl) hinstrument
    obtain ⟨ha, hatext⟩ := h.lookUp (d := d) hc htypes (fun tf htf => (hfs.proxies tf htf).2)
      (.inr (.inr (.inl rfl))) hadmin
    have hsame : screenTicker d fs = knownTicker vs := by
      unfold screenTicker knownTicker
      rw [← hitext, ← hatext, Option.bind_map]
      simp only [Option.bind_map, Function.comp_def]
    rw [← h.configs] at hf
    obtain ⟨tf₁, htf₁, rfl⟩ := List.mem_map.mp hf
    have hamount : isTokenAmount tf₁ = true := by
      unfold isTokenAmount
      rw [hcb, h.mandatory tf₁ htf₁ hmand]
      rfl
    obtain ⟨j, hj⟩ := List.mem_iff_getElem?.mp htf₁
    have hknown := (formatLoop_upTo hfs (by rw [formattedUpTo_zero hfs]; exact hs) (Nat.zero_add _)
      hloop).2 ⟨hi, ha⟩ j tf₁ (Nat.zero_le _) hj hamount
    have hhides : hidesToken d fs fs.length = true := by
      unfold hidesToken
      rw [hknown, List.take_length, Bool.true_and]
      exact List.any_eq_true.mpr ⟨tf₁, htf₁, hamount⟩
    exact fun tf htf => ⟨fun _ => hsame, fun _ => hhides⟩

/-- The rows of a clear screen are those of its argument. -/
theorem Holds.rows (h : Holds c vs fs) (hc : c ∈ displayConfigs) (htypes : TypesFit c vs)
    (hs : s.fields = some fs) (hloop : formatLoop d fs.length 0 s = .formatted s') :
    populateRows d (s'.fields.getD []) = c.fields.filterMap (shownRow d vs) := by
  have hfs := h.unformatted hc
  rw [(formatLoop_upTo hfs (by rw [formattedUpTo_zero hfs]; exact hs) (Nat.zero_add _) hloop).1,
    Option.getD_some, populateRows_formatted hfs, ← h.configs, List.filterMap_map]
  refine List.filterMap_congr fun tf htf => ?_
  obtain ⟨hticker, hhides⟩ := h.ticker hc htypes hs hloop tf htf
  unfold formattedRow shownRow
  dsimp only [Function.comp_apply]
  by_cases hasset : tf.config = preapprovalAssetField
  · -- The fixed text.
    rw [if_pos hasset, h.asset tf htf hasset, hasset, if_neg fun hp => absurd hp.1 (by decide)]
    have hnul : NulFree preapprovalAssetFieldValue := by decide +kernel
    exact congrArg (fun text => some (str "For asset", text)) (blockText_terminated d hnul)
  · rw [if_neg hasset]
    -- a field of the token is left out once its ticker is shown
    by_cases htoken : TokenPath tf.config.path
    · rw [if_pos ⟨htoken, hhides htoken⟩, if_pos htoken]
    · obtain ⟨hat, hvalue⟩ := h.read tf htf hasset
      rw [if_neg fun hp => htoken hp.1, if_neg htoken, hvalue]
      cases hp : valueAt vs tf.config.path with
      | none => rfl
      | some p =>
        have hmem : Which.prim p ∈ valuesAt vs (segments tf.config.path) := by
          rw [hat.only, hp]
          exact List.mem_cons_self
        have hexp := htypes _ (h.configs ▸ List.mem_map_of_mem htf) (.prim p) hmem
        -- the ticker that the screen knows is the one of the argument
        have hsame : ∀ block, formattedBlock d (screenTicker d fs) block tf.config.formatCallback =
            formattedBlock d (knownTicker vs) block tf.config.formatCallback := by
          intro block
          cases hcb : tf.config.formatCallback with
          | none => rfl
          | some cb =>
            cases cb with
            | tokenAmount => rw [hticker hcb]
            | nativeAmount | timestamp => rfl
        rw [Option.bind_some, Option.bind_some, ← blockText_formatted (d := d) hexp
          (hat.kept p hp) fun t ht => knownTicker_nulFree ht]
        simp only [hsame, Option.bind_map, Function.comp_def]

/-- The texts that are bound are those of the argument. -/
theorem Holds.bound (h : Holds c vs fs) (hc : c ∈ displayConfigs) (htypes : TypesFit c vs)
    {role : ShownAs} (hrole : role ≠ .other) : shownText d fs role = boundText c vs role := by
  obtain ⟨honce, hother⟩ := displayConfigs_roles c hc
  rw [← h.configs, List.pairwise_map] at honce
  rw [shownText_eq hrole honce]
  unfold boundText
  rw [← h.configs, List.find?_map]
  simp only [Function.comp_def]
  cases hfind : fs.find? fun tf => decide (tf.config.shownAs = role) with
  | none => rfl
  | some tf =>
    have htf := List.mem_of_find?_eq_some hfind
    have hin : tf.config.shownAs = role := by simpa using List.find?_some hfind
    obtain ⟨hcb, hread⟩ := hother tf.config (h.configs ▸ List.mem_map_of_mem htf) (hin ▸ hrole)
    exact h.text htypes htf hread hcb

/-- **The display shows the value at the configured path, and only that.** -/
theorem shown_at_path {values values' : ValuesStore} {g : Globals} {r : Review} (h : Walked d vs s)
    (hc : c ∈ displayConfigs) (hconf : s.conf = some c) (hids : IdsFirst (vs.flatMap outerValue))
    (hlabels : NoBackslash vs) (htypes : TypesFit c vs)
    (hfinish : finishParsing d values s = some (g, r, values'))
    (hclear : r.clearSigningAvailable = true) :
    (∀ f ∈ c.fields, f ≠ preapprovalAssetField → ShownAt vs f) ∧
      r.pairs = some (c.fields.filterMap (shownRow d vs)) ∧
      ∃ fs, values' = valuesBindFromDisplay d values fs c.destination c.amountCheck ∧
        ∀ role, role ≠ .other → shownText d fs role = boundText c vs role := by
  obtain ⟨fs, hs, hholds⟩ := h.holds hc hconf hids hlabels hfinish hclear
  obtain ⟨fs', s', hs', -, hloop, hrows, hvalues⟩ := finishParsing_clear hconf hfinish hclear
  obtain rfl : fs = fs' := Option.some.inj (hs.symm.trans hs')
  refine ⟨fun f hf hread => ?_, ?_, fs, hvalues, fun role hrole => hholds.bound hc htypes hrole⟩
  · rw [← hholds.configs] at hf
    obtain ⟨tf, htf, rfl⟩ := List.mem_map.mp hf
    exact (hholds.read tf htf hread).1
  · rw [hrows, hholds.rows hc htypes hs hloop]

/-- A proposal shows its receiver and its validator. -/
theorem shown_at_path_proposal :
    let part := proposalOf (Host.party "alice")
    ∃ s g r values, walkNode testDevice (Ctx.start none TxInfo.zero.review) part = some s ∧
      finishParsing testDevice valuesCheckReset s = some (g, r, values) ∧
      r.pairs = some (proposalScreen.fields.filterMap
        (shownRow testDevice ((nodeKinds part).flatMap nodeArguments))) := by
  intro part
  have hwalk : (walkNode testDevice (Ctx.start none TxInfo.zero.review) part).map (·.conf) =
      some (some proposalScreen) := by
    decide +kernel
  have hclear : (walkNode testDevice (Ctx.start none TxInfo.zero.review) part).bind (fun s =>
      (finishParsing testDevice valuesCheckReset s).map fun r => r.2.1.clearSigningAvailable) =
        some true := by
    decide +kernel
  obtain ⟨s, hs, hconf⟩ := Option.map_eq_some_iff.mp hwalk
  rw [hs, Option.bind_some] at hclear
  obtain ⟨⟨g, r, values⟩, hfinish, hr⟩ := Option.map_eq_some_iff.mp hclear
  refine ⟨s, g, r, values, hs, hfinish, (shown_at_path (.node hs) (by decide +kernel) hconf ?_ ?_ ?_
    hfinish hr).2.1⟩
  · decide +kernel
  · have hlabels : ∀ e ∈ ((nodeKinds part).flatMap nodeArguments).flatMap (locatedValue []),
        ∀ l ∈ e.1, 92 ∉ l := by
      decide +kernel
    exact hlabels
  · have htypes : ∀ f ∈ proposalScreen.fields, f.formatCallback = none ∧
        ∀ w ∈ valuesAt ((nodeKinds part).flatMap nodeArguments) (segments f.path),
          w ∈ [Which.prim (.party (str "alice")), Which.prim (.party (str "validator"))] := by
      decide +kernel
    intro f hf w hw _
    obtain ⟨hcb, hin⟩ := htypes f hf
    rw [hcb]
    rcases List.mem_pair.mp (hin w hw) with rfl | rfl
    · exact nofun
    · exact nofun

/-- The record of a proposal. -/
def proposalRecord : Record :=
  .recordId (Host.ident "Splice.Wallet.TransferPreapproval" "TransferPreapprovalProposal")
    (Host.fieldsOf [("receiver", Host.party "alice"), ("provider", Host.party "validator")])

/-- A proposal that is the entry of a TextMap. -/
def keyedProposal : Value :=
  .textMap (.entry (.name (str "k") (.value (.record proposalRecord .nil) .nil)) .nil) .nil

/-- Keys above the outermost record are not part of the path: a record below the key of a TextMap
gives a clear screen, although nothing stands at the paths of the screen. -/
theorem keyedProposal_shown :
    let id := Host.ident "Splice.Wallet.TransferPreapproval" "TransferPreapprovalProposal"
    let part : NodePart :=
      [.nodeId (str "0"), .v1 [.create (Host.createOf "contract" id keyedProposal)]]
    IdsFirst (outerRecord proposalRecord) ∧
      (∀ e ∈ locatedValue [] keyedProposal, (fieldPath e.1).length < maxFieldPathLen ∧
        ∀ l ∈ e.1, l ≠ [] ∧ NulFree l ∧ l.length < defaultDecodeBufferSize ∧ 92 ∉ l) ∧
      (∀ e ∈ locatedValue [] keyedProposal, ∀ f ∈ proposalScreen.fields, fieldPath e.1 ≠ f.path) ∧
      (∃ f ∈ proposalScreen.fields, f.mandatory = true ∧ f ≠ preapprovalAssetField ∧
        valuesAt [keyedProposal] (segments f.path) = []) ∧
      ∃ s g r values, Walked testDevice [keyedProposal] s ∧
        walkNode testDevice (Ctx.start none TxInfo.zero.review) part = some s ∧
        s.conf = some proposalScreen ∧
        finishParsing testDevice valuesCheckReset s = some (g, r, values) ∧
        r.clearSigningAvailable = true ∧ r.pairs = some [
          (str "Pre-approve for account", str "alice"),
          (str "For asset", str "Canton Coin (CC)"), (str "By validator", str "validator")] := by
  intro id part
  refine ⟨by decide +kernel, by decide +kernel, by decide +kernel, by decide +kernel, ?_⟩
  have hwalk : (walkNode testDevice (Ctx.start none TxInfo.zero.review) part).map (·.conf) =
      some (some proposalScreen) := by
    decide +kernel
  have hclear : (walkNode testDevice (Ctx.start none TxInfo.zero.review) part).bind (fun s =>
      (finishParsing testDevice valuesCheckReset s).map fun r => (r.2.1.clearSigningAvailable,
        r.2.1.pairs)) = some (true, some [(str "Pre-approve for account", str "alice"),
          (str "For asset", str "Canton Coin (CC)"), (str "By validator", str "validator")]) := by
    decide +kernel
  obtain ⟨s, hs, hconf⟩ := Option.map_eq_some_iff.mp hwalk
  rw [hs, Option.bind_some] at hclear
  obtain ⟨⟨g, r, values⟩, hfinish, hr⟩ := Option.map_eq_some_iff.mp hclear
  exact ⟨s, g, r, values, .node hs, hs, hconf, hfinish, congrArg Prod.fst hr, congrArg Prod.snd hr⟩

end DisplayParser

end CantonSigner
