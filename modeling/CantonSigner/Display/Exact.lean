import CantonSigner.Display.Extraction
import CantonSigner.Display.Verdict
import CantonSigner.Model.Host

/-!
# Which create nodes give a holding

`collect_cases` says of every create node of a holding template what the holding pass makes of
it: one holding, if its argument `Gives` one, and nothing but giving up otherwise.

- `overlong_refused_iff`: a path that is too long stops the matching, but what was matched before
  it still counts;
- `extraction_exact`: where all paths fit and labels have no dots, `Gives` is a property of the
  labels: each path of the template leads to one string. A label is late after a record that was
  opened, and only then (`label_after_unopened_record`).
-/

namespace CantonSigner

open ByteCodec Host

namespace HoldingParser

variable {d : Device} {cfg : HoldingPathConfig} {es : List Met} {s : Ctx} {h : HoldingText}

/-- The argument gives a holding: the stack has room for its records, all labels are good, and
before any path is too long every field has a label and every slot gets its one string. -/
structure Gives (d : Device) (cfg : HoldingPathConfig) (es : List Met) (h : HoldingText) :
    Prop where
  room : ∀ e ∈ es, e.roomy d = true
  labels : ∀ e ∈ es, e.misread = false
  named : ∀ e ∈ written es, e.unlabelled = false
  owner : slotStrings cfg .owner es = [h.owner]
  amount : slotStrings cfg .amount es = [h.amount]
  admin : slotStrings cfg .admin es = [h.admin]
  instrument : slotStrings cfg .instrument es = h.instrument.toList
  identified : h.instrument.isSome = cfg.idPath.isSome

/-- A template without the path of an instrument has no string for it. -/
theorem slotStrings_instrument (h : cfg.idPath = none) : slotStrings cfg .instrument es = [] := by
  refine List.filterMap_eq_nil_iff.mpr fun e _ => ?_
  cases e with
  | field labels b w =>
    show Slot.takes cfg .instrument (pathOf labels, w) = none
    unfold Slot.takes
    split <;> simp [Slot.path, h]
  | opened | label => rfl

theorem Gives.readable (hg : Gives d cfg es h) : Readable cfg es := by
  refine ⟨hg.labels, hg.named, fun slot => ?_⟩
  cases slot with
  | owner => rw [hg.owner]; exact Nat.le_refl 1
  | amount => rw [hg.amount]; exact Nat.le_refl 1
  | admin => rw [hg.admin]; exact Nat.le_refl 1
  | instrument =>
    rw [hg.instrument]
    cases h.instrument <;> simp

/-- A walk that gives a holding is read as this holding. -/
theorem readWalk_of_gives (hs : Reads d cfg es [] s) (hg : Gives d cfg es h) :
    readWalk cfg s = some (h.digests d, h.instrument.map d.sha) := by
  have hread := hg.readable
  have howner : s.owner = some (d.sha h.owner) := by
    have hdigest := hs.digest hread .owner
    rwa [hg.owner] at hdigest
  have hamount : s.amount = some (d.sha h.amount) := by
    have hdigest := hs.digest hread .amount
    rwa [hg.amount] at hdigest
  have hadmin : s.admin = some (d.sha h.admin) := by
    have hdigest := hs.digest hread .admin
    rwa [hg.admin] at hdigest
  have hinstrument : s.instrument = h.instrument.map d.sha := by
    have hdigest := hs.digest hread .instrument
    rw [hg.instrument] at hdigest
    refine hdigest.trans ?_
    cases h.instrument <;> rfl
  unfold readWalk
  rw [howner, hamount, hadmin, hinstrument, hs.readable.mpr hread, ← hg.identified]
  cases h.instrument <;> rfl

/-- A walk that is read as a holding gives it. -/
theorem gives_of_readWalk (hs : Reads d cfg es [] s) (hroom : ∀ e ∈ es, e.roomy d = true)
    (hread : (readWalk cfg s).isSome = true) : ∃ h, Gives d cfg es h := by
  unfold readWalk at hread
  split at hread
  · rename_i owner amount admin howner hamount hadmin
    split at hread
    · cases hread
    · rename_i hok
      simp only [Bool.or_eq_true, Bool.and_eq_true, not_or, not_and, Bool.not_eq_true,
        Option.isNone_eq_false_iff] at hok
      obtain ⟨hu, hid⟩ := hok
      have hreadable := hs.readable.mp hu
      -- A digest is that of the only string for its slot.
      have hone : ∀ (slot : Slot) x, slot.digest s = some x →
          ∃ t, slotStrings cfg slot es = [t] := by
        intro slot x hx
        rw [hs.digest hreadable slot, Option.map_eq_some_iff] at hx
        obtain ⟨t, ht, -⟩ := hx
        obtain ⟨rest, hrest⟩ := List.head?_eq_some_iff.mp ht
        have hlen := hreadable.once slot
        rw [hrest, List.length_cons] at hlen
        obtain rfl : rest = [] := List.eq_nil_of_length_eq_zero (by omega)
        exact ⟨t, hrest⟩
      obtain ⟨o, ho⟩ := hone .owner _ howner
      obtain ⟨a, ha⟩ := hone .amount _ hamount
      obtain ⟨m, hm⟩ := hone .admin _ hadmin
      cases hpath : cfg.idPath with
      | none =>
        exact ⟨⟨o, a, m, none⟩, hroom, hreadable.labels, hreadable.named, ho, ha, hm,
          slotStrings_instrument hpath, by simp [hpath]⟩
      | some p =>
        obtain ⟨x, hx⟩ := Option.isSome_iff_exists.mp (hid (by simp [hpath]))
        obtain ⟨i, hi⟩ := hone .instrument _ hx
        exact ⟨⟨o, a, m, some i⟩, hroom, hreadable.labels, hreadable.named, ho, ha, hm, hi,
          by simp [hpath]⟩
  · cases hread

/-! ## What the pass makes of a create node -/

variable {store : ValuesStore} {part : NodePart} {c : Create} {id : Identifier}

/-- A node part with one create node of this template, while values are collected. -/
structure HoldingPart (store : ValuesStore) (part : NodePart) (c : Create)
    (cfg : HoldingPathConfig) : Prop where
  collecting : store.ok = true
  create : nodeKinds part = [.create c]
  template : c.templateId.bind findHolding = some cfg

/-- **A create node of a holding template** is reported as one holding, or makes the check give
up. -/
theorem collect_cases (hp : HoldingPart store part c cfg) :
    (∀ h, Gives d cfg (metArgument c) h → valuesCollectFromNode d store part =
      valuesReportHolding store (h.digests d) (h.instrument.map d.sha)) ∧
    ((¬ ∃ h, Gives d cfg (metArgument c) h) →
      valuesCollectFromNode d store part = store.giveUp) := by
  obtain ⟨id, hid, hfind⟩ := Option.bind_eq_some_iff.mp hp.template
  have hcfg := mem_of_findHolding hfind
  have hroom := walk_isSome_iff (d := d) c.argument (Ctx.start cfg)
  unfold valuesCollectFromNode
  rw [hp.collecting, hp.create]
  simp only [Bool.not_true, Bool.false_eq_true, if_false, decodeNodeKinds, decodeCreate, hid, hfind]
  cases hwalk : c.argument.foldlM (fun s v => walkValue d 0 v s) (Ctx.start cfg) with
  | none =>
    rw [hwalk] at hroom
    refine ⟨fun h hg => ?_, fun _ => rfl⟩
    cases hroom.mpr hg.room
  | some s =>
    have hs : Reads d cfg (metArgument c) [] s :=
      reads_argument hcfg c.argument [] _ s reads_start hwalk
    show (∀ h, _ → reportWalk cfg store s = _) ∧ (_ → reportWalk cfg store s = _)
    rw [reportWalk_eq]
    constructor
    · intro h hg
      rw [readWalk_of_gives hs hg]
    · intro hnone
      cases hread : readWalk cfg s with
      | none => rfl
      | some r =>
        rw [hwalk] at hroom
        exact absurd (gives_of_readWalk hs (hroom.mp rfl) (by rw [hread]; rfl)) hnone

/-! ## Paths that are too long -/

/-- No holding is reported, and clear signing is given up. -/
def Refused (store store' : ValuesStore) : Prop :=
  store'.holdings = store.holdings ∧ store'.ok = false

theorem refused_giveUp (store : ValuesStore) : Refused store store.giveUp := ⟨rfl, rfl⟩

/-- A reported holding is added, whatever its instrument. -/
theorem valuesReportHolding_holdings {x : Holding} {i : Option Bytes}
    (h : store.holdings.length < maxHoldings) :
    (valuesReportHolding store x i).holdings = store.holdings ++ [x] := by
  unfold valuesReportHolding
  rw [if_neg (Nat.not_le.mpr h)]
  dsimp only
  split
  · rfl
  · rfl
  · split <;> rfl

/-- A holding is refused only for want of room. -/
theorem refused_report_iff {x : Holding} {i : Option Bytes} :
    Refused store (valuesReportHolding store x i) ↔ maxHoldings ≤ store.holdings.length := by
  by_cases hfull : maxHoldings ≤ store.holdings.length
  · unfold valuesReportHolding
    rw [if_pos hfull]
    exact iff_of_true (refused_giveUp store) hfull
  · refine iff_of_false (fun h => ?_) hfull
    have hkept := h.1
    rw [valuesReportHolding_holdings (Nat.lt_of_not_le hfull)] at hkept
    simpa using congrArg List.length hkept

/-- After the first path that is too long, only the stack and the labels count. -/
theorem gives_overlong_iff {before after : List Met} {e : Met}
    (hfits : ∀ x ∈ before, x.overlong = false) (hlong : e.overlong = true) :
    Gives d cfg (before ++ e :: after) h ↔
      Gives d cfg before h ∧ ∀ x ∈ e :: after, x.roomy d = true ∧ x.misread = false := by
  have hnone : before.any Met.overlong = false := by
    rw [List.any_eq_false]
    exact fun x hx => by simp [hfits x hx]
  have hwritten : written (before ++ e :: after) = written before := by
    rw [written_of_fits hnone, written_self hnone]
    simp [written, hlong]
  have hstrings : ∀ slot, slotStrings cfg slot (before ++ e :: after) =
      slotStrings cfg slot before := fun slot => by rw [slotStrings, hwritten, slotStrings]
  constructor
  · intro hg
    refine ⟨⟨fun x hx => hg.room x (List.mem_append_left _ hx),
      fun x hx => hg.labels x (List.mem_append_left _ hx), hwritten ▸ hg.named,
      hstrings _ ▸ hg.owner, hstrings _ ▸ hg.amount, hstrings _ ▸ hg.admin,
      hstrings _ ▸ hg.instrument, hg.identified⟩, fun x hx => ⟨?_, ?_⟩⟩
    · exact hg.room x (List.mem_append_right _ hx)
    · exact hg.labels x (List.mem_append_right _ hx)
  · rintro ⟨hg, hafter⟩
    refine ⟨fun x hx => ?_, fun x hx => ?_, hwritten.symm ▸ hg.named,
      (hstrings _).trans hg.owner, (hstrings _).trans hg.amount, (hstrings _).trans hg.admin,
      (hstrings _).trans hg.instrument, hg.identified⟩
    · exact (List.mem_append.mp hx).elim (hg.room x) fun hx => (hafter x hx).1
    · exact (List.mem_append.mp hx).elim (hg.labels x) fun hx => (hafter x hx).2

/-- **A path that is too long** makes the check give up, unless what comes before it gives a
holding, all labels after it are good and the stack has room. -/
theorem overlong_refused_iff {before after : List Met} {e : Met}
    (hp : HoldingPart store part c cfg) (hmet : metArgument c = before ++ e :: after)
    (hfits : ∀ x ∈ before, x.overlong = false) (hlong : e.overlong = true) :
    Refused store (valuesCollectFromNode d store part) ↔
      (¬ ∃ h, Gives d cfg before h ∧ ∀ x ∈ e :: after, x.roomy d = true ∧ x.misread = false) ∨
        maxHoldings ≤ store.holdings.length := by
  obtain ⟨hreported, hrefused⟩ := collect_cases (d := d) hp
  rw [hmet] at hreported hrefused
  by_cases hg : ∃ h, Gives d cfg (before ++ e :: after) h
  · obtain ⟨h, hg⟩ := hg
    rw [hreported h hg, refused_report_iff]
    refine ⟨.inr, fun hor => hor.resolve_left fun hnot => hnot ⟨h, ?_⟩⟩
    exact (gives_overlong_iff hfits hlong).mp hg
  · rw [hrefused hg]
    refine iff_of_true (refused_giveUp store) (.inl fun ⟨h, hb⟩ => hg ⟨h, ?_⟩)
    exact (gives_overlong_iff hfits hlong).mpr hb

/-- An amulet whose argument goes on, after all that counts, with a path of 64 bytes. -/
def longAmulet : Create :=
  createOf "00aa" (ident "Splice.Amulet" "Amulet") (recordOf (ident "Splice.Amulet" "Amulet") [
    ("dso", party "d"), ("owner", party "a"),
    ("amount", recordOf (ident "Splice.Fees" "ExpiringAmount") [("initialAmount", numeric "1")]),
    ("context-of-some-thirty-two-bytes", recordOf (ident "pkg" "Context") [
      ("another-label-of-thirty-one-byt", text "b")])])

/-- The paths of an amulet. -/
def amuletConfig : HoldingPathConfig :=
  ⟨str "Splice.Amulet", str "Amulet", str "owner", str "amount.initialAmount", str "dso", none⟩

theorem holdingPart_longAmulet :
    HoldingPart valuesCheckReset [.v1 [.create longAmulet]] longAmulet amuletConfig :=
  ⟨rfl, rfl, by decide⟩

/-- What comes before the long path gives the holding. -/
theorem overlong_refused_iff_longAmulet : ∃ before e after h,
    metArgument longAmulet = before ++ e :: after ∧ e.overlong = true ∧
      Gives testDevice amuletConfig before h := by
  obtain ⟨e, he⟩ : ∃ e, (metArgument longAmulet).find? Met.overlong = some e :=
    Option.isSome_iff_exists.mp (by decide)
  obtain ⟨hlong, before, after, hmet, hfits⟩ := List.find?_eq_some_iff_append.mp he
  have hiff := overlong_refused_iff (d := testDevice) holdingPart_longAmulet hmet
    (fun x hx => by simpa using hfits x hx) hlong
  have hkept : ¬ Refused valuesCheckReset (valuesCollectFromNode testDevice valuesCheckReset
      [.v1 [.create longAmulet]]) := fun h => absurd h.2 (by decide)
  obtain ⟨hgives, -⟩ := not_or.mp (mt hiff.mpr hkept)
  obtain ⟨h, hg, -⟩ := not_not.mp hgives
  exact ⟨before, e, after, h, hmet, hlong, hg⟩

/-- It is counted as a holding of its owner all the same. -/
theorem overlong_after_holding :
    HoldingPart valuesCheckReset [.v1 [.create longAmulet]] longAmulet amuletConfig ∧
      (∃ e ∈ metArgument longAmulet, e.overlong = true) ∧
      ¬ Refused valuesCheckReset (valuesCollectFromNode testDevice valuesCheckReset
        [.v1 [.create longAmulet]]) := by
  refine ⟨holdingPart_longAmulet, by decide, fun h => absurd h.2 ?_⟩
  decide

/-! ## Paths that fit -/

/-- A label with a dot. -/
def Met.dotted : Met → Bool
  | .label _ l _ => l.contains 46
  | _ => false

/-- The text of a value for a slot: instruments are texts, the others parties or numbers. -/
def Slot.text (slot : Slot) : Which → Option Bytes
  | .prim (.text t) => if slot = .instrument then some t else none
  | .prim (.party t) | .prim (.numeric t) => if slot = .instrument then none else some t
  | _ => none

/-- The texts that the labels of a slot lead to, through records only. -/
def reached (cfg : HoldingPathConfig) (slot : Slot) (es : List Met) : List Bytes :=
  es.filterMap fun
    | .field labels _ w =>
      if (slot.path cfg).map (List.splitOn 46) = some labels then slot.text w else none
    | _ => none

/-- The labels of the template lead to one text each, and no label or field is in the way. -/
structure Exact (cfg : HoldingPathConfig) (es : List Met) (h : HoldingText) : Prop where
  labelled : ∀ labels b w, Met.field labels b w ∈ es → b = true
  label : ∀ labels l late, Met.label labels l late ∈ es →
    l ≠ [] ∧ 0 ∉ l ∧ l.length < 64 ∧ late = false
  owner : reached cfg .owner es = [h.owner]
  amount : reached cfg .amount es = [h.amount]
  admin : reached cfg .admin es = [h.admin]
  instrument : reached cfg .instrument es = h.instrument.toList
  identified : h.instrument.isSome = cfg.idPath.isSome

/-- Labels are among the first ones, or are met. -/
def Named (labels : List Bytes) (es : List Met) (ls : List Bytes) : Prop :=
  ∀ l ∈ ls, l ∈ labels ∨ ∃ above late, Met.label above l late ∈ es

theorem Named.mono {labels ls : List Bytes} {es fs : List Met} (h : Named labels es ls)
    (hsub : es ⊆ fs) : Named labels fs ls := by
  intro l hl
  refine (h l hl).imp_right ?_
  rintro ⟨above, late, hmem⟩
  exact ⟨above, late, hsub hmem⟩

theorem names_met (depth : Nat) : ∀ (f : NamedValue) (labels : List Bytes) (opened : Bool),
    ∀ l ∈ names f, ∃ above late, Met.label above l late ∈ metItems depth labels opened f
  | .nil, _, _, l, hl => by cases hl
  | .name l' rest, labels, opened, l, hl => by
    rcases List.mem_cons.mp hl with rfl | hl
    · exact ⟨labels, opened, List.mem_cons_self⟩
    · obtain ⟨above, late, hmem⟩ := names_met depth rest (labels ++ [l']) opened l hl
      exact ⟨above, late, List.mem_cons_of_mem _ hmem⟩
  | .value v rest, labels, opened, l, hl => by
    obtain ⟨above, late, hmem⟩ :=
      names_met depth rest labels (opened || opensRecord depth v) l hl
    exact ⟨above, late, List.mem_append_right _ hmem⟩

mutual

/-- The labels of every field in a value are met. -/
theorem named_value : ∀ (depth : Nat) (v : Value) (labels ls : List Bytes) (b : Bool) (w : Which),
    Met.field ls b w ∈ metValue depth labels v → Named labels (metValue depth labels v) ls
  | _, .nil, _, _, _, _, h => by cases h
  | depth, .record r rest, labels, ls, b, w, h => by
    unfold metValue at h ⊢
    by_cases hdeep : maxLabelDepth ≤ depth
    · rw [if_pos hdeep] at h ⊢
      exact named_value depth rest labels ls b w h
    · rw [if_neg hdeep] at h ⊢
      rcases List.mem_append.mp h with h | h
      · rcases List.mem_cons.mp h with h | h
        · cases h
        · exact (named_record (depth + 1) r labels ls b w h).mono fun e he =>
            List.mem_append_left _ (List.mem_cons_of_mem _ he)
      · exact (named_value depth rest labels ls b w h).mono (List.subset_append_right _ _)
  | depth, .prim _ rest, labels, ls, b, w, h => named_value depth rest labels ls b w h
  | depth, .unit rest, labels, ls, b, w, h => named_value depth rest labels ls b w h
  | depth, .optional _ rest, labels, ls, b, w, h => named_value depth rest labels ls b w h
  | depth, .list _ rest, labels, ls, b, w, h => named_value depth rest labels ls b w h
  | depth, .textMap _ rest, labels, ls, b, w, h => named_value depth rest labels ls b w h
  | depth, .genMap _ rest, labels, ls, b, w, h => named_value depth rest labels ls b w h
  | depth, .variant _ rest, labels, ls, b, w, h => named_value depth rest labels ls b w h
  | depth, .enum _ rest, labels, ls, b, w, h => named_value depth rest labels ls b w h

theorem named_record : ∀ (depth : Nat) (r : Record) (labels ls : List Bytes) (b : Bool)
    (w : Which), Met.field ls b w ∈ metRecord depth labels r →
      Named labels (metRecord depth labels r) ls
  | _, .nil, _, _, _, _, h => by cases h
  | depth, .recordId _ rest, labels, ls, b, w, h => named_record depth rest labels ls b w h
  | depth, .field f rest, labels, ls, b, w, h => by
    unfold metRecord at h ⊢
    rcases List.mem_append.mp h with h | h
    · exact (named_items depth f labels false ls b w h).mono (List.subset_append_left _ _)
    · rcases List.mem_cons.mp h with h | h
      · -- The field itself: the labels above it, and its own.
        cases h
        intro l hl
        rcases List.mem_append.mp hl with hl | hl
        · exact .inl hl
        · obtain ⟨above, late, hmem⟩ := names_met depth f labels false l hl
          exact .inr ⟨above, late, List.mem_append_left _ hmem⟩
      · exact (named_record depth rest labels ls b w h).mono fun e he =>
          List.mem_append_right _ (List.mem_cons_of_mem _ he)

theorem named_items : ∀ (depth : Nat) (f : NamedValue) (labels : List Bytes) (opened : Bool)
    (ls : List Bytes) (b : Bool) (w : Which), Met.field ls b w ∈ metItems depth labels opened f →
      Named labels (metItems depth labels opened f) ls
  | _, .nil, _, _, _, _, _, h => by cases h
  | depth, .name l' rest, labels, opened, ls, b, w, h => by
    unfold metItems at h ⊢
    rcases List.mem_cons.mp h with h | h
    · cases h
    · intro l hl
      rcases named_items depth rest (labels ++ [l']) opened ls b w h l hl with hl | hmet
      · rcases List.mem_append.mp hl with hl | hl
        · exact .inl hl
        · rw [List.mem_singleton.mp hl]
          exact .inr ⟨labels, opened, List.mem_cons_self⟩
      · obtain ⟨above, late, hmem⟩ := hmet
        exact .inr ⟨above, late, List.mem_cons_of_mem _ hmem⟩
  | depth, .value v rest, labels, opened, ls, b, w, h => by
    unfold metItems at h ⊢
    rcases List.mem_append.mp h with h | h
    · exact (named_value depth v labels ls b w h).mono (List.subset_append_left _ _)
    · exact (named_items depth rest labels _ ls b w h).mono (List.subset_append_right _ _)

end

/-- Every label above a field of an argument is met. -/
theorem label_met {ls : List Bytes} {b : Bool} {w : Which} (h : Met.field ls b w ∈ metArgument c) :
    ∀ l ∈ ls, ∃ above late, Met.label above l late ∈ metArgument c := by
  obtain ⟨v, hv, hmem⟩ := List.mem_flatMap.mp h
  intro l hl
  rcases named_value 0 v [] ls b w hmem l hl with hl | ⟨above, late, hmet⟩
  · cases hl
  · exact ⟨above, late, List.mem_flatMap.mpr ⟨v, hv, hmet⟩⟩

/-- The paths of a template are joined labels. -/
theorem path_eq_iff {ls : List Bytes} {p : Bytes} (hls : ∀ l ∈ ls, l ≠ [] ∧ 46 ∉ l)
    (hp : p ≠ []) : p = pathOf ls ↔ p.splitOn 46 = ls := by
  have hne : ∀ l ∈ ls, l ≠ [] := fun l hl => (hls l hl).1
  rw [pathOf, foldl_joinPath hne]
  constructor
  · rintro rfl
    cases ls with
    | nil => exact absurd rfl hp
    | cons l ls => exact List.splitOn_intercalate 46 (fun l hl => (hls l hl).2) nofun
  · rintro rfl
    exact (List.intercalate_splitOn 46).symm

theorem holdingTemplates_ne_nil : ∀ cfg ∈ holdingTemplates, cfg.ownerPath ≠ [] ∧
    cfg.amountPath ≠ [] ∧ cfg.adminPath ≠ [] ∧ cfg.idPath ≠ some [] := by decide +kernel

theorem path_ne_nil (hcfg : cfg ∈ holdingTemplates) {slot : Slot} {p : Bytes}
    (h : slot.path cfg = some p) : p ≠ [] := by
  obtain ⟨howner, hamount, hadmin, hid⟩ := holdingTemplates_ne_nil cfg hcfg
  rintro rfl
  cases slot with
  | owner => exact howner (Option.some.inj h)
  | amount => exact hamount (Option.some.inj h)
  | admin => exact hadmin (Option.some.inj h)
  | instrument => exact hid h

/-- A field is matched by its path as by its labels. -/
theorem takes_eq (hcfg : cfg ∈ holdingTemplates) {ls : List Bytes}
    (hls : ∀ l ∈ ls, l ≠ [] ∧ 46 ∉ l) (slot : Slot) (w : Which) :
    slot.takes cfg (pathOf ls, w) =
      if (slot.path cfg).map (List.splitOn 46) = some ls then slot.text w else none := by
  have hiff : slot.path cfg = some (pathOf ls) ↔
      (slot.path cfg).map (List.splitOn 46) = some ls := by
    cases hp : slot.path cfg with
    | none => simp
    | some p => simpa using path_eq_iff hls (path_ne_nil hcfg hp)
  by_cases hpath : slot.path cfg = some (pathOf ls)
  · rw [if_pos (hiff.mp hpath)]
    unfold Slot.takes Slot.text
    cases w with
    | prim p => cases p <;> cases slot <;> simp_all
    | _ => rfl
  · rw [if_neg fun h => hpath (hiff.mpr h)]
    cases w with
    | prim p => cases p <;> simp [Slot.takes, hpath]
    | _ => rfl

/-- Where all paths fit and labels have no dots, a holding is given by the labels. -/
theorem gives_iff_exact (hcfg : cfg ∈ holdingTemplates)
    (hfits : ∀ e ∈ metArgument c, e.overlong = false)
    (hdots : ∀ e ∈ metArgument c, e.dotted = false)
    (hroom : ∀ e ∈ metArgument c, e.roomy d = true) :
    Gives d cfg (metArgument c) h ↔ Exact cfg (metArgument c) h := by
  have hall : written (metArgument c) = metArgument c := by
    refine written_self (List.any_eq_false.mpr fun e he => ?_)
    simp [hfits e he]
  have hgood : (∀ e ∈ metArgument c, e.misread = false) ↔ ∀ labels l late,
      Met.label labels l late ∈ metArgument c →
        l ≠ [] ∧ 0 ∉ l ∧ l.length < 64 ∧ late = false := by
    constructor
    · intro h labels l late hmem
      have := h _ hmem
      simp only [Met.misread, Bool.or_eq_false_iff, decide_eq_false_iff_not,
        List.isEmpty_eq_false_iff, List.contains_eq_mem] at this
      exact ⟨this.1.2, this.2, Nat.lt_of_not_le this.1.1.2, this.1.1.1⟩
    · intro h e he
      cases e with
      | label labels l late =>
        obtain ⟨hne, hnul, hlen, rfl⟩ := h labels l late he
        simp [Met.misread, hne, hnul, Nat.not_le.mpr hlen, defaultDecodeBufferSize]
      | opened | field => rfl
  have hnamed : (∀ e ∈ written (metArgument c), e.unlabelled = false) ↔
      ∀ labels b w, Met.field labels b w ∈ metArgument c → b = true := by
    rw [hall]
    constructor
    · intro h labels b w hmem
      simpa [Met.unlabelled] using h _ hmem
    · intro h e he
      cases e with
      | field labels b w => simp [Met.unlabelled, h labels b w he]
      | opened | label => rfl
  -- Matching by paths is matching by labels.
  have hstrings : (∀ e ∈ metArgument c, e.misread = false) → ∀ slot,
      slotStrings cfg slot (metArgument c) = reached cfg slot (metArgument c) := by
    intro h slot
    rw [slotStrings, hall, reached]
    refine List.filterMap_congr fun e he => ?_
    cases e with
    | field ls b w =>
      refine takes_eq hcfg (fun l hl => ?_) slot w
      obtain ⟨above, late, hmem⟩ := label_met he l hl
      exact ⟨(hgood.mp h _ _ _ hmem).1, by simpa [Met.dotted] using hdots _ hmem⟩
    | opened | label => rfl
  constructor
  · intro hg
    have hs := hstrings hg.labels
    exact ⟨hnamed.mp hg.named, hgood.mp hg.labels, hs _ ▸ hg.owner, hs _ ▸ hg.amount,
      hs _ ▸ hg.admin, hs _ ▸ hg.instrument, hg.identified⟩
  · intro he
    have hs := hstrings (hgood.mpr he.label)
    exact ⟨hroom, hgood.mpr he.label, hnamed.mpr he.labelled, (hs _).trans he.owner,
      (hs _).trans he.amount, (hs _).trans he.admin, (hs _).trans he.instrument, he.identified⟩

/-- **Extraction is exact**: where all paths fit and labels have no dots, one holding is reported
if the labels of the template lead to one text each, and otherwise the check gives up. -/
theorem extraction_exact (hp : HoldingPart store part c cfg)
    (hfits : ∀ e ∈ metArgument c, e.overlong = false)
    (hdots : ∀ e ∈ metArgument c, e.dotted = false)
    (hroom : ∀ e ∈ metArgument c, e.roomy d = true) :
    (∀ h, Exact cfg (metArgument c) h → valuesCollectFromNode d store part =
      valuesReportHolding store (h.digests d) (h.instrument.map d.sha)) ∧
    ((¬ ∃ h, Exact cfg (metArgument c) h) →
      valuesCollectFromNode d store part = store.giveUp) := by
  obtain ⟨id, -, hfind⟩ := Option.bind_eq_some_iff.mp hp.template
  have hiff : ∀ h, Gives d cfg (metArgument c) h ↔ Exact cfg (metArgument c) h := fun h =>
    gives_iff_exact (mem_of_findHolding hfind) hfits hdots hroom
  obtain ⟨hreported, hrefused⟩ := collect_cases (d := d) hp
  refine ⟨fun h he => hreported h ((hiff h).mpr he), fun hnone => hrefused ?_⟩
  rintro ⟨h, hg⟩
  exact hnone ⟨h, (hiff h).mp hg⟩

/-! ## Labels after records -/

mutual

/-- The fields of the records that are opened in a value. -/
def walkedValue (depth : Nat) : Value → List NamedValue
  | .nil => []
  | .record r rest =>
    (if maxLabelDepth ≤ depth then [] else walkedRecord (depth + 1) r) ++ walkedValue depth rest
  | .prim _ rest => walkedValue depth rest
  | .unit rest => walkedValue depth rest
  | .optional _ rest => walkedValue depth rest
  | .list _ rest => walkedValue depth rest
  | .textMap _ rest => walkedValue depth rest
  | .genMap _ rest => walkedValue depth rest
  | .variant _ rest => walkedValue depth rest
  | .enum _ rest => walkedValue depth rest

def walkedRecord (depth : Nat) : Record → List NamedValue
  | .nil => []
  | .recordId _ rest => walkedRecord depth rest
  | .field f rest => f :: (walkedItems depth f ++ walkedRecord depth rest)

def walkedItems (depth : Nat) : NamedValue → List NamedValue
  | .nil => []
  | .name _ rest => walkedItems depth rest
  | .value v rest => walkedValue depth v ++ walkedItems depth rest

end

/-- A label arrives after a record value, at whatever depth. -/
def labelAfterRecord (seen : Bool) : NamedValue → Bool
  | .nil => false
  | .name _ rest => seen || labelAfterRecord seen rest
  | .value v rest => labelAfterRecord (seen || opensRecord 0 v) rest

/-- A field whose label comes after its value, an empty record: in a sixth record, it is not
opened any more. -/
def lateField : NamedValue := .value (.record .nil .nil) (.name (str "g") .nil)

/-- Five records below the argument, the last with that field. -/
def deepAmulet : Create :=
  createOf "00aa" (ident "Splice.Amulet" "Amulet") (recordOf (ident "Splice.Amulet" "Amulet") [
    ("dso", party "d"), ("owner", party "a"),
    ("amount", recordOf (ident "Splice.Fees" "ExpiringAmount") [("initialAmount", numeric "1")]),
    ("b", recordOf (ident "pkg" "B") [("c", recordOf (ident "pkg" "C") [
      ("d", recordOf (ident "pkg" "D") [("e", recordOf (ident "pkg" "E") [
        ("f", .record (.field lateField .nil) .nil)])])])])])

theorem holdingPart_deepAmulet :
    HoldingPart valuesCheckReset [.v1 [.create deepAmulet]] deepAmulet amuletConfig :=
  ⟨rfl, rfl, by decide⟩

/-- It is read like any other amulet. -/
theorem extraction_exact_deepAmulet :
    valuesCollectFromNode testDevice valuesCheckReset [.v1 [.create deepAmulet]] =
      valuesReportHolding valuesCheckReset
        (HoldingText.digests testDevice ⟨str "a", str "1", str "d", none⟩) none := by
  have hgives : Gives testDevice amuletConfig (metArgument deepAmulet)
      ⟨str "a", str "1", str "d", none⟩ := by
    constructor <;> decide +kernel
  have hexact := (gives_iff_exact (by decide) (by decide) (by decide) (by decide)).mp hgives
  exact (extraction_exact holdingPart_deepAmulet (by decide) (by decide) (by decide)).1 _ hexact

/-- A label that arrives after a record value, and a holding that is reported. -/
theorem label_after_unopened_record :
    HoldingPart valuesCheckReset [.v1 [.create deepAmulet]] deepAmulet amuletConfig ∧
      (∀ e ∈ metArgument deepAmulet, e.overlong = false) ∧
      (∀ e ∈ metArgument deepAmulet, e.dotted = false) ∧
      (∀ e ∈ metArgument deepAmulet, e.roomy testDevice = true) ∧
      (∃ f ∈ deepAmulet.argument.flatMap (walkedValue 0), labelAfterRecord false f = true) ∧
      ¬ Refused valuesCheckReset
        (valuesCollectFromNode testDevice valuesCheckReset [.v1 [.create deepAmulet]]) := by
  refine ⟨holdingPart_deepAmulet, by decide, by decide, by decide, by decide, fun h => ?_⟩
  exact absurd h.2 (by decide +kernel)

end HoldingParser

end CantonSigner
