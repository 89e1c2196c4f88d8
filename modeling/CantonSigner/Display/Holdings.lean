import CantonSigner.Display.Values

/-!
# The strings of a holding

The holding pass keeps digests. `holdingString` says which strings they are digests of: the
first ones in the argument at the paths of the template, where a path is the labels of the
enclosing record fields joined by dots. `readCreate_strings` compares the two.

A walk gives up its paths when one grows too long, and it is unreadable once a path occurs
twice. `Found` says what a part of a walk has found all the same.
-/

namespace CantonSigner

open ByteCodec

namespace HoldingParser

/-! ## The fields of an argument -/

/-- A label below a path. -/
def joinPath (path label : Bytes) : Bytes :=
  path ++ (if 0 < path.length then [46] else []) ++ label

/-- The path of a record field: every occurrence of its label counts. -/
def namedPath (path : Bytes) : NamedValue → Bytes
  | .nil => path
  | .name l rest => namedPath (joinPath path l) rest
  | .value _ rest => namedPath path rest

mutual

/-- The record fields inside a value, with their paths and what they hold last. Records
below `MAX_LABEL_DEPTH` are not opened. -/
def valueFields (depth : Nat) (path : Bytes) : Value → List (Bytes × Which)
  | .nil => []
  | .record r rest =>
    (if maxLabelDepth ≤ depth then [] else recordFields (depth + 1) path r) ++
      valueFields depth path rest
  | .prim _ rest => valueFields depth path rest
  | .unit rest => valueFields depth path rest
  | .optional _ rest => valueFields depth path rest
  | .list _ rest => valueFields depth path rest
  | .textMap _ rest => valueFields depth path rest
  | .genMap _ rest => valueFields depth path rest
  | .variant _ rest => valueFields depth path rest
  | .enum _ rest => valueFields depth path rest

/-- The fields of a record, each after those inside it. -/
def recordFields (depth : Nat) (path : Bytes) : Record → List (Bytes × Which)
  | .nil => []
  | .recordId _ rest => recordFields depth path rest
  | .field f rest =>
    (namedFields depth path f ++ [(namedPath path f, f.which .none)]) ++
      recordFields depth path rest

/-- The fields inside a record field. -/
def namedFields (depth : Nat) (path : Bytes) : NamedValue → List (Bytes × Which)
  | .nil => []
  | .name l rest => namedFields depth (joinPath path l) rest
  | .value v rest => valueFields depth path v ++ namedFields depth path rest

end

/-- What a template names about its holding. -/
inductive Slot where
  | owner
  | amount
  | admin
  | instrument
deriving Repr, DecidableEq

/-- The path of a slot. -/
def Slot.path (cfg : HoldingPathConfig) : Slot → Option Bytes
  | .owner => some cfg.ownerPath
  | .amount => some cfg.amountPath
  | .admin => some cfg.adminPath
  | .instrument => cfg.idPath

/-- The string that a field gives to a slot: the instrument is a text, the others are
parties or numbers. -/
def Slot.takes (cfg : HoldingPathConfig) (slot : Slot) : Bytes × Which → Option Bytes
  | (p, .prim (.text t)) => if slot = .instrument ∧ slot.path cfg = some p then some t else none
  | (p, .prim (.party t)) | (p, .prim (.numeric t)) =>
    if slot ≠ .instrument ∧ slot.path cfg = some p then some t else none
  | _ => none

/-- The string of a create node in a slot: the first one that its argument gives. -/
def holdingString (cfg : HoldingPathConfig) (slot : Slot) (c : Create) : Option Bytes :=
  (c.argument.flatMap (valueFields 0 [])).findSome? (slot.takes cfg)

/-- The digest of a slot in a walk. -/
def Slot.digest (s : Ctx) : Slot → Option Bytes
  | .owner => s.owner
  | .amount => s.amount
  | .admin => s.admin
  | .instrument => s.instrument

/-! ## What a part of a walk finds -/

variable {d : Device} {cfg : HoldingPathConfig} {slot : Slot} {s s' s'' : Ctx}
  {l l' : List (Bytes × Which)} {path : Bytes}

/-- From `s` to `s'` the walk passed the fields `l`. -/
structure Found (d : Device) (cfg : HoldingPathConfig) (slot : Slot) (s : Ctx)
    (l : List (Bytes × Which)) (s' : Ctx) : Prop where
  readable : s'.unreadable = false → s.unreadable = false
  template : ∀ c, s'.cfg = some c → s.cfg = some c
  kept : s'.unreadable = false → ∀ x, slot.digest s = some x → slot.digest s' = some x
  found : s'.unreadable = false → ∀ x, slot.digest s' = some x → slot.digest s = some x ∨
    (s.cfg.isSome = true ∧ ∃ t, l.findSome? (slot.takes cfg) = some t ∧ x = d.sha t)
  missed : s'.unreadable = false → s'.cfg.isSome = true → slot.digest s' = none →
    l.findSome? (slot.takes cfg) = none

theorem Found.trans (h : Found d cfg slot s l s') (h' : Found d cfg slot s' l' s'') :
    Found d cfg slot s (l ++ l') s'' := by
  -- a template that is still there was there before
  have hsome : s''.cfg.isSome = true → s'.cfg.isSome = true := by
    intro hc
    obtain ⟨c, hc⟩ := Option.isSome_iff_exists.mp hc
    simp [h'.template c hc]
  -- so was a slot that is still empty
  have hempty : s''.unreadable = false → slot.digest s'' = none → slot.digest s' = none := by
    intro hread hnone
    cases hx : slot.digest s' with
    | none => rfl
    | some x => exact absurd (hnone.symm.trans (h'.kept hread x hx)) nofun
  refine ⟨fun hread => h.readable (h'.readable hread), fun c hc => h.template c (h'.template c hc),
    ?_, ?_, ?_⟩
  · intro hread x hx
    exact h'.kept hread x (h.kept (h'.readable hread) x hx)
  · intro hread x hx
    have hread' := h'.readable hread
    rcases h'.found hread x hx with hx' | ⟨hcfg, t, ht, hsha⟩
    · rcases h.found hread' x hx' with hx₀ | ⟨hcfg, t, ht, hsha⟩
      · exact .inl hx₀
      · exact .inr ⟨hcfg, t, by rw [List.findSome?_append, ht]; rfl, hsha⟩
    · -- Found later: nothing was to be found before, or it is still there.
      cases hx' : slot.digest s' with
      | none =>
        right
        obtain ⟨c, hc⟩ := Option.isSome_iff_exists.mp hcfg
        refine ⟨by simp [h.template c hc], t, ?_, hsha⟩
        rw [List.findSome?_append, h.missed hread' hcfg hx']
        exact ht
      | some y =>
        have hy := h'.kept hread y hx'
        obtain rfl : x = y := Option.some.inj (hx.symm.trans hy)
        rcases h.found hread' x hx' with hx₀ | ⟨hcfg₀, t₀, ht₀, hsha₀⟩
        · exact .inl hx₀
        · exact .inr ⟨hcfg₀, t₀, by rw [List.findSome?_append, ht₀]; rfl, hsha₀⟩
  · intro hread hcfg hnone
    rw [List.findSome?_append, h.missed (h'.readable hread) (hsome hcfg) (hempty hread hnone),
      h'.missed hread hcfg hnone]
    rfl

/-- A step that looks at no field. -/
theorem found_frame (hdigest : slot.digest s' = slot.digest s)
    (hread : s'.unreadable = false → s.unreadable = false)
    (hcfg : ∀ c, s'.cfg = some c → s.cfg = some c) : Found d cfg slot s [] s' := by
  refine ⟨hread, hcfg, ?_, ?_, fun _ _ _ => rfl⟩
  · intro _ x hx
    exact hdigest.trans hx
  · intro _ x hx
    exact .inl (hdigest.symm.trans hx)

/-- A walk that can be read and has its template stands at this path. -/
def AtPath (cfg : HoldingPathConfig) (path : Bytes) (s : Ctx) : Prop :=
  s.unreadable = false → ∀ c, s.cfg = some c → c = cfg ∧ s.path = path

/-- The paths of a template differ. -/
theorem holdingTemplates_paths : ∀ cfg ∈ holdingTemplates, cfg.ownerPath ≠ cfg.amountPath ∧
    cfg.ownerPath ≠ cfg.adminPath ∧ cfg.amountPath ≠ cfg.adminPath := by decide +kernel

/-- What a field does to a slot. -/
def SlotRead (d : Device) (cfg : HoldingPathConfig) (s : Ctx) (slot : Slot) (w : Which) : Prop :=
  slot.digest (findHoldingField d s w) =
      ((slot.takes cfg (s.path, w)).map d.sha).or (slot.digest s) ∧
    ((findHoldingField d s w).unreadable = false → s.unreadable = false ∧
      ((slot.takes cfg (s.path, w)).isSome = true → slot.digest s = none))

/-- A party is compared with the paths in turn; they differ, so one slot takes it. -/
theorem slotRead_party (hcfg : cfg ∈ holdingTemplates) (hs : s.cfg = some cfg) (slot : Slot)
    (t : Bytes) : SlotRead d cfg s slot (.prim (.party t)) := by
  obtain ⟨hoa, hod, had⟩ := holdingTemplates_paths cfg hcfg
  unfold SlotRead findHoldingField
  rw [hs]
  dsimp only
  by_cases ho : s.path = cfg.ownerPath
  · cases slot <;> simp +contextual [Slot.takes, Slot.path, Slot.digest, ho, hoa.symm, hod.symm]
  · by_cases ha : s.path = cfg.amountPath
    · cases slot <;>
        simp +contextual [Slot.takes, Slot.path, Slot.digest, ha, hoa, hoa.symm, had.symm]
    · by_cases hd : s.path = cfg.adminPath
      · cases slot <;>
          simp +contextual [Slot.takes, Slot.path, Slot.digest, hd, hod, hod.symm, had, had.symm]
      · cases slot <;> simp +contextual [Slot.takes, Slot.path, Slot.digest, ho, ha, hd, Ne.symm ho,
          Ne.symm ha, Ne.symm hd]

theorem slotRead_of_template (hcfg : cfg ∈ holdingTemplates) (hs : s.cfg = some cfg) (slot : Slot)
    (w : Which) : SlotRead d cfg s slot w := by
  have hother : findHoldingField d s w = s → slot.takes cfg (s.path, w) = none →
      SlotRead d cfg s slot w := by
    intro hsame htakes
    unfold SlotRead
    rw [hsame, htakes]
    exact ⟨rfl, fun h => ⟨h, nofun⟩⟩
  cases w with
  | prim p =>
    cases p with
    | text t =>
      unfold SlotRead findHoldingField
      rw [hs]
      dsimp only
      by_cases hp : cfg.idPath = some s.path
      · cases slot <;> simp +contextual [Slot.takes, Slot.path, Slot.digest, hp]
      · cases slot <;> simp +contextual [Slot.takes, Slot.path, Slot.digest, hp]
    | party t => exact slotRead_party hcfg hs slot t
    | numeric t => exact slotRead_party hcfg hs slot t
    | _ => exact hother (by unfold findHoldingField; rw [hs]) rfl
  | _ => exact hother (by unfold findHoldingField; rw [hs]) rfl

theorem findHoldingField_frame (s : Ctx) (w : Which) :
    (findHoldingField d s w).cfg = s.cfg ∧ (findHoldingField d s w).path = s.path ∧
      ((findHoldingField d s w).unreadable = false → s.unreadable = false) := by
  unfold findHoldingField
  grind

/-- Nothing is said of a walk that cannot be read. -/
theorem found_unreadable (hread : s'.unreadable = false → s.unreadable = false)
    (hcfg : ∀ c, s'.cfg = some c → s.cfg = some c) (hu : s.unreadable = true)
    (l : List (Bytes × Which)) : Found d cfg slot s l s' := by
  have hnot : ¬ s'.unreadable = false := by
    intro h
    rw [hread h] at hu
    cases hu
  exact ⟨hread, hcfg, fun h => absurd h hnot, fun h => absurd h hnot, fun h => absurd h hnot⟩

/-- A walk that has lost its template finds nothing. -/
theorem found_lost (hnone : s.cfg = none) (l : List (Bytes × Which))
    (h : Found d cfg slot s l' s') : Found d cfg slot s l s' := by
  refine ⟨h.readable, h.template, h.kept, ?_, ?_⟩
  · intro hread x hx
    rcases h.found hread x hx with hx₀ | ⟨hsome, -⟩
    · exact .inl hx₀
    · simp [hnone] at hsome
  · intro _ hsome
    obtain ⟨c, hc⟩ := Option.isSome_iff_exists.mp hsome
    exact absurd (hnone.symm.trans (h.template c hc)) nofun

/-- One field. -/
theorem findHoldingField_found (hcfg : cfg ∈ holdingTemplates) (hat : AtPath cfg path s)
    (w : Which) : Found d cfg slot s [(path, w)] (findHoldingField d s w) := by
  obtain ⟨hframe, -, hmono⟩ := findHoldingField_frame (d := d) s w
  have htemplate : ∀ c, (findHoldingField d s w).cfg = some c → s.cfg = some c :=
    fun c hc => hframe ▸ hc
  by_cases hu : s.unreadable = true
  · -- once unreadable, nothing is read any more
    exact found_unreadable hmono htemplate hu _
  · have hs : s.unreadable = false := by simpa using hu
    cases hc : s.cfg with
    | none =>
      -- without a template the field is passed over
      have hsame : findHoldingField d s w = s := by simp [findHoldingField, hc]
      rw [hsame]
      exact found_lost hc _ (found_frame rfl id fun _ h => h)
    | some c =>
      obtain ⟨rfl, hpath⟩ := hat hs c hc
      -- with one, the field is taken exactly if its path is that of a slot
      obtain ⟨hdigest, hread⟩ := slotRead_of_template (d := d) hcfg hc slot w
      rw [hpath] at hdigest hread
      have hone : [(path, w)].findSome? (slot.takes c) = slot.takes c (path, w) := by
        rw [List.findSome?_cons]
        cases slot.takes c (path, w) <;> rfl
      refine ⟨hmono, htemplate, ?_, ?_, ?_⟩
      · intro h x hx
        rw [hdigest]
        cases ht : slot.takes c (path, w) with
        | none => exact hx
        | some t => exact absurd (hx.symm.trans ((hread h).2 (by simp [ht]))) nofun
      · intro h x hx
        rw [hone]
        rw [hdigest] at hx
        cases ht : slot.takes c (path, w) with
        | none =>
          rw [ht] at hx
          exact .inl hx
        | some t =>
          rw [ht] at hx
          cases hx
          exact .inr ⟨by simp [hc], t, rfl, rfl⟩
      · intro _ _ hnone
        rw [hone]
        rw [hdigest] at hnone
        cases ht : slot.takes c (path, w) with
        | none => rfl
        | some t =>
          rw [ht] at hnone
          cases hnone

theorem prefix_joinPath (path l : Bytes) : path <+: joinPath path l := by
  unfold joinPath
  rw [List.append_assoc]
  exact List.prefix_append ..

theorem prefix_namedPath : ∀ (path : Bytes) (f : NamedValue), path <+: namedPath path f
  | _, .nil => List.prefix_rfl
  | path, .name l rest => (prefix_joinPath path l).trans (prefix_namedPath _ rest)
  | path, .value _ rest => prefix_namedPath path rest

/-! ## The walk -/

/-- From `s` at `path` to `s'` at `path'` the walk passed the fields `l`. -/
structure Walked (d : Device) (cfg : HoldingPathConfig) (slot : Slot) (s : Ctx)
    (l : List (Bytes × Which)) (path' : Bytes) (s' : Ctx) : Prop where
  found : Found d cfg slot s l s'
  stands : AtPath cfg path' s'

theorem Walked.trans {path' : Bytes} (h : Walked d cfg slot s l path s')
    (h' : Walked d cfg slot s' l' path' s'') : Walked d cfg slot s (l ++ l') path' s'' :=
  ⟨h.found.trans h'.found, h'.stands⟩

theorem walked_refl (hat : AtPath cfg path s) : Walked d cfg slot s [] path s :=
  ⟨found_frame rfl id fun _ h => h, hat⟩

/-- A step that looks at no field and changes no path. -/
theorem walked_frame (hat : AtPath cfg path s) (hdigest : slot.digest s' = slot.digest s)
    (hread : s'.unreadable = false → s.unreadable = false) (hcfg : s'.cfg = s.cfg)
    (hpath : s'.path = s.path) : Walked d cfg slot s [] path s' := by
  refine ⟨found_frame hdigest hread fun c hc => hcfg ▸ hc, ?_⟩
  intro h c hc
  rw [hpath]
  exact hat (hread h) c (hcfg ▸ hc)

theorem digest_unreadable (s : Ctx) (slot : Slot) :
    slot.digest { s with unreadable := true } = slot.digest s := by
  cases slot <;> rfl

theorem walked_unreadable (s : Ctx) (path : Bytes) :
    Walked d cfg slot s [] path { s with unreadable := true } :=
  ⟨found_frame (digest_unreadable s slot) nofun fun _ h => h, nofun⟩

/-- A label is appended to the path, or the template is lost. -/
theorem walked_push (hat : AtPath cfg path s) (label : Bytes) :
    Walked d cfg slot s [] (joinPath path label) (pathPush s label) := by
  have hpush : pathPush s label = { s with cfg := none } ∨
      pathPush s label = { s with path := joinPath s.path label } := by
    by_cases hlong : maxLabelPathLen ≤
        s.path.length + (if 0 < s.path.length then 1 else 0) + label.length
    · exact .inl (if_pos hlong)
    · exact .inr (if_neg hlong)
  rcases hpush with heq | heq
  · rw [heq]
    exact ⟨found_frame (by cases slot <;> rfl) id nofun, fun _ c hc => (by cases hc)⟩
  · rw [heq]
    refine ⟨found_frame (by cases slot <;> rfl) id fun _ h => h, ?_⟩
    intro hread c hc
    obtain ⟨hcfg, hpath⟩ := hat hread c hc
    exact ⟨hcfg, by rw [hpath]⟩

theorem walked_label (hat : AtPath cfg path s) (n : Nat) (label : Bytes) :
    Walked d cfg slot s [] (joinPath path label) (decodeLabel n s label) := by
  unfold decodeLabel
  dsimp only
  by_cases hn : s.recordsOpened ≠ n
  · rw [if_pos hn]
    have hbad : Walked d cfg slot s [] path { s with unreadable := true } :=
      walked_unreadable s path
    split
    · exact walked_unreadable s _
    · split
      · exact walked_unreadable s _
      · exact hbad.trans (walked_push hbad.stands label)
  · rw [if_neg hn]
    split
    · exact walked_unreadable s _
    · split
      · exact walked_unreadable s _
      · exact walked_push hat label

/-- The end of a record field: its value is looked at, and its path taken off again. -/
theorem walked_close {path' : Bytes} (hcfg : cfg ∈ holdingTemplates) (hat : AtPath cfg path s)
    (hpre : path <+: path') (h : Walked d cfg slot s l path' s') (w : Which) :
    Walked d cfg slot s (l ++ [(path', w)]) path
      { findHoldingField d s' w with
        path := (findHoldingField d s' w).path.take s.path.length } := by
  obtain ⟨hframe, hpath, hmono⟩ := findHoldingField_frame (d := d) s' w
  have hfield := h.found.trans (findHoldingField_found (d := d) hcfg h.stands w)
  constructor
  · have hback : Found d cfg slot (findHoldingField d s' w) [] { findHoldingField d s' w with
        path := (findHoldingField d s' w).path.take s.path.length } :=
      found_frame (by cases slot <;> rfl) id fun _ hc => hc
    have hrest := hfield.trans hback
    rwa [List.append_nil] at hrest
  · intro hread c hc
    have hread' := hmono hread
    obtain ⟨rfl, hp⟩ := h.stands hread' c (hframe ▸ hc)
    have hs := hat (h.found.readable hread') c (h.found.template c (hframe ▸ hc))
    refine ⟨rfl, ?_⟩
    show (findHoldingField d s' w).path.take s.path.length = path
    rw [hpath, hp, hs.2]
    exact (List.prefix_iff_eq_take.mp hpre).symm

mutual

theorem walked_value (hcfg : cfg ∈ holdingTemplates) : ∀ (depth : Nat) (v : Value) (path : Bytes)
    (s s' : Ctx), AtPath cfg path s → walkValue d depth v s = some s' →
      Walked d cfg slot s (valueFields depth path v) path s'
  | _, .nil, path, s, s', hat, h => by
    cases h
    exact walked_refl hat
  | depth, .record r rest, path, s, s', hat, h => by
    unfold walkValue at h
    unfold valueFields
    split at h
    · rename_i hdeep
      rw [if_pos hdeep]
      exact walked_value hcfg depth rest path s s' hat h
    · rename_i hdeep
      rw [if_neg hdeep]
      split at h
      · cases h
      · obtain ⟨s₁, h₁, h₂⟩ := Option.bind_eq_some_iff.mp h
        have hopen : Walked d cfg slot s [] path { s with recordsOpened := s.recordsOpened + 1 } :=
          walked_frame hat (by cases slot <;> rfl) id rfl rfl
        have hrecord := hopen.trans (walked_record hcfg (depth + 1) r path _ s₁ hopen.stands h₁)
        exact hrecord.trans (walked_value hcfg depth rest path s₁ s' hrecord.stands h₂)
  | depth, .prim _ rest, path, s, s', hat, h => walked_value hcfg depth rest path s s' hat h
  | depth, .unit rest, path, s, s', hat, h => walked_value hcfg depth rest path s s' hat h
  | depth, .optional _ rest, path, s, s', hat, h => walked_value hcfg depth rest path s s' hat h
  | depth, .list _ rest, path, s, s', hat, h => walked_value hcfg depth rest path s s' hat h
  | depth, .textMap _ rest, path, s, s', hat, h => walked_value hcfg depth rest path s s' hat h
  | depth, .genMap _ rest, path, s, s', hat, h => walked_value hcfg depth rest path s s' hat h
  | depth, .variant _ rest, path, s, s', hat, h => walked_value hcfg depth rest path s s' hat h
  | depth, .enum _ rest, path, s, s', hat, h => walked_value hcfg depth rest path s s' hat h

theorem walked_record (hcfg : cfg ∈ holdingTemplates) : ∀ (depth : Nat) (r : Record) (path : Bytes)
    (s s' : Ctx), AtPath cfg path s → walkRecord d depth r s = some s' →
      Walked d cfg slot s (recordFields depth path r) path s'
  | _, .nil, path, s, s', hat, h => by
    cases h
    exact walked_refl hat
  | depth, .recordId _ rest, path, s, s', hat, h => walked_record hcfg depth rest path s s' hat h
  | depth, .field f rest, path, s, s', hat, h => by
    obtain ⟨⟨s₁, labelled⟩, h₁, h₂⟩ := Option.bind_eq_some_iff.mp h
    have hitems := walked_named hcfg depth s.recordsOpened f path s s₁ false labelled hat h₁
    dsimp only at h₂
    -- A field without a label cannot be read.
    have hlabel : Walked d cfg slot s₁ [] (namedPath path f)
        (if !labelled && s₁.cfg.isSome then { s₁ with unreadable := true } else s₁) := by
      split
      · exact walked_unreadable s₁ _
      · exact walked_refl hitems.stands
    have hclosed := hitems.trans hlabel
    rw [List.append_nil] at hclosed
    have hback := walked_close hcfg hat (prefix_namedPath path f) hclosed (f.which .none)
    exact hback.trans (walked_record hcfg depth rest path _ s' hback.stands h₂)

theorem walked_named (hcfg : cfg ∈ holdingTemplates) : ∀ (depth n : Nat) (f : NamedValue)
    (path : Bytes) (s s' : Ctx) (b b' : Bool), AtPath cfg path s →
      walkFieldItems d depth n f s b = some (s', b') →
      Walked d cfg slot s (namedFields depth path f) (namedPath path f) s'
  | _, _, .nil, path, s, s', _, _, hat, h => by
    cases h
    exact walked_refl hat
  | depth, n, .name l rest, path, s, s', b, b', hat, h => by
    have hlabel : Walked d cfg slot s [] (joinPath path l) (decodeLabel n s l) :=
      walked_label hat n l
    have hrest := walked_named hcfg depth n rest _ _ s' true b' hlabel.stands h
    exact ⟨hlabel.found.trans hrest.found, hrest.stands⟩
  | depth, n, .value v rest, path, s, s', b, b', hat, h => by
    obtain ⟨s₁, h₁, h₂⟩ := Option.bind_eq_some_iff.mp h
    have hvalue := walked_value hcfg depth v path s s₁ hat h₁
    have hrest := walked_named hcfg depth n rest path s₁ s' b b' hvalue.stands h₂
    exact ⟨hvalue.found.trans hrest.found, hrest.stands⟩

end

/-- The argument of a create node. -/
theorem walked_argument (hcfg : cfg ∈ holdingTemplates) (vs : List Value) :
    ∀ s s' : Ctx, AtPath cfg [] s → vs.foldlM (fun s v => walkValue d 0 v s) s = some s' →
      Walked d cfg slot s (vs.flatMap (valueFields 0 [])) [] s' := by
  induction vs with
  | nil =>
    rintro s s' hat ⟨⟩
    exact walked_refl hat
  | cons v vs ih =>
    intro s s' hat h
    rw [List.foldlM_cons] at h
    obtain ⟨s₁, h₁, h₂⟩ := Option.bind_eq_some_iff.mp h
    have hv : Walked d cfg slot s (valueFields 0 [] v) [] s₁ := walked_value hcfg 0 v [] s s₁ hat h₁
    exact hv.trans (ih s₁ s' hv.stands h₂)

/-! ## Holdings and their strings -/

theorem mem_of_findHolding {id : Identifier} (h : findHolding id = some cfg) :
    cfg ∈ holdingTemplates := List.mem_of_find?_eq_some h

/-- The digests of a holding are those of the strings of its create node. -/
structure HoldingOf (d : Device) (cfg : HoldingPathConfig) (c : Create) (h : Holding)
    (i : Option Bytes) : Prop where
  owner : ∃ t, holdingString cfg .owner c = some t ∧ h.owner = d.sha t
  amount : ∃ t, holdingString cfg .amount c = some t ∧ h.amount = d.sha t
  admin : ∃ t, holdingString cfg .admin c = some t ∧ h.admin = d.sha t
  instrument : if cfg.idPath.isSome then
      ∃ t, holdingString cfg .instrument c = some t ∧ i = some (d.sha t)
    else i = none

/-- **A create node that can be read names its holding.** -/
theorem readCreate_strings {c : Create} {h : Holding} {i : Option Bytes}
    (hread : readCreate d c = some (some (h, i))) :
    ∃ id cfg, c.templateId = some id ∧ findHolding id = some cfg ∧ HoldingOf d cfg c h i := by
  unfold readCreate at hread
  split at hread
  · cases hread
  · rename_i id hid
    split at hread
    · split at hread <;> cases hread
    · rename_i cfg hfind
      obtain ⟨r, hr, heq⟩ := Option.map_eq_some_iff.mp hread
      cases heq
      obtain ⟨w, hwalk, hreport⟩ := Option.bind_eq_some_iff.mp hr
      have hcfg := mem_of_findHolding hfind
      have hat : AtPath cfg [] (Ctx.start cfg) := by
        rintro - c' ⟨⟩
        exact ⟨rfl, rfl⟩
      unfold readWalk at hreport
      split at hreport
      · rename_i owner amount admin howner hamount hadmin
        split at hreport
        · cases hreport
        · rename_i hok
          cases hreport
          simp only [Bool.or_eq_true, Bool.and_eq_true, not_or, not_and, Bool.not_eq_true,
            Option.isNone_eq_false_iff] at hok
          obtain ⟨hreadable, hid'⟩ := hok
          -- Every digest is that of the first string for its slot.
          have hstring : ∀ (slot : Slot) x, slot.digest w = some x →
              ∃ t, holdingString cfg slot c = some t ∧ x = d.sha t := by
            intro slot x hx
            have hwalked : Walked d cfg slot (Ctx.start cfg)
              (c.argument.flatMap (valueFields 0 [])) []
                w := walked_argument hcfg c.argument _ w hat hwalk
            have hfound := hwalked.found
            rcases hfound.found hreadable x hx with hstart | ⟨-, t, ht, hsha⟩
            · cases slot <;> cases hstart
            · exact ⟨t, ht, hsha⟩
          refine ⟨id, cfg, hid, hfind, hstring .owner _ howner, hstring .amount _ hamount,
            hstring .admin _ hadmin, ?_⟩
          split
          · rename_i hsome
            obtain ⟨x, hx⟩ := Option.isSome_iff_exists.mp (hid' hsome)
            obtain ⟨t, ht, rfl⟩ := hstring .instrument x hx
            exact ⟨t, ht, hx⟩
          · rfl
      · cases hreport

/-- A create node that can be read has a template that the app knows. -/
theorem readCreate_template {c : Create} (h : (readCreate d c).isSome = true) :
    ∃ id, c.templateId = some id ∧ ((findHolding id).isSome = true ∨ isNonHolding id = true) := by
  unfold readCreate at h
  split at h
  · cases h
  · rename_i id hid
    refine ⟨id, hid, ?_⟩
    split at h
    · split at h
      · rename_i hnon
        exact .inr hnon
      · cases h
    · rename_i cfg hfind
      exact .inl (by simp [hfind])

/-- It has a holding exactly if its template is one of a holding. -/
theorem createHolding_isSome {c : Create} (h : (readCreate d c).isSome = true) :
    (createHolding d c).isSome = (c.templateId.bind findHolding).isSome := by
  obtain ⟨r, hr⟩ := Option.isSome_iff_exists.mp h
  have hread := hr
  unfold readCreate at hread
  split at hread
  · cases hread
  · rename_i id hid
    split at hread
    · rename_i hnone
      split at hread
      · cases hread
        simp [createHolding, hr, hid, hnone]
      · cases hread
    · rename_i cfg hfind
      obtain ⟨x, -, rfl⟩ := Option.map_eq_some_iff.mp hread
      simp [createHolding, hr, hid, hfind]

end HoldingParser

end CantonSigner
