import CantonSigner.Display.Met

/-!
# What a walk over a create node leaves behind

- `reads_value`: a walk over a value has met what `metValue` lists, by induction on the argument;
- `walk_isSome_iff`: a walk ends unless a record is opened where the stack has no room.
-/

namespace CantonSigner

open ByteCodec

namespace HoldingParser

variable {d : Device} {cfg : HoldingPathConfig} {es fs : List Met} {e : Met} {s s' : Ctx}

/-! ## The records that are opened -/

/-- A label opens no record. -/
theorem decodeLabel_recordsOpened (n : Nat) (s : Ctx) (l : Bytes) :
    (decodeLabel n s l).recordsOpened = s.recordsOpened := by
  unfold decodeLabel
  dsimp only
  by_cases hlate : s.recordsOpened = n
  · rw [if_neg (not_not.mpr hlate)]
    split
    · rfl
    · split
      · rfl
      · exact (pathPush_frame s l).2.1
  · rw [if_pos hlate]
    split
    · rfl
    · split
      · rfl
      · exact (pathPush_frame _ l).2.1

/-- Nor does the end of a field. -/
theorem closeField_recordsOpened (s : Ctx) (b : Bool) (w : Which) (n : Nat) :
    (closeField d s b w n).recordsOpened = s.recordsOpened := by
  have hfind : ∀ s, (findHoldingField d s w).recordsOpened = s.recordsOpened := by
    intro s
    unfold findHoldingField
    grind
  show (findHoldingField d _ w).recordsOpened = _
  rw [hfind]
  split <;> rfl

/-- The counter of the records goes up exactly if a record is opened. -/
structure Opens (opened : Bool) (s s' : Ctx) : Prop where
  le : s.recordsOpened ≤ s'.recordsOpened
  iff : opened = true ↔ s.recordsOpened < s'.recordsOpened

mutual

/-- A value counts its record, and those inside it. -/
theorem opens_value : ∀ (depth : Nat) (v : Value) (s s' : Ctx), walkValue d depth v s = some s' →
    Opens (opensRecord depth v) s s'
  | _, .nil, s, s', h => by
    cases h
    exact ⟨Nat.le_refl _, by simp [opensRecord]⟩
  | depth, .record r rest, s, s', h => by
    unfold walkValue at h
    unfold opensRecord
    by_cases hdeep : maxLabelDepth ≤ depth
    · rw [if_pos hdeep] at h
      have hrest := opens_value depth rest s s' h
      rwa [decide_eq_false (Nat.not_lt.mpr hdeep), Bool.false_or]
    · rw [if_neg hdeep] at h
      split at h
      · cases h
      · obtain ⟨s₁, h₁, h₂⟩ := Option.bind_eq_some_iff.mp h
        have hrecord := opens_record (depth + 1) r _ s₁ h₁
        have hrest := (opens_value depth rest s₁ s' h₂).le
        -- The record itself has been counted.
        have hlt : s.recordsOpened < s'.recordsOpened :=
          Nat.lt_of_lt_of_le (Nat.lt_succ_self _) (Nat.le_trans hrecord hrest)
        rw [decide_eq_true (Nat.lt_of_not_le hdeep), Bool.true_or]
        exact ⟨Nat.le_of_lt hlt, iff_of_true rfl hlt⟩
  | depth, .prim _ rest, s, s', h => opens_value depth rest s s' h
  | depth, .unit rest, s, s', h => opens_value depth rest s s' h
  | depth, .optional _ rest, s, s', h => opens_value depth rest s s' h
  | depth, .list _ rest, s, s', h => opens_value depth rest s s' h
  | depth, .textMap _ rest, s, s', h => opens_value depth rest s s' h
  | depth, .genMap _ rest, s, s', h => opens_value depth rest s s' h
  | depth, .variant _ rest, s, s', h => opens_value depth rest s s' h
  | depth, .enum _ rest, s, s', h => opens_value depth rest s s' h

/-- A record counts those inside it. -/
theorem opens_record : ∀ (depth : Nat) (r : Record) (s s' : Ctx),
    walkRecord d depth r s = some s' → s.recordsOpened ≤ s'.recordsOpened
  | _, .nil, s, s', h => by
    cases h
    exact Nat.le_refl _
  | depth, .recordId _ rest, s, s', h => opens_record depth rest s s' h
  | depth, .field f rest, s, s', h => by
    obtain ⟨⟨s₁, b⟩, h₁, h₂⟩ := Option.bind_eq_some_iff.mp h
    have hitems := opens_items depth s.recordsOpened f s s₁ false b h₁
    have hrest := opens_record depth rest
      (closeField d s₁ b (f.which .none) s.path.length) s' h₂
    rw [closeField_recordsOpened] at hrest
    exact Nat.le_trans hitems hrest

/-- So does a field. -/
theorem opens_items : ∀ (depth n : Nat) (f : NamedValue) (s s' : Ctx) (b b' : Bool),
    walkFieldItems d depth n f s b = some (s', b') → s.recordsOpened ≤ s'.recordsOpened
  | _, _, .nil, s, s', _, _, h => by
    cases h
    exact Nat.le_refl _
  | depth, n, .name l rest, s, s', _, b', h => by
    have hrest := opens_items depth n rest (decodeLabel n s l) s' true b' h
    rwa [decodeLabel_recordsOpened] at hrest
  | depth, n, .value v rest, s, s', b, b', h => by
    obtain ⟨s₁, h₁, h₂⟩ := Option.bind_eq_some_iff.mp h
    exact Nat.le_trans (opens_value depth v s s₁ h₁).le (opens_items depth n rest s₁ s' b b' h₂)

end

/-! ## The walk -/

/-- What can be read to the end can be read up to any point. -/
theorem readable_of_append (h : Readable cfg (es ++ fs)) : Readable cfg es := by
  have hwritten : written es <+: written (es ++ fs) := by
    cases hlost : es.any Met.overlong with
    | true => rw [written_of_lost hlost]
    | false =>
      rw [written_of_fits hlost, written_self hlost]
      exact List.prefix_append ..
  refine ⟨fun x hx => h.labels x (List.mem_append_left _ hx),
    fun x hx => h.named x (hwritten.mem hx), fun slot => ?_⟩
  exact Nat.le_trans (hwritten.filterMap _).length_le (h.once slot)

mutual

/-- A value, by induction on it with its record and their items. -/
theorem reads_value (hcfg : cfg ∈ holdingTemplates) : ∀ (depth : Nat) (v : Value)
    (labels : List Bytes) (es : List Met) (s s' : Ctx), Reads d cfg es labels s →
      walkValue d depth v s = some s' → Reads d cfg (es ++ metValue depth labels v) labels s'
  | _, .nil, labels, es, s, s', hs, h => by
    cases h
    rwa [metValue, List.append_nil]
  | depth, .record r rest, labels, es, s, s', hs, h => by
    unfold walkValue at h
    unfold metValue
    by_cases hdeep : maxLabelDepth ≤ depth
    · rw [if_pos hdeep] at h ⊢
      exact reads_value hcfg depth rest labels es s s' hs h
    · rw [if_neg hdeep] at h ⊢
      split at h
      · cases h
      · obtain ⟨s₁, h₁, h₂⟩ := Option.bind_eq_some_iff.mp h
        have hrecord := reads_record hcfg (depth + 1) r labels _ _ s₁ (reads_opened depth hs) h₁
        have hrest := reads_value hcfg depth rest labels _ s₁ s' hrecord h₂
        simpa using hrest
  | depth, .prim _ rest, labels, es, s, s', hs, h => reads_value hcfg depth rest labels es s s' hs h
  | depth, .unit rest, labels, es, s, s', hs, h => reads_value hcfg depth rest labels es s s' hs h
  | depth, .optional _ rest, labels, es, s, s', hs, h =>
    reads_value hcfg depth rest labels es s s' hs h
  | depth, .list _ rest, labels, es, s, s', hs, h => reads_value hcfg depth rest labels es s s' hs h
  | depth, .textMap _ rest, labels, es, s, s', hs, h =>
    reads_value hcfg depth rest labels es s s' hs h
  | depth, .genMap _ rest, labels, es, s, s', hs, h =>
    reads_value hcfg depth rest labels es s s' hs h
  | depth, .variant _ rest, labels, es, s, s', hs, h =>
    reads_value hcfg depth rest labels es s s' hs h
  | depth, .enum _ rest, labels, es, s, s', hs, h => reads_value hcfg depth rest labels es s s' hs h

/-- A record. -/
theorem reads_record (hcfg : cfg ∈ holdingTemplates) : ∀ (depth : Nat) (r : Record)
    (labels : List Bytes) (es : List Met) (s s' : Ctx), Reads d cfg es labels s →
      walkRecord d depth r s = some s' → Reads d cfg (es ++ metRecord depth labels r) labels s'
  | _, .nil, labels, es, s, s', hs, h => by
    cases h
    rwa [metRecord, List.append_nil]
  | depth, .recordId _ rest, labels, es, s, s', hs, h =>
    reads_record hcfg depth rest labels es s s' hs h
  | depth, .field f rest, labels, es, s, s', hs, h => by
    obtain ⟨⟨s₁, b⟩, h₁, h₂⟩ := Option.bind_eq_some_iff.mp h
    obtain ⟨hitems, hb⟩ := reads_items hcfg depth s.recordsOpened f labels es s s₁ false b false hs
      (by simp) h₁
    rw [Bool.false_or] at hb
    subst hb
    -- The path was cut back to where the field began.
    have hclosed := reads_field hcfg (d := d) (w := f.which .none) (n := s.path.length) hitems
      (b := !(names f).isEmpty) fun hes hfits => by
        rw [List.any_append, Bool.or_eq_false_iff] at hfits
        rw [hs.path (readable_of_append hes) hfits.1]
    have hrest := reads_record hcfg depth rest labels _ _ s' hclosed h₂
    simpa [metRecord] using hrest

/-- The items of a field, whose label may come late. -/
theorem reads_items (hcfg : cfg ∈ holdingTemplates) : ∀ (depth n : Nat) (f : NamedValue)
    (labels : List Bytes) (es : List Met) (s s' : Ctx) (b b' opened : Bool),
      Reads d cfg es labels s → (opened = true ↔ n < s.recordsOpened) ∧ n ≤ s.recordsOpened →
      walkFieldItems d depth n f s b = some (s', b') →
      Reads d cfg (es ++ metItems depth labels opened f) (labels ++ names f) s' ∧
        b' = (b || !(names f).isEmpty)
  | _, _, .nil, labels, es, s, s', b, _, _, hs, _, h => by
    cases h
    simpa [metItems, names] using hs
  | depth, n, .name l rest, labels, es, s, s', b, b', opened, hs, ho, h => by
    have hlate : opened = decide (s.recordsOpened ≠ n) := by
      rw [Bool.eq_iff_iff, ho.1, decide_eq_true_eq]
      omega
    have hlabel := reads_label (l := l) hs hlate
    obtain ⟨hrest, hb⟩ := reads_items hcfg depth n rest (labels ++ [l]) _ _ s' true b' opened hlabel
      (by rwa [decodeLabel_recordsOpened]) h
    refine ⟨?_, by simpa [names] using hb⟩
    simpa [metItems, names] using hrest
  | depth, n, .value v rest, labels, es, s, s', b, b', opened, hs, ho, h => by
    obtain ⟨s₁, h₁, h₂⟩ := Option.bind_eq_some_iff.mp h
    have hvalue := reads_value hcfg depth v labels es s s₁ hs h₁
    have hopens := opens_value depth v s s₁ h₁
    have ho₁ : ((opened || opensRecord depth v) = true ↔ n < s₁.recordsOpened) ∧
        n ≤ s₁.recordsOpened := by
      have hle := hopens.le
      rw [Bool.or_eq_true, ho.1, hopens.iff]
      omega
    obtain ⟨hrest, hb⟩ := reads_items hcfg depth n rest labels _ s₁ s' b b' _ hvalue ho₁ h₂
    refine ⟨?_, by simpa [names] using hb⟩
    simpa [metItems, names] using hrest

end

/-- The argument of a create node. -/
theorem reads_argument (hcfg : cfg ∈ holdingTemplates) (vs : List Value) :
    ∀ (es : List Met) (s s' : Ctx), Reads d cfg es [] s →
      vs.foldlM (fun s v => walkValue d 0 v s) s = some s' →
      Reads d cfg (es ++ vs.flatMap (metValue 0 [])) [] s' := by
  induction vs with
  | nil =>
    rintro es s s' hs ⟨⟩
    simpa using hs
  | cons v vs ih =>
    intro es s s' hs h
    rw [List.foldlM_cons] at h
    obtain ⟨s₁, h₁, h₂⟩ := Option.bind_eq_some_iff.mp h
    have hv : Reads d cfg (es ++ metValue 0 [] v) [] s₁ := reads_value hcfg 0 v [] es s s₁ hs h₁
    have hvs := ih _ s₁ s' hv h₂
    simpa using hvs

/-! ## Where a walk ends early -/

mutual

/-- A value is walked to its end unless the stack has no room for a record in it. -/
theorem walkValue_isSome : ∀ (depth : Nat) (v : Value) (labels : List Bytes) (s : Ctx),
    (walkValue d depth v s).isSome = true ↔ ∀ e ∈ metValue depth labels v, e.roomy d = true
  | _, .nil, labels, s => by simp [walkValue, metValue]
  | depth, .record r rest, labels, s => by
    unfold walkValue metValue
    by_cases hdeep : maxLabelDepth ≤ depth
    · rw [if_pos hdeep, if_pos hdeep, List.nil_append]
      exact walkValue_isSome depth rest labels s
    · rw [if_neg hdeep, if_neg hdeep, List.cons_append, List.forall_mem_cons]
      have hopen : (Met.opened depth).roomy d = d.stackHasRoom (stackAt depth) := rfl
      rw [hopen]
      cases d.stackHasRoom (stackAt depth) with
      | false => simp
      | true =>
        have hrecord := walkRecord_isSome (depth + 1) r labels
          { s with recordsOpened := s.recordsOpened + 1 }
        rw [and_iff_right rfl, List.forall_mem_append, ← hrecord]
        exact Option.isSome_bind_iff (walkValue_isSome depth rest labels)
  | depth, .prim _ rest, labels, s => walkValue_isSome depth rest labels s
  | depth, .unit rest, labels, s => walkValue_isSome depth rest labels s
  | depth, .optional _ rest, labels, s => walkValue_isSome depth rest labels s
  | depth, .list _ rest, labels, s => walkValue_isSome depth rest labels s
  | depth, .textMap _ rest, labels, s => walkValue_isSome depth rest labels s
  | depth, .genMap _ rest, labels, s => walkValue_isSome depth rest labels s
  | depth, .variant _ rest, labels, s => walkValue_isSome depth rest labels s
  | depth, .enum _ rest, labels, s => walkValue_isSome depth rest labels s

/-- A record. -/
theorem walkRecord_isSome : ∀ (depth : Nat) (r : Record) (labels : List Bytes) (s : Ctx),
    (walkRecord d depth r s).isSome = true ↔ ∀ e ∈ metRecord depth labels r, e.roomy d = true
  | _, .nil, labels, s => by simp [walkRecord, metRecord]
  | depth, .recordId _ rest, labels, s => walkRecord_isSome depth rest labels s
  | depth, .field f rest, labels, s => by
    have hitems := walkFieldItems_isSome depth s.recordsOpened f labels false s false
    unfold metRecord
    rw [List.forall_mem_append, List.forall_mem_cons, ← hitems,
      and_iff_right (show (Met.field _ _ _).roomy d = true from rfl)]
    exact Option.isSome_bind_iff fun r => walkRecord_isSome depth rest labels
      (closeField d r.1 r.2 (f.which .none) s.path.length)

/-- The items of a field. -/
theorem walkFieldItems_isSome : ∀ (depth n : Nat) (f : NamedValue) (labels : List Bytes)
    (opened : Bool) (s : Ctx) (b : Bool), (walkFieldItems d depth n f s b).isSome = true ↔
      ∀ e ∈ metItems depth labels opened f, e.roomy d = true
  | _, _, .nil, labels, opened, s, b => by simp [walkFieldItems, metItems]
  | depth, n, .name l rest, labels, opened, s, b => by
    unfold metItems
    rw [List.forall_mem_cons]
    have hrest := walkFieldItems_isSome depth n rest (labels ++ [l]) opened (decodeLabel n s l) true
    exact hrest.trans (and_iff_right rfl).symm
  | depth, n, .value v rest, labels, opened, s, b => by
    have hvalue := walkValue_isSome depth v labels s
    unfold metItems
    rw [List.forall_mem_append, ← hvalue]
    exact Option.isSome_bind_iff fun s₁ =>
      walkFieldItems_isSome depth n rest labels (opened || opensRecord depth v) s₁ b

end

/-- The walk over an argument ends unless a record is opened where the stack has no room. -/
theorem walk_isSome_iff (vs : List Value) : ∀ s : Ctx,
    (vs.foldlM (fun s v => walkValue d 0 v s) s).isSome = true ↔
      ∀ e ∈ vs.flatMap (metValue 0 []), e.roomy d = true := by
  induction vs with
  | nil => simp
  | cons v vs ih =>
    intro s
    have hv := walkValue_isSome (d := d) 0 v [] s
    rw [List.foldlM_cons, List.flatMap_cons, List.forall_mem_append, ← hv]
    exact Option.isSome_bind_iff ih

end HoldingParser

end CantonSigner
