import CantonSigner.Display.Paths

/-!
# What a walk over a create node meets

The holding walker keeps one path, cuts it back after every field, and says in two ways that
it cannot go on: a flag, and a template that it drops. `metValue` lists what such a walk meets,
with the labels above it, from the argument alone; `Readable` says which lists can be read.

- `Reads`: a walk has met these events, and stands at these labels;
- `reads_label`, `reads_field`: one event.
-/

namespace CantonSigner

open ByteCodec

namespace HoldingParser

/-! ## Events -/

/-- The path of a field below these labels. -/
def pathOf (labels : List Bytes) : Bytes := labels.foldl joinPath []

/-- What a walk meets: a record that it opens, a label of a field, and the end of a field. -/
inductive Met where
  | opened (depth : Nat)
  | label (labels : List Bytes) (l : Bytes) (late : Bool)
  | field (labels : List Bytes) (labelled : Bool) (w : Which)

/-- A value opens a record. -/
def opensRecord (depth : Nat) : Value → Bool
  | .nil => false
  | .record _ rest => decide (depth < maxLabelDepth) || opensRecord depth rest
  | .prim _ rest => opensRecord depth rest
  | .unit rest => opensRecord depth rest
  | .optional _ rest => opensRecord depth rest
  | .list _ rest => opensRecord depth rest
  | .textMap _ rest => opensRecord depth rest
  | .genMap _ rest => opensRecord depth rest
  | .variant _ rest => opensRecord depth rest
  | .enum _ rest => opensRecord depth rest

/-- The labels of a field. -/
def names : NamedValue → List Bytes
  | .nil => []
  | .name l rest => l :: names rest
  | .value _ rest => names rest

mutual

/-- What a walk over a value below these labels meets. -/
def metValue (depth : Nat) (labels : List Bytes) : Value → List Met
  | .nil => []
  | .record r rest =>
    (if maxLabelDepth ≤ depth then [] else .opened depth :: metRecord (depth + 1) labels r) ++
      metValue depth labels rest
  | .prim _ rest => metValue depth labels rest
  | .unit rest => metValue depth labels rest
  | .optional _ rest => metValue depth labels rest
  | .list _ rest => metValue depth labels rest
  | .textMap _ rest => metValue depth labels rest
  | .genMap _ rest => metValue depth labels rest
  | .variant _ rest => metValue depth labels rest
  | .enum _ rest => metValue depth labels rest

/-- A record: what is in each field, then the field. -/
def metRecord (depth : Nat) (labels : List Bytes) : Record → List Met
  | .nil => []
  | .recordId _ rest => metRecord depth labels rest
  | .field f rest =>
    metItems depth labels false f ++
      .field (labels ++ names f) (!(names f).isEmpty) (f.which .none) :: metRecord depth labels rest

/-- A field, in the order of its occurrences. A label is late if a record was opened before. -/
def metItems (depth : Nat) (labels : List Bytes) (opened : Bool) : NamedValue → List Met
  | .nil => []
  | .name l rest => .label labels l opened :: metItems depth (labels ++ [l]) opened rest
  | .value v rest =>
    metValue depth labels v ++ metItems depth labels (opened || opensRecord depth v) rest

end

/-- What the walk over an argument meets. -/
def metArgument (c : Create) : List Met := c.argument.flatMap (metValue 0 [])

namespace Met

/-- The path with this label does not fit the buffer. -/
def overlong : Met → Bool
  | .label labels l _ => decide (maxLabelPathLen ≤ (pathOf (labels ++ [l])).length)
  | _ => false

/-- A label that is not read: one that comes late, is too long or empty, or has a NUL. -/
def misread : Met → Bool
  | .label _ l late =>
    late || decide (defaultDecodeBufferSize ≤ l.length) || l.isEmpty || l.contains 0
  | _ => false

/-- A field without a label. -/
def unlabelled : Met → Bool
  | .field _ labelled _ => !labelled
  | _ => false

/-- The string that a field gives to a slot. -/
def gives (cfg : HoldingPathConfig) (slot : Slot) : Met → Option Bytes
  | .field labels _ w => slot.takes cfg (pathOf labels, w)
  | _ => none

/-- The stack has room for a record that is opened. -/
def roomy (d : Device) : Met → Bool
  | .opened depth => d.stackHasRoom (stackAt depth)
  | _ => true

end Met

/-- What is met before the first path that does not fit: from there on nothing is matched. -/
def written (es : List Met) : List Met := es.takeWhile fun e => !e.overlong

/-- The strings for a slot that are matched. -/
def slotStrings (cfg : HoldingPathConfig) (slot : Slot) (es : List Met) : List Bytes :=
  (written es).filterMap (Met.gives cfg slot)

/-- A walk that meets this can be read: all labels are good, the fields that are matched have
labels, and no slot gets two strings. -/
structure Readable (cfg : HoldingPathConfig) (es : List Met) : Prop where
  labels : ∀ e ∈ es, e.misread = false
  named : ∀ e ∈ written es, e.unlabelled = false
  once : ∀ slot, (slotStrings cfg slot es).length ≤ 1

/-! ## One more event -/

variable {d : Device} {cfg : HoldingPathConfig} {es fs : List Met} {e : Met} {s s' : Ctx}
  {labels : List Bytes}

/-- Before a path was too long, everything counts. -/
theorem written_of_fits (h : es.any Met.overlong = false) (fs : List Met) :
    written (es ++ fs) = es ++ written fs := by
  refine List.takeWhile_append_of_pos fun e he => ?_
  rw [Bool.not_eq_true', ← Bool.not_eq_true]
  exact List.any_eq_false.mp h e he

theorem written_self (h : es.any Met.overlong = false) : written es = es := by
  have hnil := written_of_fits h []
  rw [List.append_nil] at hnil
  exact hnil.trans (List.append_nil es)

/-- After that, nothing does. -/
theorem written_of_lost (h : es.any Met.overlong = true) (fs : List Met) :
    written (es ++ fs) = written es := by
  induction es with
  | nil => cases h
  | cons e es ih =>
    unfold written at ih ⊢
    rw [List.cons_append, List.takeWhile_cons, List.takeWhile_cons]
    cases he : e.overlong with
    | true => rfl
    | false =>
      rw [List.any_cons, he, Bool.false_or] at h
      rw [Bool.not_false, if_pos rfl, if_pos rfl, ih h]

theorem any_overlong_concat :
    (es ++ [e]).any Met.overlong = (es.any Met.overlong || e.overlong) := by
  simp

/-- An event that closes no field gives nothing to a slot. -/
theorem slotStrings_concat {slot : Slot} (h : e.gives cfg slot = none) :
    slotStrings cfg slot (es ++ [e]) = slotStrings cfg slot es := by
  unfold slotStrings
  cases hlost : es.any Met.overlong with
  | true => rw [written_of_lost hlost]
  | false =>
    rw [written_of_fits hlost, written_self hlost, List.filterMap_append]
    cases he : e.overlong <;> simp [written, he, h]

theorem mem_written_concat {x : Met} (h : x ∈ written (es ++ [e])) : x ∈ written es ∨ x = e := by
  cases hlost : es.any Met.overlong with
  | true => exact .inl (written_of_lost hlost [e] ▸ h)
  | false =>
    rw [written_of_fits hlost] at h
    rw [written_self hlost]
    refine (List.mem_append.mp h).imp_right fun hx => ?_
    exact List.mem_singleton.mp ((List.takeWhile_prefix _).mem hx)

theorem written_subset_concat {x : Met} (h : x ∈ written es) : x ∈ written (es ++ [e]) := by
  cases hlost : es.any Met.overlong with
  | true => rwa [written_of_lost hlost]
  | false =>
    rw [written_self hlost] at h
    rw [written_of_fits hlost]
    exact List.mem_append_left _ h

/-- An event that closes no field is read if it is no bad label. -/
theorem readable_concat (hgives : ∀ slot, e.gives cfg slot = none) (hnamed : e.unlabelled = false) :
    Readable cfg (es ++ [e]) ↔ Readable cfg es ∧ e.misread = false := by
  constructor
  · intro h
    refine ⟨⟨?_, fun x hx => h.named x (written_subset_concat hx), fun slot => ?_⟩, ?_⟩
    · exact fun x hx => h.labels x (List.mem_append_left _ hx)
    · rw [← slotStrings_concat (hgives slot)]
      exact h.once slot
    · exact h.labels e (by simp)
  · rintro ⟨h, hread⟩
    refine ⟨?_, fun x hx => ?_, fun slot => ?_⟩
    · simp only [List.mem_append, List.mem_singleton]
      rintro x (hx | rfl)
      · exact h.labels x hx
      · exact hread
    · rcases mem_written_concat hx with hx | rfl
      · exact h.named x hx
      · exact hnamed
    · rw [slotStrings_concat (hgives slot)]
      exact h.once slot

/-- A field is read, once the template is lost, as it stands. -/
theorem readable_field_lost {b : Bool} {w : Which} (hlost : es.any Met.overlong = true) :
    Readable cfg (es ++ [.field labels b w]) ↔ Readable cfg es := by
  have hwritten := written_of_lost hlost [.field labels b w]
  have hstrings : ∀ slot, slotStrings cfg slot (es ++ [.field labels b w]) =
      slotStrings cfg slot es := fun slot => by rw [slotStrings, hwritten, slotStrings]
  constructor
  · intro h
    refine ⟨fun x hx => h.labels x (List.mem_append_left _ hx), ?_, fun slot => ?_⟩
    · rw [← hwritten]
      exact h.named
    · rw [← hstrings]
      exact h.once slot
  · intro h
    refine ⟨?_, ?_, fun slot => ?_⟩
    · simp only [List.mem_append, List.mem_singleton]
      rintro x (hx | rfl)
      · exact h.labels x hx
      · rfl
    · rw [hwritten]
      exact h.named
    · rw [hstrings]
      exact h.once slot

theorem slotStrings_field {b : Bool} {w : Which} (hfits : es.any Met.overlong = false)
    (slot : Slot) : slotStrings cfg slot (es ++ [.field labels b w]) =
      slotStrings cfg slot es ++ (slot.takes cfg (pathOf labels, w)).toList := by
  unfold slotStrings
  rw [written_of_fits hfits, written_self hfits, List.filterMap_append]
  cases h : slot.takes cfg (pathOf labels, w) <;> simp [written, Met.overlong, Met.gives, h]

/-- Before that, it needs a label, and slots that are still empty. -/
theorem readable_field {b : Bool} {w : Which} (hfits : es.any Met.overlong = false) :
    Readable cfg (es ++ [.field labels b w]) ↔ Readable cfg es ∧ b = true ∧
      ∀ slot, (slot.takes cfg (pathOf labels, w)).isSome = true → slotStrings cfg slot es = [] := by
  have hwritten : written (es ++ [.field labels b w]) = es ++ [.field labels b w] := by
    rw [written_of_fits hfits]
    simp [written, Met.overlong]
  constructor
  · intro h
    refine ⟨⟨fun x hx => h.labels x (List.mem_append_left _ hx),
      fun x hx => h.named x (written_subset_concat hx), fun slot => ?_⟩, ?_, fun slot hs => ?_⟩
    · have hlen := h.once slot
      rw [slotStrings_field hfits, List.length_append] at hlen
      omega
    · simpa [Met.unlabelled] using h.named (.field labels b w) (by rw [hwritten]; simp)
    · have hlen := h.once slot
      obtain ⟨t, ht⟩ := Option.isSome_iff_exists.mp hs
      rw [slotStrings_field hfits, ht, List.length_append, Option.toList_some,
        List.length_singleton] at hlen
      exact List.eq_nil_of_length_eq_zero (by omega)
  · rintro ⟨h, hb, hempty⟩
    refine ⟨?_, fun x hx => ?_, fun slot => ?_⟩
    · simp only [List.mem_append, List.mem_singleton]
      rintro x (hx | rfl)
      · exact h.labels x hx
      · rfl
    · rcases mem_written_concat hx with hx | rfl
      · exact h.named x hx
      · simp [Met.unlabelled, hb]
    · rw [slotStrings_field hfits]
      cases ht : slot.takes cfg (pathOf labels, w) with
      | none => simpa using h.once slot
      | some t => simp [hempty slot (by simp [ht])]

/-! ## What is left of a walk -/

/-- The walk has met these events, and stands below these labels. Once it is unreadable, no more
than that is known. -/
structure Reads (d : Device) (cfg : HoldingPathConfig) (es : List Met) (labels : List Bytes)
    (s : Ctx) : Prop where
  readable : s.unreadable = false ↔ Readable cfg es
  template : Readable cfg es → s.cfg = if es.any Met.overlong then none else some cfg
  path : Readable cfg es → es.any Met.overlong = false → s.path = pathOf labels
  digest : Readable cfg es → ∀ slot, slot.digest s = (slotStrings cfg slot es).head?.map d.sha

theorem reads_start : Reads d cfg [] [] (Ctx.start cfg) := by
  have hreadable : Readable cfg [] := ⟨nofun, nofun, fun _ => Nat.zero_le _⟩
  refine ⟨iff_of_true rfl hreadable, fun _ => rfl, fun _ _ => rfl, fun _ slot => ?_⟩
  cases slot <;> rfl

theorem pathOf_concat (labels : List Bytes) (l : Bytes) :
    pathOf (labels ++ [l]) = joinPath (pathOf labels) l := List.foldl_concat ..

/-- A record is opened. -/
theorem reads_opened (depth : Nat) (h : Reads d cfg es labels s) :
    Reads d cfg (es ++ [.opened depth]) labels { s with recordsOpened := s.recordsOpened + 1 } := by
  have hiff : Readable cfg (es ++ [.opened depth]) ↔ Readable cfg es := by
    rw [readable_concat (fun _ => rfl) rfl]
    exact and_iff_left rfl
  have hany : (es ++ [Met.opened depth]).any Met.overlong = es.any Met.overlong := by
    simp [Met.overlong]
  refine ⟨h.readable.trans hiff.symm, ?_, ?_, ?_⟩
  · rw [hiff, hany]
    exact h.template
  · rw [hiff, hany]
    exact h.path
  · intro hread slot
    rw [slotStrings_concat rfl]
    refine Eq.trans ?_ (h.digest (hiff.mp hread) slot)
    cases slot <;> rfl

/-- A path that cannot be read is not looked at. -/
theorem reads_unreadable (hu : s.unreadable = true) (hbad : ¬ Readable cfg es) :
    Reads d cfg es labels s := by
  refine ⟨iff_of_false (by simp [hu]) hbad, ?_, ?_, ?_⟩
  all_goals exact fun h => absurd h hbad

theorem length_joinPath (path l : Bytes) : (joinPath path l).length =
    path.length + (if 0 < path.length then 1 else 0) + l.length := by
  unfold joinPath
  by_cases h : 0 < path.length
  · rw [if_pos h, if_pos h, List.length_append, List.length_append, List.length_singleton]
  · rw [if_neg h, if_neg h, List.length_append, List.length_append, List.length_nil]

theorem pathPush_eq (s : Ctx) (l : Bytes) : pathPush s l =
    if maxLabelPathLen ≤ (joinPath s.path l).length then { s with cfg := none }
    else { s with path := joinPath s.path l } := by
  rw [length_joinPath]
  rfl

theorem pathPush_frame (s : Ctx) (l : Bytes) :
    (pathPush s l).unreadable = s.unreadable ∧ (pathPush s l).recordsOpened = s.recordsOpened ∧
      ∀ slot : Slot, slot.digest (pathPush s l) = slot.digest s := by
  rw [pathPush_eq]
  by_cases h : maxLabelPathLen ≤ (joinPath s.path l).length
  · rw [if_pos h]
    exact ⟨rfl, rfl, fun slot => by cases slot <;> rfl⟩
  · rw [if_neg h]
    exact ⟨rfl, rfl, fun slot => by cases slot <;> rfl⟩

/-- Whatever is wrong with a label, the walk cannot be read any more. -/
theorem decodeLabel_misread {n : Nat} {l : Bytes} {late : Bool}
    (hlate : late = decide (s.recordsOpened ≠ n))
    (hbad : (Met.label labels l late).misread = true) :
    (decodeLabel n s l).unreadable = true := by
  unfold decodeLabel
  by_cases hlong : defaultDecodeBufferSize ≤ l.length
  · simp [hlong]
  · by_cases hsmall : (l.isEmpty || l.contains 0) = true
    · simp only [hlong, hsmall, if_false, if_true]
    · have hopened : s.recordsOpened ≠ n := by
        simp only [Met.misread, hlong, decide_false, Bool.or_false, Bool.or_assoc, hsmall] at hbad
        simpa [hlate] using hbad
      rw [if_pos hopened]
      simp only [hlong, hsmall, if_false]
      exact (pathPush_frame _ l).1

theorem decodeLabel_good {n : Nat} {l : Bytes} {late : Bool}
    (hlate : late = decide (s.recordsOpened ≠ n))
    (hgood : (Met.label labels l late).misread = false) : decodeLabel n s l = pathPush s l := by
  simp only [Met.misread, Bool.or_eq_false_iff, hlate, decide_eq_false_iff_not, not_not] at hgood
  obtain ⟨⟨⟨hopened, hlong⟩, hempty⟩, hnul⟩ := hgood
  have hgood : ¬ (l.isEmpty || l.contains 0) = true := by rw [hempty, hnul]; exact nofun
  unfold decodeLabel
  rw [if_neg (not_not.mpr hopened), if_neg hlong, if_neg hgood]

/-- A label is read. -/
theorem reads_label {n : Nat} {l : Bytes} {late : Bool} (h : Reads d cfg es labels s)
    (hlate : late = decide (s.recordsOpened ≠ n)) :
    Reads d cfg (es ++ [.label labels l late]) (labels ++ [l]) (decodeLabel n s l) := by
  have hiff : Readable cfg (es ++ [.label labels l late]) ↔
      Readable cfg es ∧ (Met.label labels l late).misread = false :=
    readable_concat (fun _ => rfl) rfl
  cases hbad : (Met.label labels l late).misread with
  -- a label that is misread ends the reading
  | true =>
    exact reads_unreadable (decodeLabel_misread hlate hbad) (by simp [hiff, hbad])
  | false =>
    have hread : Readable cfg (es ++ [.label labels l late]) ↔ Readable cfg es := by
      rw [hiff]
      exact and_iff_left hbad
    obtain ⟨hframe, -, hdigest⟩ := pathPush_frame s l
    rw [decodeLabel_good hlate hbad]
    refine ⟨?_, ?_, ?_, ?_⟩
    · -- the template is lost exactly if the path has become too long
      rw [hframe, hread]
      exact h.readable
    · intro hes
      rw [hread] at hes
      have htemplate := h.template hes
      rw [any_overlong_concat, pathPush_eq]
      cases hlost : es.any Met.overlong with
      | true =>
        rw [hlost] at htemplate
        split <;> simp [htemplate]
      | false =>
        rw [hlost] at htemplate
        have hpath := h.path hes hlost
        rw [hpath, ← pathOf_concat, Bool.false_or]
        by_cases hlong : maxLabelPathLen ≤ (pathOf (labels ++ [l])).length
        · rw [if_pos hlong, if_pos (by simpa [Met.overlong] using hlong)]
        · rw [if_neg hlong, if_neg (by simpa [Met.overlong] using hlong)]
          exact htemplate
    · -- the path grows by the label
      intro hes hfits
      rw [any_overlong_concat, Bool.or_eq_false_iff] at hfits
      have hpath := h.path (hread.mp hes) hfits.1
      have hlong : ¬ maxLabelPathLen ≤ (joinPath s.path l).length := by
        rw [hpath, ← pathOf_concat]
        simpa [Met.overlong] using hfits.2
      rw [pathPush_eq, if_neg hlong, pathOf_concat, ← hpath]
    · -- no digest changes
      intro hes slot
      rw [hdigest, slotStrings_concat rfl]
      exact h.digest (hread.mp hes) slot

/-- A field that matches a slot that is still empty leaves the walk readable. -/
theorem findHoldingField_readable (hs : s.cfg = some cfg) {w : Which} (hread : s.unreadable = false)
    (hempty : ∀ slot : Slot, (slot.takes cfg (s.path, w)).isSome = true → slot.digest s = none) :
    (findHoldingField d s w).unreadable = false := by
  have howner := hempty .owner
  have hamount := hempty .amount
  have hadmin := hempty .admin
  have hinstrument := hempty .instrument
  unfold findHoldingField
  rw [hs]
  split <;> grind [Slot.takes, Slot.path, Slot.digest]

/-- What `decode_record_field` does after the occurrences of a field: a field without a label
is unreadable, the field is matched, and the path is cut back. -/
def closeField (d : Device) (s : Ctx) (labelled : Bool) (w : Which) (n : Nat) : Ctx :=
  let s := if !labelled && s.cfg.isSome then { s with unreadable := true } else s
  let s := findHoldingField d s w
  { s with path := s.path.take n }

theorem prefix_pathOf (labels more : List Bytes) : pathOf labels <+: pathOf (labels ++ more) := by
  induction more using List.reverseRecOn with
  | nil => rw [List.append_nil]
  | append_singleton more l ih =>
    rw [← List.append_assoc, pathOf_concat]
    exact ih.trans (prefix_joinPath _ l)

theorem closeField_unreadable {b : Bool} {w : Which} {n : Nat}
    (h : (closeField d s b w n).unreadable = false) : s.unreadable = false := by
  have hclosed := (findHoldingField_frame (d := d) _ w).2.2 h
  split at hclosed
  · cases hclosed
  · exact hclosed

/-- After the template was lost, a field changes nothing. -/
theorem reads_field_lost {more : List Bytes} {b : Bool} {w : Which} {n : Nat}
    (h : Reads d cfg es (labels ++ more) s) (hes : Readable cfg es)
    (hlost : es.any Met.overlong = true) :
    Reads d cfg (es ++ [.field (labels ++ more) b w]) labels (closeField d s b w n) := by
  have hnone : s.cfg = none := by rw [h.template hes, if_pos hlost]
  have hsame : closeField d s b w n = { s with path := s.path.take n } := by
    simp [closeField, hnone, findHoldingField]
  have hiff : Readable cfg (es ++ [.field (labels ++ more) b w]) ↔ Readable cfg es :=
    readable_field_lost hlost
  rw [hsame]
  refine ⟨h.readable.trans hiff.symm, fun _ => ?_, fun _ hfits => ?_, fun _ slot => ?_⟩
  · rw [any_overlong_concat, hlost]
    exact hnone
  · rw [any_overlong_concat, hlost] at hfits
    cases hfits
  · rw [slotStrings, written_of_lost hlost, ← slotStrings, ← h.digest hes slot]
    cases slot <;> rfl

/-- Before that, the field is matched with the slots. -/
theorem reads_field_fits (hcfg : cfg ∈ holdingTemplates) {more : List Bytes} {b : Bool} {w : Which}
    (h : Reads d cfg es (labels ++ more) s) (hes : Readable cfg es)
    (hfits : es.any Met.overlong = false) :
    Reads d cfg (es ++ [.field (labels ++ more) b w]) labels
      (closeField d s b w (pathOf labels).length) := by
  have hs : s.cfg = some cfg := by rw [h.template hes, if_neg (by simp [hfits])]
  have hpath := h.path hes hfits
  have hiff : Readable cfg (es ++ [.field (labels ++ more) b w]) ↔ _ := readable_field hfits
  -- A slot is empty if nothing was met for it.
  have hempty : ∀ slot : Slot, slot.digest s = none ↔ slotStrings cfg slot es = [] := by
    intro slot
    rw [h.digest hes slot, Option.map_eq_none_iff, List.head?_eq_none_iff]
  cases b with
  | false =>
    refine reads_unreadable ?_ (by simp [hiff])
    have hmono := (findHoldingField_frame (d := d) { s with unreadable := true } w).2.2
    simp only [closeField, hs, Option.isSome_some, Bool.not_false, Bool.and_true, if_true]
    cases hu : (findHoldingField d { s with unreadable := true } w).unreadable with
    | true => simpa [hs] using hu
    | false => cases hmono hu
  | true =>
    have hclose : closeField d s true w (pathOf labels).length =
        { findHoldingField d s w with
          path := (findHoldingField d s w).path.take (pathOf labels).length } := rfl
    have hread := fun slot => slotRead_of_template (d := d) hcfg hs slot w
    obtain ⟨hframe, hkept, -⟩ := findHoldingField_frame (d := d) s w
    rw [hclose]
    by_cases hnew : ∀ slot : Slot,
        (slot.takes cfg (pathOf (labels ++ more), w)).isSome = true → slotStrings cfg slot es = []
    · have hok : (findHoldingField d s w).unreadable = false := by
        refine findHoldingField_readable hs (h.readable.mpr hes) fun slot htakes => ?_
        rw [hpath] at htakes
        exact (hempty slot).mpr (hnew slot htakes)
      refine ⟨iff_of_true hok (hiff.mpr ⟨hes, rfl, hnew⟩), fun _ => ?_, fun _ _ => ?_,
        fun _ slot => ?_⟩
      · rw [any_overlong_concat, hfits]
        exact hframe.trans hs
      · show (findHoldingField d s w).path.take _ = _
        rw [hkept, hpath]
        exact (List.prefix_iff_eq_take.mp (prefix_pathOf labels more)).symm
      · have hdigest := (hread slot).1
        rw [hpath] at hdigest
        rw [slotStrings_field hfits]
        refine Eq.trans ?_ (hdigest.trans ?_)
        · cases slot <;> rfl
        · cases ht : slot.takes cfg (pathOf (labels ++ more), w) with
          | none => simpa using h.digest hes slot
          | some t => simp [hnew slot (by simp [ht])]
    · refine reads_unreadable ?_ (by rw [hiff]; exact fun h => hnew h.2.2)
      show (findHoldingField d s w).unreadable = true
      by_contra hu
      rw [Bool.not_eq_true] at hu
      refine hnew fun slot htakes => (hempty slot).mp (((hread slot).2 hu).2 ?_)
      rwa [hpath]

/-- A field is closed. -/
theorem reads_field (hcfg : cfg ∈ holdingTemplates) {more : List Bytes} {b : Bool} {w : Which}
    {n : Nat} (h : Reads d cfg es (labels ++ more) s)
    (hn : Readable cfg es → es.any Met.overlong = false → n = (pathOf labels).length) :
    Reads d cfg (es ++ [.field (labels ++ more) b w]) labels (closeField d s b w n) := by
  by_cases hes : Readable cfg es
  · cases hlost : es.any Met.overlong with
    | true => exact reads_field_lost h hes hlost
    | false =>
      rw [hn hes hlost]
      exact reads_field_fits hcfg h hes hlost
  · -- It stays unreadable.
    refine reads_unreadable ?_ ?_
    · by_contra hu
      exact hes (h.readable.mp (closeField_unreadable (by simpa using hu)))
    · cases hlost : es.any Met.overlong with
      | true =>
        rw [readable_field_lost hlost]
        exact hes
      | false =>
        rw [readable_field hlost]
        exact fun h => hes h.1

end HoldingParser

end CantonSigner
