import CantonSigner.Display.Extraction
import CantonSigner.Display.Found
import CantonSigner.Display.Screens

/-!
# What the display walk reads once it has selected a screen

The display walk keeps one path, which it cuts back after every field and entry, and matches
each value with the configured path it stands at. `locatedValue` lists these values with the
labels and keys above them, from the argument alone; `Reads` is the walk after it selected a
configuration, and `reads_value` what it reads from then on, by induction on the argument.
-/

namespace CantonSigner

open ByteCodec

namespace DisplayParser

open HoldingParser (joinPath names)

/-! ## The values of an argument -/

/-- A value with the record labels and TextMap keys above it. -/
abbrev Located := List Bytes × Which

mutual

/-- The values below a value that stands at these labels. Optionals add nothing to a path, and
lists, variants and GenMaps are not looked into. -/
def locatedValue (labels : List Bytes) : Value → List Located
  | .nil => []
  | .record r rest => locatedRecord labels r ++ locatedValue labels rest
  | .optional vs rest => locatedElems labels vs ++ locatedValue labels rest
  | .textMap m rest => locatedTextMap labels m ++ locatedValue labels rest
  | .prim _ rest => locatedValue labels rest
  | .unit rest => locatedValue labels rest
  | .list _ rest => locatedValue labels rest
  | .genMap _ rest => locatedValue labels rest
  | .variant _ rest => locatedValue labels rest
  | .enum _ rest => locatedValue labels rest

/-- The elements of an Optional, each at the path of the Optional. -/
def locatedElems (labels : List Bytes) : Values → List Located
  | .nil => []
  | .cons v rest => locatedValue labels v ++ (labels, v.which .none) :: locatedElems labels rest

/-- The fields of a record. -/
def locatedRecord (labels : List Bytes) : Record → List Located
  | .nil => []
  | .recordId _ rest => locatedRecord labels rest
  | .field f rest =>
    locatedItems labels f ++ (labels ++ names f, f.which .none) :: locatedRecord labels rest

/-- The entries of a TextMap. -/
def locatedTextMap (labels : List Bytes) : TextMap → List Located
  | .nil => []
  | .entry e rest =>
    locatedItems labels e ++ (labels ++ names e, e.which .none) :: locatedTextMap labels rest

/-- The items of a field or an entry. -/
def locatedItems (labels : List Bytes) : NamedValue → List Located
  | .nil => []
  | .name l rest => locatedItems (labels ++ [l]) rest
  | .value v rest => locatedValue labels v ++ locatedItems labels rest

end

/-- The path below these labels and keys, dots escaped. -/
def fieldPath (labels : List Bytes) : Bytes := (labels.map escapeSegment).foldl joinPath []

/-- Match these values one after the other. -/
def fill (es : List Located) (fs : List TxField) : List TxField :=
  es.foldl (fun fs e => updateFieldAt (fieldPath e.1) (matchField e.2) fs) fs

/-- One more segment. -/
theorem fieldPath_concat (labels : List Bytes) (l : Bytes) :
    fieldPath (labels ++ [l]) = joinPath (fieldPath labels) (escapeSegment l) := by
  unfold fieldPath
  rw [List.map_append, List.map_singleton, List.foldl_concat]

/-- A path starts with those above it. -/
theorem prefix_fieldPath (labels more : List Bytes) :
    fieldPath labels <+: fieldPath (labels ++ more) := by
  induction more using List.reverseRecOn with
  | nil => rw [List.append_nil]
  | append_singleton more l ih =>
    rw [← List.append_assoc, fieldPath_concat]
    exact ih.trans (HoldingParser.prefix_joinPath _ _)

/-- Fields are filled value by value. -/
theorem fill_append (es es' : List Located) (fs : List TxField) :
    fill (es ++ es') fs = fill es' (fill es fs) := List.foldl_append ..

/-! ## After the selection -/

/-- The walk has selected this configuration, matched these values since, and stands below these
labels. Once it is unreadable, no more than that is known. -/
structure Reads (c : DisplayConfig) (es : List Located) (labels : List Bytes) (s : Ctx) :
    Prop where
  conf : s.conf = some c
  selected : s.fields.isSome = true
  path : s.unreadable = false → s.path = fieldPath labels
  fields : s.unreadable = false → s.fields = some (fill es (screenFields c))
  labels : s.unreadable = false → ∀ l ∈ labels, l ≠ []
  segments : s.unreadable = false → ∀ e ∈ es, ∀ l ∈ e.1, l ≠ []

variable {d : Device} {c : DisplayConfig} {es : List Located} {labels more : List Bytes}
  {s s' : Ctx}

/-- A selection starts with nothing read. -/
theorem reads_setDisplayConfig (hpath : s.path = []) : Reads c [] [] (setDisplayConfig s c) :=
  ⟨rfl, rfl, fun _ => hpath, fun _ => rfl, nofun, nofun⟩

/-- A walk that is unreadable stays so. -/
theorem unreadable_walk : WalkInvariant fun s => s.unreadable = true where
  opened _ h := h
  entered _ h := h
  left _ h := h
  unreadable _ _ := rfl
  path _ _ h := h
  field _ _ h := h
  select s id h _ := by
    unfold findTxTypeAndConfig findInTable setDisplayConfig
    grind

/-- Nothing changes the selection any more. -/
theorem Reads.findTxTypeAndConfig (h : Reads c es labels s) (id : Identifier) :
    findTxTypeAndConfig s id = s := by
  unfold DisplayParser.findTxTypeAndConfig
  rw [if_pos h.selected]

/-- Of a walk that is unreadable, nothing is asked but its selection. -/
theorem Reads.lost (h : Reads c es labels s) (hconf : s'.conf = s.conf)
    (hfields : s'.fields.isSome = s.fields.isSome) (hu : s'.unreadable = true)
    (es' : List Located) (labels' : List Bytes) : Reads c es' labels' s' := by
  refine ⟨hconf.trans h.conf, hfields.trans h.selected, ?_, ?_, ?_, ?_⟩
  all_goals
    intro hread
    rw [hu] at hread
    cases hread

/-- Counters do not matter. -/
theorem Reads.opened (h : Reads c es labels s) (n : Nat) (k : UInt8) :
    Reads c es labels { s with valuesOpened := n, recordDepth := k } :=
  ⟨h.conf, h.selected, h.path, h.fields, h.labels, h.segments⟩

/-- A label or key is pushed, or the walk becomes unreadable. -/
theorem reads_segment (h : Reads c es labels s) (l : Bytes) :
    Reads c es (labels ++ [l]) (readPathSegment s l) := by
  have hsome : s.fields.isNone = false := by
    rw [← Option.not_isSome, h.selected]
    rfl
  unfold readPathSegment pushPath
  rw [hsome]
  split
  · refine h.lost ?_ ?_ ?_ _ _ <;> rfl
  · split
    · refine h.lost ?_ ?_ ?_ _ _ <;> rfl
    · rename_i hgood
      rw [if_neg Bool.false_ne_true]
      split
      · refine h.lost ?_ ?_ ?_ _ _ <;> rfl
      · refine ⟨h.conf, h.selected, fun hread => ?_, h.fields, fun hread => ?_, h.segments⟩
        · rw [fieldPath_concat, ← h.path hread]
          rfl
        · simp only [List.mem_append, List.mem_singleton]
          rintro x (hx | rfl)
          · exact h.labels hread x hx
          · rintro rfl
            exact hgood rfl

/-- A label. -/
theorem reads_label (h : Reads c es labels s) (n : Nat) (l : Bytes) :
    Reads c es (labels ++ [l]) (decodeLabel n s l) := by
  unfold decodeLabel
  refine reads_segment ?_ l
  split
  · refine h.lost ?_ ?_ ?_ _ _ <;> rfl
  · exact h

/-- The value at the path is matched. -/
theorem reads_find (h : Reads c es labels s) (w : Which) :
    Reads c (es ++ [(labels, w)]) labels (findTxField s w) := by
  refine ⟨h.conf, ?_, h.path, fun hread => ?_, h.labels, fun hread => ?_⟩
  · rw [findTxField, Option.isSome_map]
    exact h.selected
  · rw [findTxField, h.fields hread, h.path hread, fill_append]
    rfl
  · simp only [List.mem_append, List.mem_singleton]
    rintro e (he | rfl)
    · exact h.segments hread e he
    · exact h.labels hread

/-- What `decode_record_field` and `decode_value_text_map` do after the occurrences: the value is
matched, and the path is cut back. -/
def closeItem (s : Ctx) (bad : Bool) (w : Which) (n : Nat) : Ctx :=
  let s := if bad then { s with unreadable := true } else s
  let s := findTxField s w
  { s with path := s.path.take n }

/-- The end of a field cuts the path back. -/
theorem reads_close {bad : Bool} {w : Which} {n : Nat} (h : Reads c es (labels ++ more) s)
    (hn : s.unreadable = false → n = (fieldPath labels).length) :
    Reads c (es ++ [(labels ++ more, w)]) labels (closeItem s bad w n) := by
  cases bad with
  | true => refine (reads_find h w).lost ?_ ?_ ?_ _ _ <;> rfl
  | false =>
    have hfind := reads_find h w
    refine ⟨hfind.conf, hfind.selected, fun hread => ?_, hfind.fields, fun hread => ?_,
      hfind.segments⟩
    · show s.path.take n = fieldPath labels
      rw [h.path hread, hn hread]
      exact (List.prefix_iff_eq_take.mp (prefix_fieldPath labels more)).symm
    · exact fun l hl => h.labels hread l (List.mem_append_left _ hl)

mutual

/-- A value, by induction on it with its callbacks. -/
theorem reads_value : ∀ (stack : List Frame) (v : Value) (labels : List Bytes) (es : List Located)
    (s s' : Ctx), Reads c es labels s → walkValue d stack v s = some s' →
      Reads c (es ++ locatedValue labels v) labels s'
  | _, .nil, labels, es, s, s', hs, h => by
    cases h
    rwa [locatedValue, List.append_nil]
  | stack, .prim _ rest, labels, es, s, s', hs, h => reads_value stack rest labels es s s' hs h
  | stack, .record r rest, labels, es, s, s', hs, h => by
    obtain ⟨s₁, h₁, h₂⟩ := Option.bind_eq_some_iff.mp h
    have hrecord := reads_record (.record :: stack) r labels es _ s₁ (hs.opened _ _) h₁
    have hrest := reads_value stack rest labels _ _ s' (hrecord.opened _ _) h₂
    rwa [locatedValue, ← List.append_assoc]
  | stack, .optional vs rest, labels, es, s, s', hs, h => by
    obtain ⟨s₁, h₁, h₂⟩ := Option.bind_eq_some_iff.mp h
    have helems := reads_elems (.optional :: stack) vs labels es _ s₁ (hs.opened _ _) h₁
    have hrest := reads_value stack rest labels _ s₁ s' helems h₂
    rwa [locatedValue, ← List.append_assoc]
  | stack, .textMap m rest, labels, es, s, s', hs, h => by
    obtain ⟨s₁, h₁, h₂⟩ := Option.bind_eq_some_iff.mp h
    have hmap := reads_textMap (.textMap :: stack) m labels es _ s₁ (hs.opened _ _) h₁
    have hrest := reads_value stack rest labels _ s₁ s' hmap h₂
    rwa [locatedValue, ← List.append_assoc]
  | stack, .unit rest, labels, es, s, s', hs, h =>
    reads_value stack rest labels es _ s' (hs.opened _ _) h
  | stack, .list _ rest, labels, es, s, s', hs, h =>
    reads_value stack rest labels es _ s' (hs.opened _ _) h
  | stack, .genMap _ rest, labels, es, s, s', hs, h =>
    reads_value stack rest labels es _ s' (hs.opened _ _) h
  | stack, .variant _ rest, labels, es, s, s', hs, h =>
    reads_value stack rest labels es _ s' (hs.opened _ _) h
  | stack, .enum _ rest, labels, es, s, s', hs, h =>
    reads_value stack rest labels es _ s' (hs.opened _ _) h

/-- The elements of an Optional. -/
theorem reads_elems : ∀ (stack : List Frame) (vs : Values) (labels : List Bytes) (es : List Located)
    (s s' : Ctx), Reads c es labels s → walkElems d stack vs s = some s' →
      Reads c (es ++ locatedElems labels vs) labels s'
  | _, .nil, labels, es, s, s', hs, h => by
    cases h
    rwa [locatedElems, List.append_nil]
  | stack, .cons v rest, labels, es, s, s', hs, h => by
    unfold walkElems at h
    split at h
    · cases h
    · obtain ⟨s₁, h₁, h₂⟩ := Option.bind_eq_some_iff.mp h
      have hv := reads_value stack v labels es s s₁ hs h₁
      have hrest := reads_elems stack rest labels _ _ s' (reads_find hv (v.which .none)) h₂
      simpa [locatedElems] using hrest

/-- A record. -/
theorem reads_record : ∀ (stack : List Frame) (r : Record) (labels : List Bytes) (es : List Located)
    (s s' : Ctx), Reads c es labels s → walkRecord d stack r s = some s' →
      Reads c (es ++ locatedRecord labels r) labels s'
  | _, .nil, labels, es, s, s', hs, h => by
    cases h
    rwa [locatedRecord, List.append_nil]
  | stack, .recordId id rest, labels, es, s, s', hs, h => by
    refine reads_record stack rest labels es s s' hs ?_
    rwa [walkRecord, hs.findTxTypeAndConfig, ite_self] at h
  | stack, .field f rest, labels, es, s, s', hs, h => by
    unfold walkRecord at h
    split at h
    · rename_i hnone
      have hsome := hs.selected
      rw [Option.isNone_iff_eq_none.mp hnone] at hsome
      cases hsome
    · split at h
      · cases h
      · obtain ⟨⟨s₁, seen⟩, h₁, h₂⟩ := Option.bind_eq_some_iff.mp h
        have hitems := reads_items stack s.valuesOpened f labels es s s₁ false seen hs h₁
        have hclosed : Reads c (es ++ locatedItems labels f ++ [(labels ++ names f, f.which .none)])
            labels (closeItem s₁ (!seen) (f.which .none) s.path.length) := by
          -- The path was cut back to where the field began.
          refine reads_close hitems fun hread => ?_
          rw [hs.path]
          by_contra hu
          have := unreadable_walk.namedItems stack s.valuesOpened f s false s₁ seen
            (by simpa using hu) h₁
          rw [hread] at this
          cases this
        have hrest := reads_record stack rest labels _ _ s' hclosed h₂
        simpa [locatedRecord] using hrest

/-- A TextMap. -/
theorem reads_textMap : ∀ (stack : List Frame) (m : TextMap) (labels : List Bytes)
    (es : List Located) (s s' : Ctx), Reads c es labels s → walkTextMap d stack m s = some s' →
      Reads c (es ++ locatedTextMap labels m) labels s'
  | _, .nil, labels, es, s, s', hs, h => by
    cases h
    rwa [locatedTextMap, List.append_nil]
  | stack, .entry e rest, labels, es, s, s', hs, h => by
    unfold walkTextMap at h
    split at h
    · cases h
    · obtain ⟨⟨s₁, seen⟩, h₁, h₂⟩ := Option.bind_eq_some_iff.mp h
      have hitems := reads_items stack s.valuesOpened e labels es s s₁ false seen hs h₁
      have hclosed : Reads c (es ++ locatedItems labels e ++ [(labels ++ names e, e.which .none)])
          labels (closeItem s₁ (!seen && s₁.fields.isSome) (e.which .none) s.path.length) := by
        refine reads_close hitems fun hread => ?_
        rw [hs.path]
        by_contra hu
        have := unreadable_walk.namedItems stack s.valuesOpened e s false s₁ seen
          (by simpa using hu) h₁
        rw [hread] at this
        cases this
      have hrest := reads_textMap stack rest labels _ _ s' hclosed h₂
      simpa [locatedTextMap] using hrest

/-- The items of a field or an entry. -/
theorem reads_items : ∀ (stack : List Frame) (n : Nat) (f : NamedValue) (labels : List Bytes)
    (es : List Located) (s s' : Ctx) (seen seen' : Bool), Reads c es labels s →
      walkNamedItems d stack n f s seen = some (s', seen') →
      Reads c (es ++ locatedItems labels f) (labels ++ names f) s'
  | _, _, .nil, labels, es, s, s', _, _, hs, h => by
    cases h
    simpa [locatedItems, names] using hs
  | stack, n, .name l rest, labels, es, s, s', _, seen', hs, h => by
    have hrest := reads_items stack n rest (labels ++ [l]) es _ s' true seen' (reads_label hs n l) h
    simpa [locatedItems, names] using hrest
  | stack, n, .value v rest, labels, es, s, s', seen, seen', hs, h => by
    obtain ⟨s₁, h₁, h₂⟩ := Option.bind_eq_some_iff.mp h
    have hv := reads_value stack v labels es s s₁ hs h₁
    have hrest := reads_items stack n rest labels _ s₁ s' seen seen' hv h₂
    simpa [locatedItems, names] using hrest

end

end DisplayParser

end CantonSigner
