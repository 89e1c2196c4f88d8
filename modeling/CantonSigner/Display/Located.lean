import CantonSigner.Display.Reads

/-!
# Where the display walk finds values

A configuration is selected at a record id, which may come late: until then the walk looks up
nothing (`Waits`). `selects_value` says what it reads of a whole argument whose record ids come
first, and `Walked.reads` the same of a part.
-/

namespace CantonSigner

open ByteCodec

namespace DisplayParser

open HoldingParser (joinPath names)

variable {d : Device} {c : DisplayConfig} {es : List Located} {labels more : List Bytes}

/-! ## Before the selection -/

/-- What the walk comes across while no configuration is selected: a record id, or a field or
entry that it skips. -/
inductive Outer where
  | recordId
  | skipped
deriving DecidableEq

mutual

/-- The record ids, fields and entries of the outermost records and TextMaps. -/
def outerValue : Value → List Outer
  | .nil => []
  | .record r rest => outerRecord r ++ outerValue rest
  | .optional vs rest => outerElems vs ++ outerValue rest
  | .textMap m rest => outerTextMap m ++ outerValue rest
  | .prim _ rest => outerValue rest
  | .unit rest => outerValue rest
  | .list _ rest => outerValue rest
  | .genMap _ rest => outerValue rest
  | .variant _ rest => outerValue rest
  | .enum _ rest => outerValue rest

/-- The elements of an Optional. -/
def outerElems : Values → List Outer
  | .nil => []
  | .cons v rest => outerValue v ++ outerElems rest

/-- A record: its id, or a field. -/
def outerRecord : Record → List Outer
  | .nil => []
  | .recordId _ rest => .recordId :: outerRecord rest
  | .field _ rest => .skipped :: outerRecord rest

/-- An entry comes before what is in it. -/
def outerTextMap : TextMap → List Outer
  | .nil => []
  | .entry e rest => .skipped :: (outerItems e ++ outerTextMap rest)

/-- The items of an entry. -/
def outerItems : NamedValue → List Outer
  | .nil => []
  | .name _ rest => outerItems rest
  | .value v rest => outerValue v ++ outerItems rest

end

/-- No record id comes after a field or an entry: records give their id first, and the outermost
one is not inside a TextMap. -/
def IdsFirst (steps : List Outer) : Prop :=
  steps.Pairwise fun a b => b = .recordId → a = .recordId

instance (steps : List Outer) : Decidable (IdsFirst steps) :=
  inferInstanceAs (Decidable (List.Pairwise _ _))

/-- No configuration is selected yet, and no segment was pushed. -/
structure Waits (s : Ctx) : Prop where
  fields : s.fields = none
  path : s.path = []

/-- Opening a value. -/
theorem Waits.opened (h : Waits s) (n : Nat) (k : UInt8) :
    Waits { s with valuesOpened := n, recordDepth := k } := ⟨h.fields, h.path⟩

/-- Giving up on a path. -/
theorem Waits.unreadable (h : Waits s) : Waits { s with unreadable := true } := ⟨h.fields, h.path⟩

/-- Segments are not pushed while the walk waits. -/
theorem waits_label (h : Waits s) (n : Nat) (l : Bytes) : Waits (decodeLabel n s l) := by
  have hpush : ∀ s : Ctx, Waits s → Waits (readPathSegment s l) := by
    intro s h
    unfold readPathSegment pushPath
    split
    · exact h.unreadable
    · split
      · exact h.unreadable
      · rw [h.fields, if_pos Option.isNone_none]
        exact h
  refine hpush _ ?_
  split
  · exact h.unreadable
  · exact h

/-- Looking up a field. -/
theorem waits_find (h : Waits s) (w : Which) : Waits (findTxField s w) :=
  ⟨by rw [findTxField, h.fields]; rfl, h.path⟩

/-- Leaving a field. -/
theorem waits_close (h : Waits s) (bad : Bool) (w : Which) (n : Nat) :
    Waits (closeItem s bad w n) := by
  have hclose : ∀ s : Ctx, Waits s → Waits { findTxField s w with path := s.path.take n } := by
    intro s h
    have hfind := waits_find h w
    exact ⟨hfind.fields, by rw [h.path, List.take_nil]⟩
  unfold closeItem
  split
  · exact hclose _ h.unreadable
  · exact hclose s h

mutual

/-- Without a record id, the walk goes on waiting. -/
theorem waits_value : ∀ (stack : List Frame) (v : Value) (s s' : Ctx), Waits s →
    Outer.recordId ∉ outerValue v → walkValue d stack v s = some s' → Waits s'
  | _, .nil, s, s', hs, _, h => by
    cases h
    exact hs
  | stack, .prim _ rest, s, s', hs, hid, h => waits_value stack rest s s' hs hid h
  | stack, .record r rest, s, s', hs, hid, h => by
    obtain ⟨s₁, h₁, h₂⟩ := Option.bind_eq_some_iff.mp h
    rw [outerValue, List.mem_append, not_or] at hid
    have hrecord := waits_record (.record :: stack) r _ s₁ (hs.opened _ _) hid.1 h₁
    exact waits_value stack rest _ s' (hrecord.opened _ _) hid.2 h₂
  | stack, .optional vs rest, s, s', hs, hid, h => by
    obtain ⟨s₁, h₁, h₂⟩ := Option.bind_eq_some_iff.mp h
    rw [outerValue, List.mem_append, not_or] at hid
    have helems := waits_elems (.optional :: stack) vs _ s₁ (hs.opened _ _) hid.1 h₁
    exact waits_value stack rest s₁ s' helems hid.2 h₂
  | stack, .textMap m rest, s, s', hs, hid, h => by
    obtain ⟨s₁, h₁, h₂⟩ := Option.bind_eq_some_iff.mp h
    rw [outerValue, List.mem_append, not_or] at hid
    have hmap := waits_textMap (.textMap :: stack) m _ s₁ (hs.opened _ _) hid.1 h₁
    exact waits_value stack rest s₁ s' hmap hid.2 h₂
  | stack, .unit rest, s, s', hs, hid, h => waits_value stack rest _ s' (hs.opened _ _) hid h
  | stack, .list _ rest, s, s', hs, hid, h => waits_value stack rest _ s' (hs.opened _ _) hid h
  | stack, .genMap _ rest, s, s', hs, hid, h =>
    waits_value stack rest _ s' (hs.opened _ _) hid h
  | stack, .variant _ rest, s, s', hs, hid, h =>
    waits_value stack rest _ s' (hs.opened _ _) hid h
  | stack, .enum _ rest, s, s', hs, hid, h => waits_value stack rest _ s' (hs.opened _ _) hid h

/-- The elements of an Optional. -/
theorem waits_elems : ∀ (stack : List Frame) (vs : Values) (s s' : Ctx), Waits s →
    Outer.recordId ∉ outerElems vs → walkElems d stack vs s = some s' → Waits s'
  | _, .nil, s, s', hs, _, h => by
    cases h
    exact hs
  | stack, .cons v rest, s, s', hs, hid, h => by
    unfold walkElems at h
    rw [outerElems, List.mem_append, not_or] at hid
    split at h
    · cases h
    · obtain ⟨s₁, h₁, h₂⟩ := Option.bind_eq_some_iff.mp h
      have hv := waits_value stack v s s₁ hs hid.1 h₁
      exact waits_elems stack rest _ s' (waits_find hv _) hid.2 h₂

/-- A record without an id. -/
theorem waits_record : ∀ (stack : List Frame) (r : Record) (s s' : Ctx), Waits s →
    Outer.recordId ∉ outerRecord r → walkRecord d stack r s = some s' → Waits s'
  | _, .nil, s, s', hs, _, h => by
    cases h
    exact hs
  | _, .recordId _ _, _, _, _, hid, _ => absurd List.mem_cons_self hid
  | stack, .field f rest, s, s', hs, hid, h => by
    unfold walkRecord at h
    rw [hs.fields] at h
    exact waits_record stack rest s s' hs (fun hmem => hid (List.mem_cons_of_mem _ hmem)) h

/-- A TextMap. -/
theorem waits_textMap : ∀ (stack : List Frame) (m : TextMap) (s s' : Ctx), Waits s →
    Outer.recordId ∉ outerTextMap m → walkTextMap d stack m s = some s' → Waits s'
  | _, .nil, s, s', hs, _, h => by
    cases h
    exact hs
  | stack, .entry e rest, s, s', hs, hid, h => by
    unfold walkTextMap at h
    rw [outerTextMap, List.mem_cons, List.mem_append, not_or, not_or] at hid
    split at h
    · cases h
    · obtain ⟨⟨s₁, seen⟩, h₁, h₂⟩ := Option.bind_eq_some_iff.mp h
      have hitems := waits_items stack s.valuesOpened e s s₁ false seen hs hid.2.1 h₁
      exact waits_textMap stack rest _ s' (waits_close hitems _ _ _) hid.2.2 h₂

/-- The items of an entry. -/
theorem waits_items : ∀ (stack : List Frame) (n : Nat) (f : NamedValue) (s s' : Ctx)
    (seen seen' : Bool), Waits s →
    Outer.recordId ∉ outerItems f → walkNamedItems d stack n f s seen = some (s', seen') → Waits s'
  | _, _, .nil, s, s', _, _, hs, _, h => by
    cases h
    exact hs
  | stack, n, .name l rest, s, s', _, seen', hs, hid, h =>
    waits_items stack n rest _ s' true seen' (waits_label hs n l) hid h
  | stack, n, .value v rest, s, s', seen, seen', hs, hid, h => by
    obtain ⟨s₁, h₁, h₂⟩ := Option.bind_eq_some_iff.mp h
    rw [outerItems, List.mem_append, not_or] at hid
    exact waits_items stack n rest s₁ s' seen seen' (waits_value stack v s s₁ hs hid.1 h₁) hid.2 h₂

end

/-! ## The selection -/

/-- Ids come first in both halves, and nothing is skipped before the second. -/
theorem idsFirst_append {A B : List Outer} (h : IdsFirst (A ++ B)) :
    IdsFirst A ∧ IdsFirst B ∧ (Outer.recordId ∈ B → Outer.skipped ∉ A) := by
  obtain ⟨hA, hB, hcross⟩ := List.pairwise_append.mp h
  refine ⟨hA, hB, fun hid hskipped => ?_⟩
  cases hcross _ hskipped _ hid rfl

/-- Nothing after something that was skipped is a record id. -/
theorem idsFirst_skipped {B : List Outer} (h : IdsFirst (.skipped :: B)) : Outer.recordId ∉ B := by
  intro hid
  cases List.rel_of_pairwise_cons h hid rfl

/-- A TextMap whose ids come first has none: an entry is skipped before. -/
theorem idsFirst_textMap : ∀ {m : TextMap}, IdsFirst (outerTextMap m) →
    Outer.recordId ∉ outerTextMap m
  | .nil, _ => List.not_mem_nil
  | .entry _ _, h => by
    rw [outerTextMap] at h ⊢
    rw [List.mem_cons, not_or]
    exact ⟨nofun, idsFirst_skipped h⟩

mutual

/-- Where nothing was skipped, the values stand at the root. -/
theorem root_value : ∀ v : Value, Outer.skipped ∉ outerValue v → ∀ e ∈ locatedValue [] v, e.1 = []
  | .nil, _ => nofun
  | .prim _ rest, h => root_value rest h
  | .record r rest, h => by
    rw [outerValue, List.mem_append, not_or] at h
    rw [locatedValue, List.forall_mem_append]
    exact ⟨root_record r h.1, root_value rest h.2⟩
  | .optional vs rest, h => by
    rw [outerValue, List.mem_append, not_or] at h
    rw [locatedValue, List.forall_mem_append]
    exact ⟨root_elems vs h.1, root_value rest h.2⟩
  | .textMap .nil rest, h => root_value rest h
  | .textMap (.entry _ _) _, h => absurd List.mem_cons_self h
  | .unit rest, h => root_value rest h
  | .list _ rest, h => root_value rest h
  | .genMap _ rest, h => root_value rest h
  | .variant _ rest, h => root_value rest h
  | .enum _ rest, h => root_value rest h

/-- In an Optional. -/
theorem root_elems : ∀ vs : Values, Outer.skipped ∉ outerElems vs →
    ∀ e ∈ locatedElems [] vs, e.1 = []
  | .nil, _ => nofun
  | .cons v rest, h => by
    rw [outerElems, List.mem_append, not_or] at h
    rw [locatedElems, List.forall_mem_append, List.forall_mem_cons]
    exact ⟨root_value v h.1, rfl, root_elems rest h.2⟩

/-- In a record. -/
theorem root_record : ∀ r : Record, Outer.skipped ∉ outerRecord r →
    ∀ e ∈ locatedRecord [] r, e.1 = []
  | .nil, _ => nofun
  | .recordId _ rest, h => root_record rest fun hmem => h (List.mem_cons_of_mem _ hmem)
  | .field _ _, h => absurd List.mem_cons_self h

end

/-- The walk over these values has selected a configuration. What it met before stands at the
root, where nothing is matched. -/
def Selects (es : List Located) (s : Ctx) : Prop :=
  ∃ c before after, es = before ++ after ∧ (∀ e ∈ before, e.1 = []) ∧ Reads c after [] s

/-- A walk over these values still waits, or a record id among them has selected. -/
def WaitsOrSelects (steps : List Outer) (es : List Located) (s : Ctx) : Prop :=
  Waits s ∨ (Outer.recordId ∈ steps ∧ Selects es s)

/-- More values are read after the selection. -/
theorem Selects.append {fs : List Located} (h : Selects es s)
    (hread : ∀ c es, Reads c es [] s → Reads c (es ++ fs) [] s') : Selects (es ++ fs) s' := by
  obtain ⟨c, before, after, rfl, hbefore, hs⟩ := h
  exact ⟨c, before, after ++ fs, List.append_assoc .., hbefore, hread c after hs⟩

/-- One part of an argument after another. -/
theorem waitsOrSelects_append {A B : List Outer} {fs : List Located} {s₁ : Ctx}
    (hids : IdsFirst (A ++ B)) (hroot : Outer.skipped ∉ A → ∀ e ∈ es, e.1 = [])
    (hA : WaitsOrSelects A es s₁) (hwait : Waits s₁ → WaitsOrSelects B fs s')
    (hread : ∀ c es, Reads c es [] s₁ → Reads c (es ++ fs) [] s') :
    WaitsOrSelects (A ++ B) (es ++ fs) s' := by
  obtain ⟨-, -, hcross⟩ := idsFirst_append hids
  rcases hA with hs₁ | ⟨hid, hsel⟩
  · refine (hwait hs₁).imp_right ?_
    rintro ⟨hid, c, before, after, rfl, hbefore, hs'⟩
    -- Before this record id nothing was skipped.
    refine ⟨List.mem_append_right _ hid, c, es ++ before, after, (List.append_assoc ..).symm, ?_,
      hs'⟩
    exact List.forall_mem_append.mpr ⟨hroot (hcross hid), hbefore⟩
  · exact .inr ⟨List.mem_append_left _ hid, hsel.append hread⟩

/-- A record id selects, or leaves the walk waiting. -/
theorem waitsOrSelects_id (h : Waits s) (id : Identifier) :
    WaitsOrSelects [.recordId] [] (findTxTypeAndConfig s id) := by
  have hset : ∀ c, WaitsOrSelects [.recordId] [] (setDisplayConfig s c) := fun c =>
    .inr ⟨List.mem_cons_self, c, [], [], rfl, nofun, reads_setDisplayConfig h.path⟩
  have htable : WaitsOrSelects [.recordId] [] (findInTable s id) := by
    rcases findInTable_cases s id with heq | ⟨c, -, -, -, ⟨-, heq⟩ | ⟨-, heq⟩⟩
    · rw [heq]
      exact .inl h
    · rw [heq]
      exact hset c
    · rw [heq]
      exact .inl ⟨h.fields, h.path⟩
  unfold findTxTypeAndConfig
  rw [h.fields, if_neg (by simp)]
  split
  · exact htable
  · split
    · exact hset _
    · exact htable

mutual

/-- A value, by induction on it. -/
theorem selects_value : ∀ (stack : List Frame) (v : Value) (s s' : Ctx), Waits s →
    IdsFirst (outerValue v) → walkValue d stack v s = some s' →
      WaitsOrSelects (outerValue v) (locatedValue [] v) s'
  | _, .nil, s, s', hs, _, h => by
    cases h
    exact .inl hs
  | stack, .prim _ rest, s, s', hs, hids, h => selects_value stack rest s s' hs hids h
  -- Containers that the walk opens: their inside, then what follows them.
  | stack, .record r rest, s, s', hs, hids, h => by
    obtain ⟨s₁, h₁, h₂⟩ := Option.bind_eq_some_iff.mp h
    have hrecord := selects_record (.record :: stack) r _ s₁ (hs.opened _ _)
      (idsFirst_append hids).1 h₁
    exact waitsOrSelects_append hids (root_record r) hrecord
      (fun hs₁ => selects_value stack rest _ s' (hs₁.opened _ _) (idsFirst_append hids).2.1 h₂)
      fun c es hs₁ => reads_value stack rest [] es _ s' (hs₁.opened _ _) h₂
  | stack, .optional vs rest, s, s', hs, hids, h => by
    obtain ⟨s₁, h₁, h₂⟩ := Option.bind_eq_some_iff.mp h
    have helems := selects_elems (.optional :: stack) vs _ s₁ (hs.opened _ _)
      (idsFirst_append hids).1 h₁
    exact waitsOrSelects_append hids (root_elems vs) helems
      (fun hs₁ => selects_value stack rest s₁ s' hs₁ (idsFirst_append hids).2.1 h₂)
      fun c es hs₁ => reads_value stack rest [] es s₁ s' hs₁ h₂
  | stack, .textMap m rest, s, s', hs, hids, h => by
    obtain ⟨s₁, h₁, h₂⟩ := Option.bind_eq_some_iff.mp h
    -- a map has no ids of its own, so the screen is still awaited after it
    have hnone := idsFirst_textMap (idsFirst_append hids).1
    have hmap := waits_textMap (.textMap :: stack) m _ s₁ (hs.opened _ _) hnone h₁
    have hroot : Outer.skipped ∉ outerTextMap m → ∀ e ∈ locatedTextMap [] m, e.1 = [] := by
      cases m with
      | nil => exact fun _ => nofun
      | entry e m => exact fun hskipped => absurd List.mem_cons_self hskipped
    exact waitsOrSelects_append hids hroot (.inl hmap)
      (fun hs₁ => selects_value stack rest s₁ s' hs₁ (idsFirst_append hids).2.1 h₂)
      fun c es hs₁ => reads_value stack rest [] es s₁ s' hs₁ h₂
  | stack, .unit rest, s, s', hs, hids, h => selects_value stack rest _ s' (hs.opened _ _) hids h
  | stack, .list _ rest, s, s', hs, hids, h => selects_value stack rest _ s' (hs.opened _ _) hids h
  | stack, .genMap _ rest, s, s', hs, hids, h => selects_value stack rest _ s' (hs.opened _ _)
      hids h
  | stack, .variant _ rest, s, s', hs, hids, h =>
    selects_value stack rest _ s' (hs.opened _ _) hids h
  | stack, .enum _ rest, s, s', hs, hids, h => selects_value stack rest _ s' (hs.opened _ _) hids h

/-- The elements of an Optional. -/
theorem selects_elems : ∀ (stack : List Frame) (vs : Values) (s s' : Ctx), Waits s →
    IdsFirst (outerElems vs) → walkElems d stack vs s = some s' →
      WaitsOrSelects (outerElems vs) (locatedElems [] vs) s'
  | _, .nil, s, s', hs, _, h => by
    cases h
    exact .inl hs
  | stack, .cons v rest, s, s', hs, hids, h => by
    unfold walkElems at h
    split at h
    · cases h
    · obtain ⟨s₁, h₁, h₂⟩ := Option.bind_eq_some_iff.mp h
      -- The value, and then its end.
      have hv : WaitsOrSelects (outerValue v) (locatedValue [] v ++ [([], v.which .none)])
          (findTxField s₁ (v.which .none)) := by
        rcases selects_value stack v s s₁ hs (idsFirst_append hids).1 h₁ with hs₁ | ⟨hid, hsel⟩
        · exact .inl (waits_find hs₁ _)
        · exact .inr ⟨hid, hsel.append fun c es hs₁ => reads_find hs₁ _⟩
      have hroot : Outer.skipped ∉ outerValue v →
          ∀ e ∈ locatedValue [] v ++ [([], v.which .none)], e.1 = [] := by
        intro hskipped
        rw [List.forall_mem_append]
        exact ⟨root_value v hskipped, List.forall_mem_singleton.mpr rfl⟩
      have hall := waitsOrSelects_append hids hroot hv
        (fun hs₁ => selects_elems stack rest _ s' hs₁ (idsFirst_append hids).2.1 h₂)
        fun c es hs₁ => reads_elems stack rest [] es _ s' hs₁ h₂
      rwa [List.append_assoc, List.singleton_append] at hall

/-- A record: its id selects, and its fields are read from then on. -/
theorem selects_record : ∀ (stack : List Frame) (r : Record) (s s' : Ctx), Waits s →
    IdsFirst (outerRecord r) → walkRecord d stack r s = some s' →
      WaitsOrSelects (outerRecord r) (locatedRecord [] r) s'
  | _, .nil, s, s', hs, _, h => by
    cases h
    exact .inl hs
  | stack, .recordId id rest, s, s', hs, hids, h => by
    have hid : WaitsOrSelects [.recordId] []
        (if s.recordDepth = 1 then findTxTypeAndConfig s id else s) := by
      split
      · exact waitsOrSelects_id hs id
      · exact .inl hs
    have hrest : IdsFirst (outerRecord rest) := (idsFirst_append (A := [.recordId]) hids).2.1
    exact waitsOrSelects_append hids (fun _ => List.forall_mem_nil _) hid
      (fun hs₁ => selects_record stack rest _ s' hs₁ hrest h)
      fun c es hs₁ => reads_record stack rest [] es _ s' hs₁ h
  | stack, .field f rest, s, s', hs, hids, h => by
    -- No record id comes any more.
    have hnone : Outer.recordId ∉ outerRecord rest := idsFirst_skipped hids
    unfold walkRecord at h
    rw [hs.fields] at h
    exact .inl (waits_record stack rest s s' hs hnone h)

end

/-! ## Whole parts -/

/-- A piece of the walk that comes across these steps and reads these values, before and after
the selection. -/
structure Walks (f : Ctx → Option Ctx) (steps : List Outer) (es : List Located) : Prop where
  selects : ∀ s s', Waits s → IdsFirst steps → f s = some s' → WaitsOrSelects steps es s'
  reads : ∀ c before s s', Reads c before [] s → f s = some s' → Reads c (before ++ es) [] s'
  root : Outer.skipped ∉ steps → ∀ e ∈ es, e.1 = []

/-- A value. -/
theorem walks_value (stack : List Frame) (v : Value) :
    Walks (walkValue d stack v) (outerValue v) (locatedValue [] v) :=
  ⟨selects_value stack v, fun _ before s s' => reads_value stack v [] before s s', root_value v⟩

/-- The elements of an Optional. -/
theorem walks_elems (stack : List Frame) (vs : Values) :
    Walks (walkElems d stack vs) (outerElems vs) (locatedElems [] vs) :=
  ⟨selects_elems stack vs, fun _ before s s' => reads_elems stack vs [] before s s', root_elems vs⟩

/-- Nothing. -/
theorem walks_none : Walks some [] [] := by
  refine ⟨?_, ?_, fun _ => List.forall_mem_nil _⟩
  · rintro s s' hs - ⟨⟩
    exact .inl hs
  · rintro c before s s' hs ⟨⟩
    rwa [List.append_nil]

/-- Naming the node changes nothing the walk looks at. -/
theorem Walks.identity {f : Ctx → Option Ctx} {steps : List Outer} (h : Walks f steps es)
    (contractId : Option Bytes) (templateId : Option Identifier) (choiceId : Option Bytes) :
    Walks (fun s => f (setNodeIdentity s contractId templateId choiceId)) steps es :=
  ⟨fun _ s' hs => h.selects _ s' ⟨hs.fields, hs.path⟩, fun c before _ s' hs =>
    h.reads c before _ s' ⟨hs.conf, hs.selected, hs.path, hs.fields, hs.labels, hs.segments⟩,
      h.root⟩

/-- One piece after another. -/
theorem Walks.foldlM {α : Type} {g : Ctx → α → Option Ctx} {steps : α → List Outer}
    {located : α → List Located} (h : ∀ a, Walks (fun s => g s a) (steps a) (located a))
    (l : List α) :
    Walks (fun s => l.foldlM g s) (l.flatMap steps) (l.flatMap located) := by
  induction l with
  | nil => exact walks_none
  | cons a l ih =>
    rw [List.flatMap_cons, List.flatMap_cons]
    refine ⟨fun s s' hs hids hwalk => ?_, fun c before s s' hs hwalk => ?_, fun hskipped => ?_⟩
    · rw [List.foldlM_cons] at hwalk
      obtain ⟨s₁, h₁, h₂⟩ := Option.bind_eq_some_iff.mp hwalk
      obtain ⟨hthis, hrest, -⟩ := idsFirst_append hids
      exact waitsOrSelects_append hids (h a).root ((h a).selects s s₁ hs hthis h₁)
        (fun hs₁ => ih.selects s₁ s' hs₁ hrest h₂) fun c es hs₁ => ih.reads c es s₁ s' hs₁ h₂
    · rw [List.foldlM_cons] at hwalk
      obtain ⟨s₁, h₁, h₂⟩ := Option.bind_eq_some_iff.mp hwalk
      have hall := ih.reads c _ s₁ s' ((h a).reads c before s s₁ hs h₁) h₂
      rwa [List.append_assoc] at hall
    · rw [List.mem_append, not_or] at hskipped
      exact List.forall_mem_append.mpr ⟨(h a).root hskipped.1, ih.root hskipped.2⟩

/-- The occurrences of the argument or chosen value that the walk reads. -/
def nodeArguments : NodeKind → List Value
  | .create c => c.argument
  | .exercise e => e.chosenValue
  | _ => []

/-- A node. -/
theorem walks_nodeKind (k : NodeKind) : Walks (fun s => nodeDecodeCallback d s k)
    ((nodeArguments k).flatMap outerValue) ((nodeArguments k).flatMap (locatedValue [])) := by
  have hnone : ∀ {steps : List Outer} {es : List Located},
      (Outer.skipped ∉ steps → ∀ e ∈ es, e.1 = []) → Walks (fun _ => none) steps es := by
    intro steps es hroot
    refine ⟨fun s s' _ _ h => ?_, fun c before s s' _ h => ?_, hroot⟩
    · cases h
    · cases h
  have hvalues : ∀ (field : Frame) (vs : List Value), Walks (fun s => walkValues d field s vs)
      (vs.flatMap outerValue) (vs.flatMap (locatedValue [])) := fun field vs =>
    Walks.foldlM (fun v => walks_value [field] v) vs
  cases k with
  | create c =>
    show Walks (fun s => if !c.argumentIsMessage then none else _) _ _
    split
    · exact hnone (hvalues .displayArgument c.argument).root
    · exact (hvalues .displayArgument c.argument).identity _ _ _
  | exercise e =>
    show Walks (fun s => if !e.chosenValueIsMessage then none else _) _ _
    split
    · exact hnone (hvalues .displayChosenValue e.chosenValue).root
    · exact (hvalues .displayChosenValue e.chosenValue).identity _ _ _
  | fetch | rollback | queryByKey => exact walks_none

/-- A walk over a node part or an input contract, with the values it reads. -/
inductive Walked (d : Device) : List Value → Ctx → Prop
  | node {r : Review} {part : NodePart} {s : Ctx} :
    walkNode d (Ctx.start none r) part = some s →
      Walked d ((nodeKinds part).flatMap nodeArguments) s
  | inputContract {g : Globals} {r : Review} {ic : InputContract} {s : Ctx} :
    walkInputContract d (Ctx.start g r) ic = some s → Walked d (ic.v1.flatMap (·.argument)) s

/-- The values below the root. -/
def belowRoot (es : List Located) : List Located := es.filter fun e => e.1 ≠ []

/-- Piece by piece. -/
theorem belowRoot_append (es fs : List Located) :
    belowRoot (es ++ fs) = belowRoot es ++ belowRoot fs := List.filter_append ..

/-- Nothing at the root is below it. -/
theorem belowRoot_of_root (h : ∀ e ∈ es, e.1 = []) : belowRoot es = [] := by
  refine List.filter_eq_nil_iff.mpr fun e he => ?_
  simp [h e he]

/-- A whole walk that selected a configuration has read the values of the argument. -/
theorem Walked.reads {vs : List Value} (h : Walked d vs s) (hids : IdsFirst (vs.flatMap outerValue))
    (hfields : s.fields.isSome = true) (hconf : s.conf = some c) :
    ∃ es, Reads c es [] s ∧ belowRoot es = belowRoot (vs.flatMap (locatedValue [])) := by
  have hstart : ∀ g r, Waits (Ctx.start g r) := fun _ _ => ⟨rfl, rfl⟩
  have hdone : ∀ {steps es}, WaitsOrSelects steps es s →
      ∃ es', Reads c es' [] s ∧ belowRoot es' = belowRoot es := by
    rintro steps es (hwaits | ⟨-, c', before, after, rfl, hbefore, hs⟩)
    · rw [hwaits.fields] at hfields
      cases hfields
    · cases hconf.symm.trans hs.conf
      exact ⟨after, hs, by rw [belowRoot_append, belowRoot_of_root hbefore, List.nil_append]⟩
  cases h with
  | node hwalk =>
    rename_i r part
    have hall := Walks.foldlM (fun k => walks_nodeKind (d := d) k) (nodeKinds part)
    rw [← List.flatMap_assoc, ← List.flatMap_assoc] at hall
    exact hdone (hall.selects _ s (hstart none r) hids hwalk)
  | inputContract hwalk =>
    rename_i g r ic
    have hcreate := fun cr : Create => (Walks.foldlM
      (fun v => walks_elems (d := d) [.displayContractArgument] (.cons v .nil))
      cr.argument).identity cr.contractId cr.templateId none
    have hall := Walks.foldlM hcreate ic.v1
    have houter : ic.v1.flatMap (fun cr => cr.argument.flatMap fun v => outerElems (.cons v .nil)) =
        (ic.v1.flatMap (·.argument)).flatMap outerValue := by
      simp [List.flatMap_assoc, outerElems]
    rw [houter] at hall
    obtain ⟨es, hs, hes⟩ := hdone (hall.selects _ s (hstart g r) hids hwalk)
    refine ⟨es, hs, hes.trans ?_⟩
    -- The end of the argument itself stands at the root.
    have hone : ∀ l : List Value, belowRoot (l.flatMap fun v => locatedElems [] (.cons v .nil)) =
        belowRoot (l.flatMap (locatedValue [])) := by
      intro l
      unfold belowRoot
      rw [List.filter_flatMap, List.filter_flatMap]
      refine List.flatMap_congr fun v _ => ?_
      simp [locatedElems]
    rw [← hone, List.flatMap_assoc]

end DisplayParser

end CantonSigner
