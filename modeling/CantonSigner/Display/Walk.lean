import CantonSigner.Lib.Run
import CantonSigner.Model.DisplayReview

/-!
# Invariants of the display walk

The display parser walks a value through a dozen mutually recursive callbacks
that change its context in only a few ways. `WalkInvariant` lists those ways, and
`WalkInvariant.node` and `WalkInvariant.inputContract` carry a property that they
keep through a whole part.

The review flags are the first use: a walk touches no more of the review than its
rows (`sameFlags_walk`), and a parse either leaves
`display_failed` alone or sets it with clear signing off (`ReviewKept`).
-/

namespace CantonSigner

open ByteCodec

namespace DisplayParser

/-- A property of the context that every callback of the walk keeps. -/
structure WalkInvariant (P : Ctx → Prop) : Prop where
  opened : ∀ s, P s → P { s with valuesOpened := s.valuesOpened + 1 }
  entered : ∀ s, P s →
    P { s with valuesOpened := s.valuesOpened + 1, recordDepth := s.recordDepth + 1 }
  left : ∀ s, P s → P { s with recordDepth := s.recordDepth - 1 }
  unreadable : ∀ s, P s → P { s with unreadable := true }
  path : ∀ s p, P s → P { s with path := p }
  field : ∀ s w, P s → P (findTxField s w)
  select : ∀ s id, P s → s.recordDepth = 1 → P (findTxTypeAndConfig s id)

namespace WalkInvariant

variable {d : Device} {P : Ctx → Prop}

/-- A segment is pushed, or leaves the walk unreadable. -/
theorem segment (hP : WalkInvariant P) {s : Ctx} (hs : P s) (l : Bytes) :
    P (readPathSegment s l) := by
  unfold readPathSegment pushPath
  split
  · exact hP.unreadable _ hs
  · split
    · exact hP.unreadable _ hs
    · split
      · exact hs
      · split
        · exact hP.unreadable _ hs
        · exact hP.path _ _ hs

/-- A label is read. -/
theorem label (hP : WalkInvariant P) {s : Ctx} (hs : P s) (n : Nat) (l : Bytes) :
    P (decodeLabel n s l) := by
  refine hP.segment ?_ l
  split
  · exact hP.unreadable _ hs
  · exact hs

/-- The end of a record field or TextMap entry. -/
theorem closeField (hP : WalkInvariant P) {s : Ctx} (hs : P s) (b : Bool) (w : Which) (n : Nat) :
    P { findTxField (if b then { s with unreadable := true } else s) w with
      path := (findTxField (if b then { s with unreadable := true } else s) w).path.take n } := by
  refine hP.path _ _ (hP.field _ _ ?_)
  split
  · exact hP.unreadable _ hs
  · exact hs

mutual

/-- A value, by induction on it with its four callbacks. -/
theorem value (hP : WalkInvariant P) : ∀ (stack : List Frame) (v : Value) (s s' : Ctx), P s →
    walkValue d stack v s = some s' → P s'
  | _, .nil, s, s', hs, h => by
    cases h
    exact hs
  | stack, .prim _ rest, s, s', hs, h => value hP stack rest s s' hs h
  | stack, .record r rest, s, s', hs, h => by
    obtain ⟨s₁, h₁, h₂⟩ := Option.bind_eq_some_iff.mp h
    have hs₁ := record hP (.record :: stack) r _ s₁ (hP.entered _ hs) h₁
    exact value hP stack rest _ s' (hP.left _ hs₁) h₂
  | stack, .optional vs rest, s, s', hs, h => by
    obtain ⟨s₁, h₁, h₂⟩ := Option.bind_eq_some_iff.mp h
    exact value hP stack rest s₁ s' (elems hP (.optional :: stack) vs _ s₁ (hP.opened _ hs) h₁) h₂
  | stack, .textMap m rest, s, s', hs, h => by
    obtain ⟨s₁, h₁, h₂⟩ := Option.bind_eq_some_iff.mp h
    exact value hP stack rest s₁ s' (textMap hP (.textMap :: stack) m _ s₁ (hP.opened _ hs) h₁) h₂
  | stack, .unit rest, s, s', hs, h => value hP stack rest _ s' (hP.opened _ hs) h
  | stack, .list _ rest, s, s', hs, h => value hP stack rest _ s' (hP.opened _ hs) h
  | stack, .genMap _ rest, s, s', hs, h => value hP stack rest _ s' (hP.opened _ hs) h
  | stack, .variant _ rest, s, s', hs, h => value hP stack rest _ s' (hP.opened _ hs) h
  | stack, .enum _ rest, s, s', hs, h => value hP stack rest _ s' (hP.opened _ hs) h

/-- The elements of an Optional. -/
theorem elems (hP : WalkInvariant P) : ∀ (stack : List Frame) (vs : Values) (s s' : Ctx), P s →
    walkElems d stack vs s = some s' → P s'
  | _, .nil, s, s', hs, h => by
    cases h
    exact hs
  | stack, .cons v rest, s, s', hs, h => by
    unfold walkElems at h
    split at h
    · cases h
    · obtain ⟨s₁, h₁, h₂⟩ := Option.bind_eq_some_iff.mp h
      have hs₁ := value hP stack v s s₁ hs h₁
      exact elems hP stack rest _ s' (hP.field _ _ hs₁) h₂

/-- A record. -/
theorem record (hP : WalkInvariant P) : ∀ (stack : List Frame) (r : Record) (s s' : Ctx), P s →
    walkRecord d stack r s = some s' → P s'
  | _, .nil, s, s', hs, h => by
    cases h
    exact hs
  | stack, .recordId id rest, s, s', hs, h => by
    refine record hP stack rest _ s' ?_ h
    split
    · rename_i hdepth
      exact hP.select _ _ hs hdepth
    · exact hs
  | stack, .field f rest, s, s', hs, h => by
    unfold walkRecord at h
    split at h
    · exact record hP stack rest s s' hs h
    · split at h
      · cases h
      · obtain ⟨⟨s₁, seen⟩, h₁, h₂⟩ := Option.bind_eq_some_iff.mp h
        have hs₁ := namedItems hP stack s.valuesOpened f s false s₁ seen hs h₁
        exact record hP stack rest _ s' (hP.closeField hs₁ (!seen) _ _) h₂

/-- A TextMap. -/
theorem textMap (hP : WalkInvariant P) : ∀ (stack : List Frame) (m : TextMap) (s s' : Ctx), P s →
    walkTextMap d stack m s = some s' → P s'
  | _, .nil, s, s', hs, h => by
    cases h
    exact hs
  | stack, .entry e rest, s, s', hs, h => by
    unfold walkTextMap at h
    split at h
    · cases h
    · obtain ⟨⟨s₁, seen⟩, h₁, h₂⟩ := Option.bind_eq_some_iff.mp h
      have hs₁ := namedItems hP stack s.valuesOpened e s false s₁ seen hs h₁
      exact textMap hP stack rest _ s' (hP.closeField hs₁ (!seen && s₁.fields.isSome) _ _) h₂

/-- The items of a field or an entry. -/
theorem namedItems (hP : WalkInvariant P) : ∀ (stack : List Frame) (valuesBefore : Nat)
    (f : NamedValue)
    (s : Ctx) (seen : Bool) (s' : Ctx) (seen' : Bool), P s →
    walkNamedItems d stack valuesBefore f s seen = some (s', seen') → P s'
  | _, _, .nil, s, seen, s', seen', hs, h => by
    cases h
    exact hs
  | stack, n, .name l rest, s, seen, s', seen', hs, h =>
    namedItems hP stack n rest _ true s' seen' (hP.label hs n l) h
  | stack, n, .value v rest, s, seen, s', seen', hs, h => by
    obtain ⟨s₁, h₁, h₂⟩ := Option.bind_eq_some_iff.mp h
    exact namedItems hP stack n rest s₁ seen s' seen' (value hP stack v s s₁ hs h₁) h₂

end

/-- A whole node part, when the property does not depend on which node is
read. -/
theorem node (hP : WalkInvariant P)
    (hid : ∀ s contractId templateId choiceId, P s →
      P (setNodeIdentity s contractId templateId choiceId))
    (part : NodePart) {s s' : Ctx} (hs : P s) (h : walkNode d s part = some s') : P s' := by
  refine List.foldlM_invariant _ (fun k _ s₁ s₂ hs₁ hk => ?_) hs h
  have hvalues : ∀ (field : Frame) (s : Ctx) (vs : List Value), P s →
      walkValues d field s vs = some s₂ → P s₂ :=
    fun field s vs hs hv => List.foldlM_invariant vs (fun v _ s s' => hP.value [field] v s s') hs hv
  unfold nodeDecodeCallback at hk
  split at hk
  · split at hk
    · cases hk
    · exact hvalues _ _ _ (hid _ _ _ _ hs₁) hk
  · split at hk
    · cases hk
    · exact hvalues _ _ _ (hid _ _ _ _ hs₁) hk
  · cases hk
    exact hs₁

/-- A whole input contract, likewise. -/
theorem inputContract (hP : WalkInvariant P)
    (hid : ∀ s contractId templateId choiceId, P s →
      P (setNodeIdentity s contractId templateId choiceId))
    (ic : InputContract) {s s' : Ctx} (hs : P s) (h : walkInputContract d s ic = some s') :
    P s' := by
  refine List.foldlM_invariant _ (fun c _ s₁ s₂ hs₁ hc => ?_) hs h
  exact List.foldlM_invariant c.argument
    (fun v _ s s' => hP.elems [.displayContractArgument] _ s s')
    (hid _ _ _ _ hs₁) hc

end WalkInvariant

/-! ## The review during a walk -/

/-- What a walk leaves of the review: everything but the rows. -/
def SameFlags (r : Review) (s : Ctx) : Prop :=
  s.review.clearSigningAvailable = r.clearSigningAvailable ∧
    s.review.displayFailed = r.displayFailed

/-- The search for a screen leaves the flags alone. -/
theorem findTxTypeAndConfig_review (s : Ctx) (id : Identifier) :
    SameFlags s.review (findTxTypeAndConfig s id) := by
  unfold findTxTypeAndConfig findInTable setDisplayConfig SameFlags
  grind

/-- So does a whole walk. -/
theorem sameFlags_walk (r : Review) : WalkInvariant (SameFlags r) where
  opened _ h := h
  entered _ h := h
  left _ h := h
  unreadable _ h := h
  path _ _ h := h
  field _ _ h := h
  select s id h _ := by
    have := findTxTypeAndConfig_review s id
    exact ⟨this.1.trans h.1, this.2.trans h.2⟩

/-! ## The review after a parse -/

variable {d : Device}

/-- A formatter leaves the review alone. -/
theorem runFormatCallback_review (s : Ctx) (fs : List TxField) (i : Nat) (block : Bytes)
    (cb : Option FormatCallback) : (runFormatCallback d s fs i block cb).review = s.review := by
  unfold runFormatCallback formatTokenAmount
  grind

/-- How one field is formatted. -/
def formatField (d : Device) (s : Ctx) (i : Nat) (f : TxField) (block : Bytes) : Ctx :=
  if f.display then runFormatCallback d s (s.fields.getD []) i block f.config.formatCallback else s

/-- So does the formatting of a field. -/
theorem formatField_review (s : Ctx) (i : Nat) (f : TxField) (block : Bytes) :
    (formatField d s i f block).review = s.review := by
  unfold formatField
  split
  · exact runFormatCallback_review _ _ _ _ _
  · rfl

/-- One turn of the formatting loop. -/
theorem formatLoop_succ (n i : Nat) (s : Ctx) :
    formatLoop d (n + 1) i s =
      match (s.fields.getD [])[i]? with
      | none => .formatted s
      | some f =>
        if f.storeFailed then .failed s
        else
          match f.value with
          | none => if f.config.mandatory then .missing else formatLoop d n (i + 1) s
          | some block =>
            if (formatField d s i f block).unknownToken then .failed (formatField d s i f block)
            else formatLoop d n (i + 1) (formatField d s i f block) := rfl

/-- Formatting leaves the review alone. -/
theorem formatLoop_review (n i : Nat) (s s' : Ctx) (h : formatLoop d n i s = .formatted s') :
    s'.review = s.review := by
  induction n generalizing i s with
  | zero =>
    cases h
    rfl
  | succ n ih =>
    rw [formatLoop_succ] at h
    split at h
    · cases h
      rfl
    · rename_i f _
      split at h
      · cases h
      · split at h
        · split at h
          · cases h
          · exact ih _ _ h
        · rename_i block _
          split at h
          · cases h
          · exact (ih _ _ h).trans (formatField_review s i f block)

/-- A parse that does not skip the part sets `display_failed` with clear signing
off, or leaves it as it was. -/
theorem finishParsing_review {values : ValuesStore} {s : Ctx} {g' : Globals} {r' : Review}
    {values' : ValuesStore} (h : finishParsing d values s = some (g', r', values')) :
    (r'.displayFailed = true ∧ r'.clearSigningAvailable = false) ∨
      r'.displayFailed = s.review.displayFailed := by
  unfold finishParsing at h
  split at h
  · obtain ⟨review, hreview, heq⟩ := Option.bind_eq_some_iff.mp h
    cases heq
    unfold formatAndPopulate at hreview
    dsimp only at hreview
    split at hreview
    · cases hreview
      exact .inl ⟨rfl, rfl⟩
    · split at hreview
      · cases hreview
        exact .inl ⟨rfl, rfl⟩
      · cases hreview
      · rename_i s' hloop
        cases hreview
        right
        show s'.review.displayFailed = s.review.displayFailed
        rw [formatLoop_review _ _ _ _ hloop]
  · cases h
    exact .inr rfl

/-- The walk starts with the flags of the review. -/
theorem sameFlags_start (g : Globals) (r : Review) : SameFlags r (Ctx.start g r) := ⟨rfl, rfl⟩

/-- What a parse for display does with the review: nothing when it skips the part,
and otherwise `display_failed` only comes with clear signing off. -/
def ReviewKept (r r' : Review) : Prop :=
  r' = r ∨ (r.displayFailed = false ∧
    (r'.displayFailed = true → r'.clearSigningAvailable = false))

/-- The end of a parse keeps `display_failed` off or turns it on with clear signing off. -/
theorem reviewKept_of_finish {values : ValuesStore} {r : Review} {s : Ctx} {g' : Globals}
    {r' : Review} {values' : ValuesStore} (hr : r.displayFailed = false) (hs : SameFlags r s)
    (h : finishParsing d values s = some (g', r', values')) : ReviewKept r r' := by
  refine .inr ⟨hr, fun hfail => ?_⟩
  rcases finishParsing_review h with ⟨-, hclear⟩ | hkept
  · exact hclear
  · rw [hkept, hs.2, hr] at hfail
    cases hfail

/-- So does the parse of a node part. -/
theorem parseNodeForDisplay_review {g g' : Globals} {r r' : Review} {values values' : ValuesStore}
    {part : NodePart} (h : parseNodeForDisplay d g r values part = some (g', r', values')) :
    ReviewKept r r' := by
  unfold parseNodeForDisplay at h
  split at h
  · cases h
    exact .inl rfl
  · rename_i hskip
    obtain ⟨s, hwalk, hfinish⟩ := Option.bind_eq_some_iff.mp h
    have hflags : SameFlags r s :=
      (sameFlags_walk r).node (fun _ _ _ _ h => h) part (sameFlags_start none r) hwalk
    exact reviewKept_of_finish (by simp at hskip; exact hskip.1.2) hflags hfinish

/-- And that of an input contract. -/
theorem parseInputContractForDisplay_review {g g' : Globals} {r r' : Review}
    {values values' : ValuesStore} {ic : InputContract}
    (h : parseInputContractForDisplay d g r values ic = some (g', r', values')) :
    ReviewKept r r' ∧ (g = none → (g', r', values') = (g, r, values)) := by
  unfold parseInputContractForDisplay at h
  split at h
  · cases h
    exact ⟨.inl rfl, fun _ => rfl⟩
  · rename_i hskip
    obtain ⟨s, hwalk, hfinish⟩ := Option.bind_eq_some_iff.mp h
    have hflags : SameFlags r s :=
      (sameFlags_walk r).inputContract (fun _ _ _ _ h => h) ic (sameFlags_start g r) hwalk
    refine ⟨reviewKept_of_finish (by simp at hskip; exact hskip.1.2) hflags hfinish, ?_⟩
    rintro rfl
    simp at hskip

end DisplayParser

end CantonSigner
