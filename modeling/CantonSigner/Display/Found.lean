import CantonSigner.Display.Rows

/-!
# What the display walk hands to the fields

`foundValue` lists the calls of `find_tx_field` in a walk, each with the path and the value.
The fields at its end are those of the selected screen with these values matched one after the
other (`Filled`, `filled_value`), and each field is settled by what was found at its own path
(`fillFound_eq_map`). A field takes one value at most (`settle_ok`).
-/

namespace CantonSigner

open ByteCodec

namespace DisplayParser

/-- A path and the value found there. -/
abbrev Found := Bytes × Which

/-! ## The calls of a walk -/

/-- The call of `find_tx_field` in a state; without a screen it does nothing. -/
def foundHere (s : Ctx) (w : Which) : List Found := if s.fields.isSome then [(s.path, w)] else []

section Calls

variable (d : Device)

mutual

/-- The calls made below a value. -/
def foundValue (stack : List Frame) : Value → Ctx → List Found
  | .nil, _ => []
  | .prim _ rest, s => foundValue stack rest s
  | .record r rest, s =>
    let s := { s with valuesOpened := s.valuesOpened + 1, recordDepth := s.recordDepth + 1 }
    foundRecord (.record :: stack) r s ++ (walkRecord d (.record :: stack) r s).elim [] fun s =>
      foundValue stack rest { s with recordDepth := s.recordDepth - 1 }
  | .optional vs rest, s =>
    let s := { s with valuesOpened := s.valuesOpened + 1 }
    foundElems (.optional :: stack) vs s ++ (walkElems d (.optional :: stack) vs s).elim [] fun s =>
      foundValue stack rest s
  | .textMap m rest, s =>
    let s := { s with valuesOpened := s.valuesOpened + 1 }
    foundTextMap (.textMap :: stack) m s ++ (walkTextMap d (.textMap :: stack) m s).elim [] fun s =>
      foundValue stack rest s
  | .unit rest, s => foundValue stack rest { s with valuesOpened := s.valuesOpened + 1 }
  | .list _ rest, s => foundValue stack rest { s with valuesOpened := s.valuesOpened + 1 }
  | .genMap _ rest, s => foundValue stack rest { s with valuesOpened := s.valuesOpened + 1 }
  | .variant _ rest, s => foundValue stack rest { s with valuesOpened := s.valuesOpened + 1 }
  | .enum _ rest, s => foundValue stack rest { s with valuesOpened := s.valuesOpened + 1 }

def foundElems (stack : List Frame) : Values → Ctx → List Found
  | .nil, _ => []
  | .cons v rest, s =>
    if !d.stackHasRoom stack then []
    else
      foundValue stack v s ++ (walkValue d stack v s).elim [] fun s =>
        foundHere s (v.which .none) ++ foundElems stack rest (findTxField s (v.which .none))

def foundRecord (stack : List Frame) : Record → Ctx → List Found
  | .nil, _ => []
  | .recordId id rest, s =>
    foundRecord stack rest (if s.recordDepth = 1 then findTxTypeAndConfig s id else s)
  | .field f rest, s =>
    if s.fields.isNone then foundRecord stack rest s
    else if !d.stackHasRoom stack then []
    else
      foundItems stack s.valuesOpened f s false ++
        (walkNamedItems d stack s.valuesOpened f s false).elim [] fun (s', seen) =>
          let s' := if !seen then { s' with unreadable := true } else s'
          let s'' := findTxField s' (f.which .none)
          foundHere s' (f.which .none) ++
            foundRecord stack rest { s'' with path := s''.path.take s.path.length }

def foundTextMap (stack : List Frame) : TextMap → Ctx → List Found
  | .nil, _ => []
  | .entry e rest, s =>
    if !d.stackHasRoom stack then []
    else
      foundItems stack s.valuesOpened e s false ++
        (walkNamedItems d stack s.valuesOpened e s false).elim [] fun (s', seen) =>
          let s' := if !seen && s'.fields.isSome then { s' with unreadable := true } else s'
          let s'' := findTxField s' (e.which .none)
          foundHere s' (e.which .none) ++
            foundTextMap stack rest { s'' with path := s''.path.take s.path.length }

def foundItems (stack : List Frame) (valuesBefore : Nat) : NamedValue → Ctx → Bool → List Found
  | .nil, _, _ => []
  | .name l rest, s, _ => foundItems stack valuesBefore rest (decodeLabel valuesBefore s l) true
  | .value v rest, s, seen =>
    foundValue stack v s ++ (walkValue d stack v s).elim [] fun s =>
      foundItems stack valuesBefore rest s seen

end

/-- The calls made for the argument or chosen value of a node. -/
def foundValues (field : Frame) (s : Ctx) (vs : List Value) : List Found :=
  listAlong (fun s v => walkValue d [field] v s) (fun s v => foundValue d [field] v s) s vs

/-- The calls made for a node. -/
def foundKind (s : Ctx) : NodeKind → List Found
  | .exercise e =>
    if !e.chosenValueIsMessage then []
    else
      foundValues d .displayChosenValue (setNodeIdentity s e.contractId e.templateId e.choiceId)
        e.chosenValue
  | .create c =>
    if !c.argumentIsMessage then []
    else
      foundValues d .displayArgument (setNodeIdentity s c.contractId c.templateId none) c.argument
  | _ => []

/-- The calls made for a node part. -/
def foundNode (s : Ctx) (part : NodePart) : List Found :=
  listAlong (nodeDecodeCallback d) (foundKind d) s (nodeKinds part)

/-- The calls made for an input contract. -/
def foundContract (s : Ctx) (ic : InputContract) : List Found :=
  listAlong (decodeCreate d)
    (fun s c => listAlong (fun s v => walkElems d [.displayContractArgument] (.cons v .nil) s)
      (fun s v => foundElems d [.displayContractArgument] (.cons v .nil) s)
      (setNodeIdentity s c.contractId c.templateId none) c.argument) s ic.v1

end Calls

/-! ## What they leave in the fields -/

/-- The fields of a screen before anything is matched. -/
def screenFields (c : DisplayConfig) : List TxField :=
  setPreapprovalAsset c.reviewTitle (c.fields.map freshField)

/-- Match these values one after the other. -/
def fillFound (found : List Found) (fs : List TxField) : List TxField :=
  found.foldl (fun fs e => updateFieldAt e.1 (matchField e.2) fs) fs

/-- From one state to another, these values were found: they are matched with the fields, or
with those of the screen that was selected on the way. -/
structure Filled (s : Ctx) (found : List Found) (s' : Ctx) : Prop where
  selected : ∀ fs, s.fields = some fs →
    s'.fields = some (fillFound found fs) ∧ s'.conf = s.conf
  waiting : s.fields = none → (s'.fields = none ∧ found = []) ∨
    ∃ c, s'.conf = some c ∧ s'.fields = some (fillFound found (screenFields c))

variable {d : Device} {s s' s'' : Ctx} {l l' : List Found}

theorem Filled.refl (s : Ctx) : Filled s [] s :=
  ⟨fun _ h => ⟨h, rfl⟩, fun h => .inl ⟨h, rfl⟩⟩

theorem Filled.trans (h : Filled s l s') (h' : Filled s' l' s'') : Filled s (l ++ l') s'' := by
  refine ⟨fun fs hfs => ?_, fun hnone => ?_⟩
  · obtain ⟨hfs', hconf⟩ := h.selected fs hfs
    obtain ⟨hfs'', hconf'⟩ := h'.selected _ hfs'
    refine ⟨?_, hconf'.trans hconf⟩
    rw [hfs'', fillFound, fillFound, fillFound, List.foldl_append]
  · rcases h.waiting hnone with ⟨hnone', rfl⟩ | ⟨c, hconf, hfs⟩
    · rw [List.nil_append]
      exact h'.waiting hnone'
    · obtain ⟨hfs', hconf'⟩ := h'.selected _ hfs
      refine .inr ⟨c, hconf'.trans hconf, ?_⟩
      rw [hfs', fillFound, fillFound, fillFound, List.foldl_append]

/-- Steps that touch neither the fields nor the screen. -/
theorem filled_of_eq (hfields : s'.fields = s.fields) (hconf : s'.conf = s.conf) :
    Filled s [] s' :=
  ⟨fun _ h => ⟨hfields.trans h, hconf⟩, fun h => .inl ⟨hfields.trans h, rfl⟩⟩

/-- Only the fields and the screen of the first state matter. -/
theorem Filled.congr {s₀ : Ctx} (h : Filled s l s') (hfields : s.fields = s₀.fields)
    (hconf : s.conf = s₀.conf) : Filled s₀ l s' :=
  ⟨fun fs hfs => hconf ▸ h.selected fs (hfields.trans hfs), fun hnone =>
    h.waiting (hfields.trans hnone)⟩

theorem filled_find (s : Ctx) (w : Which) : Filled s (foundHere s w) (findTxField s w) := by
  unfold foundHere findTxField
  refine ⟨fun fs hfs => ?_, fun hnone => ?_⟩
  · rw [hfs]
    exact ⟨rfl, rfl⟩
  · rw [hnone]
    exact .inl ⟨rfl, rfl⟩

theorem filled_findInTable (h : s.fields = none) (id : Identifier) :
    Filled s [] (findInTable s id) := by
  unfold findInTable
  split
  · exact .refl s
  · split
    · refine ⟨fun fs hfs => ?_, fun _ => .inr ⟨_, rfl, rfl⟩⟩
      rw [h] at hfs
      cases hfs
    · exact filled_of_eq rfl rfl

theorem filled_select (s : Ctx) (id : Identifier) : Filled s [] (findTxTypeAndConfig s id) := by
  unfold findTxTypeAndConfig
  split
  · exact .refl s
  · rename_i hnone
    have hnone : s.fields = none := by simpa using hnone
    split
    · exact filled_findInTable hnone id
    · split
      · refine ⟨fun fs hfs => ?_, fun _ => .inr ⟨_, rfl, rfl⟩⟩
        rw [hnone] at hfs
        cases hfs
      · exact filled_findInTable hnone id

theorem filled_segment (s : Ctx) (label : Bytes) : Filled s [] (readPathSegment s label) := by
  unfold readPathSegment pushPath
  split
  · exact filled_of_eq rfl rfl
  · split
    · exact filled_of_eq rfl rfl
    · split
      · exact .refl s
      · split
        · exact filled_of_eq rfl rfl
        · exact filled_of_eq rfl rfl

theorem filled_label (n : Nat) (s : Ctx) (label : Bytes) : Filled s [] (decodeLabel n s label) := by
  unfold decodeLabel
  split
  · exact (filled_segment { s with unreadable := true } label).congr rfl rfl
  · exact filled_segment s label

/-- The end of a record field or TextMap entry: the value is matched, and the path is cut
back. -/
theorem filled_close (s : Ctx) (bad : Bool) (w : Which) (n : Nat) :
    let s' := if bad then { s with unreadable := true } else s
    Filled s (foundHere s' w) { findTxField s' w with path := (findTxField s' w).path.take n } := by
  intro s'
  have hmark : Filled s [] s' := by
    cases bad with
    | true => exact filled_of_eq rfl rfl
    | false => exact .refl s
  have hcut : Filled (findTxField s' w) []
      { findTxField s' w with path := (findTxField s' w).path.take n } := filled_of_eq rfl rfl
  simpa using (hmark.trans (filled_find s' w)).trans hcut

mutual

theorem filled_value : ∀ (stack : List Frame) (v : Value) (s s' : Ctx),
    walkValue d stack v s = some s' → Filled s (foundValue d stack v s) s'
  | _, .nil, s, s', h => by
    cases h
    exact .refl s
  | stack, .prim _ rest, s, s', h => filled_value stack rest s s' h
  | stack, .record r rest, s, s', h => by
    obtain ⟨s₁, h₁, h₂⟩ := Option.bind_eq_some_iff.mp h
    rw [foundValue, h₁]
    have hbelow : Filled s _ s₁ := (filled_record (.record :: stack) r _ s₁ h₁).congr rfl rfl
    exact hbelow.trans ((filled_value stack rest _ s' h₂).congr rfl rfl)
  | stack, .optional vs rest, s, s', h => by
    obtain ⟨s₁, h₁, h₂⟩ := Option.bind_eq_some_iff.mp h
    rw [foundValue, h₁]
    have hbelow : Filled s _ s₁ := (filled_elems (.optional :: stack) vs _ s₁ h₁).congr rfl rfl
    exact hbelow.trans (filled_value stack rest s₁ s' h₂)
  | stack, .textMap m rest, s, s', h => by
    obtain ⟨s₁, h₁, h₂⟩ := Option.bind_eq_some_iff.mp h
    rw [foundValue, h₁]
    have hbelow : Filled s _ s₁ := (filled_textMap (.textMap :: stack) m _ s₁ h₁).congr rfl rfl
    exact hbelow.trans (filled_value stack rest s₁ s' h₂)
  | stack, .unit rest, s, s', h =>
    (filled_value stack rest { s with valuesOpened := s.valuesOpened + 1 } s' h).congr rfl rfl
  | stack, .list _ rest, s, s', h =>
    (filled_value stack rest { s with valuesOpened := s.valuesOpened + 1 } s' h).congr rfl rfl
  | stack, .genMap _ rest, s, s', h =>
    (filled_value stack rest { s with valuesOpened := s.valuesOpened + 1 } s' h).congr rfl rfl
  | stack, .variant _ rest, s, s', h =>
    (filled_value stack rest { s with valuesOpened := s.valuesOpened + 1 } s' h).congr rfl rfl
  | stack, .enum _ rest, s, s', h =>
    (filled_value stack rest { s with valuesOpened := s.valuesOpened + 1 } s' h).congr rfl rfl

theorem filled_elems : ∀ (stack : List Frame) (vs : Values) (s s' : Ctx),
    walkElems d stack vs s = some s' → Filled s (foundElems d stack vs s) s'
  | _, .nil, s, s', h => by
    cases h
    exact .refl s
  | stack, .cons v rest, s, s', h => by
    unfold walkElems at h
    rw [foundElems]
    split at h
    · cases h
    · rename_i hroom
      obtain ⟨s₁, h₁, h₂⟩ := Option.bind_eq_some_iff.mp h
      rw [if_neg hroom, h₁]
      exact (filled_value stack v s s₁ h₁).trans
        ((filled_find s₁ _).trans (filled_elems stack rest _ s' h₂))

theorem filled_record : ∀ (stack : List Frame) (r : Record) (s s' : Ctx),
    walkRecord d stack r s = some s' → Filled s (foundRecord d stack r s) s'
  | _, .nil, s, s', h => by
    cases h
    exact .refl s
  | stack, .recordId id rest, s, s', h => by
    unfold walkRecord at h
    rw [foundRecord]
    split at h
    · rename_i hdepth
      rw [if_pos hdepth]
      exact (filled_select s id).trans (filled_record stack rest _ s' h)
    · rename_i hdepth
      rw [if_neg hdepth]
      exact filled_record stack rest s s' h
  | stack, .field f rest, s, s', h => by
    unfold walkRecord at h
    rw [foundRecord]
    split at h
    · rename_i hnone
      rw [if_pos hnone]
      exact filled_record stack rest s s' h
    · rename_i hsome
      rw [if_neg hsome]
      split at h
      · cases h
      · rename_i hroom
        obtain ⟨⟨s₁, seen⟩, h₁, h₂⟩ := Option.bind_eq_some_iff.mp h
        rw [if_neg hroom, h₁]
        exact (filled_items stack _ f s s₁ false seen h₁).trans
          ((filled_close s₁ (!seen) _ _).trans (filled_record stack rest _ s' h₂))

theorem filled_textMap : ∀ (stack : List Frame) (m : TextMap) (s s' : Ctx),
    walkTextMap d stack m s = some s' → Filled s (foundTextMap d stack m s) s'
  | _, .nil, s, s', h => by
    cases h
    exact .refl s
  | stack, .entry e rest, s, s', h => by
    unfold walkTextMap at h
    rw [foundTextMap]
    split at h
    · cases h
    · rename_i hroom
      obtain ⟨⟨s₁, seen⟩, h₁, h₂⟩ := Option.bind_eq_some_iff.mp h
      rw [if_neg hroom, h₁]
      exact (filled_items stack _ e s s₁ false seen h₁).trans
        ((filled_close s₁ (!seen && s₁.fields.isSome) _ _).trans
          (filled_textMap stack rest _ s' h₂))

theorem filled_items : ∀ (stack : List Frame) (n : Nat) (f : NamedValue) (s s' : Ctx)
    (seen seen' : Bool),
    walkNamedItems d stack n f s seen = some (s', seen') →
      Filled s (foundItems d stack n f s seen) s'
  | _, _, .nil, s, s', seen, seen', h => by
    cases h
    exact .refl s
  | stack, n, .name l rest, s, s', _, seen', h =>
    (filled_label n s l).trans (filled_items stack n rest (decodeLabel n s l) s' true seen' h)
  | stack, n, .value v rest, s, s', seen, seen', h => by
    obtain ⟨s₁, h₁, h₂⟩ := Option.bind_eq_some_iff.mp h
    rw [foundItems, h₁]
    exact (filled_value stack v s s₁ h₁).trans (filled_items stack n rest s₁ s' seen seen' h₂)

end

theorem filled_kind {k : NodeKind} (h : nodeDecodeCallback d s k = some s') :
    Filled s (foundKind d s k) s' := by
  have hvalues : ∀ {field : Frame} {s s' : Ctx} {vs : List Value},
      walkValues d field s vs = some s' → Filled s (foundValues d field s vs) s' :=
    fun {field} _ _ _ h => listAlong_rel Filled.refl (fun _ _ _ _ _ => Filled.trans)
      (fun s v s' => filled_value [field] v s s') h
  cases k with
  | exercise e =>
    unfold nodeDecodeCallback at h
    unfold foundKind
    dsimp only at h ⊢
    split at h
    · cases h
    · rename_i hmessage
      rw [if_neg hmessage]
      exact (hvalues h).congr rfl rfl
  | create c =>
    unfold nodeDecodeCallback at h
    unfold foundKind
    dsimp only at h ⊢
    split at h
    · cases h
    · rename_i hmessage
      rw [if_neg hmessage]
      exact (hvalues h).congr rfl rfl
  | fetch f =>
    cases h
    exact .refl s
  | rollback r =>
    cases h
    exact .refl s
  | queryByKey =>
    cases h
    exact .refl s

theorem filled_node {part : NodePart} (h : walkNode d s part = some s') :
    Filled s (foundNode d s part) s' :=
  listAlong_rel Filled.refl (fun _ _ _ _ _ => Filled.trans) (fun _ _ _ => filled_kind) h

theorem filled_contract {ic : InputContract} (h : walkInputContract d s ic = some s') :
    Filled s (foundContract d s ic) s' := by
  refine listAlong_rel Filled.refl (fun _ _ _ _ _ => Filled.trans) (fun s c s' hc => ?_) h
  have hvalues := listAlong_rel (R := Filled) Filled.refl (fun _ _ _ _ _ => Filled.trans)
    (fun s v s' => filled_elems [.displayContractArgument] (.cons v .nil) s s') hc
  exact hvalues.congr rfl rfl

/-! ## Each field by itself -/

/-- A field after these values were matched with it. -/
def settle (ws : List Which) (f : TxField) : TxField := ws.foldl (fun f w => matchField w f) f

/-- The values found at a path. -/
def foundAt (found : List Found) (path : Bytes) : List Which :=
  (found.filter fun e => e.1 = path).map (·.2)

theorem updateFieldAt_eq_map {path : Bytes} {g : TxField → TxField} {fs : List TxField}
    (h : (fs.map (·.config.path)).Nodup) :
    updateFieldAt path g fs = fs.map fun f => if f.config.path = path then g f else f := by
  induction fs with
  | nil => rfl
  | cons f fs ih =>
    rw [List.map_cons, List.nodup_cons] at h
    rw [updateFieldAt, List.map_cons]
    split
    · rename_i hpath
      -- No other field has the path.
      have hothers : fs.map (fun f => if f.config.path = path then g f else f) = fs := by
        refine (List.map_congr_left fun f' hf' => if_neg ?_).trans (List.map_id fs)
        rintro rfl
        exact h.1 (hpath ▸ List.mem_map_of_mem hf')
      rw [hothers]
    · rw [ih h.2]

theorem fillFound_eq_map {found : List Found} {fs : List TxField}
    (h : (fs.map (·.config.path)).Nodup) :
    fillFound found fs = fs.map fun f => settle (foundAt found f.config.path) f := by
  induction found generalizing fs with
  | nil => exact (List.map_id fs).symm
  | cons e found ih =>
    have hpaths : (updateFieldAt e.1 (matchField e.2) fs).map (·.config.path) =
        fs.map (·.config.path) := by
      have := (updateFieldAt_keeps (matchField_keeps e.2) e.1 fs).1
      simpa only [List.map_map, Function.comp_def] using congrArg (List.map (·.path)) this
    rw [fillFound, List.foldl_cons]
    show fillFound found _ = _
    rw [ih (by rw [hpaths]; exact h), updateFieldAt_eq_map h, List.map_map]
    refine List.map_congr_left fun f hf => ?_
    dsimp only [Function.comp_apply]
    by_cases hpath : f.config.path = e.1
    · rw [if_pos hpath, (matchField_keeps e.2 f).1]
      unfold foundAt
      rw [List.filter_cons_of_pos (by simpa using hpath.symm), List.map_cons]
      rfl
    · rw [if_neg hpath]
      unfold foundAt
      rw [List.filter_cons_of_neg (by simpa using Ne.symm hpath)]

/-- The block that a value is stored in; an empty text is not stored. -/
def blockOf : Prim → Option Bytes
  | .party s | .numeric s | .text s => if s.isEmpty then none else some (s ++ [0])
  | .timestamp t => some (beBytes 8 (t % 2 ^ 64).toNat)
  | _ => none

theorem storeValue_text_cases (f : TxField) (s : Bytes) :
    (storeValue f (.text s)).storeFailed = true ∨ f.matched = false ∧ s.length ≤ maxFieldValueLen ∧
      storeValue f (.text s) = { f with
        matched := true
        value := (if s.isEmpty then none else some (s ++ [0])).or f.value } := by
  unfold storeValue
  by_cases hmatched : f.matched = true
  · rw [if_pos hmatched]
    exact .inl rfl
  · rw [if_neg hmatched]
    dsimp only
    by_cases hempty : s.isEmpty = true
    · rw [if_pos hempty, if_pos hempty]
      refine .inr ⟨by simpa using hmatched, ?_, rfl⟩
      rw [List.isEmpty_iff.mp hempty]
      exact Nat.zero_le _
    · rw [if_neg hempty, if_neg hempty]
      split
      · exact .inl rfl
      · exact .inr ⟨by simpa using hmatched, by omega, rfl⟩

/-- What may be stored: a text that is not too long, or a timestamp. -/
def Storable : Prim → Prop
  | .party s | .numeric s | .text s => s.length ≤ maxFieldValueLen
  | .timestamp _ => True
  | _ => False

/-- One value: an Optional is passed over, and any other is stored in a field that had none yet,
or else the field fails. -/
theorem matchField_cases (w : Which) (f : TxField) :
    (w = .optional ∧ matchField w f = f) ∨ (matchField w f).storeFailed = true ∨
      ∃ p, w = .prim p ∧ f.matched = false ∧ Storable p ∧
        matchField w f = { f with matched := true, value := (blockOf p).or f.value } := by
  have htext : ∀ s, (storeValue f (.text s)).storeFailed = true ∨ f.matched = false ∧
      s.length ≤ maxFieldValueLen ∧ storeValue f (.text s) = { f with
        matched := true
        value := (if s.isEmpty then none else some (s ++ [0])).or f.value } :=
    storeValue_text_cases f
  cases w with
  -- an optional is opened by the walk, not stored
  | optional => exact .inl ⟨rfl, rfl⟩
  | prim p =>
    right
    cases p with
    | party s => exact (htext s).imp id fun ⟨hm, hlen, heq⟩ => ⟨.party s, rfl, hm, hlen, heq⟩
    | numeric s => exact (htext s).imp id fun ⟨hm, hlen, heq⟩ => ⟨.numeric s, rfl, hm, hlen, heq⟩
    | text s => exact (htext s).imp id fun ⟨hm, hlen, heq⟩ => ⟨.text s, rfl, hm, hlen, heq⟩
    -- a timestamp is stored unless the field has been matched before
    | timestamp t =>
      show (storeValue f (.timestamp t)).storeFailed = true ∨ _
      unfold storeValue
      by_cases hmatched : f.matched = true
      · rw [if_pos hmatched]
        exact .inl rfl
      · right
        refine ⟨.timestamp t, rfl, by simpa using hmatched, trivial, ?_⟩
        show storeValue f (.timestamp t) = _
        unfold storeValue
        rw [if_neg hmatched]
        rfl
    | bool b => exact .inl rfl
    | int64 v => exact .inl rfl
    | date v => exact .inl rfl
    | contractId s => exact .inl rfl
  | none => exact .inr (.inl rfl)
  | unit => exact .inr (.inl rfl)
  | list => exact .inr (.inl rfl)
  | textMap => exact .inr (.inl rfl)
  | genMap => exact .inr (.inl rfl)
  | record => exact .inr (.inl rfl)
  | variant => exact .inr (.inl rfl)
  | enum => exact .inr (.inl rfl)

/-- A failed field stays failed. -/
theorem settle_failed {ws : List Which} {f : TxField} (h : f.storeFailed = true) :
    (settle ws f).storeFailed = true := by
  induction ws generalizing f with
  | nil => exact h
  | cons w ws ih =>
    have hstep : (matchField w f).storeFailed = true := by
      rcases matchField_cases w f with ⟨-, heq⟩ | hfailed | ⟨p, -, -, -, heq⟩
      · rw [heq]
        exact h
      · exact hfailed
      · rw [heq]
        exact h
    exact ih hstep

/-- A field that has its value only passes over Optionals. -/
theorem settle_matched {ws : List Which} {f : TxField} (hmatched : f.matched = true)
    (hok : (settle ws f).storeFailed = false) : settle ws f = f ∧ ∀ w ∈ ws, w = .optional := by
  induction ws with
  | nil => exact ⟨rfl, nofun⟩
  | cons w ws ih =>
    have hstep : settle (w :: ws) f = settle ws (matchField w f) := rfl
    rw [hstep] at hok ⊢
    rcases matchField_cases w f with ⟨rfl, heq⟩ | hfailed | ⟨p, -, hnew, -⟩
    · rw [heq] at hok ⊢
      obtain ⟨hsettled, hall⟩ := ih hok
      refine ⟨hsettled, fun w hw => ?_⟩
      rcases List.mem_cons.mp hw with rfl | hw
      · rfl
      · exact hall w hw
    · rw [settle_failed hfailed] at hok
      cases hok
    · rw [hmatched] at hnew
      cases hnew

/-- A field that has not failed was given nothing, or one value. -/
theorem settle_ok {ws : List Which} {f : TxField} (hok : (settle ws f).storeFailed = false) :
    (settle ws f = f ∧ ∀ w ∈ ws, w = .optional) ∨
      ∃ p, (ws.filter fun w => w ≠ .optional) = [.prim p] ∧ Storable p ∧
        settle ws f = { f with matched := true, value := (blockOf p).or f.value } := by
  induction ws with
  | nil => exact .inl ⟨rfl, nofun⟩
  | cons w ws ih =>
    have hstep : settle (w :: ws) f = settle ws (matchField w f) := rfl
    rw [hstep] at hok ⊢
    rcases matchField_cases w f with ⟨rfl, heq⟩ | hfailed | ⟨p, rfl, -, hstorable, heq⟩
    · rw [heq] at hok ⊢
      rcases ih hok with ⟨hsettled, hall⟩ | ⟨p, hfilter, hrest⟩
      · refine .inl ⟨hsettled, fun w hw => ?_⟩
        rcases List.mem_cons.mp hw with rfl | hw
        · rfl
        · exact hall w hw
      · refine .inr ⟨p, ?_, hrest⟩
        rwa [List.filter_cons_of_neg (by simp)]
    · rw [settle_failed hfailed] at hok
      cases hok
    · rw [heq] at hok ⊢
      obtain ⟨hsettled, hall⟩ := settle_matched rfl hok
      refine .inr ⟨p, ?_, hstorable, hsettled⟩
      rw [List.filter_cons_of_pos (by simp), List.filter_eq_nil_iff.mpr]
      intro w hw
      simp [hall w hw]

end DisplayParser

end CantonSigner
