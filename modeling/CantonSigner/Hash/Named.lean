import CantonSigner.Hash.Hex

/-!
# Record ids with names

The hashing pass encodes the id of every record of an argument, and a name that is missing there
is a hash error. So in what it accepts the ids of all records have their names; `ValueNamed` and
its siblings say so of the records that the display walk comes to.
-/

namespace CantonSigner

open ByteCodec

/-! ## Record ids -/

/-- The names that `match_identifier` compares are present. -/
def Identifier.Named (id : Identifier) : Prop :=
  id.moduleName.isSome = true ∧ id.entityName.isSome = true

mutual

/-- The record ids that the display walk comes to below a value have their names. -/
def ValueNamed : Value → Prop
  | .nil => True
  | .record r rest => RecordNamed r ∧ ValueNamed rest
  | .optional vs rest => ElemsNamed vs ∧ ValueNamed rest
  | .textMap m rest => TextMapNamed m ∧ ValueNamed rest
  | .prim _ rest => ValueNamed rest
  | .unit rest => ValueNamed rest
  | .list _ rest => ValueNamed rest
  | .genMap _ rest => ValueNamed rest
  | .variant _ rest => ValueNamed rest
  | .enum _ rest => ValueNamed rest

def ElemsNamed : Values → Prop
  | .nil => True
  | .cons v rest => ValueNamed v ∧ ElemsNamed rest

def RecordNamed : Record → Prop
  | .nil => True
  | .recordId id rest => id.Named ∧ RecordNamed rest
  | .field f rest => ItemsNamed f ∧ RecordNamed rest

def TextMapNamed : TextMap → Prop
  | .nil => True
  | .entry e rest => ItemsNamed e ∧ TextMapNamed rest

def ItemsNamed : NamedValue → Prop
  | .nil => True
  | .name _ rest => ItemsNamed rest
  | .value v rest => ValueNamed v ∧ ItemsNamed rest

end

/-- The arguments that the display pass walks in a node. -/
def KindNamed : NodeKind → Prop
  | .create c => ∀ v ∈ c.argument, ValueNamed v
  | .exercise e => ∀ v ∈ e.chosenValue, ValueNamed v
  | _ => True

namespace HashingParser

variable {d : Device}

/-- An identifier without a name is a hash error. -/
theorem named_of_encoded {w : Hw} {id : Identifier} (h : (encodeIdentifier w id).err = .ok) :
    id.Named := by
  have hmissing : ∀ w, (splitDotAndEncode w none).err ≠ .ok := fun w => Hw.setHashError_err_ok nofun
  unfold encodeIdentifier at h
  constructor
  · cases hmodule : id.moduleName with
    | none =>
      rw [hmodule] at h
      exact absurd (((encodes_splitDotAndEncode id.entityName) _).err_ok h) (hmissing _)
    | some m => rfl
  · cases hentity : id.entityName with
    | none =>
      rw [hentity] at h
      exact absurd h (hmissing _)
    | some n => rfl

/-- The callback of a record id refuses absent names. -/
theorem named_of_putRecordId {s : VState} {id : Identifier}
    (h : (putRecordId s id).hw.err = .ok) : id.Named := by
  refine named_of_encoded (w := s.hw.put [0x01]) ?_
  unfold putRecordId at h
  dsimp only at h
  split at h
  · exact (Hw.extends_put _ _).err_ok h
  · exact h

mutual

/-- A value that is hashed without an error, by induction on it with its callbacks. -/
theorem hashValue_named : ∀ (stack : List Frame) (v : Value) (s s' : VState),
    hashValue d stack v s = some s' → s'.hw.err = .ok → ValueNamed v
  | _, .nil, _, _, _, _ => trivial
  | stack, .prim _ rest, s, s', h, hok => hashValue_named stack rest s s' h hok
  | stack, .unit rest, s, s', h, hok => hashValue_named stack rest s s' h hok
  | stack, .optional vs rest, s, s', h, hok => by
    obtain ⟨s₁, h₁, h₂⟩ := Option.bind_eq_some_iff.mp h
    exact ⟨hashElems_named (.optional :: stack) vs _ s₁ h₁
      ((hashValue_extends stack rest s₁ s' h₂).err_ok hok),
      hashValue_named stack rest s₁ s' h₂ hok⟩
  | stack, .list vs rest, s, s', h, hok => by
    obtain ⟨s₁, -, h₂⟩ := Option.bind_eq_some_iff.mp h
    exact hashValue_named stack rest s₁ s' h₂ hok
  | stack, .textMap m rest, s, s', h, hok => by
    obtain ⟨s₁, h₁, h₂⟩ := Option.bind_eq_some_iff.mp h
    exact ⟨hashTextMap_named (.textMap :: stack) m _ s₁ h₁
      ((hashValue_extends stack rest s₁ s' h₂).err_ok hok),
      hashValue_named stack rest s₁ s' h₂ hok⟩
  | stack, .genMap m rest, s, s', h, hok => by
    obtain ⟨s₁, -, h₂⟩ := Option.bind_eq_some_iff.mp h
    exact hashValue_named stack rest s₁ s' h₂ hok
  | stack, .record r rest, s, s', h, hok => by
    obtain ⟨s₁, h₁, h₂⟩ := Option.bind_eq_some_iff.mp h
    exact ⟨hashRecord_named (.record :: stack) r _ s₁ h₁
      ((hashValue_extends stack rest s₁ s' h₂).err_ok hok),
      hashValue_named stack rest s₁ s' h₂ hok⟩
  | stack, .variant v rest, s, s', h, hok => by
    obtain ⟨s₁, -, h₂⟩ := Option.bind_eq_some_iff.mp h
    exact hashValue_named stack rest s₁ s' h₂ hok
  | stack, .enum e rest, s, s', h, hok => hashValue_named stack rest _ s' h hok

/-- The elements of a list or an Optional. -/
theorem hashElems_named : ∀ (stack : List Frame) (vs : Values) (s s' : VState),
    hashElems d stack vs s = some s' → s'.hw.err = .ok → ElemsNamed vs
  | _, .nil, _, _, _, _ => trivial
  | stack, .cons v rest, s, s', h, hok => by
    unfold hashElems at h
    split at h
    · cases h
    · obtain ⟨s₁, h₁, h₂⟩ := Option.bind_eq_some_iff.mp h
      have hok₁ := ((encodes_putPrimitive _ s₁.hw).trans
        (hashElems_extends stack rest _ s' h₂)).err_ok hok
      exact ⟨hashValue_named stack v _ s₁ h₁ hok₁, hashElems_named stack rest _ s' h₂ hok⟩

/-- The items of a record field. -/
theorem hashRecordFieldItems_named : ∀ (stack : List Frame) (f : NamedValue) (s s' : VState),
    hashRecordFieldItems d stack f s = some s' → s'.hw.err = .ok → ItemsNamed f
  | _, .nil, _, _, _, _ => trivial
  | stack, .name l rest, s, s', h, hok => hashRecordFieldItems_named stack rest _ s' h hok
  | stack, .value v rest, s, s', h, hok => by
    obtain ⟨s₁, h₁, h₂⟩ := Option.bind_eq_some_iff.mp h
    exact ⟨hashValue_named stack v s s₁ h₁
      ((hashRecordFieldItems_extends stack rest s₁ s' h₂).err_ok hok),
      hashRecordFieldItems_named stack rest s₁ s' h₂ hok⟩

/-- The items of a TextMap entry. -/
theorem hashTextMapEntryItems_named : ∀ (stack : List Frame) (f : NamedValue) (s s' : VState),
    hashTextMapEntryItems d stack f s = some s' → s'.hw.err = .ok → ItemsNamed f
  | _, .nil, _, _, _, _ => trivial
  | stack, .name k rest, s, s', h, hok => hashTextMapEntryItems_named stack rest _ s' h hok
  | stack, .value v rest, s, s', h, hok => by
    obtain ⟨s₁, h₁, h₂⟩ := Option.bind_eq_some_iff.mp h
    exact ⟨hashValue_named stack v s s₁ h₁
      ((hashTextMapEntryItems_extends stack rest s₁ s' h₂).err_ok hok),
      hashTextMapEntryItems_named stack rest s₁ s' h₂ hok⟩

/-- A record. -/
theorem hashRecord_named : ∀ (stack : List Frame) (r : Record) (s s' : VState),
    hashRecord d stack r s = some s' → s'.hw.err = .ok → RecordNamed r
  | _, .nil, _, _, _, _ => trivial
  | stack, .recordId id rest, s, s', h, hok =>
    ⟨named_of_putRecordId ((hashRecord_extends stack rest _ s' h).err_ok hok),
      hashRecord_named stack rest _ s' h hok⟩
  | stack, .field f rest, s, s', h, hok => by
    unfold hashRecord at h
    split at h
    · cases h
    · obtain ⟨s₁, h₁, h₂⟩ := Option.bind_eq_some_iff.mp h
      have hok₁ := ((encodes_putPrimitive _ s₁.hw).trans
        (hashRecord_extends stack rest _ s' h₂)).err_ok hok
      exact ⟨hashRecordFieldItems_named stack f _ s₁ h₁ hok₁,
        hashRecord_named stack rest _ s' h₂ hok⟩

/-- A TextMap. -/
theorem hashTextMap_named : ∀ (stack : List Frame) (m : TextMap) (s s' : VState),
    hashTextMap d stack m s = some s' → s'.hw.err = .ok → TextMapNamed m
  | _, .nil, _, _, _, _ => trivial
  | stack, .entry e rest, s, s', h, hok => by
    unfold hashTextMap at h
    split at h
    · cases h
    · obtain ⟨s₁, h₁, h₂⟩ := Option.bind_eq_some_iff.mp h
      have hok₁ := ((encodes_putPrimitive _ s₁.hw).trans
        (hashTextMap_extends stack rest _ s' h₂)).err_ok hok
      exact ⟨hashTextMapEntryItems_named stack e _ s₁ h₁ hok₁,
        hashTextMap_named stack rest _ s' h₂ hok⟩

end

/-- The values of a field. -/
theorem decodeValueFields_named {field : Frame} {vs : List Value} {s s' : VState}
    (h : decodeValueFields d field s vs = some s') (hok : s'.hw.err = .ok) :
    ∀ v ∈ vs, ValueNamed v := by
  have hstep : ∀ v (s s' : VState), decodeValueField d field s v = some s' →
      Hw.Extends s.hw s'.hw ∧ (s'.hw.err = .ok → ValueNamed v) := by
    intro v s s' hv
    obtain ⟨s₁, h₁, heq⟩ := Option.bind_eq_some_iff.mp hv
    cases heq
    have hprim := encodes_putPrimitive (v.which .none) s₁.hw
    exact ⟨(hashValue_extends [field] v _ s₁ h₁).trans hprim,
      fun hok => hashValue_named [field] v _ s₁ h₁ (hprim.err_ok hok)⟩
  obtain ⟨-, hall⟩ := List.foldlM_backward (P := fun s : VState => s.hw.err = .ok)
    (fun v s s' hv hs' => (hstep v s s' hv).1.err_ok hs') h hok
  intro v hv
  obtain ⟨s₁, s₂, hs, hs₂⟩ := hall v hv
  exact (hstep v s₁ s₂ hs).2 hs₂

/-- The argument of a contract that was hashed without an error. -/
theorem hashCreate_named {field : Frame} {s s' : VState} {c : Create} {seed : Option Bytes}
    (h : hashCreate d field s c seed = some s') (hok : s'.hw.err = .ok) :
    ∀ v ∈ c.argument, ValueNamed v := by
  obtain ⟨s₁, h₁, heq⟩ := Option.bind_eq_some_iff.mp h
  cases heq
  exact decodeValueFields_named h₁ ((encodes_encodeCreateEnd c s₁.hw).err_ok hok)

/-- A node that was hashed without an error. -/
theorem kindNamed_of_hashed {lookup : Bytes → Option Bytes} {tx : DamlTransaction}
    {ctx ctx' : HashingParser.Ctx} {k : NodeKind}
    (h : nodeDecodeCallback d lookup tx ctx k = some ctx') (hok : ctx'.v.hw.err = .ok) :
    KindNamed k := by
  cases k with
  | create c =>
    obtain ⟨-, h⟩ := Option.ite_none_left_eq_some.mp h
    obtain ⟨seed, -, h⟩ := Option.bind_eq_some_iff.mp h
    obtain ⟨v, hv, heq⟩ := Option.bind_eq_some_iff.mp h
    cases heq
    exact hashCreate_named hv hok
  | exercise e =>
    obtain ⟨-, h⟩ := Option.ite_none_left_eq_some.mp h
    split at h
    · cases h
    · cases h
    · obtain ⟨v, hv, rfl⟩ := Option.map_eq_some_iff.mp h
      obtain ⟨s₁, h₁, hrest⟩ := Option.bind_eq_some_iff.mp hv
      obtain ⟨s₂, h₂, heq⟩ := Option.bind_eq_some_iff.mp hrest
      cases heq
      -- The result and the children come after the argument.
      have hresult : Hw.Extends s₁.hw s₂.hw :=
        (((encodes_put _).after (encodes_put [0x01])) s₁.hw).trans
          (decodeValueFields_extends _ h₂)
      have hend : Hw.Extends s₂.hw (encodeExerciseEnd lookup s₂.hw e) :=
        (encodes_strings e.choiceObservers s₂.hw).trans
          (encodeChildren_extends lookup e.children _).1
      exact decodeValueFields_named h₁ ((hresult.trans hend).err_ok hok)
  | fetch f => trivial
  | rollback r => trivial
  | queryByKey => trivial

/-- A node part that was hashed without an error. -/
theorem named_of_decodeNodePart {lookup : Bytes → Option Bytes} {tx : DamlTransaction}
    {tree : TreeCheck} {values : ValuesStore} {err : HashError} {part : NodePart} {ctx : Ctx}
    (h : decodeNodePart d lookup tx tree values err part = some ctx) (hok : ctx.v.hw.err = .ok) :
    ∀ k ∈ nodeKinds part, KindNamed k := by
  intro k hk
  obtain ⟨c, c', hc, hc'⟩ := hashed_kinds h hok k hk
  exact kindNamed_of_hashed hc hc'

/-- An input contract that was hashed without an error. -/
theorem named_of_decodeInputContractPart {values : ValuesStore} {err : HashError}
    {ic : InputContract} {st : VState × ValuesStore}
    (h : decodeInputContractPart d values err ic = some st) (hok : st.1.hw.err = .ok) :
    ∀ c ∈ ic.v1, ∀ v ∈ c.argument, ValueNamed v := by
  have hstep : ∀ c (s s' : VState × ValuesStore), decodeContract d s c = some s' →
      ∃ v, hashCreate d .contractArgument s.1 c none = some v ∧ v = s'.1 := by
    intro c s s' hc
    obtain ⟨-, hc⟩ := Option.ite_none_left_eq_some.mp hc
    obtain ⟨v, hv, rfl⟩ := Option.map_eq_some_iff.mp hc
    exact ⟨v, hv, rfl⟩
  obtain ⟨-, hall⟩ := List.foldlM_backward (P := fun s : VState × ValuesStore => s.1.hw.err = .ok)
    (fun c s s' hc hs' => by
      obtain ⟨v, hv, rfl⟩ := hstep c s s' hc
      exact (hashCreate_extends hv).err_ok hs') h hok
  intro c hc
  obtain ⟨s, s', hs, hs'⟩ := hall c hc
  obtain ⟨v, hv, rfl⟩ := hstep c s s' hs
  exact hashCreate_named hv hs'

end HashingParser

end CantonSigner
