import CantonSigner.Lib.Run
import CantonSigner.Model.HashingParser

/-!
# What an encoder can do to a hasher

Every encoder of the canonical hash appends bytes to the hasher and may raise the
error, which then stays. `Hw.Extends` says so of two states of a hasher, and the
lemmas below say it of every encoder and of the hashing pass over values and
nodes.

With it, an error-free result speaks about every step on the way to it
(`Hw.Extends.err_ok`).
-/

namespace CantonSigner

open ByteCodec

namespace Hw

/-- `w'` is `w` after more was written: bytes were appended, and an error was not
forgotten. -/
structure Extends (w w' : Hw) : Prop where
  bytes : ∃ b, w'.bytes = w.bytes ++ b
  err_ok : w'.err = .ok → w.err = .ok

/-- Nothing written extends. -/
@[refl] theorem Extends.refl (w : Hw) : Extends w w := ⟨⟨[], by simp⟩, id⟩

/-- What is written twice is written behind each other. -/
theorem Extends.trans {u v w : Hw} (h₁ : Extends u v) (h₂ : Extends v w) : Extends u w := by
  obtain ⟨b₁, hb₁⟩ := h₁.bytes
  obtain ⟨b₂, hb₂⟩ := h₂.bytes
  exact ⟨⟨b₁ ++ b₂, by rw [hb₂, hb₁, List.append_assoc]⟩, fun h => h₁.err_ok (h₂.err_ok h)⟩

/-- Bytes are put behind what was written. -/
theorem extends_put (w : Hw) (b : Bytes) : Extends w (w.put b) := ⟨⟨b, rfl⟩, id⟩

/-- An error leaves the bytes alone. -/
theorem extends_setHashError (w : Hw) {e : HashError} (he : e ≠ .ok) :
    Extends w (w.setHashError e) :=
  ⟨⟨[], by simp⟩, fun h => absurd h (setHashError_err_ok he)⟩

end Hw

open Hw

/-- Hashers that were the same agree exactly if the bytes written do. -/
theorem put_eq_put_iff {w : Hw} {a b : Bytes} : w.put a = w.put b ↔ a = b := by
  constructor
  · intro h
    have hbytes := congrArg Hw.bytes h
    rwa [Hw.put_bytes, Hw.put_bytes, List.append_cancel_left_eq] at hbytes
  · rintro rfl
    rfl

/-- An encoder that only writes more. -/
def Encodes (f : Hw → Hw) : Prop := ∀ w, Extends w (f w)

/-- Fixed bytes. -/
theorem encodes_put (b : Bytes) : Encodes fun w => w.put b := fun w => extends_put w b

/-- Encoders one after the other. -/
theorem Encodes.after {f g : Hw → Hw} (hf : Encodes f) (hg : Encodes g) :
    Encodes fun w => g (f w) := fun w => (hf w).trans (hg (f w))

/-- An encoder for each element of a list. -/
theorem encodes_foldl {α : Type} {fn : Hw → α → Hw} (h : ∀ a, Encodes fun w => fn w a)
    (as : List α) : Encodes fun w => as.foldl fn w := by
  induction as with
  | nil => exact fun w => .refl w
  | cons a as ih => exact fun w => (h a w).trans (ih _)

/-- A byte string behind its length. -/
theorem encodes_encodeBytes (b : Bytes) : Encodes fun w => encodeBytes w b :=
  (encodes_put _).after (encodes_put _)

/-- A string, absent ones refused. -/
theorem encodes_encodeString (s : Option Bytes) : Encodes fun w => encodeString w s := by
  cases s with
  | none => exact fun w => extends_setHashError w (by decide)
  | some s => exact encodes_encodeBytes s

/-- A hash, absent ones refused. -/
theorem encodes_encodeHash (h : Option Bytes) : Encodes fun w => encodeHash w h := by
  cases h with
  | none => exact fun w => extends_setHashError w (by decide)
  | some h => exact encodes_put h

/-- A hexadecimal string, of an even number of digits. -/
theorem encodes_encodeHexString (s : Option Bytes) : Encodes fun w => encodeHexString w s := by
  cases s with
  | none => exact fun w => extends_setHashError w (by decide)
  | some s =>
    intro w
    simp only [encodeHexString]
    split
    · exact extends_setHashError w (by decide)
    · exact ((encodes_put _).after (encodes_put _)) w

/-- A repeated field behind its count. -/
theorem encodes_encodeRepeated {α : Type} {fn : Hw → α → Hw} (h : ∀ a, Encodes fun w => fn w a)
    (as : List α) : Encodes fun w => encodeRepeated w fn as :=
  (encodes_put _).after (encodes_foldl h as)

/-- An optional field behind its presence byte. -/
theorem encodes_encodeOptional {α : Type} {fn : Hw → α → Hw} (h : ∀ a, Encodes fun w => fn w a)
    (a : Option α) : Encodes fun w => encodeOptional w fn a := by
  cases a with
  | none => exact encodes_put _
  | some a => exact (encodes_put _).after (h a)

/-- A repeated field of strings. -/
theorem encodes_strings (ss : List Bytes) : Encodes fun w => encodeRepeated w wrapEncodeString ss :=
  encodes_encodeRepeated (fun s => encodes_encodeString (some s)) ss

/-- A dotted name, segment by segment. -/
theorem encodes_splitDotAndEncode (s : Option Bytes) : Encodes fun w => splitDotAndEncode w s := by
  cases s with
  | none => exact fun w => extends_setHashError w (by decide)
  | some s => exact encodes_encodeRepeated encodes_encodeBytes _

/-- An identifier. -/
theorem encodes_encodeIdentifier (id : Identifier) : Encodes fun w => encodeIdentifier w id :=
  ((encodes_encodeString _).after (encodes_splitDotAndEncode _)).after (encodes_splitDotAndEncode _)

/-! ## Node encoders -/

/-- A create, up to its argument. -/
theorem encodes_encodeCreateStart (c : Create) (seed : Option Bytes) :
    Encodes fun w => encodeCreateStart w c seed :=
  ((((((encodes_put _).after (encodes_encodeString _)).after (encodes_put _)).after
    (encodes_encodeOptional (fun h => encodes_encodeHash (some h)) seed)).after
    (encodes_encodeHexString _)).after (encodes_encodeString _)).after (encodes_encodeIdentifier _)

/-- A create, from its argument on. -/
theorem encodes_encodeCreateEnd (c : Create) : Encodes fun w => encodeCreateEnd w c :=
  (encodes_strings _).after (encodes_strings _)

/-- An exercise, up to its chosen value. -/
theorem encodes_encodeExerciseStart (e : Exercise) (seed : Option Bytes) :
    Encodes fun w => encodeExerciseStart w e seed :=
  ((((((((((encodes_put _).after (encodes_encodeString _)).after (encodes_put _)).after
    (encodes_encodeHash _)).after (encodes_encodeHexString _)).after (encodes_encodeString _)).after
    (encodes_encodeIdentifier _)).after (encodes_strings _)).after (encodes_strings _)).after
    (encodes_strings _)).after
    ((encodes_encodeOptional encodes_encodeIdentifier e.interfaceId).after (encodes_encodeString _))

/-- A fetch. -/
theorem encodes_encodeFetch (f : Fetch) : Encodes fun w => encodeFetch w f :=
  ((((((((encodes_put _).after (encodes_encodeString _)).after (encodes_put _)).after
    (encodes_encodeHexString _)).after (encodes_encodeString _)).after
    (encodes_encodeIdentifier _)).after (encodes_strings _)).after (encodes_strings _)).after
    ((encodes_encodeOptional encodes_encodeIdentifier f.interfaceId).after (encodes_strings _))

variable {lookup : Bytes → Option Bytes}

/-- The children are encoded without error exactly when every one of them is
looked up. -/
theorem encodeNodeIds_extends (lookup : Bytes → Option Bytes) (ids : List Bytes) (w : Hw) :
    Extends w (encodeNodeIds lookup w ids) ∧
      ((encodeNodeIds lookup w ids).err = .ok → ∀ id ∈ ids, (lookup id).isSome = true) := by
  induction ids generalizing w with
  | nil => exact ⟨.refl w, fun _ => nofun⟩
  | cons id ids ih =>
    simp only [encodeNodeIds]
    cases hid : lookup id with
    | none =>
      refine ⟨extends_setHashError w (by decide), fun h => ?_⟩
      exact absurd h (setHashError_err_ok (by decide))
    | some hash =>
      obtain ⟨hext, hall⟩ := ih (w.put hash)
      refine ⟨(extends_put w hash).trans hext, fun h i hi => ?_⟩
      rcases List.mem_cons.mp hi with rfl | hi
      · rw [hid]; rfl
      · exact hall h i hi

/-- Children are written as their hashes, and without an error each has one. -/
theorem encodeChildren_extends (lookup : Bytes → Option Bytes) (ids : List Bytes) (w : Hw) :
    Extends w (encodeChildren lookup w ids) ∧
      ((encodeChildren lookup w ids).err = .ok → ∀ id ∈ ids, (lookup id).isSome = true) := by
  unfold encodeChildren
  split
  · refine ⟨extends_setHashError w (by decide), fun h => ?_⟩
    exact absurd h (setHashError_err_ok (by decide))
  · obtain ⟨hext, hall⟩ := encodeNodeIds_extends lookup ids (encodeInt32 w ids.length)
    exact ⟨(extends_put w _).trans hext, hall⟩

/-- The device with a stack that never runs out. -/
def Device.roomy (d : Device) : Device := { d with stackHasRoom := fun _ => true }

/-! ## Values -/

namespace HashingParser

variable {d : Device}

/-- A name. -/
theorem encodes_putName (s : Bytes) : Encodes fun w => putName w s :=
  encodes_foldl (fun piece => encodes_encodeString (some (cstr piece))) _

/-- A label, with its presence byte for each piece. -/
theorem encodes_putLabel (s : Bytes) : Encodes fun w => putLabel w s :=
  encodes_foldl (fun piece => (encodes_put [0x01]).after
    (encodes_encodeString (some (cstr piece)))) _

/-- An enum. -/
theorem encodes_putEnum (e : EnumMsg) : Encodes fun w => putEnum (w.put [0x0E]) e :=
  ((encodes_put _).after (encodes_encodeOptional encodes_encodeIdentifier e.enumId)).after
    (encodes_encodeString _)

/-- A value without parts. -/
theorem encodes_putPrimitive (w : Which) : Encodes fun h => putPrimitive h w := by
  intro h
  unfold putPrimitive
  split
  · exact extends_put _ _
  · exact ((encodes_put _).after (encodes_put _)) h
  · exact ((encodes_put _).after (encodes_put _)) h
  · exact ((encodes_put _).after (encodes_put _)) h
  · exact ((encodes_put _).after (encodes_put _)) h
  · exact ((encodes_put _).after (encodes_encodeString _)) h
  · exact ((encodes_put _).after (encodes_encodeString _)) h
  · exact ((encodes_put _).after (encodes_encodeString _)) h
  · exact ((encodes_put _).after (encodes_encodeHexString _)) h
  · exact .refl h

/-- The id of a record and what its callback writes. -/
theorem extends_putRecordId (s : VState) (id : Identifier) :
    Extends s.hw (putRecordId s id).hw := by
  have hid := ((encodes_put [0x01]).after (encodes_encodeIdentifier id)) s.hw
  unfold putRecordId
  dsimp only
  split
  · exact hid.trans (extends_put _ _)
  · exact hid

/-- The tag and count of a container. -/
theorem extends_putCounted (s : VState) (tag : UInt8) : Extends s.hw (putCounted s tag).hw :=
  ((encodes_put _).after (encodes_put _)) s.hw

/-- The tag and presence of an optional. -/
theorem extends_putPresence (s : VState) (tag : UInt8) : Extends s.hw (putPresence s tag).hw :=
  extends_put _ _

mutual

/-- A pass over a value extends, by induction on the value with the twelve callbacks. -/
theorem hashValue_extends : ∀ (stack : List Frame) (v : Value) (s s' : VState),
    hashValue d stack v s = some s' → Extends s.hw s'.hw
  | _, .nil, s, s', h => by
    cases h
    exact .refl _
  | stack, .prim _ rest, s, s', h => hashValue_extends stack rest s s' h
  | stack, .unit rest, s, s', h => hashValue_extends stack rest s s' h
  | stack, .optional vs rest, s, s', h => by
    obtain ⟨s₁, h₁, h₂⟩ := Option.bind_eq_some_iff.mp h
    exact ((extends_putPresence s _).trans
      (hashElems_extends (.optional :: stack) vs _ s₁ h₁)).trans
      (hashValue_extends stack rest s₁ s' h₂)
  | stack, .list vs rest, s, s', h => by
    obtain ⟨s₁, h₁, h₂⟩ := Option.bind_eq_some_iff.mp h
    exact ((extends_putCounted s _).trans (hashElems_extends (.list :: stack) vs _ s₁ h₁)).trans
      (hashValue_extends stack rest s₁ s' h₂)
  | stack, .textMap m rest, s, s', h => by
    obtain ⟨s₁, h₁, h₂⟩ := Option.bind_eq_some_iff.mp h
    exact ((extends_putCounted s _).trans (hashTextMap_extends (.textMap :: stack) m _ s₁ h₁)).trans
      (hashValue_extends stack rest s₁ s' h₂)
  | stack, .genMap m rest, s, s', h => by
    obtain ⟨s₁, h₁, h₂⟩ := Option.bind_eq_some_iff.mp h
    exact ((extends_putCounted s _).trans (hashGenMap_extends (.genMap :: stack) m _ s₁ h₁)).trans
      (hashValue_extends stack rest s₁ s' h₂)
  | stack, .record r rest, s, s', h => by
    obtain ⟨s₁, h₁, h₂⟩ := Option.bind_eq_some_iff.mp h
    exact ((extends_put s.hw _).trans (hashRecord_extends (.record :: stack) r _ s₁ h₁)).trans
      (hashValue_extends stack rest s₁ s' h₂)
  | stack, .variant v rest, s, s', h => by
    obtain ⟨s₁, h₁, h₂⟩ := Option.bind_eq_some_iff.mp h
    exact ((extends_putPresence s _).trans
      (hashVariant_extends (.variant :: stack) v _ s₁ h₁)).trans
      (hashValue_extends stack rest s₁ s' h₂)
  | stack, .enum e rest, s, s', h =>
    (encodes_putEnum e s.hw).trans (hashValue_extends stack rest _ s' h)

/-- Over the elements of a list or an optional. -/
theorem hashElems_extends : ∀ (stack : List Frame) (vs : Values) (s s' : VState),
    hashElems d stack vs s = some s' → Extends s.hw s'.hw
  | _, .nil, s, s', h => by
    cases h
    exact .refl _
  | stack, .cons v rest, s, s', h => by
    unfold hashElems at h
    split at h
    · cases h
    · obtain ⟨s₁, h₁, h₂⟩ := Option.bind_eq_some_iff.mp h
      exact ((hashValue_extends stack v _ s₁ h₁).trans (encodes_putPrimitive _ s₁.hw)).trans
        (hashElems_extends stack rest _ s' h₂)

/-- Over the items of a record field. -/
theorem hashRecordFieldItems_extends : ∀ (stack : List Frame) (f : NamedValue) (s s' : VState),
    hashRecordFieldItems d stack f s = some s' → Extends s.hw s'.hw
  | _, .nil, s, s', h => by
    cases h
    exact .refl _
  | stack, .name l rest, s, s', h =>
    (encodes_putLabel l s.hw).trans (hashRecordFieldItems_extends stack rest _ s' h)
  | stack, .value v rest, s, s', h => by
    obtain ⟨s₁, h₁, h₂⟩ := Option.bind_eq_some_iff.mp h
    exact (hashValue_extends stack v s s₁ h₁).trans
      (hashRecordFieldItems_extends stack rest s₁ s' h₂)

/-- Over the items of a TextMap entry. -/
theorem hashTextMapEntryItems_extends : ∀ (stack : List Frame) (f : NamedValue) (s s' : VState),
    hashTextMapEntryItems d stack f s = some s' → Extends s.hw s'.hw
  | _, .nil, s, s', h => by
    cases h
    exact .refl _
  | stack, .name l rest, s, s', h =>
    (encodes_putName l s.hw).trans (hashTextMapEntryItems_extends stack rest _ s' h)
  | stack, .value v rest, s, s', h => by
    obtain ⟨s₁, h₁, h₂⟩ := Option.bind_eq_some_iff.mp h
    exact (hashValue_extends stack v s s₁ h₁).trans
      (hashTextMapEntryItems_extends stack rest s₁ s' h₂)

/-- Over a record. -/
theorem hashRecord_extends : ∀ (stack : List Frame) (r : Record) (s s' : VState),
    hashRecord d stack r s = some s' → Extends s.hw s'.hw
  | _, .nil, s, s', h => by
    cases h
    exact .refl _
  | stack, .recordId id rest, s, s', h =>
    (extends_putRecordId s id).trans (hashRecord_extends stack rest _ s' h)
  | stack, .field f rest, s, s', h => by
    unfold hashRecord at h
    split at h
    · cases h
    · obtain ⟨s₁, h₁, h₂⟩ := Option.bind_eq_some_iff.mp h
      exact ((hashRecordFieldItems_extends stack f _ s₁ h₁).trans
        (encodes_putPrimitive _ s₁.hw)).trans (hashRecord_extends stack rest _ s' h₂)

/-- Over a TextMap. -/
theorem hashTextMap_extends : ∀ (stack : List Frame) (m : TextMap) (s s' : VState),
    hashTextMap d stack m s = some s' → Extends s.hw s'.hw
  | _, .nil, s, s', h => by
    cases h
    exact .refl _
  | stack, .entry e rest, s, s', h => by
    unfold hashTextMap at h
    split at h
    · cases h
    · obtain ⟨s₁, h₁, h₂⟩ := Option.bind_eq_some_iff.mp h
      exact ((hashTextMapEntryItems_extends stack e _ s₁ h₁).trans
        (encodes_putPrimitive _ s₁.hw)).trans (hashTextMap_extends stack rest _ s' h₂)

/-- Over the keys of a GenMap entry. -/
theorem hashGenMapKeys_extends : ∀ (stack : List Frame) (e : GenMapEntry) (s s' : VState),
    hashGenMapKeys d stack e s = some s' → Extends s.hw s'.hw
  | _, .nil, s, s', h => by
    cases h
    exact .refl _
  | stack, .key v rest, s, s', h => by
    obtain ⟨s₁, h₁, h₂⟩ := Option.bind_eq_some_iff.mp h
    exact (hashValue_extends stack v s s₁ h₁).trans (hashGenMapKeys_extends stack rest s₁ s' h₂)
  | stack, .value _ rest, s, s', h => hashGenMapKeys_extends stack rest s s' h

/-- Over the values of a GenMap entry. -/
theorem hashGenMapValues_extends : ∀ (stack : List Frame) (e : GenMapEntry) (s s' : VState),
    hashGenMapValues d stack e s = some s' → Extends s.hw s'.hw
  | _, .nil, s, s', h => by
    cases h
    exact .refl _
  | stack, .key _ rest, s, s', h => hashGenMapValues_extends stack rest s s' h
  | stack, .value v rest, s, s', h => by
    obtain ⟨s₁, h₁, h₂⟩ := Option.bind_eq_some_iff.mp h
    exact (hashValue_extends stack v s s₁ h₁).trans (hashGenMapValues_extends stack rest s₁ s' h₂)

/-- Over a GenMap. -/
theorem hashGenMap_extends : ∀ (stack : List Frame) (m : GenMap) (s s' : VState),
    hashGenMap d stack m s = some s' → Extends s.hw s'.hw
  | _, .nil, s, s', h => by
    cases h
    exact .refl _
  | stack, .entry e rest, s, s', h => by
    unfold hashGenMap at h
    split at h
    · cases h
    · obtain ⟨s₁, h₁, hrest⟩ := Option.bind_eq_some_iff.mp h
      obtain ⟨s₂, h₂, h₃⟩ := Option.bind_eq_some_iff.mp hrest
      have hkeys := (hashGenMapKeys_extends stack e _ s₁ h₁).trans
        (encodes_putPrimitive (e.whichKey .none) s₁.hw)
      have hvalues := (hashGenMapValues_extends stack e _ s₂ h₂).trans
        (encodes_putPrimitive (e.whichValue .none) s₂.hw)
      exact (hkeys.trans hvalues).trans (hashGenMap_extends stack rest _ s' h₃)

/-- Over a variant. -/
theorem hashVariant_extends : ∀ (stack : List Frame) (v : Variant) (s s' : VState),
    hashVariant d stack v s = some s' → Extends s.hw s'.hw
  | _, .nil, s, s', h => by
    cases h
    exact .refl _
  | stack, .variantId id rest, s, s', h =>
    (encodes_encodeIdentifier id s.hw).trans (hashVariant_extends stack rest _ s' h)
  | stack, .constructor c rest, s, s', h =>
    (encodes_putName c s.hw).trans (hashVariant_extends stack rest _ s' h)
  | stack, .value v rest, s, s', h => by
    unfold hashVariant at h
    split at h
    · cases h
    · obtain ⟨s₁, h₁, h₂⟩ := Option.bind_eq_some_iff.mp h
      exact ((hashValue_extends stack v _ s₁ h₁).trans (encodes_putPrimitive _ s₁.hw)).trans
        (hashVariant_extends stack rest _ s' h₂)

end

/-- Over the values of a field. -/
theorem decodeValueFields_extends {field : Frame} (vs : List Value) {s s' : VState}
    (h : decodeValueFields d field s vs = some s') : Extends s.hw s'.hw := by
  refine List.foldlM_invariant (P := fun t => Extends s.hw t.hw) vs ?_ (.refl _) h
  intro v _ s₁ s₂ hs₁ hv
  obtain ⟨s₃, h₃, heq⟩ := Option.bind_eq_some_iff.mp hv
  cases heq
  have hvalue := hashValue_extends [field] v _ s₃ h₃
  exact (hs₁.trans hvalue).trans (encodes_putPrimitive _ s₃.hw)

/-- Over a create, with its argument. -/
theorem hashCreate_extends {field : Frame} {s s' : VState} {c : Create} {seed : Option Bytes}
    (h : hashCreate d field s c seed = some s') : Extends s.hw s'.hw := by
  obtain ⟨s₁, h₁, heq⟩ := Option.bind_eq_some_iff.mp h
  cases heq
  exact ((encodes_encodeCreateStart c seed s.hw).trans (decodeValueFields_extends _ h₁)).trans
    (encodes_encodeCreateEnd c s₁.hw)

/-- An exercise without a hash error has every child looked up. -/
theorem hashExercise_extends {lookup : Bytes → Option Bytes} {s s' : VState} {e : Exercise}
    {seed : Bytes} (h : hashExercise d lookup s e seed = some s') :
    Extends s.hw s'.hw ∧ (s'.hw.err = .ok → ∀ id ∈ e.children, (lookup id).isSome = true) := by
  obtain ⟨s₁, h₁, hrest⟩ := Option.bind_eq_some_iff.mp h
  obtain ⟨s₂, h₂, heq⟩ := Option.bind_eq_some_iff.mp hrest
  cases heq
  have hstart := (encodes_encodeExerciseStart e (some seed) s.hw).trans
    (decodeValueFields_extends _ h₁)
  have hmiddle := (((encodes_put _).after (encodes_put [0x01])) s₁.hw).trans
    (decodeValueFields_extends _ h₂)
  have hobservers := encodes_strings e.choiceObservers s₂.hw
  obtain ⟨hchildren, hall⟩ := encodeChildren_extends lookup e.children
    (encodeRepeated s₂.hw wrapEncodeString e.choiceObservers)
  exact ⟨((hstart.trans hmiddle).trans hobservers).trans hchildren, hall⟩

/-! ## Room for the stack

The guard only refuses: what is hashed where it has room is hashed the same on a device with a
stack that never runs out, whatever calls it is hashed under. -/

section Room

/-- A step that passed the guard. -/
theorem guarded_room {stack : List Frame} {a b : Option VState} {s' : VState}
    (h : (if !d.stackHasRoom stack then none else a) = some s') (hab : a = some s' → b = some s') :
    b = some s' := by
  cases hd : d.stackHasRoom stack with
  | false =>
    rw [hd] at h
    cases h
  | true =>
    rw [hd] at h
    exact hab h

/-- Two steps one after the other. -/
theorem bind_room {a b : Option VState} {f g : VState → Option VState} {s' : VState}
    (h : a.bind f = some s') (hab : ∀ s, a = some s → b = some s)
    (hfg : ∀ s, f s = some s' → g s = some s') : b.bind g = some s' := by
  obtain ⟨s, ha, hf⟩ := Option.bind_eq_some_iff.mp h
  exact Option.bind_eq_some_iff.mpr ⟨s, hab s ha, hfg s hf⟩

mutual

/-- What a pass returns of a value, it returns with more room as well: the stack is only asked
before a value is opened. -/
theorem hashValue_room : ∀ (stack stack' : List Frame) (v : Value) (s s' : VState),
    hashValue d stack v s = some s' → hashValue d.roomy stack' v s = some s'
  | _, _, .nil, _, _, h => h
  | stack, stack', .prim _ rest, s, s', h => hashValue_room stack stack' rest s s' h
  | stack, stack', .unit rest, s, s', h => hashValue_room stack stack' rest s s' h
  | stack, stack', .optional vs rest, _, _, h =>
    bind_room h (fun _ => hashElems_room (.optional :: stack) (.optional :: stack') vs _ _)
      fun _ => hashValue_room stack stack' rest _ _
  | stack, stack', .list vs rest, _, _, h =>
    bind_room h (fun _ => hashElems_room (.list :: stack) (.list :: stack') vs _ _)
      fun _ => hashValue_room stack stack' rest _ _
  | stack, stack', .textMap m rest, _, _, h =>
    bind_room h (fun _ => hashTextMap_room (.textMap :: stack) (.textMap :: stack') m _ _)
      fun _ => hashValue_room stack stack' rest _ _
  | stack, stack', .genMap m rest, _, _, h =>
    bind_room h (fun _ => hashGenMap_room (.genMap :: stack) (.genMap :: stack') m _ _)
      fun _ => hashValue_room stack stack' rest _ _
  | stack, stack', .record r rest, _, _, h =>
    bind_room h (fun _ => hashRecord_room (.record :: stack) (.record :: stack') r _ _)
      fun _ => hashValue_room stack stack' rest _ _
  | stack, stack', .variant v rest, _, _, h =>
    bind_room h (fun _ => hashVariant_room (.variant :: stack) (.variant :: stack') v _ _)
      fun _ => hashValue_room stack stack' rest _ _
  | stack, stack', .enum _ rest, _, s', h => hashValue_room stack stack' rest _ s' h

/-- For the elements of a list or an optional. -/
theorem hashElems_room : ∀ (stack stack' : List Frame) (vs : Values) (s s' : VState),
    hashElems d stack vs s = some s' → hashElems d.roomy stack' vs s = some s'
  | _, _, .nil, _, _, h => h
  | stack, stack', .cons v rest, _, _, h =>
    guarded_room h fun h => bind_room h (fun _ => hashValue_room stack stack' v _ _)
      fun _ => hashElems_room stack stack' rest _ _

/-- For the items of a record field. -/
theorem hashRecordFieldItems_room : ∀ (stack stack' : List Frame) (f : NamedValue) (s s' : VState),
    hashRecordFieldItems d stack f s = some s' → hashRecordFieldItems d.roomy stack' f s = some s'
  | _, _, .nil, _, _, h => h
  | stack, stack', .name _ rest, _, s', h => hashRecordFieldItems_room stack stack' rest _ s' h
  | stack, stack', .value v rest, _, _, h =>
    bind_room h (fun _ => hashValue_room stack stack' v _ _)
      fun _ => hashRecordFieldItems_room stack stack' rest _ _

/-- For the items of a TextMap entry. -/
theorem hashTextMapEntryItems_room : ∀ (stack stack' : List Frame) (f : NamedValue) (s s' : VState),
    hashTextMapEntryItems d stack f s = some s' → hashTextMapEntryItems d.roomy stack' f s = some s'
  | _, _, .nil, _, _, h => h
  | stack, stack', .name _ rest, _, s', h => hashTextMapEntryItems_room stack stack' rest _ s' h
  | stack, stack', .value v rest, _, _, h =>
    bind_room h (fun _ => hashValue_room stack stack' v _ _)
      fun _ => hashTextMapEntryItems_room stack stack' rest _ _

/-- For a record. -/
theorem hashRecord_room : ∀ (stack stack' : List Frame) (r : Record) (s s' : VState),
    hashRecord d stack r s = some s' → hashRecord d.roomy stack' r s = some s'
  | _, _, .nil, _, _, h => h
  | stack, stack', .recordId _ rest, _, s', h => hashRecord_room stack stack' rest _ s' h
  | stack, stack', .field f rest, _, _, h =>
    guarded_room h fun h => bind_room h (fun _ => hashRecordFieldItems_room stack stack' f _ _)
      fun _ => hashRecord_room stack stack' rest _ _

/-- For a TextMap. -/
theorem hashTextMap_room : ∀ (stack stack' : List Frame) (m : TextMap) (s s' : VState),
    hashTextMap d stack m s = some s' → hashTextMap d.roomy stack' m s = some s'
  | _, _, .nil, _, _, h => h
  | stack, stack', .entry e rest, _, _, h =>
    guarded_room h fun h => bind_room h (fun _ => hashTextMapEntryItems_room stack stack' e _ _)
      fun _ => hashTextMap_room stack stack' rest _ _

/-- For the keys of a GenMap entry. -/
theorem hashGenMapKeys_room : ∀ (stack stack' : List Frame) (e : GenMapEntry) (s s' : VState),
    hashGenMapKeys d stack e s = some s' → hashGenMapKeys d.roomy stack' e s = some s'
  | _, _, .nil, _, _, h => h
  | stack, stack', .key v rest, _, _, h =>
    bind_room h (fun _ => hashValue_room stack stack' v _ _)
      fun _ => hashGenMapKeys_room stack stack' rest _ _
  | stack, stack', .value _ rest, s, s', h => hashGenMapKeys_room stack stack' rest s s' h

/-- For the values of a GenMap entry. -/
theorem hashGenMapValues_room : ∀ (stack stack' : List Frame) (e : GenMapEntry) (s s' : VState),
    hashGenMapValues d stack e s = some s' → hashGenMapValues d.roomy stack' e s = some s'
  | _, _, .nil, _, _, h => h
  | stack, stack', .key _ rest, s, s', h => hashGenMapValues_room stack stack' rest s s' h
  | stack, stack', .value v rest, _, _, h =>
    bind_room h (fun _ => hashValue_room stack stack' v _ _)
      fun _ => hashGenMapValues_room stack stack' rest _ _

/-- For a GenMap. -/
theorem hashGenMap_room : ∀ (stack stack' : List Frame) (m : GenMap) (s s' : VState),
    hashGenMap d stack m s = some s' → hashGenMap d.roomy stack' m s = some s'
  | _, _, .nil, _, _, h => h
  | stack, stack', .entry e rest, _, _, h =>
    guarded_room h fun h => bind_room h (fun _ => hashGenMapKeys_room stack stack' e _ _) fun _ h =>
      bind_room h (fun _ => hashGenMapValues_room stack stack' e _ _)
        fun _ => hashGenMap_room stack stack' rest _ _

/-- For a variant. -/
theorem hashVariant_room : ∀ (stack stack' : List Frame) (v : Variant) (s s' : VState),
    hashVariant d stack v s = some s' → hashVariant d.roomy stack' v s = some s'
  | _, _, .nil, _, _, h => h
  | stack, stack', .variantId _ rest, _, s', h => hashVariant_room stack stack' rest _ s' h
  | stack, stack', .constructor _ rest, _, s', h => hashVariant_room stack stack' rest _ s' h
  | stack, stack', .value v rest, _, _, h =>
    guarded_room h fun h => bind_room h (fun _ => hashValue_room stack stack' v _ _)
      fun _ => hashVariant_room stack stack' rest _ _

end

/-- For the value of a field, wherever it is decoded from. -/
theorem decodeValueField_room {field : Frame} (field' : Frame) {v : Value} {s s' : VState}
    (h : decodeValueField d field s v = some s') : decodeValueField d.roomy field' s v = some s' :=
  bind_room h (fun _ => hashValue_room [field] [field'] v _ _) fun _ => id

/-- For the values of a field. -/
theorem decodeValueFields_room {field : Frame} (field' : Frame) :
    ∀ {vs : List Value} {s s' : VState}, decodeValueFields d field s vs = some s' →
      decodeValueFields d.roomy field' s vs = some s'
  | [], _, _, h => h
  | _ :: _, _, _, h =>
    bind_room h (fun _ => decodeValueField_room field') fun _ => decodeValueFields_room field'

/-- For a create. -/
theorem hashCreate_room {field : Frame} (field' : Frame) {c : Create} {seed : Option Bytes}
    {s s' : VState} (h : hashCreate d field s c seed = some s') :
    hashCreate d.roomy field' s c seed = some s' :=
  bind_room h (fun _ => decodeValueFields_room field') fun _ => id

/-- For an exercise. -/
theorem hashExercise_room {lookup : Bytes → Option Bytes} {e : Exercise} {seed : Bytes}
    {s s' : VState} (h : hashExercise d lookup s e seed = some s') :
    hashExercise d.roomy lookup s e seed = some s' :=
  bind_room h (fun _ => decodeValueFields_room .chosenValue) fun _ h =>
    bind_room h (fun _ => decodeValueFields_room .exerciseResult) fun _ => id

end Room

/-- The claim of a part's children is no business of the hasher. -/
theorem claimChildren_frame (ctx : Ctx) (children : List Bytes) :
    (claimChildren ctx children).nodeId = ctx.nodeId ∧
      (claimChildren ctx children).isRootNode = ctx.isRootNode ∧
      (claimChildren ctx children).v = ctx.v := by
  unfold claimChildren
  split <;> exact ⟨rfl, rfl, rfl⟩

/-! ### What a decoder has done when it succeeds -/

section Decoders

variable {lookup : Bytes → Option Bytes} {tx : DamlTransaction} {ctx ctx' : Ctx}

/-- The guard of a decoder that makes two presence checks. -/
theorem guard_iff {a b : Bool} : (!a || !b) = true ↔ ¬ (a = true ∧ b = true) := by
  cases a <;> cases b <;> simp

/-- A create node has been hashed under its seed, and its contract is recorded. -/
theorem decodeCreate_eq_some {c : Create} :
    decodeCreate d tx ctx c = some ctx' ↔
      createIsComplete c = true ∧ ∃ seed v, findSeed tx ctx.nodeId = some seed ∧
        hashCreate d .createArgument ctx.v c seed = some v ∧
        { ctx with
          v := v
          values := valuesRecordUsedContract d ctx.values c.contractId } = ctx' := by
  unfold decodeCreate
  cases hc : createIsComplete c with
  | false => simp
  | true => simp [Option.bind_eq_some_iff]

/-- An exercise node has been hashed under its seed, and it has claimed its children. -/
theorem decodeExercise_eq_some {e : Exercise} :
    decodeExercise d lookup tx ctx e = some ctx' ↔
      (exerciseIsComplete e = true ∧ optionalInterfaceIsComplete e.interfaceId = true) ∧
        ∃ seed v, findSeed tx ctx.nodeId = some (some seed) ∧
          hashExercise d lookup ctx.v e seed = some v ∧
          { claimChildren { ctx with
              values := valuesRecordUsedContract d ctx.values e.contractId } e.children with
            v := v } = ctx' := by
  obtain ⟨hid, -, hv⟩ := claimChildren_frame
    { ctx with values := valuesRecordUsedContract d ctx.values e.contractId } e.children
  unfold decodeExercise
  by_cases hcomplete : exerciseIsComplete e = true ∧
      optionalInterfaceIsComplete e.interfaceId = true
  · rw [if_neg (guard_iff.not_left.mpr hcomplete), and_iff_right hcomplete]
    dsimp only
    rw [hid, hv]
    rcases findSeed tx ctx.nodeId with _ | _ | seed <;> simp
  · rw [if_pos (guard_iff.mpr hcomplete)]
    exact iff_of_false (by simp) fun h => hcomplete h.1

/-- A fetch node has been hashed, and its contract is recorded. -/
theorem decodeFetch_eq_some {f : Fetch} :
    decodeFetch d ctx f = some ctx' ↔
      (fetchIsComplete f = true ∧ optionalInterfaceIsComplete f.interfaceId = true) ∧
        { ctx with
          v := ctx.v.enc fun w => encodeFetch w f
          values := valuesRecordUsedContract d ctx.values f.contractId } = ctx' := by
  unfold decodeFetch
  by_cases hcomplete : fetchIsComplete f = true ∧ optionalInterfaceIsComplete f.interfaceId = true
  · rw [if_neg (guard_iff.not_left.mpr hcomplete), and_iff_right hcomplete, Option.some.injEq]
  · rw [if_pos (guard_iff.mpr hcomplete)]
    exact iff_of_false (by simp) fun h => hcomplete h.1

/-- What the pass makes of a node does not depend on the room it had. -/
theorem nodeDecodeCallback_roomy {k : NodeKind}
    (h : nodeDecodeCallback d lookup tx ctx k = some ctx') :
    nodeDecodeCallback d.roomy lookup tx ctx k = some ctx' := by
  cases k with
  | create c =>
    obtain ⟨hc, seed, v, hseed, hv, rfl⟩ := decodeCreate_eq_some.mp h
    exact decodeCreate_eq_some.mpr ⟨hc, seed, v, hseed, hashCreate_room .createArgument hv, rfl⟩
  | exercise e =>
    obtain ⟨he, seed, v, hseed, hv, rfl⟩ := decodeExercise_eq_some.mp h
    exact decodeExercise_eq_some.mpr ⟨he, seed, v, hseed, hashExercise_room hv, rfl⟩
  | fetch f => exact h
  | rollback r => exact h
  | queryByKey => exact h

end Decoders

end HashingParser

end CantonSigner
