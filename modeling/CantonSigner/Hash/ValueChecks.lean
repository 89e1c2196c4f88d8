import CantonSigner.Hash.Extends

/-!
# What the hashing pass checks in values

The hashing pass turns a part down for what it finds in its values: an identifier or an enum
with a string left out, a contract id with an odd number of digits, values nested too deep for
the stack. `EncodesIf` says so of an encoder and `Ends` of a pass, and `hashValue_ends` reads
the checks off the value, by induction on it.
-/

namespace CantonSigner

open ByteCodec

namespace HashingParser

/-! ## Encoders -/

/-- The encoder raises no error exactly when `P` holds. -/
def EncodesIf (P : Prop) (f : Hw → Hw) : Prop := ∀ w, (f w).err = .ok ↔ w.err = .ok ∧ P

section Encoders

variable {P Q : Prop} {f g : Hw → Hw}

/-- One encoder after the other. -/
theorem EncodesIf.after (hf : EncodesIf P f) (hg : EncodesIf Q g) :
    EncodesIf (P ∧ Q) fun w => g (f w) := by
  intro w
  rw [hg, hf, and_assoc]

/-- A condition said differently. -/
theorem EncodesIf.congr (hf : EncodesIf P f) (h : P ↔ Q) : EncodesIf Q f := by
  intro w
  rw [hf, h]

/-- An encoder that always raises the error. -/
theorem encodesIf_false {e : HashError} (he : e ≠ .ok) (h : ¬ P) :
    EncodesIf P fun w => w.setHashError e :=
  fun _ => iff_of_false (Hw.setHashError_err_ok he) fun hw => h hw.2

/-- Fixed bytes. -/
theorem encodesIf_put (b : Bytes) : EncodesIf True fun w => w.put b :=
  fun _ => (and_iff_left trivial).symm

/-- A fold of encoders that raise no error. -/
theorem encodesIf_foldl {α : Type} {fn : Hw → α → Hw} (h : ∀ a, EncodesIf True fun w => fn w a)
    (as : List α) : EncodesIf True fun w => as.foldl fn w := by
  induction as with
  | nil => exact fun _ => (and_iff_left trivial).symm
  | cons a as ih => exact ((h a).after ih).congr (and_self_iff)

/-- A repeated field. -/
theorem encodesIf_repeated {α : Type} {fn : Hw → α → Hw}
    (h : ∀ a, EncodesIf True fun w => fn w a) (as : List α) :
    EncodesIf True fun w => encodeRepeated w fn as :=
  ((encodesIf_put _).after (encodesIf_foldl h as)).congr and_self_iff

/-- A byte string. -/
theorem encodesIf_encodeBytes (b : Bytes) : EncodesIf True fun w => encodeBytes w b :=
  ((encodesIf_put _).after (encodesIf_put _)).congr and_self_iff

/-- A string must be there. -/
theorem encodesIf_encodeString (s : Option Bytes) :
    EncodesIf (s.isSome = true) fun w => encodeString w s := by
  cases s with
  | none => exact encodesIf_false (by decide) (by decide)
  | some s => exact (encodesIf_encodeBytes s).congr (by simp)

/-- Strings of a repeated field are there. -/
theorem encodesIf_strings (ss : List Bytes) :
    EncodesIf True fun w => encodeRepeated w wrapEncodeString ss :=
  encodesIf_repeated (fun s => encodesIf_encodeBytes s) ss

/-- A dotted name must be there. -/
theorem encodesIf_splitDotAndEncode (s : Option Bytes) :
    EncodesIf (s.isSome = true) fun w => splitDotAndEncode w s := by
  cases s with
  | none => exact encodesIf_false (by decide) (by decide)
  | some s => exact (encodesIf_repeated encodesIf_encodeBytes _).congr (by simp)

/-- A contract id is hashed as pairs of digits. -/
def evenHex (s : Bytes) : Bool := s.length % 2 == 0

/-- Hexadecimal digits must be even in number. -/
theorem encodesIf_encodeHexString (s : Bytes) :
    EncodesIf (evenHex s = true) fun w => encodeHexString w (some s) := by
  by_cases hodd : s.length % 2 ≠ 0
  · simp only [encodeHexString, if_pos hodd]
    exact encodesIf_false (by decide) (by simp [evenHex, hodd])
  · simp only [encodeHexString, if_neg hodd]
    refine ((encodesIf_put _).after (encodesIf_put _)).congr ?_
    simpa [evenHex] using hodd

/-- An identifier must be complete. -/
theorem encodesIf_encodeIdentifier (id : Identifier) :
    EncodesIf (requireIdentifier (some id) = true) fun w => encodeIdentifier w id := by
  refine (((encodesIf_encodeString _).after (encodesIf_splitDotAndEncode _)).after
    (encodesIf_splitDotAndEncode _)).congr ?_
  simp [requireIdentifier]

/-- An optional identifier must be absent or complete. -/
theorem encodesIf_optionalIdentifier (id : Option Identifier) :
    EncodesIf (optionalInterfaceIsComplete id = true)
      fun w => encodeOptional w encodeIdentifier id := by
  cases id with
  | none => exact (encodesIf_put _).congr (by simp [optionalInterfaceIsComplete])
  | some id =>
    exact ((encodesIf_put _).after (encodesIf_encodeIdentifier id)).congr
      (by simp [optionalInterfaceIsComplete])

/-- The children of an exercise or rollback node are few enough, and their hashes stored. -/
def childrenKnown (lookup : Bytes → Option Bytes) (children : List Bytes) : Bool :=
  decide (children.length ≤ maxNodeChildren) && children.all fun c => (lookup c).isSome

/-- Each child must have a hash. -/
theorem encodesIf_encodeNodeIds (lookup : Bytes → Option Bytes) (ids : List Bytes) :
    EncodesIf (ids.all (fun c => (lookup c).isSome) = true)
      fun w => encodeNodeIds lookup w ids := by
  induction ids with
  | nil => exact fun _ => (and_iff_left rfl).symm
  | cons id ids ih =>
    cases h : lookup id with
    | none =>
      simp only [encodeNodeIds, h]
      exact encodesIf_false (by decide) (by simp [h])
    | some hash =>
      simp only [encodeNodeIds, h]
      exact ((encodesIf_put hash).after ih).congr (by simp [h])

/-- So must those of a node. -/
theorem encodesIf_encodeChildren (lookup : Bytes → Option Bytes) (children : List Bytes) :
    EncodesIf (childrenKnown lookup children = true)
      fun w => encodeChildren lookup w children := by
  by_cases hmany : maxNodeChildren < children.length
  · simp only [encodeChildren, if_pos hmany]
    refine encodesIf_false (by decide) ?_
    simp [childrenKnown, Nat.not_le.mpr hmany]
  · simp only [encodeChildren, if_neg hmany]
    refine ((encodesIf_put _).after (encodesIf_encodeNodeIds lookup children)).congr ?_
    simp [childrenKnown, Nat.not_lt.mp hmany]

/-- A string callback writes what it is handed. -/
theorem encodesIf_putLabel (s : Bytes) : EncodesIf True fun w => putLabel w s :=
  encodesIf_foldl (fun _ => ((encodesIf_put _).after (encodesIf_encodeBytes _)).congr
    and_self_iff) _

/-- A name always is. -/
theorem encodesIf_putName (s : Bytes) : EncodesIf True fun w => putName w s :=
  encodesIf_foldl (fun _ => encodesIf_encodeBytes _) _

/-- The check on a primitive. -/
def primPasses : Which → Bool
  | .prim (.contractId s) => evenHex s
  | _ => true

/-- A primitive, by its type. -/
theorem encodesIf_putPrimitive (wh : Which) :
    EncodesIf (primPasses wh = true) fun w => putPrimitive w wh := by
  have hnothing : EncodesIf (true = true) fun w => w := fun _ => (and_iff_left rfl).symm
  have hput {b₁ b₂ : Bytes} : EncodesIf (true = true) fun w => (w.put b₁).put b₂ :=
    ((encodesIf_put _).after (encodesIf_put _)).congr (by simp)
  have hstring {b s : Bytes} : EncodesIf (true = true) fun w => encodeString (w.put b) (some s) :=
    ((encodesIf_put _).after (encodesIf_encodeBytes s)).congr (by simp)
  cases wh with
  | unit => exact (encodesIf_put _).congr (by simp [primPasses])
  | prim p =>
    cases p with
    | contractId s =>
      exact ((encodesIf_put _).after (encodesIf_encodeHexString s)).congr (by simp [primPasses])
    | bool b => exact hput
    | int64 v => exact hput
    | date v => exact hput
    | timestamp v => exact hput
    | numeric s => exact hstring
    | party s => exact hstring
    | text s => exact hstring
  | none => exact hnothing
  | optional => exact hnothing
  | list => exact hnothing
  | textMap => exact hnothing
  | genMap => exact hnothing
  | record => exact hnothing
  | variant => exact hnothing
  | enum => exact hnothing

/-- The check on an enum. -/
def enumPasses (e : EnumMsg) : Bool :=
  optionalInterfaceIsComplete e.enumId && e.constructor.isSome

/-- An enum must have its constructor and a complete id. -/
theorem encodesIf_putEnum (e : EnumMsg) : EncodesIf (enumPasses e = true) fun w => putEnum w e :=
  ((encodesIf_optionalIdentifier e.enumId).after (encodesIf_encodeString e.constructor)).congr
    (by simp [enumPasses])

end Encoders

/-! ## The outcome of a pass -/

/-- The pass comes to its end, and no error was raised. -/
def Ends {σ : Type} (hw : σ → Hw) (o : Option σ) : Prop := ∃ s, o = some s ∧ (hw s).err = .ok

section Ends

variable {σ : Type} {hw : σ → Hw}

@[simp] theorem ends_some {s : σ} : Ends hw (some s) ↔ (hw s).err = .ok := by simp [Ends]

@[simp] theorem not_ends_none : ¬ Ends hw none := by simp [Ends]

/-- One pass after another, where the second one checks the same whatever the first one left. -/
theorem ends_bind {τ : Type} {hw' : τ → Hw} {o : Option σ} {f : σ → Option τ} {P : Prop}
    (h : ∀ s, Ends hw' (f s) ↔ (hw s).err = .ok ∧ P) : Ends hw' (o >>= f) ↔ Ends hw o ∧ P := by
  cases o with
  | none => simp
  | some s => simp [h]

/-- What is made of the state afterwards, with the hasher as it is. -/
theorem ends_map {τ : Type} {hw' : τ → Hw} {o : Option σ} {f : σ → τ}
    (h : ∀ s, hw' (f s) = hw s) : Ends hw' (o.map f) ↔ Ends hw o := by
  cases o with
  | none => simp
  | some s => simp [h]

/-- A pass over a list checks its elements. -/
theorem ends_foldlM {α : Type} {f : σ → α → Option σ} {P : α → Prop}
    (h : ∀ s a, Ends hw (f s a) ↔ (hw s).err = .ok ∧ P a) (as : List α) (s : σ) :
    Ends hw (as.foldlM f s) ↔ (hw s).err = .ok ∧ ∀ a ∈ as, P a := by
  induction as generalizing s with
  | nil => simp [List.foldlM]
  | cons a as ih =>
    rw [List.foldlM_cons, ends_bind fun s => ih s, h, and_assoc, List.forall_mem_cons]

end Ends

/-! ## Values -/

section Values

variable (d : Device)

mutual

/-- The checks inside a value below the calls `stack`. -/
def valuePasses (stack : List Frame) : Value → Bool
  | .nil => true
  | .prim _ rest | .unit rest => valuePasses stack rest
  | .optional vs rest => valuesPass (.optional :: stack) vs && valuePasses stack rest
  | .list vs rest => valuesPass (.list :: stack) vs && valuePasses stack rest
  | .textMap m rest => textMapPasses (.textMap :: stack) m && valuePasses stack rest
  | .genMap m rest => genMapPasses (.genMap :: stack) m && valuePasses stack rest
  | .record r rest => recordPasses (.record :: stack) r && valuePasses stack rest
  | .variant v rest => variantPasses (.variant :: stack) v && valuePasses stack rest
  | .enum e rest => enumPasses e && valuePasses stack rest

/-- The elements of an optional or a list. -/
def valuesPass (stack : List Frame) : Values → Bool
  | .nil => true
  | .cons v rest =>
    d.stackHasRoom stack && valuePasses stack v && primPasses (v.which .none) &&
      valuesPass stack rest

/-- The values of a record field or TextMap entry. -/
def namedPasses (stack : List Frame) : NamedValue → Bool
  | .nil => true
  | .name _ rest => namedPasses stack rest
  | .value v rest => valuePasses stack v && namedPasses stack rest

/-- The ids and fields of a record. -/
def recordPasses (stack : List Frame) : Record → Bool
  | .nil => true
  | .recordId id rest => requireIdentifier (some id) && recordPasses stack rest
  | .field f rest =>
    d.stackHasRoom stack && namedPasses stack f && primPasses (f.which .none) &&
      recordPasses stack rest

/-- The entries of a TextMap. -/
def textMapPasses (stack : List Frame) : TextMap → Bool
  | .nil => true
  | .entry e rest =>
    d.stackHasRoom stack && namedPasses stack e && primPasses (e.which .none) &&
      textMapPasses stack rest

/-- The keys of a GenMap entry. -/
def keysPass (stack : List Frame) : GenMapEntry → Bool
  | .nil => true
  | .key v rest => valuePasses stack v && keysPass stack rest
  | .value _ rest => keysPass stack rest

/-- The values of a GenMap entry. -/
def entryValuesPass (stack : List Frame) : GenMapEntry → Bool
  | .nil => true
  | .key _ rest => entryValuesPass stack rest
  | .value v rest => valuePasses stack v && entryValuesPass stack rest

/-- The entries of a GenMap. -/
def genMapPasses (stack : List Frame) : GenMap → Bool
  | .nil => true
  | .entry e rest =>
    d.stackHasRoom stack && keysPass stack e && primPasses (e.whichKey .none) &&
      entryValuesPass stack e && primPasses (e.whichValue .none) && genMapPasses stack rest

/-- The ids and values of a variant. -/
def variantPasses (stack : List Frame) : Variant → Bool
  | .nil => true
  | .variantId id rest => requireIdentifier (some id) && variantPasses stack rest
  | .constructor _ rest => variantPasses stack rest
  | .value v rest =>
    d.stackHasRoom stack && valuePasses stack v && primPasses (v.which .none) &&
      variantPasses stack rest

end

variable {d}

/-- An encoder after a pass. -/
theorem enc_ok_iff {P : Prop} {f : Hw → Hw} (h : EncodesIf P f) (s : VState) :
    (s.enc f).hw.err = .ok ↔ s.hw.err = .ok ∧ P := h s.hw

/-- A record id must be complete. -/
theorem putRecordId_ends (s : VState) (id : Identifier) :
    (putRecordId s id).hw.err = .ok ↔ s.hw.err = .ok ∧ requireIdentifier (some id) = true := by
  have hid := enc_ok_iff ((encodesIf_put [0x01]).after (encodesIf_encodeIdentifier id)) s
  rw [true_and] at hid
  unfold putRecordId
  dsimp only
  split
  · rw [← hid]
    rfl
  · exact hid

mutual

/-- **A value is hashed without error exactly when it passes the checks**, whatever the count
that is left from before. -/
theorem hashValue_ends : ∀ (v : Value) (stack : List Frame) (s : VState),
    Ends VState.hw (hashValue d stack v s) ↔ s.hw.err = .ok ∧ valuePasses d stack v = true
  | .nil, _, s => by simp [hashValue, valuePasses]
  | .prim _ rest, stack, s => by
    rw [hashValue, valuePasses]
    exact hashValue_ends rest stack s
  | .unit rest, stack, s => by
    rw [hashValue, valuePasses]
    exact hashValue_ends rest stack s
  | .optional vs rest, stack, s => by
    rw [hashValue, ends_bind (hashValue_ends rest stack), hashElems_ends vs]
    simp [valuePasses, putPresence, VState.clearCount, VState.put, and_assoc]
  | .list vs rest, stack, s => by
    rw [hashValue, ends_bind (hashValue_ends rest stack), hashElems_ends vs]
    simp [valuePasses, putCounted, VState.clearCount, VState.enc, encodeInt32, and_assoc]
  | .textMap m rest, stack, s => by
    rw [hashValue, ends_bind (hashValue_ends rest stack), hashTextMap_ends m]
    simp [valuePasses, putCounted, VState.clearCount, VState.enc, encodeInt32, and_assoc]
  | .genMap m rest, stack, s => by
    rw [hashValue, ends_bind (hashValue_ends rest stack), hashGenMap_ends m]
    simp [valuePasses, putCounted, VState.clearCount, VState.enc, encodeInt32, and_assoc]
  | .record r rest, stack, s => by
    rw [hashValue, ends_bind (hashValue_ends rest stack), hashRecord_ends r]
    simp [valuePasses, VState.put, and_assoc]
  | .variant v rest, stack, s => by
    rw [hashValue, ends_bind (hashValue_ends rest stack), hashVariant_ends v]
    simp [valuePasses, putPresence, VState.clearCount, VState.put, and_assoc]
  | .enum e rest, stack, s => by
    rw [hashValue, hashValue_ends rest stack, enc_ok_iff ((encodesIf_put _).after
      (encodesIf_putEnum e))]
    simp [valuePasses, and_assoc]

/-- The elements of a list or an Optional. -/
theorem hashElems_ends : ∀ (vs : Values) (stack : List Frame) (s : VState),
    Ends VState.hw (hashElems d stack vs s) ↔ s.hw.err = .ok ∧ valuesPass d stack vs = true
  | .nil, _, s => by simp [hashElems, valuesPass]
  | .cons v rest, stack, s => by
    have hrest (s : VState) : Ends VState.hw (hashElems d stack rest
        (s.enc fun w => putPrimitive w (v.which .none))) ↔
        s.hw.err = .ok ∧ primPasses (v.which .none) = true ∧ valuesPass d stack rest = true := by
      rw [hashElems_ends rest stack, enc_ok_iff (encodesIf_putPrimitive _), and_assoc]
    rw [hashElems]
    cases hroom : d.stackHasRoom stack with
    | false => simp [valuesPass, hroom]
    | true =>
      simp only [Bool.not_true, Bool.false_eq_true, ↓reduceIte]
      rw [ends_bind hrest, hashValue_ends v]
      simp [valuesPass, hroom, and_assoc]

/-- The items of a record field. -/
theorem hashRecordFieldItems_ends : ∀ (f : NamedValue) (stack : List Frame) (s : VState),
    Ends VState.hw (hashRecordFieldItems d stack f s) ↔
      s.hw.err = .ok ∧ namedPasses d stack f = true
  | .nil, _, s => by simp [hashRecordFieldItems, namedPasses]
  | .name l rest, stack, s => by
    rw [hashRecordFieldItems, hashRecordFieldItems_ends rest stack,
      enc_ok_iff (encodesIf_putLabel l), namedPasses, and_true]
  | .value v rest, stack, s => by
    rw [hashRecordFieldItems, ends_bind (hashRecordFieldItems_ends rest stack), hashValue_ends v]
    simp [namedPasses, and_assoc]

/-- The items of a TextMap entry. -/
theorem hashTextMapEntryItems_ends : ∀ (e : NamedValue) (stack : List Frame) (s : VState),
    Ends VState.hw (hashTextMapEntryItems d stack e s) ↔
      s.hw.err = .ok ∧ namedPasses d stack e = true
  | .nil, _, s => by simp [hashTextMapEntryItems, namedPasses]
  | .name k rest, stack, s => by
    rw [hashTextMapEntryItems, hashTextMapEntryItems_ends rest stack,
      enc_ok_iff (encodesIf_putName k), namedPasses, and_true]
  | .value v rest, stack, s => by
    rw [hashTextMapEntryItems, ends_bind (hashTextMapEntryItems_ends rest stack),
      hashValue_ends v]
    simp [namedPasses, and_assoc]

/-- A record. -/
theorem hashRecord_ends : ∀ (r : Record) (stack : List Frame) (s : VState),
    Ends VState.hw (hashRecord d stack r s) ↔ s.hw.err = .ok ∧ recordPasses d stack r = true
  | .nil, _, s => by simp [hashRecord, recordPasses]
  | .recordId id rest, stack, s => by
    rw [hashRecord, hashRecord_ends rest stack, putRecordId_ends]
    simp [recordPasses, and_assoc]
  | .field f rest, stack, s => by
    have hrest (s : VState) : Ends VState.hw (hashRecord d stack rest
        (s.enc fun w => putPrimitive w (f.which .none))) ↔
        s.hw.err = .ok ∧ primPasses (f.which .none) = true ∧ recordPasses d stack rest = true := by
      rw [hashRecord_ends rest stack, enc_ok_iff (encodesIf_putPrimitive _), and_assoc]
    rw [hashRecord]
    cases hroom : d.stackHasRoom stack with
    | false => simp [recordPasses, hroom]
    | true =>
      simp only [Bool.not_true, Bool.false_eq_true, ↓reduceIte]
      rw [ends_bind hrest, hashRecordFieldItems_ends f]
      simp [recordPasses, hroom, and_assoc]

/-- A TextMap. -/
theorem hashTextMap_ends : ∀ (m : TextMap) (stack : List Frame) (s : VState),
    Ends VState.hw (hashTextMap d stack m s) ↔ s.hw.err = .ok ∧ textMapPasses d stack m = true
  | .nil, _, s => by simp [hashTextMap, textMapPasses]
  | .entry e rest, stack, s => by
    have hrest (s : VState) : Ends VState.hw (hashTextMap d stack rest
        (s.enc fun w => putPrimitive w (e.which .none))) ↔
        s.hw.err = .ok ∧ primPasses (e.which .none) = true ∧
          textMapPasses d stack rest = true := by
      rw [hashTextMap_ends rest stack, enc_ok_iff (encodesIf_putPrimitive _), and_assoc]
    rw [hashTextMap]
    cases hroom : d.stackHasRoom stack with
    | false => simp [textMapPasses, hroom]
    | true =>
      simp only [Bool.not_true, Bool.false_eq_true, ↓reduceIte]
      rw [ends_bind hrest, hashTextMapEntryItems_ends e]
      simp [textMapPasses, hroom, and_assoc]

/-- The keys of a GenMap entry. -/
theorem hashGenMapKeys_ends : ∀ (e : GenMapEntry) (stack : List Frame) (s : VState),
    Ends VState.hw (hashGenMapKeys d stack e s) ↔ s.hw.err = .ok ∧ keysPass d stack e = true
  | .nil, _, s => by simp [hashGenMapKeys, keysPass]
  | .key v rest, stack, s => by
    rw [hashGenMapKeys, ends_bind (hashGenMapKeys_ends rest stack), hashValue_ends v]
    simp [keysPass, and_assoc]
  | .value _ rest, stack, s => by
    rw [hashGenMapKeys, keysPass]
    exact hashGenMapKeys_ends rest stack s

/-- The values of a GenMap entry. -/
theorem hashGenMapValues_ends : ∀ (e : GenMapEntry) (stack : List Frame) (s : VState),
    Ends VState.hw (hashGenMapValues d stack e s) ↔
      s.hw.err = .ok ∧ entryValuesPass d stack e = true
  | .nil, _, s => by simp [hashGenMapValues, entryValuesPass]
  | .key _ rest, stack, s => by
    rw [hashGenMapValues, entryValuesPass]
    exact hashGenMapValues_ends rest stack s
  | .value v rest, stack, s => by
    rw [hashGenMapValues, ends_bind (hashGenMapValues_ends rest stack), hashValue_ends v]
    simp [entryValuesPass, and_assoc]

/-- A GenMap. -/
theorem hashGenMap_ends : ∀ (m : GenMap) (stack : List Frame) (s : VState),
    Ends VState.hw (hashGenMap d stack m s) ↔ s.hw.err = .ok ∧ genMapPasses d stack m = true
  | .nil, _, s => by simp [hashGenMap, genMapPasses]
  | .entry e rest, stack, s => by
    have hrest (s : VState) : Ends VState.hw (hashGenMap d stack rest
        (s.enc fun w => putPrimitive w (e.whichValue .none))) ↔
        s.hw.err = .ok ∧ primPasses (e.whichValue .none) = true ∧
          genMapPasses d stack rest = true := by
      rw [hashGenMap_ends rest stack, enc_ok_iff (encodesIf_putPrimitive _), and_assoc]
    have hvalues (s : VState) : Ends VState.hw (do
        let s ← hashGenMapValues d stack e (s.enc fun w => putPrimitive w (e.whichKey .none))
        hashGenMap d stack rest (s.enc fun w => putPrimitive w (e.whichValue .none))) ↔
        s.hw.err = .ok ∧ primPasses (e.whichKey .none) = true ∧
          entryValuesPass d stack e = true ∧ primPasses (e.whichValue .none) = true ∧
          genMapPasses d stack rest = true := by
      rw [ends_bind hrest, hashGenMapValues_ends e, enc_ok_iff (encodesIf_putPrimitive _)]
      simp only [and_assoc]
    rw [hashGenMap]
    cases hroom : d.stackHasRoom stack with
    | false => simp [genMapPasses, hroom]
    | true =>
      simp only [Bool.not_true, Bool.false_eq_true, ↓reduceIte]
      rw [ends_bind hvalues, hashGenMapKeys_ends e]
      simp [genMapPasses, hroom, and_assoc]

/-- A variant. -/
theorem hashVariant_ends : ∀ (v : Variant) (stack : List Frame) (s : VState),
    Ends VState.hw (hashVariant d stack v s) ↔ s.hw.err = .ok ∧ variantPasses d stack v = true
  | .nil, _, s => by simp [hashVariant, variantPasses]
  | .variantId id rest, stack, s => by
    rw [hashVariant, hashVariant_ends rest stack, enc_ok_iff (encodesIf_encodeIdentifier id)]
    simp [variantPasses, and_assoc]
  | .constructor c rest, stack, s => by
    rw [hashVariant, hashVariant_ends rest stack, enc_ok_iff (encodesIf_putName c), variantPasses,
      and_true]
  | .value v rest, stack, s => by
    have hrest (s : VState) : Ends VState.hw (hashVariant d stack rest
        (s.enc fun w => putPrimitive w (v.which .none))) ↔
        s.hw.err = .ok ∧ primPasses (v.which .none) = true ∧
          variantPasses d stack rest = true := by
      rw [hashVariant_ends rest stack, enc_ok_iff (encodesIf_putPrimitive _), and_assoc]
    rw [hashVariant]
    cases hroom : d.stackHasRoom stack with
    | false => simp [variantPasses, hroom]
    | true =>
      simp only [Bool.not_true, Bool.false_eq_true, ↓reduceIte]
      rw [ends_bind hrest, hashValue_ends v]
      simp [variantPasses, hroom, and_assoc]

end

end Values

end HashingParser

end CantonSigner
