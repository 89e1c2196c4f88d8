import CantonSigner.Model.HashingParser
import CantonSigner.Wire.Values

/-!
# What the hashing pass writes for a value

A `Val` is a value in which everything is there once: every record has its id, every
field its label and value, every entry its key and value. `Val.toValue` gives the
message.

The hashing pass writes the element count of a container from one variable,
`value_elem_count`, which is set before the value is entered and used up by the first
container that needs it. `Val.bytes c` is what is written for a value that is entered
with count `c`, and `Val.left c` the count it leaves behind (`hash_val`). A value is
entered with its own count (`Val.own`) everywhere but in a GenMap entry, where the count
is set once for key and value together.
-/

namespace CantonSigner

open ByteCodec HashingParser

/-! ## Values with every part in place -/

mutual

/-- A value. -/
inductive Val where
  | unit
  | prim (p : Prim)
  | absent
  | present (v : Val)
  | list (vs : Vals)
  | textMap (es : Entries)
  | genMap (ps : Pairs)
  | record (id : Identifier) (es : Entries)
  | variant (id : Option Identifier) (c : Bytes) (v : Val)
  | enum (id : Option Identifier) (c : Bytes)

/-- The elements of a list. -/
inductive Vals where
  | nil
  | cons (v : Val) (vs : Vals)

/-- The fields of a record, or the entries of a TextMap. -/
inductive Entries where
  | nil
  | cons (name : Bytes) (v : Val) (es : Entries)

/-- The entries of a GenMap. -/
inductive Pairs where
  | nil
  | cons (k v : Val) (ps : Pairs)

end

/-- The number of elements. -/
def Vals.length : Vals → Int
  | .nil => 0
  | .cons _ vs => vs.length + 1

/-- The number of entries or fields. -/
def Entries.length : Entries → Int
  | .nil => 0
  | .cons _ _ es => es.length + 1

/-- The number of pairs. -/
def Pairs.length : Pairs → Int
  | .nil => 0
  | .cons _ _ ps => ps.length + 1

mutual

/-- The value as a message. -/
def Val.toValue : Val → Value
  | .unit => .unit .nil
  | .prim p => .prim p .nil
  | .absent => .optional .nil .nil
  | .present v => .optional (.cons v.toValue .nil) .nil
  | .list vs => .list vs.toValues .nil
  | .textMap es => .textMap es.toTextMap .nil
  | .genMap ps => .genMap ps.toGenMap .nil
  | .record id es => .record (.recordId id es.toRecord) .nil
  | .variant none c v => .variant (.constructor c (.value v.toValue .nil)) .nil
  | .variant (some id) c v =>
    .variant (.variantId id (.constructor c (.value v.toValue .nil))) .nil
  | .enum id c => .enum ⟨id, some c⟩ .nil

/-- A list as a message. -/
def Vals.toValues : Vals → Values
  | .nil => .nil
  | .cons v vs => .cons v.toValue vs.toValues

/-- Fields as a message. -/
def Entries.toRecord : Entries → Record
  | .nil => .nil
  | .cons l v es => .field (.name l (.value v.toValue .nil)) es.toRecord

/-- Entries as a message. -/
def Entries.toTextMap : Entries → TextMap
  | .nil => .nil
  | .cons k v es => .entry (.name k (.value v.toValue .nil)) es.toTextMap

/-- Pairs as a message. -/
def Pairs.toGenMap : Pairs → GenMap
  | .nil => .nil
  | .cons k v ps => .entry (.key k.toValue (.value v.toValue .nil)) ps.toGenMap

end

/-! ## Counts -/

/-- The count a value is entered with, if the variable holds `n` before: a primitive
leaves it as it is. -/
def Val.count (n : Int) : Val → Int
  | .prim _ => n
  | .unit | .absent | .enum .. => 0
  | .present _ => 1
  | .list vs => vs.length
  | .textMap es | .record _ es => es.length
  | .genMap ps => ps.length
  | .variant id _ _ => if id.isSome then 1 else 0

/-- The count of a value of its own. -/
def Val.own (v : Val) : Int := v.count (-1)

mutual

/-- The count a value leaves behind when it is entered with `c`. -/
def Val.left (c : Int) : Val → Int
  | .unit | .prim _ | .enum .. => c
  | .absent => -1
  | .present v => v.left (v.count (-1))
  | .list vs => vs.left (-1)
  | .textMap es | .record _ es => es.left (-1)
  | .genMap ps => ps.left (-1)
  | .variant _ _ v => v.left (v.count (-1))

/-- The count after a list. -/
def Vals.left (n : Int) : Vals → Int
  | .nil => n
  | .cons v vs => vs.left (v.left (v.count n))

/-- The count after entries or fields. -/
def Entries.left (n : Int) : Entries → Int
  | .nil => n
  | .cons _ v es => es.left (v.left (v.count n))

/-- Key and value of a GenMap entry share the count of the value. -/
def Pairs.left (n : Int) : Pairs → Int
  | .nil => n
  | .cons k v ps => ps.left (v.left (k.left (v.count n)))

end

/-! ## Bytes -/

/-- A string with its length. -/
def strBytes (s : Bytes) : Bytes := int32Bytes s.length ++ s

/-- A dotted name by its segments. -/
def dottedBytes (s : Bytes) : Bytes :=
  int32Bytes (splitDot s).length ++ (splitDot s).flatMap strBytes

/-- An identifier with all its parts. -/
def identifierBytes (id : Identifier) : Bytes :=
  strBytes (id.packageId.getD []) ++ dottedBytes (id.moduleName.getD []) ++
    dottedBytes (id.entityName.getD [])

/-- An identifier that may be absent. -/
def optIdentifierBytes : Option Identifier → Bytes
  | none => [0x00]
  | some id => 0x01 :: identifierBytes id

/-- A primitive. -/
def primBytes : Prim → Bytes
  | .bool b => [0x01, if b then 1 else 0]
  | .int64 v => 0x02 :: int64Bytes v
  | .numeric s => 0x03 :: strBytes s
  | .timestamp v => 0x04 :: int64Bytes v
  | .date v => 0x05 :: int32Bytes v
  | .party s => 0x06 :: strBytes s
  | .text s => 0x07 :: strBytes s
  | .contractId s => 0x08 :: (int32Bytes (s.length / 2 : Nat) ++ hexBytes s)

/-- The presence byte of an optional or a variant. -/
def presenceByte (c : Int) : UInt8 := if c = 0 then 0x00 else 0x01

/-- The field count of a record, which is left out once the count is used up. -/
def fieldCountBytes (c : Int) : Bytes := if c = -1 then [] else int32Bytes c

mutual

/-- What is written for a value that is entered with count `c`. -/
def Val.bytes (c : Int) : Val → Bytes
  | .unit => [0x00]
  | .prim p => primBytes p
  | .absent => [0x09, presenceByte c]
  | .present v => [0x09, presenceByte c] ++ v.bytes (v.count (-1))
  | .list vs => 0x0A :: int32Bytes c ++ vs.bytes
  | .textMap es => 0x0B :: int32Bytes c ++ es.entryBytes
  | .genMap ps => 0x0F :: int32Bytes c ++ ps.bytes (-1)
  | .record id es => 0x0C :: 0x01 :: identifierBytes id ++ fieldCountBytes c ++ es.fieldBytes
  | .variant id k v =>
    [0x0D, presenceByte c] ++ (id.elim [] identifierBytes) ++ strBytes k ++ v.bytes (v.count (-1))
  | .enum id k => 0x0E :: optIdentifierBytes id ++ strBytes k

/-- The elements of a list, each with a count of its own. -/
def Vals.bytes : Vals → Bytes
  | .nil => []
  | .cons v vs => v.bytes (v.count (-1)) ++ vs.bytes

/-- TextMap entries. -/
def Entries.entryBytes : Entries → Bytes
  | .nil => []
  | .cons k v es => strBytes k ++ v.bytes (v.count (-1)) ++ es.entryBytes

/-- Record fields. -/
def Entries.fieldBytes : Entries → Bytes
  | .nil => []
  | .cons l v es => 0x01 :: strBytes l ++ v.bytes (v.count (-1)) ++ es.fieldBytes

/-- GenMap entries, with the count `n` before the first. -/
def Pairs.bytes (n : Int) : Pairs → Bytes
  | .nil => []
  | .cons k v ps =>
    k.bytes (v.count n) ++ v.bytes (k.left (v.count n)) ++
      ps.bytes (v.left (k.left (v.count n)))

end

/-- The encoding of a value as an element of a list. -/
def Val.elemBytes (v : Val) : Bytes := v.bytes v.own

/-- A value entered with its own count is written the same, whatever was counted
before it. -/
theorem Val.bytes_count (n : Int) (v : Val) : v.bytes (v.count n) = v.elemBytes := by
  cases v <;> rfl

/-! ## Well-formed values -/

/-- The characters of a hexadecimal string. -/
def isHexChar (c : UInt8) : Bool :=
  (48 ≤ c && c ≤ 57) || (97 ≤ c && c ≤ 102) || (65 ≤ c && c ≤ 70)

/-- A primitive that can be sent; a contract id is hexadecimal. -/
def Prim.WellFormed (p : Prim) : Prop :=
  p.Sendable ∧ ∀ s, p = .contractId s → s.length % 2 = 0 ∧ s.all isHexChar = true

/-- An identifier with all its parts. -/
def Identifier.WellFormed (id : Identifier) : Prop :=
  requireIdentifier (some id) = true ∧ id.Sendable

/-- A label, a key or a constructor: a C string of 1 to 63 bytes. -/
def NameWellFormed (s : Bytes) : Prop := NulFree s ∧ 1 ≤ s.length ∧ s.length ≤ 63

mutual

/-- The value can be sent, its names and identifiers are in order. -/
def Val.WellFormed : Val → Prop
  | .unit | .absent => True
  | .prim p => p.WellFormed
  | .present v => v.WellFormed
  | .list vs => vs.WellFormed
  | .textMap es => es.WellFormed
  | .genMap ps => ps.WellFormed
  | .record id es => id.WellFormed ∧ es.WellFormed
  | .variant id c v => (∀ i ∈ id, i.WellFormed) ∧ NameWellFormed c ∧ v.WellFormed
  | .enum id c => (∀ i ∈ id, i.WellFormed) ∧ NulFree c

def Vals.WellFormed : Vals → Prop
  | .nil => True
  | .cons v vs => v.WellFormed ∧ vs.WellFormed

def Entries.WellFormed : Entries → Prop
  | .nil => True
  | .cons name v es => NameWellFormed name ∧ v.WellFormed ∧ es.WellFormed

def Pairs.WellFormed : Pairs → Prop
  | .nil => True
  | .cons k v ps => k.WellFormed ∧ v.WellFormed ∧ ps.WellFormed

end

mutual

/-- A well-formed value is one that the wire carries. -/
theorem Val.sendable : ∀ (v : Val), v.WellFormed → v.toValue.Sendable
  | .unit, _ | .absent, _ => by simp [Val.toValue, Value.Sendable, Values.Sendable]
  | .prim p, h => ⟨h.1, trivial⟩
  | .present v, h => ⟨⟨v.sendable h, trivial⟩, trivial⟩
  | .list vs, h => ⟨vs.sendable h, trivial⟩
  | .textMap es, h => ⟨es.sendable_textMap h, trivial⟩
  | .genMap ps, h => ⟨ps.sendable h, trivial⟩
  | .record id es, h => ⟨⟨h.1.2, es.sendable_record h.2⟩, trivial⟩
  | .variant none c v, h => ⟨⟨v.sendable h.2.2, trivial⟩, trivial⟩
  | .variant (some id) c v, h => ⟨⟨(h.1 id rfl).2, v.sendable h.2.2, trivial⟩, trivial⟩
  | .enum id c, h => by
    refine ⟨⟨fun i hi => (h.1 i hi).2, ?_⟩, trivial⟩
    rintro _ ⟨⟩
    exact h.2

/-- A list. -/
theorem Vals.sendable : ∀ (vs : Vals), vs.WellFormed → vs.toValues.Sendable
  | .nil, _ => trivial
  | .cons v vs, h => ⟨v.sendable h.1, vs.sendable h.2⟩

/-- The fields of a record. -/
theorem Entries.sendable_record : ∀ (es : Entries), es.WellFormed → es.toRecord.Sendable
  | .nil, _ => trivial
  | .cons _ v es, h => ⟨⟨v.sendable h.2.1, trivial⟩, es.sendable_record h.2.2⟩

/-- The entries of a TextMap. -/
theorem Entries.sendable_textMap : ∀ (es : Entries), es.WellFormed → es.toTextMap.Sendable
  | .nil, _ => trivial
  | .cons _ v es, h => ⟨⟨v.sendable h.2.1, trivial⟩, es.sendable_textMap h.2.2⟩

/-- A GenMap. -/
theorem Pairs.sendable : ∀ (ps : Pairs), ps.WellFormed → ps.toGenMap.Sendable
  | .nil, _ => trivial
  | .cons k v ps, h => ⟨⟨k.sendable h.1, v.sendable h.2.1, trivial⟩, ps.sendable h.2.2⟩

end

/-! ## The encoders -/

/-- A byte string. -/
theorem encodeBytes_eq (w : Hw) (s : Bytes) : encodeBytes w s = w.put (strBytes s) := by
  simp [encodeBytes, encodeInt32, strBytes]

/-- A list of encoders writes one after the other. -/
theorem foldl_put {α : Type} {fn : Hw → α → Hw} {bytes : α → Bytes}
    (h : ∀ w a, fn w a = w.put (bytes a)) (w : Hw) (as : List α) :
    as.foldl fn w = w.put (as.flatMap bytes) := by
  induction as generalizing w with
  | nil => simp
  | cons a as ih => rw [List.foldl_cons, h, ih, Hw.put_put, List.flatMap_cons]

/-- An identifier. -/
theorem encodeIdentifier_eq {id : Identifier} (h : requireIdentifier (some id) = true) (w : Hw) :
    encodeIdentifier w id = w.put (identifierBytes id) := by
  obtain ⟨packageId, moduleName, entityName⟩ := id
  cases packageId <;> cases moduleName <;> cases entityName <;>
    simp [requireIdentifier] at h
  simp [encodeIdentifier, encodeString, splitDotAndEncode, encodeRepeated, encodeInt32,
    foldl_put encodeBytes_eq, encodeBytes_eq, identifierBytes, dottedBytes]

/-- A label of 63 bytes at most is one piece. -/
theorem putLabel_eq {s : Bytes} (h : NameWellFormed s) (w : Hw) :
    putLabel w s = w.put (0x01 :: strBytes s) := by
  have hlt : s.length < defaultDecodeBufferSize := Nat.lt_succ_of_le h.2.2
  simp [putLabel, stringPieces, hlt, cstr_eq_self h.1, encodeString, encodeBytes_eq]

/-- So is a name. -/
theorem putName_eq {s : Bytes} (h : NameWellFormed s) (w : Hw) :
    putName w s = w.put (strBytes s) := by
  have hlt : s.length < defaultDecodeBufferSize := Nat.lt_succ_of_le h.2.2
  simp [putName, stringPieces, hlt, cstr_eq_self h.1, encodeString, encodeBytes_eq]

/-- An enum. -/
theorem putEnum_eq {id : Option Identifier} {c : Bytes} (h : ∀ i ∈ id, i.WellFormed) (w : Hw) :
    putEnum w ⟨id, some c⟩ = w.put (optIdentifierBytes id ++ strBytes c) := by
  cases id with
  | none => simp [putEnum, encodeOptional, encodeString, encodeBytes_eq, optIdentifierBytes]
  | some i =>
    simp [putEnum, encodeOptional, encodeString, encodeBytes_eq, optIdentifierBytes,
      encodeIdentifier_eq (h i rfl).1]

/-- A primitive. -/
theorem putPrimitive_prim {p : Prim} (h : p.WellFormed) (w : Hw) :
    putPrimitive w (.prim p) = w.put (primBytes p) := by
  cases p with
  | bool b => simp [putPrimitive, encodeBool, primBytes]
  | int64 v => simp [putPrimitive, encodeInt64, primBytes]
  | date v => simp [putPrimitive, encodeInt32, primBytes]
  | timestamp v => simp [putPrimitive, encodeInt64, primBytes]
  | numeric s => simp [putPrimitive, encodeString, encodeBytes_eq, primBytes]
  | party s => simp [putPrimitive, encodeString, encodeBytes_eq, primBytes]
  | text s => simp [putPrimitive, encodeString, encodeBytes_eq, primBytes]
  | contractId s =>
    have heven := (h.2 s rfl).1
    simp [putPrimitive, encodeHexString, heven, encodeInt32, primBytes]

/-! ## The hashing pass -/

/-- What the walk over a value writes itself; primitives are written by its caller. -/
def Val.walk (w : Hw) (c : Int) : Val → Hw
  | .unit | .prim _ => w
  | v => w.put (v.bytes c)

/-- A value in an Optional is walked as its bytes. -/
theorem Val.walk_present (v : Val) (w : Hw) (c : Int) :
    (Val.present v).walk w c = w.put ((Val.present v).bytes c) := rfl

/-- So is a variant. -/
theorem Val.walk_variant (id : Option Identifier) (k : Bytes) (v : Val) (w : Hw) (c : Int) :
    (Val.variant id k v).walk w c = w.put ((Val.variant id k v).bytes c) := rfl

/-- What the walk has left out is put by the primitive. -/
theorem Val.walk_putPrimitive {v : Val} (h : v.WellFormed) (w : Hw) (c : Int) :
    putPrimitive (v.walk w c) (v.toValue.which .none) = w.put (v.bytes c) := by
  cases v with
  | prim p => exact putPrimitive_prim h w
  | variant id k v => cases id <;> rfl
  | unit | absent | present | list | textMap | genMap | record | enum => rfl

/-- The decoder counts the elements. -/
theorem Vals.count_toValues : ∀ (vs : Vals), countValues vs.toValues = vs.length
  | .nil => rfl
  | .cons _ vs => by rw [Vals.toValues, countValues, vs.count_toValues, Vals.length]

/-- The entries of a TextMap. -/
theorem Entries.count_toTextMap : ∀ (es : Entries), countTextMapEntries es.toTextMap = es.length
  | .nil => rfl
  | .cons _ _ es => by
    rw [Entries.toTextMap, countTextMapEntries, es.count_toTextMap, Entries.length]

/-- The fields of a record. -/
theorem Entries.count_toRecord : ∀ (es : Entries), countRecordFields es.toRecord = es.length
  | .nil => rfl
  | .cons _ _ es => by rw [Entries.toRecord, countRecordFields, es.count_toRecord, Entries.length]

/-- The entries of a GenMap. -/
theorem Pairs.count_toGenMap : ∀ (ps : Pairs), countGenMapEntries ps.toGenMap = ps.length
  | .nil => rfl
  | .cons _ _ ps => by rw [Pairs.toGenMap, countGenMapEntries, ps.count_toGenMap, Pairs.length]

/-- And what a value holds. -/
@[simp] theorem Val.count_toValue (v : Val) (n : Int) : countValue n v.toValue = v.count n := by
  cases v with
  | list vs => exact vs.count_toValues
  | textMap es => exact es.count_toTextMap
  | genMap ps => exact ps.count_toGenMap
  | record id es => exact es.count_toRecord
  | variant id c v => cases id <;> rfl
  | unit | prim | absent | present | enum => rfl

/-! ## The stack guard -/

section Guard

variable (d : Device)

mutual

/-- The stack guard lets every value pass that is opened inside a value below `stack`. -/
def Val.hasRoom (stack : List Frame) : Val → Bool
  | .unit | .prim _ | .absent | .enum _ _ => true
  | .present v => d.stackHasRoom (.optional :: stack) && Val.hasRoom (.optional :: stack) v
  | .list vs => Vals.hasRoom (.list :: stack) vs
  | .textMap es => Entries.hasRoom (.textMap :: stack) es
  | .genMap ps => Pairs.hasRoom (.genMap :: stack) ps
  | .record _ es => Entries.hasRoom (.record :: stack) es
  | .variant _ _ v => d.stackHasRoom (.variant :: stack) && Val.hasRoom (.variant :: stack) v

def Vals.hasRoom (stack : List Frame) : Vals → Bool
  | .nil => true
  | .cons v vs => d.stackHasRoom stack && Val.hasRoom stack v && Vals.hasRoom stack vs

def Entries.hasRoom (stack : List Frame) : Entries → Bool
  | .nil => true
  | .cons _ v es => d.stackHasRoom stack && Val.hasRoom stack v && Entries.hasRoom stack es

def Pairs.hasRoom (stack : List Frame) : Pairs → Bool
  | .nil => true
  | .cons k v ps => d.stackHasRoom stack && Val.hasRoom stack k && Val.hasRoom stack v &&
    Pairs.hasRoom stack ps

end

end Guard

/-! ## The walk -/

section Walk

variable {d : Device}

mutual

/-- The walk over a value that is entered with count `c`. -/
theorem hash_val : ∀ (v : Val) (stack : List Frame) (w : Hw) (c : Int), v.WellFormed →
    hashValue d stack v.toValue ⟨w, c⟩ =
      if v.hasRoom d stack then some ⟨v.walk w c, v.left c⟩ else none
  -- The induction is on the value; `c` is what its parent has left of the element count.
  | .unit, _, _, _, _ | .prim _, _, _, _, _ => rfl
  | .absent, _, _, _, _ => rfl
  | .present v, stack, w, c, h => by
    simp only [Val.toValue, hashValue, hashElems, putPresence, VState.put, VState.clearCount,
      hash_val v (.optional :: stack) _ _ h, Val.hasRoom]
    -- the guard is asked once for the frame and once inside the value
    by_cases hs : d.stackHasRoom (.optional :: stack) = true <;>
      by_cases hv : v.hasRoom d (.optional :: stack) = true <;>
      simp [hs, hv, VState.enc, Val.walk_putPrimitive (v := v) h, Val.walk_present, Val.bytes,
        Val.left, presenceByte]
  | .list vs, stack, w, c, h => by
    simp only [Val.toValue, hashValue, putCounted, VState.enc, VState.clearCount,
      hash_vals vs (.list :: stack) _ (-1) h, Val.hasRoom]
    by_cases hr : vs.hasRoom d (.list :: stack) = true <;>
      simp [hr, encodeInt32, Val.walk, Val.bytes, Val.left]
  | .textMap es, stack, w, c, h => by
    simp only [Val.toValue, hashValue, putCounted, VState.enc, VState.clearCount,
      hash_entries es (.textMap :: stack) _ (-1) h, Val.hasRoom]
    by_cases hr : es.hasRoom d (.textMap :: stack) = true <;>
      simp [hr, encodeInt32, Val.walk, Val.bytes, Val.left]
  | .genMap ps, stack, w, c, h => by
    simp only [Val.toValue, hashValue, putCounted, VState.enc, VState.clearCount,
      hash_pairs ps (.genMap :: stack) _ (-1) h, Val.hasRoom]
    by_cases hr : ps.hasRoom d (.genMap :: stack) = true <;>
      simp [hr, encodeInt32, Val.walk, Val.bytes, Val.left]
  | .record id es, stack, w, c, h => by
    -- a record entered with the count used up writes no field count
    by_cases hc : c = -1
    · subst hc
      simp only [Val.toValue, hashValue, hashRecord, putRecordId, VState.enc, VState.put,
        encodeIdentifier_eq h.1.1, ne_eq, not_true_eq_false, ↓reduceIte,
        hash_fields es (.record :: stack) _ (-1) h.2, Val.hasRoom]
      by_cases hr : es.hasRoom d (.record :: stack) = true <;>
        simp [hr, Val.walk, Val.bytes, Val.left, fieldCountBytes]
    · simp only [Val.toValue, hashValue, hashRecord, putRecordId, VState.enc, VState.put, hc, ne_eq,
        not_false_eq_true, ↓reduceIte, VState.clearCount, encodeIdentifier_eq h.1.1,
        hash_fields es (.record :: stack) _ (-1) h.2, Val.hasRoom]
      by_cases hr : es.hasRoom d (.record :: stack) = true <;>
        simp [hr, hc, encodeInt32, Val.walk, Val.bytes, Val.left, fieldCountBytes]
  | .variant id k v, stack, w, c, h => by
    cases id with
    | none =>
      simp only [Val.toValue, hashValue, hashVariant, putPresence, VState.enc, VState.put,
        VState.clearCount, putName_eq h.2.1, hash_val v (.variant :: stack) _ _ h.2.2, Val.hasRoom]
      by_cases hs : d.stackHasRoom (.variant :: stack) = true <;>
        by_cases hv : v.hasRoom d (.variant :: stack) = true <;>
        simp [hs, hv, Val.walk_putPrimitive h.2.2, Val.walk_variant, Val.bytes, Val.left,
          presenceByte]
    | some id =>
      simp only [Val.toValue, hashValue, hashVariant, putPresence, VState.enc, VState.put,
        VState.clearCount, putName_eq h.2.1, encodeIdentifier_eq (h.1 id rfl).1,
        hash_val v (.variant :: stack) _ _ h.2.2, Val.hasRoom]
      by_cases hs : d.stackHasRoom (.variant :: stack) = true <;>
        by_cases hv : v.hasRoom d (.variant :: stack) = true <;>
        simp [hs, hv, Val.walk_putPrimitive h.2.2, Val.walk_variant, Val.bytes, Val.left,
          presenceByte]
  | .enum id k, stack, w, c, h => by
    simp [Val.toValue, hashValue, VState.enc, putEnum_eq h.1, Val.walk, Val.bytes, Val.left,
      Val.hasRoom]

/-- The elements of a list. -/
theorem hash_vals : ∀ (vs : Vals) (stack : List Frame) (w : Hw) (n : Int), vs.WellFormed →
    hashElems d stack vs.toValues ⟨w, n⟩ =
      if vs.hasRoom d stack then some ⟨w.put vs.bytes, vs.left n⟩ else none
  | .nil, stack, w, n, _ => by
    simp [Vals.toValues, hashElems, Vals.bytes, Vals.left, Vals.hasRoom]
  | .cons v vs, stack, w, n, h => by
    simp only [Vals.toValues, hashElems, hash_val v stack _ _ h.1, Vals.hasRoom]
    by_cases hs : d.stackHasRoom stack = true <;>
      by_cases hv : v.hasRoom d stack = true <;>
      simp [hs, hv, VState.enc, Val.walk_putPrimitive h.1, Val.bytes_count,
        hash_vals vs stack _ _ h.2, Vals.bytes, Vals.left]

/-- The entries of a TextMap. -/
theorem hash_entries : ∀ (es : Entries) (stack : List Frame) (w : Hw) (n : Int), es.WellFormed →
    hashTextMap d stack es.toTextMap ⟨w, n⟩ =
      if es.hasRoom d stack then some ⟨w.put es.entryBytes, es.left n⟩ else none
  | .nil, stack, w, n, _ => by
    simp [Entries.toTextMap, hashTextMap, Entries.entryBytes, Entries.left, Entries.hasRoom]
  | .cons k v es, stack, w, n, h => by
    simp only [Entries.toTextMap, hashTextMap, hashTextMapEntryItems, VState.enc, putName_eq h.1,
      hash_val v stack _ _ h.2.1, Entries.hasRoom]
    by_cases hs : d.stackHasRoom stack = true <;>
      by_cases hv : v.hasRoom d stack = true <;>
      simp [hs, hv, countNamedValue, NamedValue.which, Val.walk_putPrimitive h.2.1, Val.bytes_count,
        hash_entries es stack _ _ h.2.2, Entries.entryBytes, Entries.left]

/-- The fields of a record. -/
theorem hash_fields : ∀ (es : Entries) (stack : List Frame) (w : Hw) (n : Int), es.WellFormed →
    hashRecord d stack es.toRecord ⟨w, n⟩ =
      if es.hasRoom d stack then some ⟨w.put es.fieldBytes, es.left n⟩ else none
  | .nil, stack, w, n, _ => by
    simp [Entries.toRecord, hashRecord, Entries.fieldBytes, Entries.left, Entries.hasRoom]
  | .cons l v es, stack, w, n, h => by
    simp only [Entries.toRecord, hashRecord, hashRecordFieldItems, VState.enc, putLabel_eq h.1,
      hash_val v stack _ _ h.2.1, Entries.hasRoom]
    by_cases hs : d.stackHasRoom stack = true <;>
      by_cases hv : v.hasRoom d stack = true <;>
      simp [hs, hv, countNamedValue, NamedValue.which, Val.walk_putPrimitive h.2.1, Val.bytes_count,
        hash_fields es stack _ _ h.2.2, Entries.fieldBytes, Entries.left]

/-- The entries of a GenMap. -/
theorem hash_pairs : ∀ (ps : Pairs) (stack : List Frame) (w : Hw) (n : Int), ps.WellFormed →
    hashGenMap d stack ps.toGenMap ⟨w, n⟩ =
      if ps.hasRoom d stack then some ⟨w.put (ps.bytes n), ps.left n⟩ else none
  | .nil, stack, w, n, _ => by
    simp [Pairs.toGenMap, hashGenMap, Pairs.bytes, Pairs.left, Pairs.hasRoom]
  | .cons k v ps, stack, w, n, h => by
    simp only [Pairs.toGenMap, hashGenMap, hashGenMapKeys, hashGenMapValues, VState.enc,
      hash_val k stack _ _ h.1, Pairs.hasRoom]
    by_cases hs : d.stackHasRoom stack = true <;> by_cases hk : k.hasRoom d stack = true <;>
      by_cases hv : v.hasRoom d stack = true <;>
      simp [hs, hk, countGenMapEntry, GenMapEntry.whichKey, GenMapEntry.whichValue,
        Val.walk_putPrimitive h.1, Val.walk_putPrimitive h.2.1, hash_val v stack _ _ h.2.1, hv,
        hash_pairs ps stack _ _ h.2.2, Pairs.bytes, Pairs.left]

end

mutual

/-- With room everywhere nothing is refused. -/
theorem Val.hasRoom_of_all (hroom : ∀ stack, d.stackHasRoom stack = true) :
    ∀ (v : Val) (stack : List Frame), v.hasRoom d stack = true
  | .unit, _ | .prim _, _ | .absent, _ | .enum _ _, _ => rfl
  | .present v, stack => by simp [Val.hasRoom, hroom, v.hasRoom_of_all hroom]
  | .list vs, stack => vs.hasRoom_of_all hroom (.list :: stack)
  | .textMap es, stack => es.hasRoom_of_all hroom (.textMap :: stack)
  | .genMap ps, stack => ps.hasRoom_of_all hroom (.genMap :: stack)
  | .record _ es, stack => es.hasRoom_of_all hroom (.record :: stack)
  | .variant _ _ v, stack => by simp [Val.hasRoom, hroom, v.hasRoom_of_all hroom]

theorem Vals.hasRoom_of_all (hroom : ∀ stack, d.stackHasRoom stack = true) :
    ∀ (vs : Vals) (stack : List Frame), vs.hasRoom d stack = true
  | .nil, _ => rfl
  | .cons v vs, stack => by
    simp [Vals.hasRoom, hroom, v.hasRoom_of_all hroom, vs.hasRoom_of_all hroom]

theorem Entries.hasRoom_of_all (hroom : ∀ stack, d.stackHasRoom stack = true) :
    ∀ (es : Entries) (stack : List Frame), es.hasRoom d stack = true
  | .nil, _ => rfl
  | .cons _ v es, stack => by
    simp [Entries.hasRoom, hroom, v.hasRoom_of_all hroom, es.hasRoom_of_all hroom]

theorem Pairs.hasRoom_of_all (hroom : ∀ stack, d.stackHasRoom stack = true) :
    ∀ (ps : Pairs) (stack : List Frame), ps.hasRoom d stack = true
  | .nil, _ => rfl
  | .cons k v ps, stack => by
    simp [Pairs.hasRoom, hroom, k.hasRoom_of_all hroom, v.hasRoom_of_all hroom,
      ps.hasRoom_of_all hroom]

end

end Walk

end CantonSigner
