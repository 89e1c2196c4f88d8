import CantonSigner.Hash.NodeBytes

/-!
# Values whose optional parts may be absent

A `LooseVal` is a value as a `Val`, but its records may lack their id. What is written for
it depends on how the optional parts of records and variants are written (`Headers`): the
code writes the presence byte of a record and the number of its fields from the callback of
the id (`codeHeaders`), the format asks for a presence byte that tells the truth and for
the number in any case (`trueHeaders`). Everything else is the same in both.

`hash_loose`: the hashing pass writes `bytes codeHeaders`.
-/

namespace CantonSigner

open ByteCodec HashingParser

/-! ## Values whose records may lack their id -/

mutual

/-- A value. -/
inductive LooseVal where
  | unit
  | prim (p : Prim)
  | absent
  | present (v : LooseVal)
  | list (vs : LooseVals)
  | textMap (es : LooseEntries)
  | genMap (ps : LoosePairs)
  | record (id : Option Identifier) (es : LooseEntries)
  | variant (id : Option Identifier) (c : Bytes) (v : LooseVal)
  | enum (id : Option Identifier) (c : Bytes)

/-- The elements of a list. -/
inductive LooseVals where
  | nil
  | cons (v : LooseVal) (vs : LooseVals)

/-- The fields of a record, or the entries of a TextMap. -/
inductive LooseEntries where
  | nil
  | cons (name : Bytes) (v : LooseVal) (es : LooseEntries)

/-- The entries of a GenMap. -/
inductive LoosePairs where
  | nil
  | cons (k v : LooseVal) (ps : LoosePairs)

end

def LooseVals.length : LooseVals → Int
  | .nil => 0
  | .cons _ vs => vs.length + 1

def LooseEntries.length : LooseEntries → Int
  | .nil => 0
  | .cons _ _ es => es.length + 1

def LoosePairs.length : LoosePairs → Int
  | .nil => 0
  | .cons _ _ ps => ps.length + 1

mutual

/-- The value as a message. -/
def LooseVal.toValue : LooseVal → Value
  | .unit => .unit .nil
  | .prim p => .prim p .nil
  | .absent => .optional .nil .nil
  | .present v => .optional (.cons v.toValue .nil) .nil
  | .list vs => .list vs.toValues .nil
  | .textMap es => .textMap es.toTextMap .nil
  | .genMap ps => .genMap ps.toGenMap .nil
  | .record none es => .record es.toRecord .nil
  | .record (some id) es => .record (.recordId id es.toRecord) .nil
  | .variant none c v => .variant (.constructor c (.value v.toValue .nil)) .nil
  | .variant (some id) c v =>
    .variant (.variantId id (.constructor c (.value v.toValue .nil))) .nil
  | .enum id c => .enum ⟨id, some c⟩ .nil

def LooseVals.toValues : LooseVals → Values
  | .nil => .nil
  | .cons v vs => .cons v.toValue vs.toValues

def LooseEntries.toRecord : LooseEntries → Record
  | .nil => .nil
  | .cons l v es => .field (.name l (.value v.toValue .nil)) es.toRecord

def LooseEntries.toTextMap : LooseEntries → TextMap
  | .nil => .nil
  | .cons k v es => .entry (.name k (.value v.toValue .nil)) es.toTextMap

def LoosePairs.toGenMap : LoosePairs → GenMap
  | .nil => .nil
  | .cons k v ps => .entry (.key k.toValue (.value v.toValue .nil)) ps.toGenMap

end

/-! ## Counts -/

/-- The count a value is entered with, if the variable holds `n` before. -/
def LooseVal.count (n : Int) : LooseVal → Int
  | .prim _ => n
  | .unit | .absent | .enum .. => 0
  | .present _ => 1
  | .list vs => vs.length
  | .textMap es | .record _ es => es.length
  | .genMap ps => ps.length
  | .variant id _ _ => if id.isSome then 1 else 0

/-- The count of a value of its own. -/
def LooseVal.own (v : LooseVal) : Int := v.count (-1)

mutual

/-- The count a value leaves behind when it is entered with `c`: a record without id does
not use it up. -/
def LooseVal.left (c : Int) : LooseVal → Int
  | .unit | .prim _ | .enum .. => c
  | .absent => -1
  | .present v => v.left (v.count (-1))
  | .list vs => vs.left (-1)
  | .textMap es => es.left (-1)
  | .record id es => es.left (if id.isSome then -1 else c)
  | .genMap ps => ps.left (-1)
  | .variant _ _ v => v.left (v.count (-1))

def LooseVals.left (n : Int) : LooseVals → Int
  | .nil => n
  | .cons v vs => vs.left (v.left (v.count n))

def LooseEntries.left (n : Int) : LooseEntries → Int
  | .nil => n
  | .cons _ v es => es.left (v.left (v.count n))

def LoosePairs.left (n : Int) : LoosePairs → Int
  | .nil => n
  | .cons k v ps => ps.left (v.left (k.left (v.count n)))

end

/-! ## Bytes -/

/-- How the optional parts are written: what follows the tag of a record up to its fields,
by its id, the count it is entered with and the number of its fields, and the presence byte
of a variant, by its id and its count. -/
structure Headers where
  record : Option Identifier → Int → Int → Bytes
  variant : Option Identifier → Int → UInt8

/-- As the code writes them. -/
def codeHeaders : Headers where
  record id c _ := id.elim [] fun id => 0x01 :: identifierBytes id ++ fieldCountBytes c
  variant _ c := presenceByte c

/-- With presence bytes that tell the truth, and the number of fields in any case. -/
def trueHeaders : Headers where
  record id _ n := optIdentifierBytes id ++ int32Bytes n
  variant id _ := if id.isSome then 0x01 else 0x00

mutual

/-- What is written for a value that is entered with count `c`. -/
def LooseVal.bytes (h : Headers) (c : Int) : LooseVal → Bytes
  | .unit => [0x00]
  | .prim p => primBytes p
  | .absent => [0x09, presenceByte c]
  | .present v => [0x09, presenceByte c] ++ v.bytes h (v.count (-1))
  | .list vs => 0x0A :: int32Bytes c ++ vs.bytes h
  | .textMap es => 0x0B :: int32Bytes c ++ es.entryBytes h
  | .genMap ps => 0x0F :: int32Bytes c ++ ps.bytes h (-1)
  | .record id es => 0x0C :: h.record id c es.length ++ es.fieldBytes h
  | .variant id k v =>
    [0x0D, h.variant id c] ++ (id.elim [] identifierBytes) ++ strBytes k ++ v.bytes h (v.count (-1))
  | .enum id k => 0x0E :: optIdentifierBytes id ++ strBytes k

def LooseVals.bytes (h : Headers) : LooseVals → Bytes
  | .nil => []
  | .cons v vs => v.bytes h (v.count (-1)) ++ vs.bytes h

/-- TextMap entries. -/
def LooseEntries.entryBytes (h : Headers) : LooseEntries → Bytes
  | .nil => []
  | .cons k v es => strBytes k ++ v.bytes h (v.count (-1)) ++ es.entryBytes h

/-- Record fields. -/
def LooseEntries.fieldBytes (h : Headers) : LooseEntries → Bytes
  | .nil => []
  | .cons l v es => 0x01 :: strBytes l ++ v.bytes h (v.count (-1)) ++ es.fieldBytes h

/-- GenMap entries, with the count `n` before the first. -/
def LoosePairs.bytes (h : Headers) (n : Int) : LoosePairs → Bytes
  | .nil => []
  | .cons k v ps =>
    k.bytes h (v.count n) ++ v.bytes h (k.left (v.count n)) ++
      ps.bytes h (v.left (k.left (v.count n)))

end

/-- A value entered with its own count is written the same, whatever was counted
before it. -/
theorem LooseVal.bytes_count (h : Headers) (n : Int) (v : LooseVal) :
    v.bytes h (v.count n) = v.bytes h v.own := by
  cases v <;> rfl

mutual

/-- The identifiers are complete, the names and strings in order. -/
def LooseVal.WellFormed : LooseVal → Prop
  | .unit | .absent => True
  | .prim p => p.WellFormed
  | .present v => v.WellFormed
  | .list vs => vs.WellFormed
  | .textMap es => es.WellFormed
  | .genMap ps => ps.WellFormed
  | .record id es => (∀ i ∈ id, i.WellFormed) ∧ es.WellFormed
  | .variant id c v => (∀ i ∈ id, i.WellFormed) ∧ NameWellFormed c ∧ v.WellFormed
  | .enum id c => (∀ i ∈ id, i.WellFormed) ∧ NulFree c

def LooseVals.WellFormed : LooseVals → Prop
  | .nil => True
  | .cons v vs => v.WellFormed ∧ vs.WellFormed

def LooseEntries.WellFormed : LooseEntries → Prop
  | .nil => True
  | .cons name v es => NameWellFormed name ∧ v.WellFormed ∧ es.WellFormed

def LoosePairs.WellFormed : LoosePairs → Prop
  | .nil => True
  | .cons k v ps => k.WellFormed ∧ v.WellFormed ∧ ps.WellFormed

end

/-! ## The hashing pass -/

/-- What the walk over a value writes itself; primitives are written by its caller. -/
def LooseVal.walk (w : Hw) (c : Int) : LooseVal → Hw
  | .unit | .prim _ => w
  | v => w.put (v.bytes codeHeaders c)

theorem LooseVal.walk_present (v : LooseVal) (w : Hw) (c : Int) :
    (LooseVal.present v).walk w c = w.put ((LooseVal.present v).bytes codeHeaders c) := rfl

theorem LooseVal.walk_variant (id : Option Identifier) (k : Bytes) (v : LooseVal) (w : Hw)
    (c : Int) :
    (LooseVal.variant id k v).walk w c = w.put ((LooseVal.variant id k v).bytes codeHeaders c) :=
    rfl

theorem LooseVal.walk_record (id : Option Identifier) (es : LooseEntries) (w : Hw) (c : Int) :
    (LooseVal.record id es).walk w c = w.put ((LooseVal.record id es).bytes codeHeaders c) := rfl

theorem LooseVal.walk_putPrimitive {v : LooseVal} (h : v.WellFormed) (w : Hw) (c : Int) :
    putPrimitive (v.walk w c) (v.toValue.which .none) = w.put (v.bytes codeHeaders c) := by
  cases v with
  | prim p => exact putPrimitive_prim h w
  | variant id k v => cases id <;> rfl
  | record id es => cases id <;> rfl
  | unit | absent | present | list | textMap | genMap | enum => rfl

theorem LooseVals.count_toValues : ∀ (vs : LooseVals), countValues vs.toValues = vs.length
  | .nil => rfl
  | .cons _ vs => by rw [LooseVals.toValues, countValues, vs.count_toValues, LooseVals.length]

theorem LooseEntries.count_toTextMap : ∀ (es : LooseEntries),
    countTextMapEntries es.toTextMap = es.length
  | .nil => rfl
  | .cons _ _ es => by
    rw [LooseEntries.toTextMap, countTextMapEntries, es.count_toTextMap, LooseEntries.length]

theorem LooseEntries.count_toRecord : ∀ (es : LooseEntries),
    countRecordFields es.toRecord = es.length
  | .nil => rfl
  | .cons _ _ es => by
    rw [LooseEntries.toRecord, countRecordFields, es.count_toRecord, LooseEntries.length]

theorem LoosePairs.count_toGenMap : ∀ (ps : LoosePairs),
    countGenMapEntries ps.toGenMap = ps.length
  | .nil => rfl
  | .cons _ _ ps => by
    rw [LoosePairs.toGenMap, countGenMapEntries, ps.count_toGenMap, LoosePairs.length]

@[simp] theorem LooseVal.count_toValue (v : LooseVal) (n : Int) :
    countValue n v.toValue = v.count n := by
  cases v with
  | list vs => exact vs.count_toValues
  | textMap es => exact es.count_toTextMap
  | genMap ps => exact ps.count_toGenMap
  | record id es =>
    cases id with
    | none => exact es.count_toRecord
    | some id => exact es.count_toRecord
  | variant id c v => cases id <;> rfl
  | unit | prim | absent | present | enum => rfl

section Walk

variable {d : Device} (hroom : ∀ stack, d.stackHasRoom stack = true)
include hroom

mutual

/-- The walk over a value that is entered with count `c`. -/
theorem hash_loose : ∀ (v : LooseVal) (stack : List Frame) (w : Hw) (c : Int), v.WellFormed →
    hashValue d stack v.toValue ⟨w, c⟩ = some ⟨v.walk w c, v.left c⟩
  | .unit, _, _, _, _ | .prim _, _, _, _, _ => rfl
  | .absent, _, _, _, _ => rfl
  | .present v, stack, w, c, h => by
    simp [LooseVal.toValue, hashValue, hashElems, hroom, putPresence, VState.enc, VState.put,
      VState.clearCount, hash_loose v (.optional :: stack) _ _ h,
        LooseVal.walk_putPrimitive (v := v) h,
      LooseVal.walk_present, LooseVal.bytes, LooseVal.left, presenceByte]
  | .list vs, stack, w, c, h => by
    simp [LooseVal.toValue, hashValue, putCounted, VState.enc, VState.clearCount, encodeInt32,
      hash_looseVals vs (.list :: stack) _ (-1) h, LooseVal.walk, LooseVal.bytes, LooseVal.left]
  | .textMap es, stack, w, c, h => by
    simp [LooseVal.toValue, hashValue, putCounted, VState.enc, VState.clearCount, encodeInt32,
      hash_looseEntries es (.textMap :: stack) _ (-1) h, LooseVal.walk, LooseVal.bytes,
        LooseVal.left]
  | .genMap ps, stack, w, c, h => by
    simp [LooseVal.toValue, hashValue, putCounted, VState.enc, VState.clearCount, encodeInt32,
      hash_loosePairs ps (.genMap :: stack) _ (-1) h, LooseVal.walk, LooseVal.bytes, LooseVal.left]
  | .record none es, stack, w, c, h => by
    -- The callback of the id never runs, so the count stays and is not written.
    simp [LooseVal.toValue, hashValue, VState.put, hash_looseFields es (.record :: stack) _ c h.2,
      LooseVal.walk_record, LooseVal.bytes, LooseVal.left, codeHeaders]
  | .record (some id) es, stack, w, c, h => by
    by_cases hc : c = -1
    · subst hc
      simp [LooseVal.toValue, hashValue, hashRecord, putRecordId, VState.enc, VState.put,
        encodeIdentifier_eq (h.1 id rfl).1, hash_looseFields es (.record :: stack) _ (-1) h.2,
        LooseVal.walk_record, LooseVal.bytes, LooseVal.left, codeHeaders, fieldCountBytes]
    · simp [LooseVal.toValue, hashValue, hashRecord, putRecordId, VState.enc, VState.put, hc,
        VState.clearCount, encodeInt32, encodeIdentifier_eq (h.1 id rfl).1,
        hash_looseFields es (.record :: stack) _ (-1) h.2, LooseVal.walk_record, LooseVal.bytes,
        LooseVal.left, codeHeaders, fieldCountBytes]
  | .variant none k v, stack, w, c, h => by
    simp [LooseVal.toValue, hashValue, hashVariant, putPresence, VState.enc, VState.put,
      VState.clearCount, putName_eq h.2.1, hroom, hash_loose v (.variant :: stack) _ _ h.2.2,
      LooseVal.walk_putPrimitive h.2.2, LooseVal.walk_variant, LooseVal.bytes, LooseVal.left,
      codeHeaders, presenceByte]
  | .variant (some id) k v, stack, w, c, h => by
    simp [LooseVal.toValue, hashValue, hashVariant, putPresence, VState.enc, VState.put,
      VState.clearCount, putName_eq h.2.1, encodeIdentifier_eq (h.1 id rfl).1, hroom,
      hash_loose v (.variant :: stack) _ _ h.2.2, LooseVal.walk_putPrimitive h.2.2,
        LooseVal.walk_variant, LooseVal.bytes, LooseVal.left, codeHeaders, presenceByte]
  | .enum id k, stack, w, c, h => by
    simp [LooseVal.toValue, hashValue, VState.enc, putEnum_eq h.1, LooseVal.walk, LooseVal.bytes,
      LooseVal.left]

theorem hash_looseVals : ∀ (vs : LooseVals) (stack : List Frame) (w : Hw) (n : Int), vs.WellFormed →
    hashElems d stack vs.toValues ⟨w, n⟩ = some ⟨w.put (vs.bytes codeHeaders), vs.left n⟩
  | .nil, stack, w, n, _ => by
    simp [LooseVals.toValues, hashElems, LooseVals.bytes, LooseVals.left]
  | .cons v vs, stack, w, n, h => by
    simp [LooseVals.toValues, hashElems, hroom, VState.enc, hash_loose v stack _ _ h.1,
      LooseVal.walk_putPrimitive h.1, LooseVal.bytes_count, hash_looseVals vs stack _ _ h.2,
      LooseVals.bytes, LooseVals.left]

theorem hash_looseEntries : ∀ (es : LooseEntries) (stack : List Frame) (w : Hw) (n : Int),
    es.WellFormed →
    hashTextMap d stack es.toTextMap ⟨w, n⟩ = some ⟨w.put (es.entryBytes codeHeaders), es.left n⟩
  | .nil, stack, w, n, _ => by
    simp [LooseEntries.toTextMap, hashTextMap, LooseEntries.entryBytes, LooseEntries.left]
  | .cons k v es, stack, w, n, h => by
    simp [LooseEntries.toTextMap, hashTextMap, hroom, hashTextMapEntryItems, countNamedValue,
      VState.enc, putName_eq h.1, hash_loose v stack _ _ h.2.1, NamedValue.which,
      LooseVal.walk_putPrimitive h.2.1, LooseVal.bytes_count, hash_looseEntries es stack _ _ h.2.2,
      LooseEntries.entryBytes, LooseEntries.left]

theorem hash_looseFields : ∀ (es : LooseEntries) (stack : List Frame) (w : Hw) (n : Int),
    es.WellFormed →
    hashRecord d stack es.toRecord ⟨w, n⟩ = some ⟨w.put (es.fieldBytes codeHeaders), es.left n⟩
  | .nil, stack, w, n, _ => by
    simp [LooseEntries.toRecord, hashRecord, LooseEntries.fieldBytes, LooseEntries.left]
  | .cons l v es, stack, w, n, h => by
    simp [LooseEntries.toRecord, hashRecord, hroom, hashRecordFieldItems, countNamedValue,
      VState.enc, putLabel_eq h.1, hash_loose v stack _ _ h.2.1, NamedValue.which,
      LooseVal.walk_putPrimitive h.2.1, LooseVal.bytes_count, hash_looseFields es stack _ _ h.2.2,
      LooseEntries.fieldBytes, LooseEntries.left]

theorem hash_loosePairs : ∀ (ps : LoosePairs) (stack : List Frame) (w : Hw) (n : Int),
    ps.WellFormed →
    hashGenMap d stack ps.toGenMap ⟨w, n⟩ = some ⟨w.put (ps.bytes codeHeaders n), ps.left n⟩
  | .nil, stack, w, n, _ => by
    simp [LoosePairs.toGenMap, hashGenMap, LoosePairs.bytes, LoosePairs.left]
  | .cons k v ps, stack, w, n, h => by
    simp [LoosePairs.toGenMap, hashGenMap, hroom, hashGenMapKeys, hashGenMapValues,
      countGenMapEntry, VState.enc, hash_loose k stack _ _ h.1, hash_loose v stack _ _ h.2.1,
      GenMapEntry.whichKey, GenMapEntry.whichValue, LooseVal.walk_putPrimitive h.1,
      LooseVal.walk_putPrimitive h.2.1, hash_loosePairs ps stack _ _ h.2.2, LoosePairs.bytes,
      LoosePairs.left]

end

/-- `decode_value_field` on a value writes it with its own count. -/
theorem writes_loose {v : LooseVal} (h : v.WellFormed) :
    Writes d LooseVal.toValue (fun v => v.bytes codeHeaders v.own) v := by
  intro field s
  refine ⟨⟨s.hw.put (v.bytes codeHeaders v.own), v.left (v.count s.count)⟩, ?_, rfl⟩
  simp [decodeValueField, hash_loose hroom v [field] _ _ h, VState.enc,
    LooseVal.walk_putPrimitive h, LooseVal.bytes_count]

end Walk

end CantonSigner
