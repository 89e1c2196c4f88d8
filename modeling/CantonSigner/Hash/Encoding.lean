import CantonSigner.Hash.ValueBytes
import CantonSigner.Model.TestDevice
import Mathlib.Data.Int.ModEq

/-!
# The encoding of values

`enc` is the encoding of a value by recursion over it: each alternative has its tag,
each container its own number of elements. The hashing pass appends exactly `enc v` for
the wire form of every well-formed value whose GenMap keys are not containers themselves
(`value_encoding`). A GenMap with container keys is encoded so only if key and value
happen to agree on the one count they share (`genMap_entries_iff`).
-/

namespace CantonSigner

open ByteCodec HashingParser Wire

/-! ## The recursive definition -/

/-- The value of a hexadecimal digit. -/
def hexDigitValue (c : UInt8) : Nat :=
  if c.toNat ≤ 57 then c.toNat - 48 else if 97 ≤ c.toNat then c.toNat - 87 else c.toNat - 55

/-- The bytes a hexadecimal string stands for. -/
def unhex : Bytes → Bytes
  | hi :: lo :: rest => UInt8.ofNat (16 * hexDigitValue hi + hexDigitValue lo) :: unhex rest
  | _ => []

/-- The encoding of a primitive. -/
def encPrim : Prim → Bytes
  | .bool b => [0x01, if b then 1 else 0]
  | .int64 v => 0x02 :: int64Bytes v
  | .numeric s => 0x03 :: strBytes s
  | .timestamp v => 0x04 :: int64Bytes v
  | .date v => 0x05 :: int32Bytes v
  | .party s => 0x06 :: strBytes s
  | .text s => 0x07 :: strBytes s
  | .contractId s => 0x08 :: (int32Bytes (unhex s).length ++ unhex s)

mutual

/-- The encoding of a value. -/
def enc : Val → Bytes
  | .unit => [0x00]
  | .prim p => encPrim p
  | .absent => [0x09, 0x00]
  | .present v => 0x09 :: 0x01 :: enc v
  | .list vs => 0x0A :: int32Bytes vs.length ++ encVals vs
  | .textMap es => 0x0B :: int32Bytes es.length ++ encEntries es
  | .record id es =>
    0x0C :: 0x01 :: identifierBytes id ++ int32Bytes es.length ++ encFields es
  | .variant id c v => 0x0D :: optIdentifierBytes id ++ strBytes c ++ enc v
  | .enum id c => 0x0E :: optIdentifierBytes id ++ strBytes c
  | .genMap ps => 0x0F :: int32Bytes ps.length ++ encPairs ps

/-- The elements of a list. -/
def encVals : Vals → Bytes
  | .nil => []
  | .cons v vs => enc v ++ encVals vs

/-- The entries of a TextMap. -/
def encEntries : Entries → Bytes
  | .nil => []
  | .cons k v es => strBytes k ++ enc v ++ encEntries es

/-- The fields of a record, each label behind its presence byte. -/
def encFields : Entries → Bytes
  | .nil => []
  | .cons l v es => 0x01 :: strBytes l ++ enc v ++ encFields es

/-- The entries of a GenMap. -/
def encPairs : Pairs → Bytes
  | .nil => []
  | .cons k v ps => enc k ++ enc v ++ encPairs ps

end

/-- A value that is not a container: the hashing pass writes no count for it. -/
def Val.isLeaf : Val → Bool
  | .unit | .prim _ | .enum .. => true
  | _ => false

mutual

/-- No key of a GenMap in the value is a container. -/
def Val.LeafKeys : Val → Prop
  | .unit | .prim _ | .absent | .enum .. => True
  | .present v | .variant _ _ v => v.LeafKeys
  | .list vs => vs.LeafKeys
  | .textMap es | .record _ es => es.LeafKeys
  | .genMap ps => ps.LeafKeys

def Vals.LeafKeys : Vals → Prop
  | .nil => True
  | .cons v vs => v.LeafKeys ∧ vs.LeafKeys

def Entries.LeafKeys : Entries → Prop
  | .nil => True
  | .cons _ v es => v.LeafKeys ∧ es.LeafKeys

def Pairs.LeafKeys : Pairs → Prop
  | .nil => True
  | .cons k v ps => k.isLeaf = true ∧ v.LeafKeys ∧ ps.LeafKeys

end

/-! ## Agreement -/

/-- Two hexadecimal digits make a byte. -/
theorem hexVal_pair {hi lo : UInt8} (hhi : isHexChar hi = true) (hlo : isHexChar lo = true) :
    ((hexVal hi <<< 4) ||| hexVal lo) = UInt8.ofNat (16 * hexDigitValue hi + hexDigitValue lo) := by
  -- The characters are enumerated by their codes.
  have hcode : ∀ n : Fin 256, isHexChar (UInt8.ofNat n) = true →
      hexVal (UInt8.ofNat n) = UInt8.ofNat (hexDigitValue (UInt8.ofNat n)) ∧
        hexDigitValue (UInt8.ofNat n) < 16 := by decide +kernel
  have hdigit (c : UInt8) (hc : isHexChar c = true) :
      hexVal c = UInt8.ofNat (hexDigitValue c) ∧ hexDigitValue c < 16 := by
    have := hcode ⟨c.toNat, c.toNat_lt⟩
    simp only [UInt8.ofNat_toNat] at this
    exact this hc
  have hbyte : ∀ a : Fin 16, ∀ b : Fin 16,
      ((UInt8.ofNat a <<< 4) ||| UInt8.ofNat b) = UInt8.ofNat (16 * a + b) := by decide
  obtain ⟨h₁, hlt₁⟩ := hdigit hi hhi
  obtain ⟨h₂, hlt₂⟩ := hdigit lo hlo
  rw [h₁, h₂]
  exact hbyte ⟨_, hlt₁⟩ ⟨_, hlt₂⟩

/-- On hexadecimal digits the lenient reader is the strict one. -/
theorem hexBytes_eq_unhex : ∀ (s : Bytes), s.all isHexChar = true → hexBytes s = unhex s
  | [], _ | [_], _ => rfl
  | hi :: lo :: rest, h => by
    simp only [List.all_cons, Bool.and_eq_true] at h
    rw [hexBytes, unhex, hexVal_pair h.1 h.2.1, hexBytes_eq_unhex rest h.2.2]

/-- Two digits are a byte. -/
theorem length_unhex : ∀ (s : Bytes), (unhex s).length = s.length / 2
  | [] | [_] => by simp [unhex]
  | hi :: lo :: rest => by
    rw [unhex, List.length_cons, length_unhex rest, List.length_cons, List.length_cons]
    omega

/-- A primitive is written as the format asks. -/
theorem primBytes_eq_encPrim {p : Prim} (h : p.WellFormed) : primBytes p = encPrim p := by
  cases p with
  | contractId s =>
    rw [primBytes, encPrim, hexBytes_eq_unhex s (h.2 s rfl).2, length_unhex]
  | bool | int64 | date | timestamp | numeric | party | text => rfl

/-! ## The count in force

The count of a value is its own everywhere but in a GenMap entry: the helper counts the
entry's value, the key is walked with that count, and the value with what the key left. -/

/-- The count between two values: 0 or used up. -/
def countLeft (zero : Bool) : Int := if zero then 0 else -1

mutual

/-- The value ends in a unit or an enum: these set the count to 0, a container uses it up
and a primitive does not touch it, so `zero` says whether it was 0 before. -/
def Val.endsBare (zero : Bool) : Val → Bool
  | .unit | .enum .. => true
  | .prim _ => zero
  | .absent => false
  | .present v | .variant _ _ v => v.endsBare false
  | .list vs => vs.endsBare false
  | .textMap es | .record _ es => es.endsBare false
  | .genMap ps => ps.endsBare false

def Vals.endsBare (zero : Bool) : Vals → Bool
  | .nil => zero
  | .cons v vs => vs.endsBare (v.endsBare zero)

def Entries.endsBare (zero : Bool) : Entries → Bool
  | .nil => zero
  | .cons _ v es => es.endsBare (v.endsBare zero)

def Pairs.endsBare (zero : Bool) : Pairs → Bool
  | .nil => zero
  | .cons k v ps => ps.endsBare
      (if v.isLeaf && !k.isLeaf then k.endsBare false else v.endsBare zero)

end

/-- The number `c` is the value's own number of elements, as a 32-bit number; of an
optional or a variant it only matters whether it is 0, and a record takes no -1. -/
def Val.HasCount (c : Int) : Val → Prop
  | .unit | .prim _ | .enum .. => True
  | .absent => c = 0
  | .present _ => c ≠ 0
  | .list vs => c ≡ vs.length [ZMOD 2 ^ 32]
  | .textMap es => c ≡ es.length [ZMOD 2 ^ 32]
  | .genMap ps => c ≡ ps.length [ZMOD 2 ^ 32]
  | .record _ es => c ≠ -1 ∧ c ≡ es.length [ZMOD 2 ^ 32]
  | .variant id _ _ => c ≠ 0 ↔ id.isSome

/-- An entry of a GenMap whose key is not a container, or whose key has as many elements
as its value and whose value has as many as the key leaves: none if the key ends in a
unit or an enum, else -1. -/
def EntryFits (zero : Bool) (k v : Val) : Prop :=
  k.isLeaf = true ∨
    (k.HasCount (v.count (countLeft zero)) ∧ v.HasCount (countLeft (k.endsBare false)))

mutual

/-- Every entry of every GenMap in the value fits. -/
def Val.EntriesFit : Val → Prop
  | .unit | .prim _ | .absent | .enum .. => True
  | .present v | .variant _ _ v => v.EntriesFit
  | .list vs => vs.EntriesFit
  | .textMap es | .record _ es => es.EntriesFit
  | .genMap ps => ps.EntriesFit false

def Vals.EntriesFit : Vals → Prop
  | .nil => True
  | .cons v vs => v.EntriesFit ∧ vs.EntriesFit

def Entries.EntriesFit : Entries → Prop
  | .nil => True
  | .cons _ v es => v.EntriesFit ∧ es.EntriesFit

def Pairs.EntriesFit (zero : Bool) : Pairs → Prop
  | .nil => True
  | .cons k v ps =>
    EntryFits zero k v ∧ k.EntriesFit ∧ v.EntriesFit ∧
      ps.EntriesFit ((Pairs.cons k v .nil).endsBare zero)

end

/-- A leaf is written the same with every count, and leaves the count alone. -/
theorem Val.leaf_bytes {k : Val} (h : k.isLeaf = true) (c : Int) :
    k.bytes c = k.elemBytes ∧ k.left c = c := by
  cases k <;> first | exact ⟨rfl, rfl⟩ | cases h

/-- A container uses the count up. -/
theorem Val.left_container {k : Val} (h : k.isLeaf = false) (c c' : Int) :
    k.left c = k.left c' := by
  cases k <;> first | rfl | cases h

mutual

/-- The count that a value leaves is zero exactly if it ends bare. -/
theorem Val.left_count : ∀ (v : Val) (zero : Bool),
    v.left (v.count (countLeft zero)) = countLeft (v.endsBare zero)
  | .unit, _ | .prim _, _ | .absent, _ | .enum .., _ => rfl
  | .present v, _ | .variant _ _ v, _ => v.left_count false
  | .list vs, _ => vs.left_countLeft false
  | .textMap es, _ | .record _ es, _ => es.left_countLeft false
  | .genMap ps, _ => ps.left_countLeft false

/-- So is that of a list. -/
theorem Vals.left_countLeft : ∀ (vs : Vals) (zero : Bool),
    vs.left (countLeft zero) = countLeft (vs.endsBare zero)
  | .nil, _ => rfl
  | .cons v vs, zero => by
    rw [Vals.left, v.left_count, vs.left_countLeft, Vals.endsBare]

/-- Of entries or fields. -/
theorem Entries.left_countLeft : ∀ (es : Entries) (zero : Bool),
    es.left (countLeft zero) = countLeft (es.endsBare zero)
  | .nil, _ => rfl
  | .cons _ v es, zero => by
    rw [Entries.left, v.left_count, es.left_countLeft, Entries.endsBare]

/-- And of a GenMap. -/
theorem Pairs.left_countLeft : ∀ (ps : Pairs) (zero : Bool),
    ps.left (countLeft zero) = countLeft (ps.endsBare zero)
  | .nil, _ => rfl
  | .cons k v ps, zero => by
    rw [Pairs.left, Pairs.endsBare, ← ps.left_countLeft]
    congr 1
    by_cases hk : k.isLeaf = true
    · rw [(Val.leaf_bytes hk _).2, v.left_count, hk]
      simp
    · have hk' : k.isLeaf = false := by simpa using hk
      by_cases hv : v.isLeaf = true
      · rw [(Val.leaf_bytes hv _).2, k.left_container hk' _ (k.count (countLeft false)),
          k.left_count, hk', hv]
        simp
      · have hv' : v.isLeaf = false := by simpa using hv
        rw [v.left_container hv' _ (v.count (countLeft zero)), v.left_count, hv']
        simp

end

/-! ## Bytes with the right count -/

/-- Pieces that are no longer than what they stand for agree with it one by one. -/
theorem append_eq_append_iff_of_length_le {α : Type} {a a' b b' : List α}
    (ha : a.length ≤ a'.length) (hb : b.length ≤ b'.length) :
    a ++ b = a' ++ b' ↔ a = a' ∧ b = b' := by
  constructor
  · intro h
    have hlen := congrArg List.length h
    rw [List.length_append, List.length_append] at hlen
    exact List.append_inj h (by omega)
  · rintro ⟨rfl, rfl⟩
    rfl

/-- Four bytes tell a number up to 2^32. -/
theorem int32Bytes_eq_iff {a b : Int} : int32Bytes a = int32Bytes b ↔ a ≡ b [ZMOD 2 ^ 32] := by
  have ha := Int.emod_nonneg a (b := 2 ^ 32) (by decide)
  have hb := Int.emod_nonneg b (b := 2 ^ 32) (by decide)
  have ha' := Int.emod_lt_of_pos a (b := 2 ^ 32) (by decide)
  have hb' := Int.emod_lt_of_pos b (b := 2 ^ 32) (by decide)
  constructor
  · intro h
    have hnat := beBytes_inj (w := 4) (by omega) (by omega) h
    show a % 2 ^ 32 = b % 2 ^ 32
    omega
  · intro h
    rw [int32Bytes, h.eq, ← int32Bytes]

/-- A presence byte tells whether a count is zero. -/
theorem presenceByte_eq_iff {c c' : Int} : presenceByte c = presenceByte c' ↔ (c = 0 ↔ c' = 0) := by
  unfold presenceByte
  by_cases h : c = 0 <;> by_cases h' : c' = 0 <;> simp [h, h']

/-- The number of fields is right if the count is, and was not used up. -/
theorem fieldCountBytes_eq_iff {c : Int} {es : Entries} :
    fieldCountBytes c = int32Bytes es.length ↔ c ≠ -1 ∧ c ≡ es.length [ZMOD 2 ^ 32] := by
  unfold fieldCountBytes
  by_cases h : c = -1
  · rw [if_pos h]
    constructor
    · intro hnil
      have := congrArg List.length hnil
      rw [length_int32Bytes] at this
      cases this
    · rintro ⟨hne, -⟩
      exact absurd h hne
  · rw [if_neg h, int32Bytes_eq_iff]
    simp [h]

/-- A number of entries. -/
theorem Entries.length_nonneg : ∀ (es : Entries), 0 ≤ es.length
  | .nil => Int.le_refl 0
  | .cons _ _ es => by
    have := es.length_nonneg
    rw [Entries.length]
    omega

/-- A value has the count that is made for it. -/
theorem Val.hasCount_count (v : Val) (n : Int) : v.HasCount (v.count n) := by
  cases v with
  | unit | prim | enum => trivial
  | absent | list | textMap | genMap => rfl
  | present => exact Int.one_ne_zero
  | record id es =>
    have := es.length_nonneg
    exact ⟨by show es.length ≠ -1; omega, rfl⟩
  | variant id => cases id <;> simp [Val.count, Val.HasCount]

/-- What the entry is walked with: the count of its value, and what the key leaves. -/
theorem entryFits_iff (zero : Bool) (k v : Val) :
    EntryFits zero k v ↔ k.HasCount (v.count (countLeft zero)) ∧
      v.HasCount (k.left (v.count (countLeft zero))) := by
  by_cases hk : k.isLeaf = true
  · refine iff_of_true (.inl hk) ⟨?_, ?_⟩
    · cases k <;> trivial
    · rw [(Val.leaf_bytes hk _).2]
      exact v.hasCount_count _
  · have hk' : k.isLeaf = false := by simpa using hk
    rw [k.left_container hk' _ (k.count (countLeft false)), k.left_count]
    exact or_iff_right hk

/-- The entries after the first start with what the first leaves. -/
theorem Pairs.bytes_cons (k v : Val) (ps : Pairs) (zero : Bool) :
    (Pairs.cons k v ps).bytes (countLeft zero) =
      k.bytes (v.count (countLeft zero)) ++ v.bytes (k.left (v.count (countLeft zero))) ++
        ps.bytes (countLeft ((Pairs.cons k v .nil).endsBare zero)) := by
  rw [← (Pairs.cons k v .nil).left_countLeft]
  rfl

/-! ### Lengths

A wrong count only loses bytes: a record that finds the count used up leaves its field
count out. -/

/-- The number of fields takes four bytes or none. -/
theorem length_fieldCountBytes_le (c : Int) : (fieldCountBytes c).length ≤ 4 := by
  unfold fieldCountBytes
  split <;> simp

mutual

/-- The code writes no more than the format asks for. -/
theorem Val.length_bytes_le : ∀ (v : Val) (c : Int), v.WellFormed →
    (v.bytes c).length ≤ (enc v).length
  | .unit, _, _ | .absent, _, _ | .enum .., _, _ => Nat.le_refl _
  | .prim p, _, h => by rw [Val.bytes, enc, primBytes_eq_encPrim h]
  | .present v, c, h => by
    have := v.length_bytes_le (v.count (-1)) h
    simpa [Val.bytes, enc] using this
  | .list vs, c, h => by
    have := vs.length_bytes_le h
    simpa [Val.bytes, enc] using this
  | .textMap es, c, h => by
    have := es.length_entryBytes_le h
    simpa [Val.bytes, enc] using this
  | .genMap ps, c, h => by
    have := ps.length_bytes_le (-1) h
    simpa [Val.bytes, enc] using this
  | .record id es, c, h => by
    have hcount := length_fieldCountBytes_le c
    have hfields := es.length_fieldBytes_le h.2
    simp only [Val.bytes, enc, List.length_append, List.length_cons, length_int32Bytes]
    omega
  | .variant id k v, c, h => by
    have := v.length_bytes_le (v.count (-1)) h.2.2
    cases id <;> simp [Val.bytes, enc, optIdentifierBytes] <;> omega

/-- For a list. -/
theorem Vals.length_bytes_le : ∀ (vs : Vals), vs.WellFormed →
    vs.bytes.length ≤ (encVals vs).length
  | .nil, _ => Nat.le_refl _
  | .cons v vs, h => by
    rw [Vals.bytes, encVals, List.length_append, List.length_append]
    exact Nat.add_le_add (v.length_bytes_le _ h.1) (vs.length_bytes_le h.2)

/-- For the entries of a TextMap. -/
theorem Entries.length_entryBytes_le : ∀ (es : Entries), es.WellFormed →
    es.entryBytes.length ≤ (encEntries es).length
  | .nil, _ => Nat.le_refl _
  | .cons k v es, h => by
    have hv := v.length_bytes_le (v.count (-1)) h.2.1
    have hes := es.length_entryBytes_le h.2.2
    simp only [Entries.entryBytes, encEntries, List.length_append]
    omega

/-- For the fields of a record. -/
theorem Entries.length_fieldBytes_le : ∀ (es : Entries), es.WellFormed →
    es.fieldBytes.length ≤ (encFields es).length
  | .nil, _ => Nat.le_refl _
  | .cons l v es, h => by
    have hv := v.length_bytes_le (v.count (-1)) h.2.1
    have hes := es.length_fieldBytes_le h.2.2
    simp only [Entries.fieldBytes, encFields, List.length_append, List.length_cons]
    omega

/-- For a GenMap. -/
theorem Pairs.length_bytes_le : ∀ (ps : Pairs) (n : Int), ps.WellFormed →
    (ps.bytes n).length ≤ (encPairs ps).length
  | .nil, _, _ => Nat.le_refl _
  | .cons k v ps, n, h => by
    have hk := k.length_bytes_le (v.count n) h.1
    have hv := v.length_bytes_le (k.left (v.count n)) h.2.1
    have hps := ps.length_bytes_le (v.left (k.left (v.count n))) h.2.2
    simp only [Pairs.bytes, encPairs, List.length_append]
    omega

end

/-! ### Agreement -/

mutual

/-- A value is encoded as it should exactly if it finds its own count and so does every
part of it: the only place where a part may not is the entry of a GenMap. -/
theorem Val.bytes_eq_enc_iff : ∀ (v : Val) (c : Int), v.WellFormed →
    (v.bytes c = enc v ↔ v.HasCount c ∧ v.EntriesFit)
  | .unit, _, _ | .enum .., _, _ => iff_of_true rfl ⟨trivial, trivial⟩
  | .prim p, _, h => iff_of_true (primBytes_eq_encPrim h) ⟨trivial, trivial⟩
  | .absent, c, _ => by
    show [0x09, presenceByte c] = [0x09, presenceByte 0] ↔ c = 0 ∧ True
    simp [presenceByte_eq_iff]
  | .present v, c, h => by
    have ih := (v.bytes_eq_enc_iff (v.count (-1)) h).trans (and_iff_right (v.hasCount_count _))
    show [0x09, presenceByte c] ++ _ = [0x09, presenceByte 1] ++ enc v ↔ c ≠ 0 ∧ v.EntriesFit
    rw [append_eq_append_iff_of_length_le (by simp) (v.length_bytes_le _ h), ih]
    simp [presenceByte_eq_iff]
  | .list vs, c, h => by
    show 0x0A :: (int32Bytes c ++ vs.bytes) = 0x0A :: (int32Bytes vs.length ++ encVals vs) ↔ _
    rw [List.cons_inj_right, append_eq_append_iff_of_length_le (by simp) (vs.length_bytes_le h),
      vs.bytes_eq_encVals_iff h, int32Bytes_eq_iff]
    rfl
  | .textMap es, c, h => by
    show 0x0B :: (int32Bytes c ++ es.entryBytes) =
      0x0B :: (int32Bytes es.length ++ encEntries es) ↔ _
    rw [List.cons_inj_right,
      append_eq_append_iff_of_length_le (by simp) (es.length_entryBytes_le h),
      es.entryBytes_eq_encEntries_iff h, int32Bytes_eq_iff]
    rfl
  | .genMap ps, c, h => by
    show 0x0F :: (int32Bytes c ++ ps.bytes (countLeft false)) =
      0x0F :: (int32Bytes ps.length ++ encPairs ps) ↔ _
    rw [List.cons_inj_right, append_eq_append_iff_of_length_le (by simp) (ps.length_bytes_le _ h),
      ps.bytes_eq_encPairs_iff false h, int32Bytes_eq_iff]
    rfl
  | .record id es, c, h => by
    show (0x0C :: 0x01 :: identifierBytes id ++ fieldCountBytes c) ++ es.fieldBytes =
      (0x0C :: 0x01 :: identifierBytes id ++ int32Bytes es.length) ++ encFields es ↔ _
    rw [append_eq_append_iff_of_length_le (by simpa using length_fieldCountBytes_le c)
      (es.length_fieldBytes_le h.2), es.fieldBytes_eq_encFields_iff h.2, List.append_cancel_left_eq,
      fieldCountBytes_eq_iff]
    rfl
  | .variant id k v, c, h => by
    have ih := (v.bytes_eq_enc_iff (v.count (-1)) h.2.2).trans
      (and_iff_right (v.hasCount_count _))
    have hlen := v.length_bytes_le (v.count (-1)) h.2.2
    -- The presence byte of a variant says whether it has an id.
    cases id with
    | none =>
      show [0x0D, presenceByte c] ++ ([] ++ strBytes k ++ _) =
        [0x0D, presenceByte 0] ++ ([] ++ strBytes k ++ enc v) ↔ (c ≠ 0 ↔ _) ∧ v.EntriesFit
      rw [append_eq_append_iff_of_length_le (by simp) (by simpa using hlen),
        List.append_cancel_left_eq, ih]
      simp [presenceByte_eq_iff]
    | some id =>
      show [0x0D, presenceByte c] ++ (identifierBytes id ++ strBytes k ++ _) =
        [0x0D, presenceByte 1] ++ (identifierBytes id ++ strBytes k ++ enc v) ↔
          (c ≠ 0 ↔ _) ∧ v.EntriesFit
      rw [append_eq_append_iff_of_length_le (by simp) (by simpa using hlen),
        List.append_cancel_left_eq, ih]
      simp [presenceByte_eq_iff]

/-- The elements of a list. -/
theorem Vals.bytes_eq_encVals_iff : ∀ (vs : Vals), vs.WellFormed →
    (vs.bytes = encVals vs ↔ vs.EntriesFit)
  | .nil, _ => iff_of_true rfl trivial
  | .cons v vs, h => by
    rw [Vals.bytes, encVals, append_eq_append_iff_of_length_le (v.length_bytes_le _ h.1)
      (vs.length_bytes_le h.2), v.bytes_eq_enc_iff _ h.1, vs.bytes_eq_encVals_iff h.2,
      and_iff_right (v.hasCount_count _)]
    rfl

/-- The entries of a TextMap. -/
theorem Entries.entryBytes_eq_encEntries_iff : ∀ (es : Entries), es.WellFormed →
    (es.entryBytes = encEntries es ↔ es.EntriesFit)
  | .nil, _ => iff_of_true rfl trivial
  | .cons k v es, h => by
    rw [Entries.entryBytes, encEntries, List.append_assoc, List.append_assoc,
      List.append_cancel_left_eq, append_eq_append_iff_of_length_le (v.length_bytes_le _ h.2.1)
        (es.length_entryBytes_le h.2.2), v.bytes_eq_enc_iff _ h.2.1,
      es.entryBytes_eq_encEntries_iff h.2.2, and_iff_right (v.hasCount_count _)]
    rfl

/-- The fields of a record. -/
theorem Entries.fieldBytes_eq_encFields_iff : ∀ (es : Entries), es.WellFormed →
    (es.fieldBytes = encFields es ↔ es.EntriesFit)
  | .nil, _ => iff_of_true rfl trivial
  | .cons l v es, h => by
    rw [Entries.fieldBytes, encFields, List.append_assoc, List.append_assoc,
      List.append_cancel_left_eq, append_eq_append_iff_of_length_le (v.length_bytes_le _ h.2.1)
        (es.length_fieldBytes_le h.2.2), v.bytes_eq_enc_iff _ h.2.1,
      es.fieldBytes_eq_encFields_iff h.2.2, and_iff_right (v.hasCount_count _)]
    rfl

/-- The entries of a GenMap, each with the count that the one before it has left. -/
theorem Pairs.bytes_eq_encPairs_iff : ∀ (ps : Pairs) (zero : Bool), ps.WellFormed →
    (ps.bytes (countLeft zero) = encPairs ps ↔ ps.EntriesFit zero)
  | .nil, _, _ => iff_of_true rfl trivial
  | .cons k v ps, zero, h => by
    have hkey := k.length_bytes_le (v.count (countLeft zero)) h.1
    have hval := v.length_bytes_le (k.left (v.count (countLeft zero))) h.2.1
    rw [Pairs.bytes_cons, encPairs, append_eq_append_iff_of_length_le
        (by simpa using Nat.add_le_add hkey hval) (ps.length_bytes_le _ h.2.2),
      append_eq_append_iff_of_length_le hkey hval, k.bytes_eq_enc_iff _ h.1,
      v.bytes_eq_enc_iff _ h.2.1, ps.bytes_eq_encPairs_iff _ h.2.2, Pairs.EntriesFit,
      entryFits_iff]
    tauto

end

/-! ## The hashing pass -/

mutual

/-- Keys that are not containers take no count from their value. -/
theorem Val.LeafKeys.entriesFit : ∀ (v : Val), v.LeafKeys → v.EntriesFit
  | .unit, _ | .prim _, _ | .absent, _ | .enum .., _ => trivial
  | .present v, h | .variant _ _ v, h => Val.LeafKeys.entriesFit v h
  | .list vs, h => Vals.LeafKeys.entriesFit vs h
  | .textMap es, h | .record _ es, h => Entries.LeafKeys.entriesFit es h
  | .genMap ps, h => Pairs.LeafKeys.entriesFit ps false h

/-- In a list. -/
theorem Vals.LeafKeys.entriesFit : ∀ (vs : Vals), vs.LeafKeys → vs.EntriesFit
  | .nil, _ => trivial
  | .cons v vs, h => ⟨Val.LeafKeys.entriesFit v h.1, Vals.LeafKeys.entriesFit vs h.2⟩

/-- In entries or fields. -/
theorem Entries.LeafKeys.entriesFit : ∀ (es : Entries), es.LeafKeys → es.EntriesFit
  | .nil, _ => trivial
  | .cons _ v es, h => ⟨Val.LeafKeys.entriesFit v h.1, Entries.LeafKeys.entriesFit es h.2⟩

/-- In a GenMap. -/
theorem Pairs.LeafKeys.entriesFit : ∀ (ps : Pairs) (zero : Bool), ps.LeafKeys → ps.EntriesFit zero
  | .nil, _, _ => trivial
  | .cons k v ps, zero, h => by
    have hkey : k.EntriesFit := by
      have hleaf := h.1
      cases k <;> trivial
    exact ⟨.inl h.1, hkey, Val.LeafKeys.entriesFit v h.2.1, Pairs.LeafKeys.entriesFit ps _ h.2.2⟩

end

/-- As an element of a list a value finds its own count. -/
theorem elemBytes_eq_enc_iff {v : Val} (h : v.WellFormed) : v.elemBytes = enc v ↔ v.EntriesFit :=
  (v.bytes_eq_enc_iff _ h).trans (and_iff_right (v.hasCount_count _))

variable {d : Device}

/-- `decode_value_field` on a value: its bytes as an element, and what is left of the
count, unless the stack guard refuses a value inside it. -/
theorem decodeValueField_toValue {v : Val} (h : v.WellFormed) (field : Frame) (s : VState) :
    decodeValueField d field s v.toValue = if v.hasRoom d [field] then
      some ⟨s.hw.put v.elemBytes, v.left (v.count s.count)⟩ else none := by
  simp only [decodeValueField, hash_val v [field] _ _ h]
  cases v.hasRoom d [field] <;> simp [VState.enc, Val.walk_putPrimitive h, Val.bytes_count]

/-- `decode_value_field` on the wire form of a value. -/
def decodeWire (d : Device) (field : Frame) (s : VState) (v : Val) : Option VState :=
  (decodeValue (Host.value v.toValue)).bind (decodeValueField d field s)

/-- A value that is sent is written as its bytes, if the stack has room for it. -/
theorem decodeWire_eq {v : Val} (h : v.WellFormed)
    (hlen : (Host.value v.toValue).length + 1 < 2 ^ 32) (field : Frame) (s : VState) :
    decodeWire d field s v = if v.hasRoom d [field] then
      some ⟨s.hw.put v.elemBytes, v.left (v.count s.count)⟩ else none := by
  rw [decodeWire, decodeValue_value (v.sendable h) hlen, Option.bind_some,
    decodeValueField_toValue h]

/-- **The hashing pass writes the recursive encoding** of every value that it accepts, read from
its wire form, and it accepts every value inside which the stack guard refuses none. -/
theorem value_encoding (d : Device) {v : Val} (h : v.WellFormed) (hkeys : v.LeafKeys)
    (hlen : (Host.value v.toValue).length + 1 < 2 ^ 32) (field : Frame) (s : VState) :
    (∀ s', decodeWire d field s v = some s' → s'.hw = s.hw.put (enc v)) ∧
      ((decodeWire d field s v).isSome = true ↔ v.hasRoom d [field] = true) := by
  rw [decodeWire_eq h hlen, (elemBytes_eq_enc_iff h).mpr (Val.LeafKeys.entriesFit v hkeys)]
  cases v.hasRoom d [field] with
  | false => simp
  | true =>
    refine ⟨?_, by simp⟩
    rintro s' ⟨⟩
    rfl

/-- A record with an optional text and a map from an enum to a list. -/
def sampleValue : Val :=
  .record ⟨some (str "p"), some (str "M.N"), some (str "T")⟩
    (.cons (str "note") (.present (.prim (.text (str "hi"))))
      (.cons (str "by") (.genMap (.cons (.enum none (str "Red"))
        (.list (.cons (.prim (.contractId (str "00ff"))) .nil)) .nil)) .nil))

theorem value_encoding_sample : ∃ s',
    decodeWire testDevice .createArgument ⟨⟨[], .ok⟩, -1⟩ sampleValue = some s' ∧
      s'.hw = Hw.put ⟨[], .ok⟩ (enc sampleValue) := by
  suffices hwell : sampleValue.WellFormed ∧ sampleValue.LeafKeys by
    obtain ⟨hbytes, hroom⟩ := value_encoding testDevice hwell.1 hwell.2 (by decide +kernel)
      .createArgument ⟨⟨[], .ok⟩, -1⟩
    obtain ⟨s', hs'⟩ := Option.isSome_iff_exists.mp (hroom.mpr (by decide))
    exact ⟨s', hs', hbytes s' hs'⟩
  constructor
  · have hnul : ∀ s : Bytes, s.all (· != 0) = true → NulFree s := fun s hs c hc => by
      simpa using List.all_eq_true.mp hs c hc
    refine ⟨⟨by decide +kernel, ?_, ?_, ?_⟩, ⟨hnul _ (by decide +kernel), by decide +kernel,
      by decide +kernel⟩, ⟨hnul _ (by decide +kernel), ?_⟩, ⟨hnul _ (by decide +kernel),
      by decide +kernel, by decide +kernel⟩, ⟨⟨?_, hnul _ (by decide +kernel)⟩,
      ⟨⟨hnul _ (by decide +kernel), ?_⟩, trivial⟩, trivial⟩, trivial⟩
    · rintro _ ⟨⟩
      exact hnul _ (by decide +kernel)
    · rintro _ ⟨⟩
      exact hnul _ (by decide +kernel)
    · rintro _ ⟨⟩
      exact hnul _ (by decide +kernel)
    · rintro _ ⟨⟩
    · rintro _ ⟨⟩
    · rintro _ ⟨⟩
      exact ⟨by decide +kernel, by decide +kernel⟩
  · exact ⟨trivial, ⟨rfl, ⟨trivial, trivial⟩, trivial⟩, trivial⟩

/-! ## GenMap entries -/

/-- Key and value of every entry as they are written as elements of a list. -/
def Pairs.elemBytes : Pairs → Bytes
  | .nil => []
  | .cons k v ps => k.elemBytes ++ v.elemBytes ++ ps.elemBytes

/-- The bytes of a GenMap are those of its keys and values as elements of a list, with
the own count of every container in them. -/
structure EntriesEncoded (ps : Pairs) (bytes : Bytes) : Prop where
  entries : bytes = 0x0F :: int32Bytes ps.length ++ ps.elemBytes
  own : ps.elemBytes = encPairs ps

/-- Entries that fit are written one by one. -/
theorem Pairs.elemBytes_eq_encPairs : ∀ (ps : Pairs) (zero : Bool), ps.WellFormed →
    ps.EntriesFit zero → ps.elemBytes = encPairs ps
  | .nil, _, _, _ => rfl
  | .cons k v ps, _, h, hfit => by
    rw [Pairs.elemBytes, encPairs, (elemBytes_eq_enc_iff h.1).mpr hfit.2.1,
      (elemBytes_eq_enc_iff h.2.1).mpr hfit.2.2.1,
      Pairs.elemBytes_eq_encPairs ps _ h.2.2 hfit.2.2.2]

/-- The entries of a GenMap are all encoded exactly if they fit. -/
theorem entriesEncoded_iff {ps : Pairs} (h : ps.WellFormed) :
    EntriesEncoded ps (Val.genMap ps).elemBytes ↔ ps.EntriesFit false := by
  have hiff := @elemBytes_eq_enc_iff (.genMap ps) h
  constructor
  · intro henc
    refine hiff.mp ?_
    rw [henc.entries, henc.own, enc]
  · intro hfit
    have hown := ps.elemBytes_eq_encPairs false h hfit
    refine ⟨?_, hown⟩
    rw [hiff.mpr hfit, hown, enc]

/-- **GenMap entries with container keys**: what is appended for a GenMap that is accepted is
made of the list-element encodings of its keys and values exactly if every entry fits; and
every GenMap is accepted inside which the stack guard refuses no value. -/
theorem genMap_entries_iff (d : Device) {ps : Pairs} (h : ps.WellFormed)
    (hlen : (Host.value (Val.genMap ps).toValue).length + 1 < 2 ^ 32) (field : Frame)
    (s : VState) :
    (∀ s', decodeWire d field s (.genMap ps) = some s' →
      ((∃ bytes, s'.hw = s.hw.put bytes ∧ EntriesEncoded ps bytes) ↔ ps.EntriesFit false)) ∧
    ((decodeWire d field s (.genMap ps)).isSome = true ↔
      (Val.genMap ps).hasRoom d [field] = true) := by
  rw [decodeWire_eq (v := .genMap ps) h hlen]
  cases (Val.genMap ps).hasRoom d [field] with
  | false => simp
  | true =>
    refine ⟨?_, by simp⟩
    rintro s' ⟨⟩
    rw [← entriesEncoded_iff h]
    constructor
    · rintro ⟨bytes, hput, henc⟩
      have hbytes := congrArg Hw.bytes hput
      rw [Hw.put_bytes, Hw.put_bytes, List.append_cancel_left_eq] at hbytes
      rwa [hbytes]
    · intro henc
      exact ⟨_, rfl, henc⟩

/-- A map from a list of one text to an optional text. -/
def listKeyed : Pairs :=
  .cons (.list (.cons (.prim (.text (str "a"))) .nil)) (.present (.prim (.text (str "b")))) .nil

theorem genMap_entries_iff_listKeyed :
    ∃ s' bytes,
      decodeWire testDevice .createArgument ⟨⟨[], .ok⟩, -1⟩ (.genMap listKeyed) = some s' ∧
      s'.hw = Hw.put ⟨[], .ok⟩ bytes ∧ EntriesEncoded listKeyed bytes := by
  have hnul : ∀ s : Bytes, s.all (· != 0) = true → NulFree s := fun s hs c hc => by
    simpa using List.all_eq_true.mp hs c hc
  suffices hwell : listKeyed.WellFormed ∧ listKeyed.EntriesFit false by
    obtain ⟨hbytes, hroom⟩ := genMap_entries_iff testDevice hwell.1 (by decide +kernel)
      .createArgument ⟨⟨[], .ok⟩, -1⟩
    obtain ⟨s', hs'⟩ := Option.isSome_iff_exists.mp (hroom.mpr (by decide))
    obtain ⟨bytes, hput, henc⟩ := (hbytes s' hs').mpr hwell.2
    exact ⟨s', bytes, hs', hput, henc⟩
  constructor
  · refine ⟨⟨⟨hnul _ (by decide +kernel), ?_⟩, trivial⟩, ⟨hnul _ (by decide +kernel), ?_⟩,
      trivial⟩ <;>
      rintro _ ⟨⟩
  · -- One element in the key, one in the optional, which then finds a count that is used up.
    exact ⟨.inr ⟨rfl, by simp [Val.HasCount, Val.endsBare, Vals.endsBare, countLeft]⟩,
      ⟨trivial, trivial⟩, trivial, trivial⟩

/-- A map from a list of two texts to a list of one. -/
def twoToOne : Pairs :=
  .cons (.list (.cons (.prim (.text (str "a"))) (.cons (.prim (.text (str "b"))) .nil)))
    (.list (.cons (.prim (.text (str "c"))) .nil)) .nil

/-- The key is written with the count of the value, and the value with -1. -/
def twoToOneBytes : Bytes :=
  [0x0F, 0, 0, 0, 1] ++
    ([0x0A, 0, 0, 0, 1] ++ (0x07 :: strBytes (str "a")) ++ (0x07 :: strBytes (str "b"))) ++
    ([0x0A, 0xFF, 0xFF, 0xFF, 0xFF] ++ (0x07 :: strBytes (str "c")))

theorem twoToOne_miscounted :
    decodeWire testDevice .createArgument ⟨⟨[], .ok⟩, -1⟩ (.genMap twoToOne) =
        some ⟨Hw.put ⟨[], .ok⟩ twoToOneBytes, -1⟩ ∧
      ¬ EntriesEncoded twoToOne twoToOneBytes := by
  have hcounted : twoToOneBytes ≠ 0x0F :: int32Bytes twoToOne.length ++ encPairs twoToOne := by
    decide +kernel
  refine ⟨by decide +kernel, ?_⟩
  rintro ⟨hentries, hown⟩
  rw [hown] at hentries
  exact hcounted hentries

end CantonSigner
