import CantonSigner.Wire.Fields

/-!
# Values, written and read

What the host writes for a value is read back as that value (`decodeValue_value`), for
every value whose strings are C strings and whose integers fit their types
(`Value.Sendable`) and whose message is shorter than 4 GiB.

The proof follows the nesting: each submessage is shorter than the message around it,
so the bound that `decodeValue` recurses on is never met.
-/

namespace CantonSigner

open ByteCodec Wire

/-! ## Leaves -/

/-- The integers fit their types and the strings are C strings. -/
def Prim.Sendable : Prim → Prop
  | .bool _ => True
  | .int64 v | .timestamp v => -2 ^ 63 ≤ v ∧ v < 2 ^ 63
  | .date v => -2 ^ 31 ≤ v ∧ v < 2 ^ 31
  | .numeric s | .party s | .text s | .contractId s => NulFree s

/-- The parts of the identifier are C strings. -/
def Identifier.Sendable (id : Identifier) : Prop :=
  (∀ s ∈ id.packageId, NulFree s) ∧ (∀ s ∈ id.moduleName, NulFree s) ∧
    (∀ s ∈ id.entityName, NulFree s)

/-- The parts of the enum are C strings. -/
def EnumMsg.Sendable (e : EnumMsg) : Prop :=
  (∀ id ∈ e.enumId, id.Sendable) ∧ (∀ s ∈ e.constructor, NulFree s)

/-- A little-endian number with one more byte. -/
theorem leValue_concat (b : Bytes) (c : UInt8) :
    Payload.leValue (b ++ [c]) = Payload.leValue b + 256 ^ b.length * c.toNat := by
  induction b with
  | nil => simp [Payload.leValue]
  | cons a b ih =>
    rw [List.cons_append, Payload.leValue, ih, Payload.leValue, List.length_cons, Nat.pow_succ]
    ring

/-- A fixed number is read back from its bytes, last first. -/
theorem leValue_reverse_beBytes (w n : Nat) :
    Payload.leValue (beBytes w n).reverse = n % 256 ^ w := by
  induction w with
  | zero => simp [beBytes, Payload.leValue, Nat.mod_one]
  | succ w ih =>
    rw [beBytes, List.reverse_cons, leValue_concat, ih, List.length_reverse, length_beBytes,
      UInt8.toNat_ofNat', show 2 ^ 8 = 256 from rfl, Nat.mod_mod, Nat.pow_succ]
    exact Nat.mod_mul.symm

/-- A signed varint is read back. -/
theorem signed_low64 {v : Int} (h₁ : -2 ^ 63 ≤ v) (h₂ : v < 2 ^ 63) :
    Payload.signed 64 (Host.low64 v) = v := by
  have hlow : Host.low64 v = (v % 2 ^ 64).toNat := rfl
  simp only [Payload.signed]
  split <;> omega

/-- And one of 32 bits. -/
theorem signed32_low64 {v : Int} (h₁ : -2 ^ 31 ≤ v) (h₂ : v < 2 ^ 31) :
    Payload.signed 32 (Host.low64 v) = v := by
  have hlow : Host.low64 v = (v % 2 ^ 64).toNat := rfl
  simp only [Payload.signed]
  split <;> omega

/-- A varint has 64 bits. -/
theorem low64_lt (v : Int) : Host.low64 v < 2 ^ 64 := by
  simp only [Host.low64]
  omega

/-- The zigzag form of a signed integer. -/
theorem sint64_zigzag {v : Int} (h₁ : -2 ^ 63 ≤ v) (h₂ : v < 2 ^ 63) :
    (Payload.varint (Host.varint (Host.low64 (if 0 ≤ v then 2 * v else -2 * v - 1)))).sint64 =
      some v := by
  have hlow : Host.low64 (if 0 ≤ v then 2 * v else -2 * v - 1) =
      (if 0 ≤ v then 2 * v else -2 * v - 1).toNat := by
    simp only [Host.low64]
    split <;> omega
  simp only [Payload.sint64, varint64_varint (low64_lt _), Option.map_some]
  congr 1
  generalize Host.low64 (if 0 ≤ v then 2 * v else -2 * v - 1) = n at hlow ⊢
  by_cases h0 : 0 ≤ v
  · rw [if_pos h0] at hlow
    split <;> omega
  · rw [if_neg h0] at hlow
    split <;> omega

/-- A string without a NUL is kept whole. -/
theorem string_len {s : Bytes} (h : NulFree s) : (Payload.len s).string = some s := by
  simp [Payload.string, Payload.content, cstr_eq_self h]

/-- A field of a string that may be absent. -/
theorem parseFields_optField {tag : Nat} {s : Option Bytes} (htag : 0 < tag) (hlt : tag < 2 ^ 29)
    (hlen : ∀ c ∈ s, c.length < 2 ^ 32) (rest : Bytes) :
    parseFields (Host.optField tag s ++ rest) =
      (parseFields rest).map ((s.map fun c => (⟨tag, .len c⟩ : Field)).toList ++ ·) := by
  cases s with
  | none => simp [Host.optField]
  | some c => exact parseFields_lenField htag hlt (hlen c rfl) rest

/-- An optional field takes its tag and length. -/
theorem length_optField {tag : Nat} {s : Option Bytes} {c : Bytes} (h : c ∈ s) :
    c.length + 2 ≤ (Host.optField tag s).length := by
  cases h
  exact length_lenField tag c

/-- An identifier is read back. -/
theorem decodeIdentifier_identifier {id : Identifier} (h : id.Sendable)
    (hlen : (Host.identifier id).length < 2 ^ 32) :
    decodeIdentifier (Host.identifier id) = some id := by
  obtain ⟨h₁, h₂, h₃⟩ := h
  simp only [Host.identifier, List.length_append] at hlen
  have hl₁ : ∀ c ∈ id.packageId, c.length < 2 ^ 32 := fun c hc => by
    have := @length_optField 1 _ c hc
    omega
  have hl₂ : ∀ c ∈ id.moduleName, c.length < 2 ^ 32 := fun c hc => by
    have := @length_optField 2 _ c hc
    omega
  have hl₃ : ∀ c ∈ id.entityName, c.length < 2 ^ 32 := fun c hc => by
    have := @length_optField 3 _ c hc
    omega
  have hfields : parseFields (Host.identifier id) =
      some ((id.packageId.map fun c => (⟨1, .len c⟩ : Field)).toList ++
        ((id.moduleName.map fun c => (⟨2, .len c⟩ : Field)).toList ++
          (id.entityName.map fun c => (⟨3, .len c⟩ : Field)).toList)) := by
    rw [Host.identifier, List.append_assoc, parseFields_optField (by decide) (by decide) hl₁,
      parseFields_optField (by decide) (by decide) hl₂,
      ← List.append_nil (Host.optField 3 id.entityName),
      parseFields_optField (by decide) (by decide) hl₃]
    simp
  rw [decodeIdentifier, decodeIdentifierInto, decodeInto, hfields, Option.bind_some]
  obtain ⟨packageId, moduleName, entityName⟩ := id
  cases packageId <;> cases moduleName <;> cases entityName <;>
    simp_all [string_len, Identifier.zero]

/-- An enum is read back. -/
theorem decodeEnumMsg_enumMsg {e : EnumMsg} (h : e.Sendable)
    (hlen : (Host.enumMsg e).length < 2 ^ 32) : decodeEnumMsg (Host.enumMsg e) = some e := by
  obtain ⟨hid, hctor⟩ := h
  simp only [Host.enumMsg, List.length_append] at hlen
  have hl₁ : ∀ c ∈ e.enumId.map Host.identifier, c.length < 2 ^ 32 := fun c hc => by
    have := @length_optField 1 _ c hc
    omega
  have hl₂ : ∀ c ∈ e.constructor, c.length < 2 ^ 32 := fun c hc => by
    have := @length_optField 2 _ c hc
    omega
  have hfields : parseFields (Host.enumMsg e) =
      some (((e.enumId.map Host.identifier).map fun c => (⟨1, .len c⟩ : Field)).toList ++
        (e.constructor.map fun c => (⟨2, .len c⟩ : Field)).toList) := by
    rw [Host.enumMsg, parseFields_optField (by decide) (by decide) hl₁,
      ← List.append_nil (Host.optField 2 e.constructor),
      parseFields_optField (by decide) (by decide) hl₂]
    simp
  rw [decodeEnumMsg, decodeInto, hfields, Option.bind_some]
  obtain ⟨enumId, ctor⟩ := e
  cases enumId with
  | none => cases ctor <;> simp_all [string_len]
  | some id =>
    have hdec := decodeIdentifier_identifier (hid id rfl) (hl₁ _ rfl)
    rw [decodeIdentifier] at hdec
    cases ctor <;> simp_all [string_len, Payload.content]

/-! ## Values -/

mutual

/-- Every integer of the value fits its type and every string is a C string. The
names of record fields, TextMap entries and constructors are read as bytes. -/
def Value.Sendable : Value → Prop
  | .nil => True
  | .prim p rest => p.Sendable ∧ rest.Sendable
  | .unit rest => rest.Sendable
  | .optional vs rest | .list vs rest => vs.Sendable ∧ rest.Sendable
  | .textMap m rest => m.Sendable ∧ rest.Sendable
  | .genMap m rest => m.Sendable ∧ rest.Sendable
  | .record r rest => r.Sendable ∧ rest.Sendable
  | .variant v rest => v.Sendable ∧ rest.Sendable
  | .enum e rest => e.Sendable ∧ rest.Sendable

def Values.Sendable : Values → Prop
  | .nil => True
  | .cons v rest => v.Sendable ∧ rest.Sendable

def NamedValue.Sendable : NamedValue → Prop
  | .nil => True
  | .name _ rest => rest.Sendable
  | .value v rest => v.Sendable ∧ rest.Sendable

def Record.Sendable : Record → Prop
  | .nil => True
  | .recordId id rest => id.Sendable ∧ rest.Sendable
  | .field f rest => f.Sendable ∧ rest.Sendable

def TextMap.Sendable : TextMap → Prop
  | .nil => True
  | .entry e rest => e.Sendable ∧ rest.Sendable

def GenMapEntry.Sendable : GenMapEntry → Prop
  | .nil => True
  | .key v rest | .value v rest => v.Sendable ∧ rest.Sendable

def GenMap.Sendable : GenMap → Prop
  | .nil => True
  | .entry e rest => e.Sendable ∧ rest.Sendable

def Variant.Sendable : Variant → Prop
  | .nil => True
  | .variantId id rest => id.Sendable ∧ rest.Sendable
  | .constructor _ rest => rest.Sendable
  | .value v rest => v.Sendable ∧ rest.Sendable

end

/-- What a message of a type is read as: `decode` on its fields. -/
def Reads {α : Type} (decode : List Field → Option α) (b : Bytes) (a : α) : Prop :=
  (parseFields b).bind decode = some a

/-- A message whose first field is length-delimited. -/
theorem Reads.lenField {α : Type} {decode : List Field → Option α} {tag : Nat}
    {content rest : Bytes} {a b : α} (htag : 0 < tag) (hlt : tag < 2 ^ 29)
    (hlen : content.length < 2 ^ 32) (hrest : Reads decode rest a)
    (hstep : ∀ fs, decode fs = some a → decode (⟨tag, .len content⟩ :: fs) = some b) :
    Reads decode (Host.lenField tag content ++ rest) b := by
  obtain ⟨fs, hfs, hdec⟩ := Option.bind_eq_some_iff.mp hrest
  rw [Reads, parseFields_lenField htag hlt hlen, hfs]
  exact hstep fs hdec

/-- The first field of a value is a primitive. -/
theorem reads_prim {dv : Bytes → Option Value} {p : Prim} {rest : Bytes} {v : Value}
    (h : p.Sendable) (hlen : (Host.prim p ++ rest).length < 2 ^ 32)
    (hrest : Reads (decodeValueFields dv) rest v) :
    Reads (decodeValueFields dv) (Host.prim p ++ rest) (.prim p v) := by
  obtain ⟨fs, hfs, hdec⟩ := Option.bind_eq_some_iff.mp hrest
  rw [List.length_append] at hlen
  cases p with
  | bool b =>
    rw [Reads, Host.prim, parseFields_varintField (by decide) (by decide) (by split <;> decide),
      hfs]
    cases b <;> simp [decodeValueFields, hdec, Payload.bool, varint32_varint]
  | int64 v =>
    rw [Reads, Host.prim, parseFields_varintField (by decide) (by decide) (low64_lt _), hfs]
    simp only [Option.map_some, Option.bind_some, decodeValueFields, Option.bind_eq_bind, hdec,
      sint64_zigzag h.1 h.2]
  | date v =>
    rw [Reads, Host.prim, parseFields_varintField (by decide) (by decide) (low64_lt _), hfs]
    simp [decodeValueFields, hdec, Payload.int32, varint64_varint (low64_lt _),
      signed32_low64 h.1 h.2]
  | timestamp v =>
    have hfield := @readField_fixed64 5 (beBytes 8 (Host.low64 v)).reverse (by decide) (by decide)
      (by simp) rest
    rw [Reads, Host.prim, parseFields_cons hfield, hfs]
    have hvalue : Host.low64 v % 18446744073709551616 = Host.low64 v :=
      Nat.mod_eq_of_lt (low64_lt v)
    simp [decodeValueFields, hdec, Payload.sfixed64, leValue_reverse_beBytes, hvalue,
      signed_low64 h.1 h.2]
  | numeric s | party s | text s | contractId s =>
    have hs := length_lenField 6 s
    refine Reads.lenField (by decide) (by decide) ?_ hrest fun fs hfs => ?_
    · simp only [Host.prim] at hlen
      have h₁ := length_lenField 6 s
      have h₂ := length_lenField 7 s
      have h₃ := length_lenField 8 s
      have h₄ := length_lenField 9 s
      omega
    · simp [decodeValueFields, hfs, string_len h]

/-- A submessage is read by its own decoder. -/
theorem bind_content {α β : Type} {decode : List Field → Option α} {b : Bytes} {a : α}
    (h : Reads decode b a) (f : α → Option β) :
    (((Payload.len b).content.bind parseFields).bind decode).bind f = f a := by
  have h' : (parseFields b).bind decode = some a := h
  simp [Payload.content, h']

/-- The content of a callback field is decoded. -/
theorem bind_callbackBytes {α β : Type} {decode : List Field → Option α} {b : Bytes} {a : α}
    (h : Reads decode b a) (f : α → Option β) :
    (((Payload.len b).callbackBytes.bind parseFields).bind decode).bind f = f a := by
  have h' : (parseFields b).bind decode = some a := h
  simp [Payload.callbackBytes, h']

/-- A value one level down is shorter, so it is read with one level less. -/
theorem decodeValueUpTo_of_reads {v : Value} {k : Nat}
    (h : ∀ k, (Host.value v).length ≤ k → k < 2 ^ 32 →
      Reads (decodeValueFields (decodeValueUpTo k)) (Host.value v) v)
    (hlt : (Host.value v).length < k) (hk : k < 2 ^ 32) :
    decodeValueUpTo k (Host.value v) = some v := by
  cases k with
  | zero => exact absurd hlt (Nat.not_lt_zero _)
  | succ k => exact h k (by omega) (by omega)

mutual

/-- A value is read back, with `k` levels of nesting left for its submessages. -/
theorem reads_value : ∀ (v : Value) (k : Nat), v.Sendable → (Host.value v).length ≤ k →
    k < 2 ^ 32 → Reads (decodeValueFields (decodeValueUpTo k)) (Host.value v) v
  | .nil, k, _, _, _ => rfl
  -- The induction is on the value; a submessage is shorter than its field, which gives it a level.
  | .prim p rest, k, h, hle, hk => by
    rw [Host.value] at hle ⊢
    have hlen : (Host.prim p ++ Host.value rest).length =
        (Host.prim p).length + (Host.value rest).length := List.length_append
    exact reads_prim h.1 (by omega) (reads_value rest k h.2 (by omega) hk)
  | .unit rest, k, h, hle, hk => by
    rw [Host.value, List.length_append] at hle
    refine Reads.lenField (by decide) (by decide) (by decide)
      (reads_value rest k h (by omega) hk) fun fs hfs => ?_
    simp [decodeValueFields, hfs, Payload.content]
  | .optional vs rest, k, h, hle, hk => by
    rw [Host.value, List.length_append] at hle
    have hlen := length_lenField 10 (Host.values vs)
    refine Reads.lenField (by decide) (by decide) (by omega)
      (reads_value rest k h.2 (by omega) hk) fun fs hfs => ?_
    simp only [decodeValueFields, hfs, Option.bind_eq_bind, Option.bind_some]
    -- the content is read by the induction hypothesis of its own kind
    exact bind_content (reads_values vs k h.1 (by omega) hk) _
  | .list vs rest, k, h, hle, hk => by
    rw [Host.value, List.length_append] at hle
    have hlen := length_lenField 11 (Host.values vs)
    refine Reads.lenField (by decide) (by decide) (by omega)
      (reads_value rest k h.2 (by omega) hk) fun fs hfs => ?_
    simp only [decodeValueFields, hfs, Option.bind_eq_bind, Option.bind_some]
    exact bind_content (reads_values vs k h.1 (by omega) hk) _
  | .textMap m rest, k, h, hle, hk => by
    rw [Host.value, List.length_append] at hle
    have hlen := length_lenField 12 (Host.textMap m)
    refine Reads.lenField (by decide) (by decide) (by omega)
      (reads_value rest k h.2 (by omega) hk) fun fs hfs => ?_
    simp only [decodeValueFields, hfs, Option.bind_eq_bind, Option.bind_some]
    exact bind_content (reads_textMap m k h.1 (by omega) hk) _
  | .genMap m rest, k, h, hle, hk => by
    rw [Host.value, List.length_append] at hle
    have hlen := length_lenField 13 (Host.genMap m)
    refine Reads.lenField (by decide) (by decide) (by omega)
      (reads_value rest k h.2 (by omega) hk) fun fs hfs => ?_
    simp only [decodeValueFields, hfs, Option.bind_eq_bind, Option.bind_some]
    exact bind_content (reads_genMap m k h.1 (by omega) hk) _
  | .record r rest, k, h, hle, hk => by
    rw [Host.value, List.length_append] at hle
    have hlen := length_lenField 14 (Host.record r)
    refine Reads.lenField (by decide) (by decide) (by omega)
      (reads_value rest k h.2 (by omega) hk) fun fs hfs => ?_
    simp only [decodeValueFields, hfs, Option.bind_eq_bind, Option.bind_some]
    exact bind_content (reads_record r k h.1 (by omega) hk) _
  | .variant v rest, k, h, hle, hk => by
    rw [Host.value, List.length_append] at hle
    have hlen := length_lenField 15 (Host.variant v)
    refine Reads.lenField (by decide) (by decide) (by omega)
      (reads_value rest k h.2 (by omega) hk) fun fs hfs => ?_
    simp only [decodeValueFields, hfs, Option.bind_eq_bind, Option.bind_some]
    exact bind_content (reads_variant v k h.1 (by omega) hk) _
  | .enum e rest, k, h, hle, hk => by
    rw [Host.value, List.length_append] at hle
    have hlen := length_lenField 16 (Host.enumMsg e)
    refine Reads.lenField (by decide) (by decide) (by omega)
      (reads_value rest k h.2 (by omega) hk) fun fs hfs => ?_
    simp [decodeValueFields, hfs, Payload.content, decodeEnumMsg_enumMsg h.1 (by omega)]

/-- The values of a repeated field. -/
theorem reads_values : ∀ (vs : Values) (k : Nat), vs.Sendable → (Host.values vs).length ≤ k →
    k < 2 ^ 32 → Reads (decodeValues (decodeValueUpTo k)) (Host.values vs) vs
  | .nil, k, _, _, _ => rfl
  | .cons v rest, k, h, hle, hk => by
    rw [Host.values, List.length_append] at hle
    have hlen := length_lenField 1 (Host.value v)
    refine Reads.lenField (by decide) (by decide) (by omega)
      (reads_values rest k h.2 (by omega) hk) fun fs hfs => ?_
    simp [decodeValues, hfs, Payload.callbackBytes, decodeValueUpTo_of_reads (fun k =>
      reads_value v k h.1) (by omega) hk]

/-- A record field or TextMap entry. -/
theorem reads_namedValue : ∀ (nv : NamedValue) (k : Nat), nv.Sendable →
    (Host.namedValue nv).length ≤ k → k < 2 ^ 32 →
    Reads (decodeNamedValue (decodeValueUpTo k)) (Host.namedValue nv) nv
  | .nil, k, _, _, _ => rfl
  | .name s rest, k, h, hle, hk => by
    rw [Host.namedValue, List.length_append] at hle
    have hlen := length_lenField 1 s
    refine Reads.lenField (by decide) (by decide) (by omega)
      (reads_namedValue rest k h (by omega) hk) fun fs hfs => ?_
    simp [decodeNamedValue, hfs, Payload.callbackBytes]
  | .value v rest, k, h, hle, hk => by
    rw [Host.namedValue, List.length_append] at hle
    have hlen := length_lenField 2 (Host.value v)
    refine Reads.lenField (by decide) (by decide) (by omega)
      (reads_namedValue rest k h.2 (by omega) hk) fun fs hfs => ?_
    simp [decodeNamedValue, hfs, Payload.content, decodeValueUpTo_of_reads (fun k =>
      reads_value v k h.1) (by omega) hk]

/-- A record. -/
theorem reads_record : ∀ (r : Record) (k : Nat), r.Sendable → (Host.record r).length ≤ k →
    k < 2 ^ 32 → Reads (decodeRecord (decodeValueUpTo k)) (Host.record r) r
  | .nil, k, _, _, _ => rfl
  | .recordId id rest, k, h, hle, hk => by
    rw [Host.record, List.length_append] at hle
    have hlen := length_lenField 1 (Host.identifier id)
    refine Reads.lenField (by decide) (by decide) (by omega)
      (reads_record rest k h.2 (by omega) hk) fun fs hfs => ?_
    simp [decodeRecord, hfs, Payload.callbackBytes, decodeIdentifier_identifier h.1 (by omega)]
  | .field f rest, k, h, hle, hk => by
    rw [Host.record, List.length_append] at hle
    have hlen := length_lenField 2 (Host.namedValue f)
    refine Reads.lenField (by decide) (by decide) (by omega)
      (reads_record rest k h.2 (by omega) hk) fun fs hfs => ?_
    simp only [decodeRecord, hfs, Option.bind_eq_bind, Option.bind_some]
    exact bind_callbackBytes (reads_namedValue f k h.1 (by omega) hk) _

/-- A TextMap. -/
theorem reads_textMap : ∀ (m : TextMap) (k : Nat), m.Sendable → (Host.textMap m).length ≤ k →
    k < 2 ^ 32 → Reads (decodeTextMap (decodeValueUpTo k)) (Host.textMap m) m
  | .nil, k, _, _, _ => rfl
  | .entry e rest, k, h, hle, hk => by
    rw [Host.textMap, List.length_append] at hle
    have hlen := length_lenField 1 (Host.namedValue e)
    refine Reads.lenField (by decide) (by decide) (by omega)
      (reads_textMap rest k h.2 (by omega) hk) fun fs hfs => ?_
    simp only [decodeTextMap, hfs, Option.bind_eq_bind, Option.bind_some]
    exact bind_callbackBytes (reads_namedValue e k h.1 (by omega) hk) _

/-- A GenMap entry. -/
theorem reads_genMapEntry : ∀ (e : GenMapEntry) (k : Nat), e.Sendable →
    (Host.genMapEntry e).length ≤ k → k < 2 ^ 32 →
    Reads (decodeGenMapEntry (decodeValueUpTo k)) (Host.genMapEntry e) e
  | .nil, k, _, _, _ => rfl
  | .key v rest, k, h, hle, hk => by
    rw [Host.genMapEntry, List.length_append] at hle
    have hlen := length_lenField 1 (Host.value v)
    refine Reads.lenField (by decide) (by decide) (by omega)
      (reads_genMapEntry rest k h.2 (by omega) hk) fun fs hfs => ?_
    simp [decodeGenMapEntry, hfs, Payload.content, decodeValueUpTo_of_reads (fun k =>
      reads_value v k h.1) (by omega) hk]
  | .value v rest, k, h, hle, hk => by
    rw [Host.genMapEntry, List.length_append] at hle
    have hlen := length_lenField 2 (Host.value v)
    refine Reads.lenField (by decide) (by decide) (by omega)
      (reads_genMapEntry rest k h.2 (by omega) hk) fun fs hfs => ?_
    simp [decodeGenMapEntry, hfs, Payload.content, decodeValueUpTo_of_reads (fun k =>
      reads_value v k h.1) (by omega) hk]

/-- A GenMap. -/
theorem reads_genMap : ∀ (m : GenMap) (k : Nat), m.Sendable → (Host.genMap m).length ≤ k →
    k < 2 ^ 32 → Reads (decodeGenMap (decodeValueUpTo k)) (Host.genMap m) m
  | .nil, k, _, _, _ => rfl
  | .entry e rest, k, h, hle, hk => by
    rw [Host.genMap, List.length_append] at hle
    have hlen := length_lenField 1 (Host.genMapEntry e)
    refine Reads.lenField (by decide) (by decide) (by omega)
      (reads_genMap rest k h.2 (by omega) hk) fun fs hfs => ?_
    simp only [decodeGenMap, hfs, Option.bind_eq_bind, Option.bind_some]
    exact bind_callbackBytes (reads_genMapEntry e k h.1 (by omega) hk) _

/-- A variant. -/
theorem reads_variant : ∀ (v : Variant) (k : Nat), v.Sendable → (Host.variant v).length ≤ k →
    k < 2 ^ 32 → Reads (decodeVariant (decodeValueUpTo k)) (Host.variant v) v
  | .nil, k, _, _, _ => rfl
  | .variantId id rest, k, h, hle, hk => by
    rw [Host.variant, List.length_append] at hle
    have hlen := length_lenField 1 (Host.identifier id)
    refine Reads.lenField (by decide) (by decide) (by omega)
      (reads_variant rest k h.2 (by omega) hk) fun fs hfs => ?_
    simp [decodeVariant, hfs, Payload.callbackBytes, decodeIdentifier_identifier h.1 (by omega)]
  | .constructor c rest, k, h, hle, hk => by
    rw [Host.variant, List.length_append] at hle
    have hlen := length_lenField 2 c
    refine Reads.lenField (by decide) (by decide) (by omega)
      (reads_variant rest k h (by omega) hk) fun fs hfs => ?_
    simp [decodeVariant, hfs, Payload.callbackBytes]
  | .value v rest, k, h, hle, hk => by
    rw [Host.variant, List.length_append] at hle
    have hlen := length_lenField 3 (Host.value v)
    refine Reads.lenField (by decide) (by decide) (by omega)
      (reads_variant rest k h.2 (by omega) hk) fun fs hfs => ?_
    simp [decodeVariant, hfs, Payload.callbackBytes, decodeValueUpTo_of_reads (fun k =>
      reads_value v k h.1) (by omega) hk]

end

/-- A value is read as it was written. -/
theorem decodeValue_value {v : Value} (h : v.Sendable) (hlen : (Host.value v).length + 1 < 2 ^ 32) :
    decodeValue (Host.value v) = some v :=
  decodeValueUpTo_of_reads (fun k => reads_value v k h) (Nat.lt_succ_self _) hlen

end CantonSigner
