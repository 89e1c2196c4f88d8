import CantonSigner.Lib.Bytes

/-!
# Protobuf wire format

The reader of the protobuf wire format as nanopb implements it
(`pb_decode.c`): a message is a sequence of tagged fields, each carrying a
payload of one of four wire types.

- `parseFields`: the field loop of `pb_decode_inner`. It keeps every
  occurrence in wire order and leaves the payload undecoded, since a field the
  schema does not know is skipped without looking inside it;
- `fieldsBefore`: the fields that it hands on before it fails;
- the typed accessors (`Payload.bool`, `Payload.int32`, …) apply the checks of
  `decode_basic_field` to a payload once the schema gives the field a type;
- `Payload.callbackBytes`: what a callback field is handed.

A malformed message is `none`, whatever made it so.
-/

namespace Wire

open ByteCodec

/-- An undecoded field payload: the raw bytes of a varint, the 8 or 4 bytes of
a fixed-size value, or the contents of a length-delimited one. -/
inductive Payload where
  | varint (raw : Bytes)
  | i64 (raw : Bytes)
  | len (content : Bytes)
  | i32 (raw : Bytes)
deriving Repr, DecidableEq

/-- One field occurrence. -/
structure Field where
  tag : Nat
  payload : Payload
deriving Repr, DecidableEq

/-! ## Varints -/

/-- The bytes of the varint at the start of a stream, and what follows it. -/
def splitVarint : Bytes → Option (Bytes × Bytes)
  | [] => none
  | b :: bs =>
    if b.toNat < 128 then some ([b], bs)
    else (splitVarint bs).map fun (raw, rest) => (b :: raw, rest)

/-- `pb_decode_varint32_eof` (pb_decode.c:163–216) on the bytes of a varint:
`pos` is `bitpos`, `r` the result so far. -/
def varint32Loop : Bytes → Nat → Nat → Option Nat
  | [], _, r => some r
  | b :: bs, pos, r =>
    let v := b.toNat
    if 32 ≤ pos then
      -- Trailing 0x80 bytes, or 0xFF bytes of a sign extension.
      let signExtension := if pos < 63 then 0xFF else 0x01
      if 64 ≤ pos || !(v % 128 == 0 || (r / 2 ^ 31 != 0 && v == signExtension)) then none
      else varint32Loop bs (pos + 7) r
    else if pos == 28 then
      if v &&& 0x70 != 0 && v &&& 0x78 != 0x78 then none
      else varint32Loop bs (pos + 7) (r ||| ((v &&& 0x0F) <<< 28))
    else varint32Loop bs (pos + 7) (r ||| ((v &&& 0x7F) <<< pos))

/-- A varint read as 32 bits. -/
def varint32 (raw : Bytes) : Option Nat := varint32Loop raw 0 0

/-- `pb_decode_varint` (pb_decode.c:224–244) on the bytes of a varint. -/
def varint64Loop : Bytes → Nat → Nat → Option Nat
  | [], _, r => some r
  | b :: bs, pos, r =>
    let v := b.toNat
    if 63 ≤ pos && v &&& 0xFE != 0 then none
    else varint64Loop bs (pos + 7) (r ||| ((v &&& 0x7F) <<< pos))

/-- A varint read as 64 bits. -/
def varint64 (raw : Bytes) : Option Nat := varint64Loop raw 0 0

/-! ## The field loop -/

/-- The first `n` bytes of a stream and the rest, if there are that many. -/
def splitExact (n : Nat) (b : Bytes) : Option (Bytes × Bytes) :=
  if n ≤ b.length then some (b.take n, b.drop n) else none

/-- The payload of a field of the given wire type, and what follows it. -/
def readPayload (wireType : Nat) (b : Bytes) : Option (Payload × Bytes) :=
  match wireType with
  | 0 => (splitVarint b).map fun (raw, rest) => (.varint raw, rest)
  | 1 => (splitExact 8 b).map fun (raw, rest) => (.i64 raw, rest)
  | 2 => do
    let (rawSize, rest) ← splitVarint b
    let size ← varint32 rawSize
    let (content, rest) ← splitExact size rest
    some (.len content, rest)
  | 5 => (splitExact 4 b).map fun (raw, rest) => (.i32 raw, rest)
  | _ => none

/-- One tagged field at the start of a stream (`pb_decode_tag`, zero tags
refused). -/
def readField (b : Bytes) : Option (Field × Bytes) := do
  let (rawTag, rest) ← splitVarint b
  let key ← varint32 rawTag
  if key / 8 = 0 then none
  else do
    let (payload, rest) ← readPayload (key % 8) rest
    some (⟨key / 8, payload⟩, rest)

/-- The loop of `pb_decode_inner`; `fuel` bounds the number of fields. -/
def parseLoop : Nat → Bytes → Option (List Field)
  | _, [] => some []
  | 0, _ :: _ => none
  | fuel + 1, b :: bs => do
    let (f, rest) ← readField (b :: bs)
    let fs ← parseLoop fuel rest
    some (f :: fs)

/-- Every field of a message in wire order. A field takes at least two bytes,
so the length of the message is enough fuel. -/
def parseFields (b : Bytes) : Option (List Field) := parseLoop b.length b

/-- The fields before the first one that is malformed. nanopb hands them on as it reads them. -/
def fieldsBefore : Nat → Bytes → List Field
  | 0, _ => []
  | fuel + 1, b =>
    match readField b with
    | none => []
    | some (f, rest) => f :: fieldsBefore fuel rest

/-- Where none is malformed, these are all fields. -/
theorem fieldsBefore_of_parse {fuel : Nat} {b : Bytes} {fs : List Field}
    (h : parseLoop fuel b = some fs) : fieldsBefore fuel b = fs := by
  induction fuel generalizing b fs with
  | zero =>
    cases b with
    | nil => exact Option.some.inj h
    | cons b bs => cases h
  | succ fuel ih =>
    cases b with
    | nil => exact Option.some.inj h
    | cons b bs =>
      rw [parseLoop] at h
      obtain ⟨⟨f, rest⟩, hread, h⟩ := Option.bind_eq_some_iff.mp h
      obtain ⟨fs', hrest, h⟩ := Option.bind_eq_some_iff.mp h
      rw [← Option.some.inj h, fieldsBefore, hread, ← ih hrest]

/-! ## Typed accessors -/

namespace Payload

/-- The contents of a field whose wire type must be length-delimited. -/
def content : Payload → Option Bytes
  | .len b => some b
  | _ => none

/-- A `char *` field: nanopb terminates the bytes with a NUL, so a reader of
the C string sees what comes before the first one. -/
def string (p : Payload) : Option Bytes := p.content.map cstr

/-- `pb_decode_bool`. -/
def bool : Payload → Option Bool
  | .varint raw => (varint32 raw).map (· != 0)
  | _ => none

/-- The signed reading of the low `w` bits of `n`. -/
def signed (w n : Nat) : Int :=
  let m := n % 2 ^ w
  if m < 2 ^ (w - 1) then m else (m : Int) - 2 ^ w

/-- An `int32` field: the low 32 bits of a 64-bit varint, signed. -/
def int32 : Payload → Option Int
  | .varint raw => (varint64 raw).map (signed 32)
  | _ => none

/-- A `uint32` field; a larger value is refused ("integer too large"). -/
def uint32 : Payload → Option Nat
  | .varint raw => do
    let v ← varint64 raw
    if v < 2 ^ 32 then some v else none
  | _ => none

/-- A `uint64` field. -/
def uint64 : Payload → Option Nat
  | .varint raw => varint64 raw
  | _ => none

/-- A `sint64` field (zigzag). -/
def sint64 : Payload → Option Int
  | .varint raw => (varint64 raw).map fun v =>
      if v % 2 = 0 then (v / 2 : Nat) else -((v / 2 : Nat) : Int) - 1
  | _ => none

/-- Little-endian value of a byte string. -/
def leValue : Bytes → Nat
  | [] => 0
  | b :: bs => b.toNat + 256 * leValue bs

/-- An `sfixed64` field. -/
def sfixed64 : Payload → Option Int
  | .i64 raw => some (signed 64 (leValue raw))
  | _ => none

/-- What a callback field is handed (`decode_callback_field`): the contents of
a length-delimited field, or the raw bytes of a scalar (a varint of at most 10
bytes). -/
def callbackBytes : Payload → Option Bytes
  | .len b => some b
  | .varint raw => if raw.length ≤ 10 then some raw else none
  | .i64 raw => some raw
  | .i32 raw => some raw

/-- The wire type is length-delimited. -/
def isLen : Payload → Bool
  | .len _ => true
  | _ => false

end Payload

end Wire
