import CantonSigner.Lib.Ring
import CantonSigner.Model.Base

/-!
# Canonical hash (canonical_hash.c, utils.c)

The encoders of the canonical transaction hash and the ring of recent node
hashes.

- `Hw`: a running hasher as the bytes it absorbed, together with the sticky
  error of `HASH_ERR_INFO` (its message is only printed, so the code is all that
  is kept);
- `NodeHashStore`: `G_hashed_nodes_store`, written by `setNodeHash` and read by
  `getNodeHash`. The encoders that need a child's hash take the lookup as a
  parameter.
-/

namespace CantonSigner

open ByteCodec

/-! ## Error handling -/

/-- The codes of `HashError` that are ever set. -/
inductive HashError where
  | ok
  | invalidHashString
  | failedToLoadNodeHash
  | maxNodeChildrenExceeded
  | missingField
deriving Repr, DecidableEq

/-- A hasher (the bytes absorbed since `hw_init`) and the error state. -/
structure Hw where
  bytes : Bytes
  err : HashError
deriving Repr, DecidableEq

namespace Hw

/-- `hw_put`. -/
def put (w : Hw) (b : Bytes) : Hw := { w with bytes := w.bytes ++ b }

/-- `set_hash_error` (canonical_hash.c:53–66): the first error stays. -/
def setHashError (w : Hw) (e : HashError) : Hw :=
  if w.err = .ok then { w with err := e } else w

@[simp] theorem put_bytes (w : Hw) (b : Bytes) : (w.put b).bytes = w.bytes ++ b := rfl
@[simp] theorem put_err (w : Hw) (b : Bytes) : (w.put b).err = w.err := rfl
@[simp] theorem put_put (w : Hw) (a b : Bytes) : (w.put a).put b = w.put (a ++ b) := by
  simp [put]
@[simp] theorem put_nil (w : Hw) : w.put [] = w := by simp [put]
@[simp] theorem setHashError_bytes (w : Hw) (e : HashError) :
    (w.setHashError e).bytes = w.bytes := by
  unfold setHashError; split <;> rfl

theorem setHashError_err_ok {w : Hw} {e : HashError} (he : e ≠ .ok) :
    (w.setHashError e).err ≠ .ok := by
  unfold setHashError
  split
  · exact he
  · assumption

end Hw

/-! ## Node hash store -/

/-- `is_digit`. -/
def isDigit (c : UInt8) : Bool := 48 ≤ c && c ≤ 57

/-- Two's complement reading of the low 32 bits, the range of `int`. -/
def wrap32 (v : Int) : Int := (v + 2 ^ 31) % 2 ^ 32 - 2 ^ 31

/-- The loop of `atoint` (utils.c:80–91). -/
def atointLoop : Int → Bytes → Int
  | res, [] => res
  | res, c :: cs =>
    if isDigit c then atointLoop (wrap32 (res * 10 + c.toNat - 48)) cs else 0

/-- `atoint`: 0 for a string that is not all digits. -/
def atoint (s : Bytes) : Int := atointLoop 0 s

/-- `PrecomputedNodeHash`: an id and its hash. -/
abbrev NodeHash := Int × Bytes

/-- `G_hashed_nodes_store` and `G_hashed_nodes_store_count`. -/
abbrev NodeHashStore := SlotRing NodeHash maxNodeChildren

/-- An empty slot. -/
def emptySlot : NodeHash := (-1, List.replicate 32 0)

/-- `init_node_hash_store`: the slots are emptied, the write index stays. -/
def initNodeHashStore (s : NodeHashStore) : NodeHashStore := s.fill emptySlot

/-- `set_node_hash` (canonical_hash.c:95–103). -/
def setNodeHash (s : NodeHashStore) (id : Int) (hash : Bytes) : NodeHashStore :=
  s.push (id, hash)

/-- `get_node_hash` (canonical_hash.c:105–123), on a string the decoder always
provides. -/
def getNodeHash (s : NodeHashStore) (nodeId : Bytes) : Option Bytes :=
  (s.find? fun e => e.1 == atoint nodeId).map (·.2)

/-! ## Encoders -/

/-- The bytes of `hw_put_u32_be((uint32_t) v)`. -/
def int32Bytes (v : Int) : Bytes := beBytes 4 (v % 2 ^ 32).toNat

/-- The bytes of `hw_put_u64_be((uint64_t) v)`. -/
def int64Bytes (v : Int) : Bytes := beBytes 8 (v % 2 ^ 64).toNat

@[simp] theorem length_int32Bytes (v : Int) : (int32Bytes v).length = 4 := by simp [int32Bytes]
@[simp] theorem length_int64Bytes (v : Int) : (int64Bytes v).length = 8 := by simp [int64Bytes]

/-- `encode_bool`. -/
def encodeBool (w : Hw) (v : Bool) : Hw := w.put [if v then 1 else 0]

/-- `encode_int32`. -/
def encodeInt32 (w : Hw) (v : Int) : Hw := w.put (int32Bytes v)

/-- `encode_int64`. -/
def encodeInt64 (w : Hw) (v : Int) : Hw := w.put (int64Bytes v)

/-- `encode_bytes`: the length, then the bytes. -/
def encodeBytes (w : Hw) (b : Bytes) : Hw := (encodeInt32 w b.length).put b

/-- `encode_string` (canonical_hash.c:203–208). -/
def encodeString (w : Hw) : Option Bytes → Hw
  | none => w.setHashError .missingField
  | some s => encodeBytes w s

/-- `encode_hash` (canonical_hash.c:210–215). -/
def encodeHash (w : Hw) : Option Bytes → Hw
  | none => w.setHashError .missingField
  | some h => w.put h

/-- `hex_val`. -/
def hexVal (c : UInt8) : UInt8 :=
  if 48 ≤ c && c ≤ 57 then c - 48
  else if 97 ≤ c && c ≤ 102 then 10 + c - 97
  else 10 + c - 65

/-- The byte pairs of `encode_hex_string`. -/
def hexBytes : Bytes → Bytes
  | hi :: lo :: rest => ((hexVal hi <<< 4) ||| hexVal lo) :: hexBytes rest
  | _ => []

/-- `encode_hex_string` (canonical_hash.c:224–240). -/
def encodeHexString (w : Hw) : Option Bytes → Hw
  | none => w.setHashError .missingField
  | some hex =>
    if hex.length % 2 ≠ 0 then w.setHashError .invalidHashString
    else (encodeInt32 w (hex.length / 2 : Nat)).put (hexBytes hex)

/-- `encode_optional`. -/
def encodeOptional {α : Type} (w : Hw) (fn : Hw → α → Hw) : Option α → Hw
  | none => w.put [0]
  | some a => fn (w.put [1]) a

/-- `encode_repeated`. -/
def encodeRepeated {α : Type} (w : Hw) (fn : Hw → α → Hw) (as : List α) : Hw :=
  as.foldl fn (encodeInt32 w as.length)

/-- `wrap_encode_string`. -/
def wrapEncodeString (w : Hw) (s : Bytes) : Hw := encodeString w (some s)

/-- The segments of a dotted name. -/
def splitDot : Bytes → List Bytes
  | [] => [[]]
  | c :: cs =>
    if c = 46 then [] :: splitDot cs
    else match splitDot cs with
      | [] => [[c]]
      | seg :: segs => (c :: seg) :: segs

/-- `split_dot_and_encode` (canonical_hash.c:270–288). -/
def splitDotAndEncode (w : Hw) : Option Bytes → Hw
  | none => w.setHashError .missingField
  | some s => encodeRepeated w encodeBytes (splitDot s)

/-- `encode_identifier`. -/
def encodeIdentifier (w : Hw) (id : Identifier) : Hw :=
  splitDotAndEncode (splitDotAndEncode (encodeString w id.packageId) id.moduleName) id.entityName

/-- The loop of `encode_repeated_node_ids`: it stops at the first id whose hash
is not there. -/
def encodeNodeIds (lookup : Bytes → Option Bytes) : Hw → List Bytes → Hw
  | w, [] => w
  | w, id :: ids =>
    match lookup id with
    | none => w.setHashError .failedToLoadNodeHash
    | some h => encodeNodeIds lookup (w.put h) ids

/-- `encode_repeated_node_ids` (canonical_hash.c:298–309). -/
def encodeRepeatedNodeIds (lookup : Bytes → Option Bytes) (w : Hw) (ids : List Bytes) : Hw :=
  encodeNodeIds lookup (encodeInt32 w ids.length) ids

/-- The children list of an exercise or rollback node, with its length check. -/
def encodeChildren (lookup : Bytes → Option Bytes) (w : Hw) (ids : List Bytes) : Hw :=
  if maxNodeChildren < ids.length then w.setHashError .maxNodeChildrenExceeded
  else encodeRepeatedNodeIds lookup w ids

/-! ## Nodes -/

/-- `NODE_ENCODING_VERSION`. -/
def nodeEncodingVersion : UInt8 := 1

/-- `encode_create_start` (canonical_hash.c:311–323). -/
def encodeCreateStart (w : Hw) (c : Create) (seed : Option Bytes) : Hw :=
  let w := encodeString (w.put [nodeEncodingVersion]) c.lfVersion
  let w := encodeOptional (w.put [0x00]) (fun w h => encodeHash w (some h)) seed
  let w := encodeString (encodeHexString w c.contractId) c.packageName
  encodeIdentifier w (c.templateId.getD .zero)

/-- `encode_create_end`. -/
def encodeCreateEnd (w : Hw) (c : Create) : Hw :=
  encodeRepeated (encodeRepeated w wrapEncodeString c.signatories) wrapEncodeString c.stakeholders

/-- `encode_exercise_start` (canonical_hash.c:333–359). -/
def encodeExerciseStart (w : Hw) (e : Exercise) (seed : Option Bytes) : Hw :=
  let w := encodeString (w.put [nodeEncodingVersion]) e.lfVersion
  let w := encodeHash (w.put [0x01]) seed
  let w := encodeString (encodeHexString w e.contractId) e.packageName
  let w := encodeIdentifier w (e.templateId.getD .zero)
  let w := encodeRepeated w wrapEncodeString e.signatories
  let w := encodeRepeated w wrapEncodeString e.stakeholders
  let w := encodeRepeated w wrapEncodeString e.actingParties
  encodeString (encodeOptional w encodeIdentifier e.interfaceId) e.choiceId

/-- `encode_exercise_middle`. -/
def encodeExerciseMiddle (w : Hw) (e : Exercise) : Hw := encodeBool w e.consuming

/-- `encode_exercise_end` (canonical_hash.c:368–383). -/
def encodeExerciseEnd (lookup : Bytes → Option Bytes) (w : Hw) (e : Exercise) : Hw :=
  encodeChildren lookup (encodeRepeated w wrapEncodeString e.choiceObservers) e.children

/-- `encode_fetch` (canonical_hash.c:385–403). -/
def encodeFetch (w : Hw) (f : Fetch) : Hw :=
  let w := encodeString (w.put [nodeEncodingVersion]) f.lfVersion
  let w := encodeString (encodeHexString (w.put [0x02]) f.contractId) f.packageName
  let w := encodeIdentifier w (f.templateId.getD .zero)
  let w := encodeRepeated w wrapEncodeString f.signatories
  let w := encodeRepeated w wrapEncodeString f.stakeholders
  encodeRepeated (encodeOptional w encodeIdentifier f.interfaceId) wrapEncodeString f.actingParties

/-- `encode_rollback` (canonical_hash.c:405–416). -/
def encodeRollback (lookup : Bytes → Option Bytes) (w : Hw) (r : Rollback) : Hw :=
  encodeChildren lookup (w.put [nodeEncodingVersion, 0x03]) r.children

/-! ## Transaction, metadata and final hash -/

/-- `PREPARED_TRANSACTION_HASH_PURPOSE`. -/
def preparedTransactionHashPurpose : Bytes := [0x00, 0x00, 0x00, 0x30]

/-- `HASHING_SCHEME_VERSION`. -/
def hashingSchemeVersion : UInt8 := 2

/-- `encode_metadata` (canonical_hash.c:418–444). -/
def encodeMetadata (w : Hw) (m : Metadata) : Hw :=
  let w := encodeRepeated (w.put [0x01]) wrapEncodeString m.actAs
  let w := encodeString (encodeString w m.commandId) m.transactionUuid
  let w := encodeString (encodeInt32 w m.mediatorGroup) m.synchronizerId
  let w := encodeOptional w (fun w (t : Nat) => encodeInt64 w t) m.minLedgerEffectiveTime
  let w := encodeOptional w (fun w (t : Nat) => encodeInt64 w t) m.maxLedgerEffectiveTime
  encodeInt32 (encodeInt64 w m.preparationTime) m.inputContractsCount

/-- The hasher part of `hash_transaction` (canonical_hash.c:446–461), which also
clears the error and empties the node hash store. -/
def hashTransaction (tx : DamlTransaction) : Hw :=
  encodeInt32 (encodeString (Hw.put ⟨[], .ok⟩ preparedTransactionHashPurpose) tx.version)
    tx.roots.length

/-- `hash_metadata` (canonical_hash.c:472–479): a fresh hasher, the error state
as it was. -/
def hashMetadata (err : HashError) (md : Metadata) : Hw :=
  encodeMetadata (Hw.put ⟨[], err⟩ preparedTransactionHashPurpose) md

/-- `finalize_hash` (canonical_hash.c:489–498). -/
def finalizeHash (d : Device) (txHash mdHash : Bytes) : Bytes :=
  d.sha (preparedTransactionHashPurpose ++ [hashingSchemeVersion] ++ txHash ++ mdHash)

end CantonSigner
