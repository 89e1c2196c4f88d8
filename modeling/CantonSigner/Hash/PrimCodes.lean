import CantonSigner.Hash.NodeBytes
import CantonSigner.Hash.OptionalParts
import CantonSigner.Hash.Sizes
import CantonSigner.Lib.PrefixCode
import CantonSigner.Lib.Separated

/-!
# Prefix codes for strings and primitives

Numbers have a fixed length and strings their length before them, so each can be read off the
front of any bytes. An identifier and a primitive are made of these, a primitive after a tag.
-/

namespace CantonSigner

open ByteCodec HashingParser

/-! ## Numbers and strings -/

/-- Four bytes tell a number up to 2^32. -/
theorem int32Bytes_append {a b : Int} {s t : Bytes} (h : int32Bytes a ++ s = int32Bytes b ++ t) :
    a ≡ b [ZMOD 2 ^ 32] ∧ s = t := by
  obtain ⟨hword, hrest⟩ := List.append_inj h (by rw [length_int32Bytes, length_int32Bytes])
  exact ⟨int32Bytes_eq_iff.mp hword, hrest⟩

/-- Eight bytes tell it up to 2^64. -/
theorem int64Bytes_append {a b : Int} {s t : Bytes} (h : int64Bytes a ++ s = int64Bytes b ++ t) :
    a ≡ b [ZMOD 2 ^ 64] ∧ s = t := by
  obtain ⟨hword, hrest⟩ := List.append_inj h (by rw [length_int64Bytes, length_int64Bytes])
  have hnat := beBytes_inj (w := 8) (by omega) (by omega) hword
  refine ⟨?_, hrest⟩
  show a % 2 ^ 64 = b % 2 ^ 64
  omega

/-- The length of something shorter than 4 GiB. -/
theorem lengthBytes_prefixCode : PrefixCode (fun n : Nat => n < 2 ^ 32)
    (fun n => int32Bytes n) := by
  refine ⟨fun {a b} ha hb s t h => ?_⟩
  obtain ⟨hmod, hrest⟩ := int32Bytes_append h
  have hmod' : (a : Int) % 2 ^ 32 = (b : Int) % 2 ^ 32 := hmod
  exact ⟨by omega, hrest⟩

/-- Strings behind their length. -/
theorem strBytes_prefixCode : PrefixCode (fun s : Bytes => s.length < 2 ^ 32) strBytes :=
  PrefixCode.framed (lengthBytes_prefixCode.mono fun _ ⟨_, hs, hn⟩ => hn ▸ hs) fun _ _ _ _ h => h

/-- Neither a list of strings nor one of them is longer than what is written. -/
theorem length_le_flatMap_strBytes (ss : List Bytes) :
    ss.length ≤ (ss.flatMap strBytes).length ∧
      ∀ s ∈ ss, s.length ≤ (ss.flatMap strBytes).length := by
  induction ss with
  | nil => exact ⟨Nat.le_refl _, nofun⟩
  | cons s ss ih =>
    have hword : (strBytes s).length = 4 + s.length := by simp [strBytes]
    rw [List.flatMap_cons, List.length_append, List.length_cons, hword]
    refine ⟨by omega, ?_⟩
    intro c hc
    rcases List.mem_cons.mp hc with rfl | hc
    · omega
    · have := ih.2 c hc
      omega

/-- Lists of strings behind their number. -/
theorem strsBytes_prefixCode :
    PrefixCode (fun ss => (strsBytes ss).length < 2 ^ 32) strsBytes := by
  have hbound (ss : List Bytes) (h : (strsBytes ss).length < 2 ^ 32) :
      ss.length < 2 ^ 32 ∧ ∀ s ∈ ss, s.length < 2 ^ 32 := by
    obtain ⟨hcount, hwords⟩ := length_le_flatMap_strBytes ss
    rw [strsBytes, List.length_append] at h
    exact ⟨by omega, fun s hs => by have := hwords s hs; omega⟩
  refine strBytes_prefixCode.counted (lengthBytes_prefixCode.mono ?_) fun ss hss =>
    (hbound ss hss).2
  rintro n ⟨ss, hss, rfl⟩
  exact (hbound ss hss).1

/-! ## Identifiers -/

/-- The segments of a dotted name. -/
theorem splitDot_eq_splitOn (s : Bytes) : splitDot s = s.splitOn 46 := by
  induction s with
  | nil => rfl
  | cons c cs ih =>
    obtain ⟨seg, segs, hcs⟩ := List.exists_cons_of_ne_nil (List.splitOn_ne_nil 46 cs)
    unfold splitDot
    rw [List.splitOn_cons_eq_if_modifyHead, ih, hcs]
    by_cases hc : c = 46
    · rw [if_pos hc, if_pos (by simpa using hc)]
    · rw [if_neg hc, if_neg (by simpa using hc)]
      rfl

/-- Dotted names. -/
theorem dottedBytes_prefixCode :
    PrefixCode (fun s => (dottedBytes s).length < 2 ^ 32) dottedBytes := by
  refine strsBytes_prefixCode.comp (fun _ h => h) ?_
  intro s t _ _ h
  rw [splitDot_eq_splitOn, splitDot_eq_splitOn] at h
  have hs : [46].intercalate (s.splitOn 46) = s := List.intercalate_splitOn 46
  rw [← hs, h]
  exact List.intercalate_splitOn 46

/-- An identifier with all its parts that is written with less than 4 GiB. -/
def Identifier.Readable (id : Identifier) : Prop :=
  requireIdentifier (some id) = true ∧ (identifierBytes id).length < 2 ^ 32

/-- Identifiers. -/
theorem identifierBytes_prefixCode : PrefixCode Identifier.Readable identifierBytes := by
  refine ⟨fun {a b} ha hb s t h => ?_⟩
  obtain ⟨packageId, moduleName, entityName⟩ := a
  obtain ⟨packageId', moduleName', entityName'⟩ := b
  obtain ⟨hsome, hlen⟩ := ha
  obtain ⟨hsome', hlen'⟩ := hb
  simp only [requireIdentifier, Bool.and_eq_true, Option.isSome_iff_exists] at hsome hsome'
  obtain ⟨⟨⟨p, rfl⟩, m, rfl⟩, e, rfl⟩ := hsome
  obtain ⟨⟨⟨p', rfl⟩, m', rfl⟩, e', rfl⟩ := hsome'
  simp only [identifierBytes, Option.getD_some, List.length_append] at hlen hlen'
  have hp : (strBytes p).length = 4 + p.length := by simp [strBytes]
  have hp' : (strBytes p').length = 4 + p'.length := by simp [strBytes]
  simp only [identifierBytes, Option.getD_some, List.append_assoc] at h
  obtain ⟨rfl, hnames⟩ := strBytes_prefixCode.read (show p.length < 2 ^ 32 by omega)
    (show p'.length < 2 ^ 32 by omega) h
  obtain ⟨rfl, hentity⟩ := dottedBytes_prefixCode.read
    (show (dottedBytes m).length < 2 ^ 32 by omega)
    (show (dottedBytes m').length < 2 ^ 32 by omega) hnames
  obtain ⟨rfl, hrest⟩ := dottedBytes_prefixCode.read
    (show (dottedBytes e).length < 2 ^ 32 by omega)
    (show (dottedBytes e').length < 2 ^ 32 by omega) hentity
  exact ⟨rfl, hrest⟩

/-- The same of an identifier that may be absent. -/
def OptReadable (id : Option Identifier) : Prop :=
  (∀ i ∈ id, requireIdentifier (some i) = true) ∧ (optIdentifierBytes id).length < 2 ^ 32

/-- Optional identifiers. -/
theorem optIdentifierBytes_prefixCode : PrefixCode OptReadable optIdentifierBytes := by
  have hcode := identifierBytes_prefixCode.option (show (0x00 : UInt8) ≠ 0x01 by decide)
    (Q := OptReadable) fun id h => ⟨h.1 id rfl, Nat.lt_of_succ_lt h.2⟩
  have heq : (fun id : Option Identifier => id.elim [0x00] fun i => 0x01 :: identifierBytes i) =
      optIdentifierBytes := by
    funext id
    cases id <;> rfl
  rwa [heq] at hcode

/-! ## Primitives -/

/-- A contract id: hexadecimal digits in lower case, two for each byte. -/
def ContractId (s : Bytes) : Prop :=
  s.length % 2 = 0 ∧ s.all isHexChar = true ∧ s.map lowerHex = s

/-- Contract ids in lower case are told apart by the bytes they stand for. -/
theorem unhex_inj {s t : Bytes} (hs : ContractId s) (ht : ContractId t) (h : unhex s = unhex t) :
    s = t := by
  have hlower := lower_of_unhex s t hs.2.1 ht.2.1 hs.1 ht.1 h
  rwa [hs.2.2, ht.2.2] at hlower

/-- Contract ids. -/
theorem unhex_prefixCode : PrefixCode (fun s => ContractId s ∧ (unhex s).length < 2 ^ 32)
    fun s => int32Bytes (unhex s).length ++ unhex s :=
  PrefixCode.framed (lengthBytes_prefixCode.mono fun _ ⟨_, hs, hn⟩ => hn ▸ hs.2)
    fun _ _ hs ht h => unhex_inj hs.1 ht.1 h

/-- A contract id as a primitive is in lower case. -/
def Prim.LowerCase (p : Prim) : Prop := ∀ s, p = .contractId s → s.map lowerHex = s

/-- A primitive that can be read off what is written for it. -/
structure Prim.Readable (p : Prim) : Prop where
  wellFormed : p.WellFormed
  lowerCase : p.LowerCase
  short : (encPrim p).length < 2 ^ 32

/-- A contract id that can be read. -/
theorem Prim.Readable.contractId {s : Bytes} (h : (Prim.contractId s).Readable) :
    ContractId s ∧ (unhex s).length < 2 ^ 32 := by
  obtain ⟨heven, hhex⟩ := h.wellFormed.2 s rfl
  refine ⟨⟨heven, hhex, h.lowerCase s rfl⟩, ?_⟩
  have := h.short
  simp only [encPrim, List.length_cons, List.length_append] at this
  omega

/-- What is written for a string is longer than it. -/
theorem strBytes_short {tag : UInt8} {s : Bytes} (h : (tag :: strBytes s).length < 2 ^ 32) :
    s.length < 2 ^ 32 := by
  simp only [strBytes, List.length_cons, List.length_append] at h
  omega

/-- The integers fit their types, so they are their own residues. -/
theorem int64_eq_of_modEq {v w : Int} (hv : -2 ^ 63 ≤ v ∧ v < 2 ^ 63)
    (hw : -2 ^ 63 ≤ w ∧ w < 2 ^ 63)
    (h : v ≡ w [ZMOD 2 ^ 64]) : v = w := by
  have hmod : v % 2 ^ 64 = w % 2 ^ 64 := h
  omega

/-- A number of 32 bits is told by its four bytes. -/
theorem int32_eq_of_modEq {v w : Int} (hv : -2 ^ 31 ≤ v ∧ v < 2 ^ 31)
    (hw : -2 ^ 31 ≤ w ∧ w < 2 ^ 31)
    (h : v ≡ w [ZMOD 2 ^ 32]) : v = w := by
  have hmod : v % 2 ^ 32 = w % 2 ^ 32 := h
  omega

/-- The first byte tells the alternatives apart. -/
theorem encPrim_prefixCode : PrefixCode Prim.Readable encPrim := by
  refine ⟨fun {a b} ha hb s t h => ?_⟩
  cases a with
  | bool x =>
    cases b with
    | bool y =>
      have hbyte := (List.cons.inj (List.cons.inj h).2).1
      cases x <;> cases y <;> first | exact ⟨rfl, (List.cons.inj (List.cons.inj h).2).2⟩ |
        cases hbyte
    | _ => exact absurd (List.cons.inj h).1 (by decide)
  -- integers of the right range are told apart by their bytes
  | int64 x =>
    cases b with
    | int64 y =>
      obtain ⟨hmod, hrest⟩ := int64Bytes_append (List.cons.inj h).2
      exact ⟨congrArg Prim.int64 (int64_eq_of_modEq ha.wellFormed.1 hb.wellFormed.1 hmod), hrest⟩
    | _ => exact absurd (List.cons.inj h).1 (by decide)
  | timestamp x =>
    cases b with
    | timestamp y =>
      obtain ⟨hmod, hrest⟩ := int64Bytes_append (List.cons.inj h).2
      exact ⟨congrArg Prim.timestamp (int64_eq_of_modEq ha.wellFormed.1 hb.wellFormed.1 hmod),
        hrest⟩
    | _ => exact absurd (List.cons.inj h).1 (by decide)
  | date x =>
    cases b with
    | date y =>
      obtain ⟨hmod, hrest⟩ := int32Bytes_append (List.cons.inj h).2
      exact ⟨congrArg Prim.date (int32_eq_of_modEq ha.wellFormed.1 hb.wellFormed.1 hmod), hrest⟩
    | _ => exact absurd (List.cons.inj h).1 (by decide)
  -- texts carry their length
  | numeric x =>
    cases b with
    | numeric y =>
      obtain ⟨rfl, hrest⟩ := strBytes_prefixCode.read (strBytes_short ha.short)
        (strBytes_short hb.short) (List.cons.inj h).2
      exact ⟨rfl, hrest⟩
    | _ => exact absurd (List.cons.inj h).1 (by decide)
  | party x =>
    cases b with
    | party y =>
      obtain ⟨rfl, hrest⟩ := strBytes_prefixCode.read (strBytes_short ha.short)
        (strBytes_short hb.short) (List.cons.inj h).2
      exact ⟨rfl, hrest⟩
    | _ => exact absurd (List.cons.inj h).1 (by decide)
  | text x =>
    cases b with
    | text y =>
      obtain ⟨rfl, hrest⟩ := strBytes_prefixCode.read (strBytes_short ha.short)
        (strBytes_short hb.short) (List.cons.inj h).2
      exact ⟨rfl, hrest⟩
    | _ => exact absurd (List.cons.inj h).1 (by decide)
  -- contract ids are written as bytes, so their letter case has to be fixed
  | contractId x =>
    cases b with
    | contractId y =>
      obtain ⟨rfl, hrest⟩ := unhex_prefixCode.read ha.contractId hb.contractId (List.cons.inj h).2
      exact ⟨rfl, hrest⟩
    | _ => exact absurd (List.cons.inj h).1 (by decide)

end CantonSigner
