import CantonSigner.Hash.PrimCodes

/-!
# Values are read off the front of their bytes

A value has a tag and a container the number of its elements before them. So `enc_read` reads a
value off any bytes that start with what is written for it, by induction on the value.
-/

namespace CantonSigner

open ByteCodec HashingParser

/-! ## Values -/

mutual

/-- The contract ids in the value are in lower case. -/
def Val.LowerCase : Val → Prop
  | .unit | .absent | .enum .. => True
  | .prim p => p.LowerCase
  | .present v | .variant _ _ v => v.LowerCase
  | .list vs => vs.LowerCase
  | .textMap es | .record _ es => es.LowerCase
  | .genMap ps => ps.LowerCase

def Vals.LowerCase : Vals → Prop
  | .nil => True
  | .cons v vs => v.LowerCase ∧ vs.LowerCase

def Entries.LowerCase : Entries → Prop
  | .nil => True
  | .cons _ v es => v.LowerCase ∧ es.LowerCase

def Pairs.LowerCase : Pairs → Prop
  | .nil => True
  | .cons k v ps => k.LowerCase ∧ v.LowerCase ∧ ps.LowerCase

end

/-- A value that can be read off what is written for it. -/
structure Val.Readable (v : Val) : Prop where
  wellFormed : v.WellFormed
  lowerCase : v.LowerCase
  short : (enc v).length < 2 ^ 32

/-- Every value is written as its tag at least. -/
theorem enc_ne_nil (v : Val) : 1 ≤ (enc v).length := by
  cases v with
  | prim p => cases p <;> simp [enc, encPrim]
  | unit | absent | present | list | textMap | genMap | record | variant | enum => simp [enc]

/-! ### Counts

Every element writes at least one byte, so what is shorter than 4 GiB has fewer than 2^32
elements. -/

/-- The elements of a list. -/
theorem Vals.length_le : ∀ (vs : Vals), 0 ≤ vs.length ∧ vs.length ≤ (encVals vs).length
  | .nil => ⟨Int.le_refl 0, Int.le_refl 0⟩
  | .cons v vs => by
    have hv := enc_ne_nil v
    have ih := vs.length_le
    rw [Vals.length, encVals, List.length_append]
    omega

/-- The entries of a TextMap. -/
theorem Entries.length_le_entries : ∀ (es : Entries),
    0 ≤ es.length ∧ es.length ≤ (encEntries es).length
  | .nil => ⟨Int.le_refl 0, Int.le_refl 0⟩
  | .cons k v es => by
    have hv := enc_ne_nil v
    have ih := es.length_le_entries
    rw [Entries.length, encEntries, List.length_append, List.length_append]
    omega

/-- The fields of a record. -/
theorem Entries.length_le_fields : ∀ (es : Entries),
    0 ≤ es.length ∧ es.length ≤ (encFields es).length
  | .nil => ⟨Int.le_refl 0, Int.le_refl 0⟩
  | .cons l v es => by
    have hv := enc_ne_nil v
    have ih := es.length_le_fields
    rw [Entries.length, encFields, List.length_append, List.length_append]
    omega

/-- The entries of a GenMap. -/
theorem Pairs.length_le : ∀ (ps : Pairs), 0 ≤ ps.length ∧ ps.length ≤ (encPairs ps).length
  | .nil => ⟨Int.le_refl 0, Int.le_refl 0⟩
  | .cons k v ps => by
    have hv := enc_ne_nil v
    have ih := ps.length_le
    rw [Pairs.length, encPairs, List.length_append, List.length_append]
    omega

/-- A count before that many elements is read off its four bytes. -/
theorem counted_read {m n : Int} {xs ys s t : Bytes} (hm : 0 ≤ m ∧ m ≤ xs.length)
    (hn : 0 ≤ n ∧ n ≤ ys.length) (hxs : xs.length < 2 ^ 32) (hys : ys.length < 2 ^ 32)
    (h : int32Bytes m ++ (xs ++ s) = int32Bytes n ++ (ys ++ t)) : m = n ∧ xs ++ s = ys ++ t := by
  obtain ⟨hmod, hrest⟩ := int32Bytes_append h
  have hmod' : m % 2 ^ 32 = n % 2 ^ 32 := hmod
  exact ⟨by omega, hrest⟩

/-- The alternatives that a first byte tells apart. -/
inductive Alternative where
  | unit
  | prim
  | optional
  | list
  | textMap
  | record
  | variant
  | enum
  | genMap

/-- The alternative a first byte stands for. -/
def Alternative.ofTag (c : UInt8) : Alternative :=
  if c = 0x00 then .unit
  else if c ≤ 0x08 then .prim
  else if c = 0x09 then .optional
  else if c = 0x0A then .list
  else if c = 0x0B then .textMap
  else if c = 0x0C then .record
  else if c = 0x0D then .variant
  else if c = 0x0E then .enum
  else .genMap

/-- The alternative of a value. -/
def Val.alternative : Val → Alternative
  | .unit => .unit
  | .prim _ => .prim
  | .absent | .present _ => .optional
  | .list _ => .list
  | .textMap _ => .textMap
  | .record .. => .record
  | .variant .. => .variant
  | .enum .. => .enum
  | .genMap _ => .genMap

/-- The first byte is the tag of the alternative. -/
theorem enc_head (v : Val) (s : Bytes) :
    (enc v ++ s).head?.map Alternative.ofTag = some v.alternative := by
  cases v with
  | prim p => cases p <;> rfl
  | unit | absent | present | list | textMap | genMap | record | variant | enum => rfl

/-- So it tells the alternatives apart. -/
theorem alternative_eq {v w : Val} {s t : Bytes} (h : enc v ++ s = enc w ++ t) :
    v.alternative = w.alternative := by
  have hhead := congrArg (fun b : Bytes => b.head?.map Alternative.ofTag) h
  simp only [enc_head, Option.some.injEq] at hhead
  exact hhead

mutual

/-- Values are read off one after the other, each by its own structure. -/
theorem enc_read : ∀ (v w : Val), v.Readable → w.Readable → ∀ {s t : Bytes},
    enc v ++ s = enc w ++ t → v = w ∧ s = t
  -- The induction is on the first value; the tag gives the second one its shape, and every part is
  -- shorter than the whole, so that the bound on the length passes on.
  | .unit, w, _, _, s, t, h => by
    have halt := alternative_eq h
    cases w with
    | unit => exact ⟨rfl, (List.cons.inj h).2⟩
    | _ => cases halt
  | .prim p, w, hv, hw, s, t, h => by
    have halt := alternative_eq h
    cases w with
    | prim q =>
      obtain ⟨rfl, hrest⟩ := encPrim_prefixCode.read ⟨hv.wellFormed, hv.lowerCase, hv.short⟩
        ⟨hw.wellFormed, hw.lowerCase, hw.short⟩ h
      exact ⟨rfl, hrest⟩
    | _ => cases halt
  | .absent, w, _, _, s, t, h => by
    have halt := alternative_eq h
    cases w with
    -- the byte after the tag tells an absent value from a present one
    | absent => exact ⟨rfl, (List.cons.inj (List.cons.inj h).2).2⟩
    | present w => exact absurd (List.cons.inj (List.cons.inj h).2).1 (by decide)
    | _ => cases halt
  | .present v, w, hv, hw, s, t, h => by
    have halt := alternative_eq h
    cases w with
    | absent => exact absurd (List.cons.inj (List.cons.inj h).2).1 (by decide)
    | present w =>
      have hvs := hv.short
      have hws := hw.short
      simp only [enc, List.length_cons] at hvs hws
      obtain ⟨rfl, hrest⟩ := enc_read v w ⟨hv.wellFormed, hv.lowerCase, by omega⟩
        ⟨hw.wellFormed, hw.lowerCase, by omega⟩ (List.cons.inj (List.cons.inj h).2).2
      exact ⟨rfl, hrest⟩
    | _ => cases halt
  | .list vs, w, hv, hw, s, t, h => by
    have halt := alternative_eq h
    cases w with
    | list ws =>
      have hvs := hv.short
      have hws := hw.short
      simp only [enc, List.length_append, List.length_cons, length_int32Bytes] at hvs hws
      simp only [enc, List.cons_append, List.append_assoc] at h
      -- both lists have one count, and their elements are read in step
      obtain ⟨hcount, helems⟩ := counted_read vs.length_le ws.length_le (by omega) (by omega)
        (List.cons.inj h).2
      obtain ⟨rfl, hrest⟩ := encVals_read vs ws hcount hv.wellFormed hv.lowerCase (by omega)
        hw.wellFormed hw.lowerCase (by omega) helems
      exact ⟨rfl, hrest⟩
    | _ => cases halt
  | .textMap es, w, hv, hw, s, t, h => by
    have halt := alternative_eq h
    cases w with
    | textMap fs =>
      have hvs := hv.short
      have hws := hw.short
      simp only [enc, List.length_append, List.length_cons, length_int32Bytes] at hvs hws
      simp only [enc, List.cons_append, List.append_assoc] at h
      obtain ⟨hcount, helems⟩ := counted_read es.length_le_entries fs.length_le_entries
        (by omega) (by omega) (List.cons.inj h).2
      obtain ⟨rfl, hrest⟩ := encEntries_read es fs hcount hv.wellFormed hv.lowerCase (by omega)
        hw.wellFormed hw.lowerCase (by omega) helems
      exact ⟨rfl, hrest⟩
    | _ => cases halt
  | .genMap ps, w, hv, hw, s, t, h => by
    have halt := alternative_eq h
    cases w with
    | genMap qs =>
      have hvs := hv.short
      have hws := hw.short
      simp only [enc, List.length_append, List.length_cons, length_int32Bytes] at hvs hws
      simp only [enc, List.cons_append, List.append_assoc] at h
      obtain ⟨hcount, helems⟩ := counted_read ps.length_le qs.length_le (by omega) (by omega)
        (List.cons.inj h).2
      obtain ⟨rfl, hrest⟩ := encPairs_read ps qs hcount hv.wellFormed hv.lowerCase (by omega)
        hw.wellFormed hw.lowerCase (by omega) helems
      exact ⟨rfl, hrest⟩
    | _ => cases halt
  | .record id es, w, hv, hw, s, t, h => by
    have halt := alternative_eq h
    cases w with
    | record id' fs =>
      have hvs := hv.short
      have hws := hw.short
      simp only [enc, List.length_append, List.length_cons, length_int32Bytes] at hvs hws
      simp only [enc, List.cons_append, List.append_assoc] at h
      -- a record has the presence byte of its id between tag and id
      have hbody := (List.cons.inj (List.cons.inj h).2).2
      obtain ⟨rfl, hfields⟩ := identifierBytes_prefixCode.read ⟨hv.wellFormed.1.1, by omega⟩
        ⟨hw.wellFormed.1.1, by omega⟩ hbody
      obtain ⟨hcount, helems⟩ := counted_read es.length_le_fields fs.length_le_fields
        (by omega) (by omega) hfields
      obtain ⟨rfl, hrest⟩ := encFields_read es fs hcount hv.wellFormed.2 hv.lowerCase (by omega)
        hw.wellFormed.2 hw.lowerCase (by omega) helems
      exact ⟨rfl, hrest⟩
    | _ => cases halt
  | .variant id c v, w, hv, hw, s, t, h => by
    have halt := alternative_eq h
    cases w with
    | variant id' c' w =>
      have hvs := hv.short
      have hws := hw.short
      simp only [enc, List.length_append, List.length_cons] at hvs hws
      simp only [enc, List.cons_append, List.append_assoc] at h
      have hbody := (List.cons.inj h).2
      obtain ⟨rfl, hcons⟩ := optIdentifierBytes_prefixCode.read
        ⟨fun i hi => (hv.wellFormed.1 i hi).1, by omega⟩
        ⟨fun i hi => (hw.wellFormed.1 i hi).1, by omega⟩ hbody
      obtain ⟨rfl, hvalue⟩ := strBytes_prefixCode.read (show c.length < 2 ^ 32 from
        Nat.lt_of_le_of_lt hv.wellFormed.2.1.2.2 (by decide)) (show c'.length < 2 ^ 32 from
        Nat.lt_of_le_of_lt hw.wellFormed.2.1.2.2 (by decide)) hcons
      obtain ⟨rfl, hrest⟩ := enc_read v w ⟨hv.wellFormed.2.2, hv.lowerCase, by omega⟩
        ⟨hw.wellFormed.2.2, hw.lowerCase, by omega⟩ hvalue
      exact ⟨rfl, hrest⟩
    | _ => cases halt
  | .enum id c, w, hv, hw, s, t, h => by
    have halt := alternative_eq h
    cases w with
    | enum id' c' =>
      have hvs := hv.short
      have hws := hw.short
      simp only [enc, strBytes, List.length_append, List.length_cons] at hvs hws
      simp only [enc, List.cons_append, List.append_assoc] at h
      have hbody := (List.cons.inj h).2
      obtain ⟨rfl, hcons⟩ := optIdentifierBytes_prefixCode.read
        ⟨fun i hi => (hv.wellFormed.1 i hi).1, by omega⟩
        ⟨fun i hi => (hw.wellFormed.1 i hi).1, by omega⟩ hbody
      obtain ⟨rfl, hrest⟩ := strBytes_prefixCode.read (show c.length < 2 ^ 32 by omega)
        (show c'.length < 2 ^ 32 by omega) hcons
      exact ⟨rfl, hrest⟩
    | _ => cases halt

/-- The elements of lists of one length. -/
theorem encVals_read : ∀ (vs ws : Vals), vs.length = ws.length →
    vs.WellFormed → vs.LowerCase → (encVals vs).length < 2 ^ 32 →
    ws.WellFormed → ws.LowerCase → (encVals ws).length < 2 ^ 32 → ∀ {s t : Bytes},
    encVals vs ++ s = encVals ws ++ t → vs = ws ∧ s = t
  | .nil, .nil, _, _, _, _, _, _, _, s, t, h => ⟨rfl, h⟩
  | .nil, .cons w ws, hlen, _, _, _, _, _, _, s, t, h => by
    have := ws.length_le
    rw [Vals.length, Vals.length] at hlen
    omega
  | .cons v vs, .nil, hlen, _, _, _, _, _, _, s, t, h => by
    have := vs.length_le
    rw [Vals.length, Vals.length] at hlen
    omega
  | .cons v vs, .cons w ws, hlen, hv, hvl, hvs, hw, hwl, hws, s, t, h => by
    rw [encVals, List.length_append] at hvs hws
    rw [encVals, encVals, List.append_assoc, List.append_assoc] at h
    rw [Vals.length, Vals.length] at hlen
    obtain ⟨rfl, helems⟩ := enc_read v w ⟨hv.1, hvl.1, by omega⟩ ⟨hw.1, hwl.1, by omega⟩ h
    obtain ⟨rfl, hrest⟩ := encVals_read vs ws (by omega) hv.2 hvl.2 (by omega) hw.2 hwl.2
      (by omega) helems
    exact ⟨rfl, hrest⟩

/-- The entries of TextMaps of one length. -/
theorem encEntries_read : ∀ (es fs : Entries), es.length = fs.length →
    es.WellFormed → es.LowerCase → (encEntries es).length < 2 ^ 32 →
    fs.WellFormed → fs.LowerCase → (encEntries fs).length < 2 ^ 32 → ∀ {s t : Bytes},
    encEntries es ++ s = encEntries fs ++ t → es = fs ∧ s = t
  | .nil, .nil, _, _, _, _, _, _, _, s, t, h => ⟨rfl, h⟩
  | .nil, .cons k w fs, hlen, _, _, _, _, _, _, s, t, h => by
    have := fs.length_nonneg
    rw [Entries.length, Entries.length] at hlen
    omega
  | .cons k v es, .nil, hlen, _, _, _, _, _, _, s, t, h => by
    have := es.length_nonneg
    rw [Entries.length, Entries.length] at hlen
    omega
  | .cons k v es, .cons k' w fs, hlen, hv, hvl, hvs, hw, hwl, hws, s, t, h => by
    rw [encEntries, List.length_append, List.length_append] at hvs hws
    rw [encEntries, encEntries, List.append_assoc, List.append_assoc, List.append_assoc,
      List.append_assoc] at h
    rw [Entries.length, Entries.length] at hlen
    obtain ⟨rfl, hvalue⟩ := strBytes_prefixCode.read (show k.length < 2 ^ 32 from
      Nat.lt_of_le_of_lt hv.1.2.2 (by decide)) (show k'.length < 2 ^ 32 from
      Nat.lt_of_le_of_lt hw.1.2.2 (by decide)) h
    obtain ⟨rfl, helems⟩ := enc_read v w ⟨hv.2.1, hvl.1, by omega⟩ ⟨hw.2.1, hwl.1, by omega⟩ hvalue
    obtain ⟨rfl, hrest⟩ := encEntries_read es fs (by omega) hv.2.2 hvl.2 (by omega) hw.2.2 hwl.2
      (by omega) helems
    exact ⟨rfl, hrest⟩

/-- The fields of records of one length. -/
theorem encFields_read : ∀ (es fs : Entries), es.length = fs.length →
    es.WellFormed → es.LowerCase → (encFields es).length < 2 ^ 32 →
    fs.WellFormed → fs.LowerCase → (encFields fs).length < 2 ^ 32 → ∀ {s t : Bytes},
    encFields es ++ s = encFields fs ++ t → es = fs ∧ s = t
  | .nil, .nil, _, _, _, _, _, _, _, s, t, h => ⟨rfl, h⟩
  | .nil, .cons l w fs, hlen, _, _, _, _, _, _, s, t, h => by
    have := fs.length_nonneg
    rw [Entries.length, Entries.length] at hlen
    omega
  | .cons l v es, .nil, hlen, _, _, _, _, _, _, s, t, h => by
    have := es.length_nonneg
    rw [Entries.length, Entries.length] at hlen
    omega
  | .cons l v es, .cons l' w fs, hlen, hv, hvl, hvs, hw, hwl, hws, s, t, h => by
    rw [encFields, List.length_append, List.length_append, List.length_cons] at hvs hws
    rw [encFields, encFields, List.append_assoc, List.append_assoc, List.append_assoc,
      List.append_assoc] at h
    rw [Entries.length, Entries.length] at hlen
    obtain ⟨rfl, hvalue⟩ := strBytes_prefixCode.read (show l.length < 2 ^ 32 from
      Nat.lt_of_le_of_lt hv.1.2.2 (by decide)) (show l'.length < 2 ^ 32 from
      Nat.lt_of_le_of_lt hw.1.2.2 (by decide)) (List.cons.inj h).2
    obtain ⟨rfl, helems⟩ := enc_read v w ⟨hv.2.1, hvl.1, by omega⟩ ⟨hw.2.1, hwl.1, by omega⟩ hvalue
    obtain ⟨rfl, hrest⟩ := encFields_read es fs (by omega) hv.2.2 hvl.2 (by omega) hw.2.2 hwl.2
      (by omega) helems
    exact ⟨rfl, hrest⟩

/-- The entries of GenMaps of one length. -/
theorem encPairs_read : ∀ (ps qs : Pairs), ps.length = qs.length →
    ps.WellFormed → ps.LowerCase → (encPairs ps).length < 2 ^ 32 →
    qs.WellFormed → qs.LowerCase → (encPairs qs).length < 2 ^ 32 → ∀ {s t : Bytes},
    encPairs ps ++ s = encPairs qs ++ t → ps = qs ∧ s = t
  | .nil, .nil, _, _, _, _, _, _, _, s, t, h => ⟨rfl, h⟩
  | .nil, .cons k w qs, hlen, _, _, _, _, _, _, s, t, h => by
    have := qs.length_le
    rw [Pairs.length, Pairs.length] at hlen
    omega
  | .cons k v ps, .nil, hlen, _, _, _, _, _, _, s, t, h => by
    have := ps.length_le
    rw [Pairs.length, Pairs.length] at hlen
    omega
  | .cons k v ps, .cons k' w qs, hlen, hv, hvl, hvs, hw, hwl, hws, s, t, h => by
    rw [encPairs, List.length_append, List.length_append] at hvs hws
    rw [encPairs, encPairs, List.append_assoc, List.append_assoc, List.append_assoc,
      List.append_assoc] at h
    rw [Pairs.length, Pairs.length] at hlen
    obtain ⟨rfl, hvalue⟩ := enc_read k k' ⟨hv.1, hvl.1, by omega⟩ ⟨hw.1, hwl.1, by omega⟩ h
    obtain ⟨rfl, helems⟩ := enc_read v w ⟨hv.2.1, hvl.2.1, by omega⟩ ⟨hw.2.1, hwl.2.1, by omega⟩
      hvalue
    obtain ⟨rfl, hrest⟩ := encPairs_read ps qs (by omega) hv.2.2 hvl.2.2 (by omega) hw.2.2 hwl.2.2
      (by omega) helems
    exact ⟨rfl, hrest⟩

end

end CantonSigner
