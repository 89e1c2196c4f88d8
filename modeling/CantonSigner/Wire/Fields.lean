import Mathlib.Tactic.IntervalCases
import Mathlib.Tactic.Linarith
import CantonSigner.Model.Decode
import CantonSigner.Model.Host

/-!
# Fields, written and read

The reader of the wire format gives back what the host wrote: varints
(`varint32_varint`, `varint64_varint`), single fields (`readField_lenField` and its
siblings) and sequences of them (`parseFields_cons`, …).

A varint is read seven bits at a time. The loops keep the bits read so far in `r`,
which stays below `2 ^ pos`, so putting in the next seven is an addition
(`or_group`).
-/

namespace CantonSigner

open ByteCodec Wire

/-! ## Varints -/

/-- The next group of bits of a varint. -/
theorem or_group {r v pos : Nat} (hr : r < 2 ^ pos) : r ||| (v <<< pos) = r + v * 2 ^ pos := by
  rw [Nat.or_comm, ← Nat.shiftLeft_add_eq_or_of_lt hr, Nat.shiftLeft_eq, Nat.add_comm]

/-- The last byte of a varint has its top bit clear. -/
theorem toNat_last {n : Nat} (h : n < 128) : (UInt8.ofNat n).toNat = n := by
  rw [UInt8.toNat_ofNat']
  omega

/-- A byte before it has its top bit set. -/
theorem toNat_group (n : Nat) : (UInt8.ofNat (n % 128 + 128)).toNat = n % 128 + 128 := by
  rw [UInt8.toNat_ofNat']
  omega

/-- The seven bits of a byte. -/
theorem and_127 (v : Nat) : v &&& 0x7F = v % 128 := Nat.and_two_pow_sub_one_eq_mod v 7

/-- Seven bits less are left for one byte less. -/
theorem div_lt_of_fuel {fuel n : Nat} (h : n < 128 ^ (fuel + 2)) : n / 128 < 128 ^ (fuel + 1) := by
  rw [Nat.div_lt_iff_lt_mul (by decide), ← Nat.pow_succ]
  exact h

/-- A varint ends where it says. -/
theorem splitVarint_varintUpTo {fuel n : Nat} (h : n < 128 ^ (fuel + 1)) (rest : Bytes) :
    splitVarint (Host.varintUpTo fuel n ++ rest) = some (Host.varintUpTo fuel n, rest) := by
  have hlast : n < 128 → splitVarint ([UInt8.ofNat n] ++ rest) = some ([UInt8.ofNat n], rest) := by
    intro hn
    simp only [List.cons_append, List.nil_append, splitVarint, toNat_last hn, hn, ↓reduceIte]
  induction fuel generalizing n with
  | zero => exact hlast (by omega)
  | succ fuel ih =>
    rw [Host.varintUpTo]
    by_cases hn : n < 128
    · rw [if_pos hn]
      exact hlast hn
    · have hge : ¬ n % 128 + 128 < 128 := by omega
      have hnext := div_lt_of_fuel h
      have hrest := ih hnext fun hlt => by
        simp only [List.cons_append, List.nil_append, splitVarint, toNat_last hlt, hlt, ↓reduceIte]
      simp only [hn, ↓reduceIte, List.cons_append, splitVarint, toNat_group, hge, hrest,
        Option.map_some]

/-- The bits of a group and of those after it. -/
theorem value_groups (n pos : Nat) :
    n * 2 ^ pos = n % 128 * 2 ^ pos + n / 128 * 2 ^ (pos + 7) := by
  have hpow : 2 ^ (pos + 7) = 128 * 2 ^ pos := by rw [Nat.pow_add, Nat.mul_comm]
  calc n * 2 ^ pos = (n % 128 + 128 * (n / 128)) * 2 ^ pos := by rw [Nat.mod_add_div]
    _ = n % 128 * 2 ^ pos + n / 128 * 2 ^ (pos + 7) := by rw [hpow]; ring

/-- The bits that are read stay below the next group. -/
theorem group_lt {r n pos : Nat} (hr : r < 2 ^ pos) : r + n % 128 * 2 ^ pos < 2 ^ (pos + 7) := by
  have hmod : n % 128 ≤ 127 := by omega
  have hpow : 2 ^ (pos + 7) = 128 * 2 ^ pos := by rw [Nat.pow_add, Nat.mul_comm]
  have := Nat.mul_le_mul_right (2 ^ pos) hmod
  omega

/-- The loop ends at a byte with its top bit clear. -/
theorem varint32Loop_last {n pos r : Nat} (hpos : pos ≤ 28) (hlt : n < 128)
    (hn : n * 2 ^ pos < 2 ^ 32) (hr : r < 2 ^ pos) :
    varint32Loop [UInt8.ofNat n] pos r = some (r + n * 2 ^ pos) := by
  have hnot : ¬ 32 ≤ pos := by omega
  by_cases h28 : pos = 28
  · subst h28
    have hsmall : n < 16 := by omega
    have hhigh : n &&& 0x70 = 0 := by interval_cases n <;> rfl
    have hlow : n &&& 0x0F = n := by interval_cases n <;> rfl
    simp [varint32Loop, toNat_last hlt, hhigh, hlow, or_group hr]
  · simp [varint32Loop, toNat_last hlt, hnot, h28, and_127, Nat.mod_eq_of_lt hlt, or_group hr]

/-- The loop reads what the host wrote, by induction on the groups. -/
theorem varint32Loop_varintUpTo {fuel n pos r : Nat} (hpos : 7 ∣ pos) (hle : pos ≤ 28)
    (hfuel : n < 128 ^ (fuel + 1)) (hn : n * 2 ^ pos < 2 ^ 32) (hr : r < 2 ^ pos) :
    varint32Loop (Host.varintUpTo fuel n) pos r = some (r + n * 2 ^ pos) := by
  induction fuel generalizing n pos r with
  | zero => exact varint32Loop_last hle (by omega) hn hr
  | succ fuel ih =>
    rw [Host.varintUpTo]
    by_cases hlt : n < 128
    · rw [if_pos hlt]
      exact varint32Loop_last hle hlt hn hr
    · rw [if_neg hlt]
      -- There is a next group, so this one is not the last that fits.
      have h28 : pos < 28 := by
        by_contra hge
        have : pos = 28 := by omega
        subst this
        omega
      have hvalue := value_groups n pos
      rw [varint32Loop]
      have hnot : ¬ 32 ≤ pos := by omega
      have hne : pos ≠ 28 := by omega
      simp only [toNat_group, hnot, hne, ↓reduceIte, beq_iff_eq, and_127, Nat.add_mod_right,
        Nat.mod_mod, or_group hr]
      rw [ih (by omega) (by omega) (div_lt_of_fuel hfuel) (by omega) (group_lt hr)]
      congr 1
      omega

/-- A varint that fits 32 bits is read as it was written. -/
theorem varint32_varint {n : Nat} (h : n < 2 ^ 32) : varint32 (Host.varint n) = some n := by
  have := @varint32Loop_varintUpTo 9 n 0 0 (by decide) (by decide) (by omega) (by omega) (by decide)
  simpa [varint32, Host.varint] using this

/-- The loop of 64 bits ends alike. -/
theorem varint64Loop_last {n pos r : Nat} (hpos : pos ≤ 63) (hlt : n < 128)
    (hn : n * 2 ^ pos < 2 ^ 64) (hr : r < 2 ^ pos) :
    varint64Loop [UInt8.ofNat n] pos r = some (r + n * 2 ^ pos) := by
  by_cases h63 : pos = 63
  · subst h63
    have hsmall : n < 2 := by omega
    have hhigh : n &&& 0xFE = 0 := by interval_cases n <;> rfl
    simp [varint64Loop, toNat_last hlt, hhigh, and_127, Nat.mod_eq_of_lt hlt, or_group hr]
  · have hnot : ¬ 63 ≤ pos := by omega
    simp [varint64Loop, toNat_last hlt, hnot, and_127, Nat.mod_eq_of_lt hlt, or_group hr]

/-- The loop of 64 bits, by the same induction. -/
theorem varint64Loop_varintUpTo {fuel n pos r : Nat} (hpos : 7 ∣ pos) (hle : pos ≤ 63)
    (hfuel : n < 128 ^ (fuel + 1)) (hn : n * 2 ^ pos < 2 ^ 64) (hr : r < 2 ^ pos) :
    varint64Loop (Host.varintUpTo fuel n) pos r = some (r + n * 2 ^ pos) := by
  induction fuel generalizing n pos r with
  | zero => exact varint64Loop_last hle (by omega) hn hr
  | succ fuel ih =>
    rw [Host.varintUpTo]
    by_cases hlt : n < 128
    · rw [if_pos hlt]
      exact varint64Loop_last hle hlt hn hr
    · rw [if_neg hlt]
      have h63 : pos < 63 := by
        by_contra hge
        have : pos = 63 := by omega
        subst this
        omega
      have hvalue := value_groups n pos
      rw [varint64Loop]
      have hnot : ¬ 63 ≤ pos := by omega
      simp only [toNat_group, hnot, decide_false, Bool.false_and, Bool.false_eq_true, ↓reduceIte,
        and_127, Nat.add_mod_right, Nat.mod_mod, or_group hr]
      rw [ih (by omega) (by omega) (div_lt_of_fuel hfuel) (by omega) (group_lt hr)]
      congr 1
      omega

/-- A varint that fits 64 bits is read as it was written. -/
theorem varint64_varint {n : Nat} (h : n < 2 ^ 64) : varint64 (Host.varint n) = some n := by
  have := @varint64Loop_varintUpTo 9 n 0 0 (by decide) (by decide) (by omega) (by omega) (by decide)
  simpa [varint64, Host.varint] using this

/-- A varint is cut off where it ends. -/
theorem splitVarint_varint {n : Nat} (h : n < 2 ^ 64) (rest : Bytes) :
    splitVarint (Host.varint n ++ rest) = some (Host.varint n, rest) :=
  splitVarint_varintUpTo (by omega) rest

/-! ## Fields -/

/-- A content of a known length is cut off. -/
theorem splitExact_append (b rest : Bytes) : splitExact b.length (b ++ rest) = some (b, rest) := by
  simp [splitExact]

/-- A field with a length. -/
theorem readField_lenField {tag : Nat} {content : Bytes} (htag : 0 < tag) (hlt : tag < 2 ^ 29)
    (hlen : content.length < 2 ^ 32) (rest : Bytes) :
    readField (Host.lenField tag content ++ rest) = some (⟨tag, .len content⟩, rest) := by
  have hkey : ¬ tag = 0 := by omega
  have htag' : (tag * 8 + 2) / 8 = tag := by omega
  have htype : (tag * 8 + 2) % 8 = 2 := by omega
  simp only [Host.lenField, List.append_assoc, readField, Option.bind_eq_bind,
    splitVarint_varint (show tag * 8 + 2 < 2 ^ 64 by omega),
    varint32_varint (show tag * 8 + 2 < 2 ^ 32 by omega), Option.bind_some, hkey, ↓reduceIte, htype,
    readPayload, splitVarint_varint (show content.length < 2 ^ 64 by omega),
    varint32_varint hlen, splitExact_append, htag']

/-- A field of a varint. -/
theorem readField_varintField {tag n : Nat} (htag : 0 < tag) (hlt : tag < 2 ^ 29)
    (hn : n < 2 ^ 64) (rest : Bytes) :
    readField (Host.varintField tag n ++ rest) =
      some (⟨tag, .varint (Host.varint n)⟩, rest) := by
  have hkey : ¬ tag = 0 := by omega
  have htag' : tag * 8 / 8 = tag := by omega
  have htype : tag * 8 % 8 = 0 := by omega
  simp only [Host.varintField, List.append_assoc, readField, Option.bind_eq_bind,
    splitVarint_varint (show tag * 8 < 2 ^ 64 by omega),
    varint32_varint (show tag * 8 < 2 ^ 32 by omega), Option.bind_some, hkey, ↓reduceIte, htype,
    readPayload, splitVarint_varint hn, Option.map_some, htag']

/-- A field of eight bytes. -/
theorem readField_fixed64 {tag : Nat} {raw : Bytes} (htag : 0 < tag) (hlt : tag < 2 ^ 29)
    (hraw : raw.length = 8) (rest : Bytes) :
    readField (Host.varint (tag * 8 + 1) ++ raw ++ rest) = some (⟨tag, .i64 raw⟩, rest) := by
  have hkey : ¬ tag = 0 := by omega
  have htag' : (tag * 8 + 1) / 8 = tag := by omega
  have htype : (tag * 8 + 1) % 8 = 1 := by omega
  have hsplit := splitExact_append raw rest
  rw [hraw] at hsplit
  simp only [List.append_assoc, readField, Option.bind_eq_bind,
    splitVarint_varint (show tag * 8 + 1 < 2 ^ 64 by omega),
    varint32_varint (show tag * 8 + 1 < 2 ^ 32 by omega), Option.bind_some, hkey, ↓reduceIte, htype,
    readPayload, hsplit, Option.map_some, htag']

/-! ## Sequences of fields -/

/-- A varint takes a byte. -/
theorem splitVarint_length {b raw rest : Bytes} (h : splitVarint b = some (raw, rest)) :
    rest.length < b.length := by
  induction b generalizing raw with
  | nil => cases h
  | cons c b ih =>
    rw [splitVarint] at h
    split at h
    · cases h
      simp
    · obtain ⟨⟨raw', rest'⟩, h', heq⟩ := Option.map_eq_some_iff.mp h
      cases heq
      have := ih h'
      rw [List.length_cons]
      omega

/-- A content takes no byte of what follows it. -/
theorem splitExact_length {n : Nat} {b raw rest : Bytes} (h : splitExact n b = some (raw, rest)) :
    rest.length ≤ b.length := by
  unfold splitExact at h
  split at h
  · cases h
    simp
  · cases h

/-- Nor does a payload. -/
theorem readPayload_length {wireType : Nat} {b rest : Bytes} {p : Payload}
    (h : readPayload wireType b = some (p, rest)) : rest.length ≤ b.length := by
  unfold readPayload at h
  split at h
  · obtain ⟨⟨raw, rest'⟩, h', heq⟩ := Option.map_eq_some_iff.mp h
    cases heq
    exact Nat.le_of_lt (splitVarint_length h')
  · obtain ⟨⟨raw, rest'⟩, h', heq⟩ := Option.map_eq_some_iff.mp h
    cases heq
    exact splitExact_length h'
  · obtain ⟨⟨raw, rest₁⟩, h₁, hrest⟩ := Option.bind_eq_some_iff.mp h
    obtain ⟨size, -, hrest⟩ := Option.bind_eq_some_iff.mp hrest
    obtain ⟨⟨content, rest₂⟩, h₂, heq⟩ := Option.bind_eq_some_iff.mp hrest
    cases heq
    have := splitVarint_length h₁
    have := splitExact_length h₂
    omega
  · obtain ⟨⟨raw, rest'⟩, h', heq⟩ := Option.map_eq_some_iff.mp h
    cases heq
    exact splitExact_length h'
  · cases h

/-- A field takes bytes off the stream. -/
theorem readField_length {b rest : Bytes} {f : Field} (h : readField b = some (f, rest)) :
    rest.length < b.length := by
  obtain ⟨⟨raw, rest₁⟩, h₁, hrest⟩ := Option.bind_eq_some_iff.mp h
  obtain ⟨key, -, hrest⟩ := Option.bind_eq_some_iff.mp hrest
  have hlt := splitVarint_length h₁
  split at hrest
  · cases hrest
  · obtain ⟨⟨p, rest₂⟩, h₂, heq⟩ := Option.bind_eq_some_iff.mp hrest
    cases heq
    have := readPayload_length h₂
    omega

/-- The length of a message is fuel enough. -/
theorem parseLoop_fuel {n : Nat} {b : Bytes} (h : b.length ≤ n) :
    parseLoop n b = parseFields b := by
  unfold parseFields
  induction hb : b.length using Nat.strongRecOn generalizing n b with
  | ind len ih =>
    subst hb
    cases b with
    | nil => cases n <;> rfl
    | cons c b =>
      cases n with
      | zero => simp at h
      | succ n =>
        rw [List.length_cons, parseLoop, parseLoop]
        cases hf : readField (c :: b) with
        | none => rfl
        | some r =>
          obtain ⟨f, rest⟩ := r
          have hlt := readField_length hf
          rw [List.length_cons] at hlt h
          simp only [Option.bind_eq_bind, Option.bind_some]
          rw [ih rest.length (by simpa using hlt) (by omega) rfl]
          rw [ih rest.length (by simpa using hlt) (n := b.length) (by omega) rfl]

/-- One field and the rest of the message. -/
theorem parseFields_cons {b rest : Bytes} {f : Field} (h : readField b = some (f, rest)) :
    parseFields b = (parseFields rest).map (f :: ·) := by
  have hlt := readField_length h
  cases b with
  | nil => simp at hlt
  | cons c b =>
    rw [List.length_cons] at hlt
    rw [parseFields, List.length_cons, parseLoop, h]
    simp only [Option.bind_eq_bind, Option.bind_some]
    rw [parseLoop_fuel (by omega)]
    cases parseFields rest <;> rfl

/-- A message that starts with a field with a length. -/
theorem parseFields_lenField {tag : Nat} {content : Bytes} (htag : 0 < tag) (hlt : tag < 2 ^ 29)
    (hlen : content.length < 2 ^ 32) (rest : Bytes) :
    parseFields (Host.lenField tag content ++ rest) =
      (parseFields rest).map (⟨tag, .len content⟩ :: ·) :=
  parseFields_cons (readField_lenField htag hlt hlen rest)

/-- A message that starts with a field of a varint. -/
theorem parseFields_varintField {tag n : Nat} (htag : 0 < tag) (hlt : tag < 2 ^ 29)
    (hn : n < 2 ^ 64) (rest : Bytes) :
    parseFields (Host.varintField tag n ++ rest) =
      (parseFields rest).map (⟨tag, .varint (Host.varint n)⟩ :: ·) :=
  parseFields_cons (readField_varintField htag hlt hn rest)

/-- The empty message has no field. -/
@[simp] theorem parseFields_nil : parseFields [] = some [] := rfl

/-- A field with a length takes its tag and its length at least. -/
theorem length_lenField (tag : Nat) (content : Bytes) :
    content.length + 2 ≤ (Host.lenField tag content).length := by
  have hpos : ∀ n, 0 < (Host.varint n).length := by
    intro n
    unfold Host.varint
    rw [Host.varintUpTo]
    split <;> simp
  have h₁ := hpos (tag * 8 + 2)
  have h₂ := hpos content.length
  simp only [Host.lenField, List.length_append]
  omega

end CantonSigner
