import CantonSigner.Hash.Encoding

/-!
# Labels, keys and constructors

The callbacks for record labels, variant constructors and TextMap keys read into a buffer
of 64 bytes, and nanopb calls them again for what they leave of a longer string. Each call
encodes what it has read as a string of its own, so from 64 bytes on a string is written in
pieces (`stringPieces`), and an empty key that the wire does not carry is not written at
all.

- `length_putPieces`: every piece brings its own length;
- `strings_whole_iff`: the strings that are written whole.
-/

namespace CantonSigner

open ByteCodec HashingParser

/-! ## Pieces -/

/-- The pieces of a string make it up. -/
theorem flatten_stringPieces : ∀ (fuel : Nat) (s : Bytes), s.length < fuel →
    (stringPieces fuel s).flatten = s
  | 0, _, h => by cases h
  | fuel + 1, s, h => by
    unfold stringPieces
    by_cases hshort : s.length < defaultDecodeBufferSize
    · rw [if_pos hshort]
      simp
    · rw [if_neg hshort, List.flatten_cons, flatten_stringPieces fuel, List.take_append_drop]
      have hpos : 0 < defaultDecodeBufferSize - 1 := by decide
      rw [List.length_drop]
      omega

/-- A string that does not fit the buffer comes in more than one piece. -/
theorem one_lt_stringPieces {fuel : Nat} {s : Bytes} (hfuel : s.length ≤ fuel)
    (hlong : defaultDecodeBufferSize ≤ s.length) : 1 < (stringPieces (fuel + 1) s).length := by
  have hfuel' : ∃ n, fuel = n + 1 := ⟨fuel - 1, by
    have : 0 < defaultDecodeBufferSize := by decide
    omega⟩
  obtain ⟨n, rfl⟩ := hfuel'
  have hrest : ∀ t, stringPieces (n + 1) t ≠ [] := by
    intro t
    unfold stringPieces
    split <;> exact List.cons_ne_nil _ _
  rw [stringPieces, if_neg (Nat.not_lt.mpr hlong), List.length_cons]
  have := List.length_pos_iff.mpr (hrest (s.drop (defaultDecodeBufferSize - 1)))
  omega

/-- The bytes of a piece, after a tag. -/
def pieceBytes (tag piece : Bytes) : Bytes := tag ++ strBytes piece

/-- Every piece brings a tag and a length. -/
theorem length_putPieces (tag : Bytes) (pieces : List Bytes) :
    (pieces.flatMap (pieceBytes tag)).length =
      (tag.length + 4) * pieces.length + pieces.flatten.length := by
  induction pieces with
  | nil => rfl
  | cons piece pieces ih =>
    simp only [List.flatMap_cons, List.length_append, ih, pieceBytes, strBytes, length_int32Bytes,
      List.length_cons, List.flatten_cons]
    ring

theorem nulFree_of_mem_stringPieces {fuel : Nat} {s piece : Bytes} (h : NulFree s)
    (hmem : piece ∈ stringPieces fuel s) : NulFree piece := by
  induction fuel generalizing s with
  | zero => cases hmem
  | succ fuel ih =>
    unfold stringPieces at hmem
    split at hmem
    · rw [List.mem_singleton.mp hmem]
      exact h
    · rcases List.mem_cons.mp hmem with rfl | hmem
      · exact fun c hc => h c (List.mem_of_mem_take hc)
      · exact ih (fun c hc => h c (List.mem_of_mem_drop hc)) hmem

/-- A fold that writes tagged pieces. -/
theorem foldl_pieces (tag : Bytes) (w : Hw) {pieces : List Bytes}
    (h : ∀ piece ∈ pieces, NulFree piece) :
    pieces.foldl (fun w piece => encodeString (w.put tag) (some (cstr piece))) w =
      w.put (pieces.flatMap (pieceBytes tag)) := by
  induction pieces generalizing w with
  | nil => simp
  | cons piece pieces ih =>
    rw [List.foldl_cons, ih _ fun p hp => h p (List.mem_cons_of_mem _ hp),
      cstr_eq_self (h piece List.mem_cons_self)]
    simp [encodeString, encodeBytes_eq, pieceBytes]

theorem putLabel_pieces (w : Hw) {s : Bytes} (h : NulFree s) :
    putLabel w s = w.put ((stringPieces (s.length + 1) s).flatMap (pieceBytes [0x01])) :=
  foldl_pieces [0x01] w fun _ hpiece => nulFree_of_mem_stringPieces h hpiece

theorem putName_pieces (w : Hw) {s : Bytes} (h : NulFree s) :
    putName w s = w.put ((stringPieces (s.length + 1) s).flatMap (pieceBytes [])) := by
  have hpieces : ∀ piece ∈ stringPieces (s.length + 1) s, NulFree piece :=
    fun _ hpiece => nulFree_of_mem_stringPieces h hpiece
  have hfold := foldl_pieces [] w hpieces
  simp only [Hw.put_nil] at hfold
  exact hfold

/-- The pieces are the string as a whole exactly if it fits the buffer. -/
theorem pieces_whole_iff (tag s : Bytes) :
    (stringPieces (s.length + 1) s).flatMap (pieceBytes tag) = pieceBytes tag s ↔
      s.length < defaultDecodeBufferSize := by
  constructor
  · intro h
    by_contra hlong
    have hpieces := one_lt_stringPieces (Nat.le_refl s.length) (Nat.not_lt.mp hlong)
    have hlen := congrArg List.length h
    rw [length_putPieces, flatten_stringPieces _ _ (Nat.lt_succ_self _)] at hlen
    simp only [pieceBytes, strBytes, List.length_append, length_int32Bytes] at hlen
    have hmul : (tag.length + 4) * 2 ≤ (tag.length + 4) * (stringPieces (s.length + 1) s).length :=
      Nat.mul_le_mul_left _ hpieces
    omega
  · intro hshort
    rw [stringPieces, if_pos hshort]
    simp

/-! ## Occurrences -/

/-- How a string can stand in a message: an empty one may be left out. -/
inductive SentAs (s : Bytes) : Option Bytes → Prop where
  | present : SentAs s (some s)
  | leftOut : s = [] → SentAs s none

/-- The occurrences of a label or a key. -/
def nameOccurrences : Option Bytes → NamedValue
  | none => .nil
  | some s => .name s .nil

/-- The occurrences of a constructor. -/
def constructorOccurrences : Option Bytes → Variant
  | none => .nil
  | some s => .constructor s .nil

theorem VState.put_inj {st : VState} {a b : Bytes} : st.put a = st.put b ↔ a = b := by
  constructor
  · intro h
    have hbytes := congrArg (fun t : VState => t.hw.bytes) h
    exact List.append_cancel_left hbytes
  · rintro rfl
    rfl

variable (d : Device) (stack : List Frame) (st : VState) {s : Bytes}

theorem label_whole_iff (h : NulFree s) :
    hashRecordFieldItems d stack (.name s .nil) st = some (st.put (0x01 :: strBytes s)) ↔
      s.length < defaultDecodeBufferSize := by
  rw [← pieces_whole_iff [0x01] s]
  show some (st.enc fun w => putLabel w s) = _ ↔ _
  rw [VState.enc, putLabel_pieces _ h, Option.some_inj]
  exact VState.put_inj

theorem key_whole_iff (h : NulFree s) :
    hashTextMapEntryItems d stack (.name s .nil) st = some (st.put (strBytes s)) ↔
      s.length < defaultDecodeBufferSize := by
  rw [← pieces_whole_iff [] s]
  show some (st.enc fun w => putName w s) = _ ↔ _
  rw [VState.enc, putName_pieces _ h, Option.some_inj]
  exact VState.put_inj

theorem constructor_whole_iff (h : NulFree s) :
    hashVariant d stack (.constructor s .nil) st = some (st.put (strBytes s)) ↔
      s.length < defaultDecodeBufferSize := by
  rw [← pieces_whole_iff [] s]
  show some (st.enc fun w => putName w s) = _ ↔ _
  rw [VState.enc, putName_pieces _ h, Option.some_inj]
  exact VState.put_inj

/-- Nothing is written for a key that is left out. -/
theorem key_leftOut : hashTextMapEntryItems d stack .nil st ≠ some (st.put (strBytes [])) := by
  intro h
  have hbytes := congrArg (fun t : Option VState => (t.map (·.hw.bytes.length)).getD 0) h
  simp [hashTextMapEntryItems, VState.put, strBytes] at hbytes

/-- **Labels, keys and constructors are written whole** exactly if they fit the buffer of
their callback and, for an empty key, stand in the message. -/
theorem strings_whole_iff {form : Option Bytes} (h : NulFree s) (hsent : SentAs s form) :
    (1 ≤ s.length →
      (hashRecordFieldItems d stack (nameOccurrences form) st =
        some (st.put (0x01 :: strBytes s)) ↔ s.length < defaultDecodeBufferSize)) ∧
    (1 ≤ s.length →
      (hashVariant d stack (constructorOccurrences form) st = some (st.put (strBytes s)) ↔
        s.length < defaultDecodeBufferSize)) ∧
    (hashTextMapEntryItems d stack (nameOccurrences form) st = some (st.put (strBytes s)) ↔
      s.length < defaultDecodeBufferSize ∧ form.isSome = true) := by
  cases hsent with
  | present =>
    refine ⟨fun _ => label_whole_iff d stack st h, fun _ => constructor_whole_iff d stack st h, ?_⟩
    exact (key_whole_iff d stack st h).trans (and_iff_left rfl).symm
  | leftOut hempty =>
    subst hempty
    refine ⟨fun hpos => absurd hpos (by decide), fun hpos => absurd hpos (by decide), ?_⟩
    exact iff_of_false (key_leftOut d stack st) (fun hpresent => by cases hpresent.2)

/-- A label of 63 bytes. -/
theorem strings_whole_iff_longest :
    (1 ≤ (List.replicate 63 (97 : UInt8)).length →
      (hashRecordFieldItems testDevice [] (nameOccurrences (some (List.replicate 63 97)))
          ⟨⟨[], .ok⟩, -1⟩ =
        some (VState.put ⟨⟨[], .ok⟩, -1⟩ (0x01 :: strBytes (List.replicate 63 97))) ↔
        (List.replicate 63 (97 : UInt8)).length < defaultDecodeBufferSize)) ∧
    (1 ≤ (List.replicate 63 (97 : UInt8)).length →
      (hashVariant testDevice [] (constructorOccurrences (some (List.replicate 63 97)))
          ⟨⟨[], .ok⟩, -1⟩ =
        some (VState.put ⟨⟨[], .ok⟩, -1⟩ (strBytes (List.replicate 63 97))) ↔
        (List.replicate 63 (97 : UInt8)).length < defaultDecodeBufferSize)) ∧
    (hashTextMapEntryItems testDevice [] (nameOccurrences (some (List.replicate 63 97)))
        ⟨⟨[], .ok⟩, -1⟩ =
      some (VState.put ⟨⟨[], .ok⟩, -1⟩ (strBytes (List.replicate 63 97))) ↔
      (List.replicate 63 (97 : UInt8)).length < defaultDecodeBufferSize ∧
        (some (List.replicate 63 (97 : UInt8))).isSome = true) :=
  strings_whole_iff testDevice [] ⟨⟨[], .ok⟩, -1⟩
    (fun c hc => by rw [List.eq_of_mem_replicate hc]; decide) .present

/-- A label of 64 bytes is written as one of 63 and one of a single byte, and an empty key
that is not sent is not written. -/
theorem long_label_split :
    hashRecordFieldItems testDevice [] (.name (List.replicate 64 97) .nil) ⟨⟨[], .ok⟩, -1⟩ =
        some (VState.put ⟨⟨[], .ok⟩, -1⟩
          (0x01 :: strBytes (List.replicate 63 97) ++ 0x01 :: strBytes [97])) ∧
      hashRecordFieldItems testDevice [] (.name (List.replicate 64 97) .nil) ⟨⟨[], .ok⟩, -1⟩ ≠
        some (VState.put ⟨⟨[], .ok⟩, -1⟩ (0x01 :: strBytes (List.replicate 64 97))) ∧
      hashTextMapEntryItems testDevice [] (nameOccurrences none) ⟨⟨[], .ok⟩, -1⟩ ≠
        some (VState.put ⟨⟨[], .ok⟩, -1⟩ (strBytes [])) := by
  decide +kernel

end CantonSigner
