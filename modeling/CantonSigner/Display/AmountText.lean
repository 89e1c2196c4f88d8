import CantonSigner.Display.Amount
import CantonSigner.Lib.Numeral

/-!
# The amount formatter on the buffer

`format_amount_field` edits the text of an amount where it lies: from the end, zeros behind
the dot are overwritten with NUL, and then the dot itself if it has become the last byte.
`formatAmountField` is that loop, and `formatAmountField_text` shows that a buffer then
reads as `formatAmountText` says. On numerals the text keeps its number
(`formatAmountText_numeral`, `amount_keeps_number`).
-/

namespace CantonSigner

open ByteCodec

namespace DisplayParser

/-! ## The loop -/

/-- The loop of `format_amount_field` (pb_node_display_parser.c:95–98): zeros from index
`last` down to the dot are overwritten. The result is where the loop stops. -/
def cutZeros (dot : Nat) : Nat → Bytes → Nat × Bytes
  | 0, buf => (0, buf)
  | last + 1, buf =>
    if dot < last + 1 ∧ buf[last + 1]? = some 48 then cutZeros dot last (buf.set (last + 1) 0)
    else (last + 1, buf)

/-- `format_amount_field` (pb_node_display_parser.c:75–104) on the buffer of a value. -/
def formatAmountField (buf : Bytes) : Bytes :=
  let len := (cstr buf).length
  if len = 0 then buf
  else
    match (cstr buf).idxOf? 46 with
    | none => buf
    | some dot =>
      let (last, buf) := cutZeros dot (len - 1) buf
      if last = dot then buf.set last 0 else buf

/-- The loop passes over the zeros and stops at the byte before them. -/
theorem cutZeros_zeros {dot last : Nat} {kept : Bytes} (hlen : kept.length = last + 1)
    (hdot : dot ≤ last) (hstop : last = dot ∨ kept[last]? ≠ some 48) (zeros : Nat) (rest : Bytes) :
    cutZeros dot (last + zeros) (kept ++ List.replicate zeros 48 ++ rest) =
      (last, kept ++ List.replicate zeros 0 ++ rest) := by
  induction zeros generalizing rest with
  | zero =>
    rw [Nat.add_zero, List.replicate_zero, List.replicate_zero, List.append_nil]
    cases last with
    | zero => rfl
    | succ last =>
      rw [cutZeros, if_neg]
      rintro ⟨hbehind, hzero⟩
      rcases hstop with heq | hne
      · omega
      · rw [List.getElem?_append_left (by omega)] at hzero
        exact hne hzero
  | succ zeros ih =>
    -- The last zero of the block is overwritten and joins what follows.
    have hlast : last + zeros + 1 = (kept ++ List.replicate zeros 48).length := by
      rw [List.length_append, hlen, List.length_replicate]
      omega
    have hblock : ∀ b : UInt8, kept ++ List.replicate (zeros + 1) b ++ rest =
        kept ++ List.replicate zeros b ++ b :: rest := by
      intro b
      rw [List.replicate_succ', ← List.append_assoc, List.append_assoc, List.singleton_append]
    rw [hblock, hblock, ← Nat.add_assoc, cutZeros, if_pos]
    · rw [hlast, List.set_append_right _ _ (le_refl _), Nat.sub_self, List.set_cons_zero]
      exact ih (0 :: rest)
    · refine ⟨by omega, ?_⟩
      rw [hlast, List.getElem?_append_right (le_refl _), Nat.sub_self]
      rfl

theorem cstr_append_nul {s : Bytes} (h : NulFree s) (rest : Bytes) : cstr (s ++ 0 :: rest) = s := by
  unfold cstr
  rw [List.takeWhile_append_of_pos fun b hb => by simpa using h b hb]
  simp

theorem cstr_append_nuls {s : Bytes} (h : NulFree s) (n : Nat) (rest : Bytes) :
    cstr (s ++ List.replicate n 0 ++ 0 :: rest) = s := by
  cases n with
  | zero => rw [List.replicate_zero, List.append_nil, cstr_append_nul h]
  | succ n => rw [List.replicate_succ, List.append_assoc, List.cons_append, cstr_append_nul h]

theorem idxOf?_append_cons {c : UInt8} {s : Bytes} (h : c ∉ s) (t : Bytes) :
    (s ++ c :: t).idxOf? c = some s.length := by
  induction s with
  | nil => simp [List.idxOf?_cons]
  | cons x s ih =>
    have hx : (x == c) = false := by
      simpa using fun heq : x = c => h (heq ▸ List.mem_cons_self)
    rw [List.cons_append, List.idxOf?_cons, hx, ih fun hc => h (List.mem_cons_of_mem _ hc)]
    simp

/-- A buffer is its text, a NUL and what follows. -/
theorem exists_eq_cstr_append {buf : Bytes} (hnul : 0 ∈ buf) :
    ∃ rest, buf = cstr buf ++ 0 :: rest := by
  have hsplit := List.takeWhile_append_dropWhile (p := (· != 0)) (l := buf)
  cases hdrop : buf.dropWhile (· != 0) with
  | nil => exact absurd (List.dropWhile_eq_nil_iff.mp hdrop 0 hnul) (by decide)
  | cons x rest =>
    have hhead : (buf.dropWhile (· != 0)).head? = some x := by rw [hdrop]; rfl
    have hx : x = 0 := by simpa using head?_dropWhile_ne hhead
    exact ⟨rest, by rw [hdrop, hx] at hsplit; exact hsplit.symm⟩

/-- The formatter on a text with a dot. -/
theorem formatAmountField_dotted {whole fraction : Bytes} {zeros : Nat}
    (hfree : NulFree (whole ++ 46 :: fraction)) (hno : 46 ∉ whole)
    (hlast : fraction.getLast? ≠ some 48) (rest : Bytes) :
    cstr (formatAmountField (whole ++ 46 :: fraction ++ List.replicate zeros 48 ++ 0 :: rest)) =
      if fraction = [] then whole else whole ++ 46 :: fraction := by
  have hwhole : NulFree whole := fun c hc => hfree c (List.mem_append_left _ hc)
  have hfree' : NulFree (whole ++ 46 :: fraction ++ List.replicate zeros 48) := by
    intro c hc
    rcases List.mem_append.mp hc with hc | hc
    · exact hfree c hc
    · rw [(List.mem_replicate.mp hc).2]
      decide
  have hlen : (whole ++ 46 :: fraction ++ List.replicate zeros 48).length =
      whole.length + fraction.length + zeros + 1 := by
    simp only [List.length_append, List.length_cons, List.length_replicate]
    omega
  have hidx : (whole ++ 46 :: fraction ++ List.replicate zeros 48).idxOf? 46 =
      some whole.length := by
    rw [List.append_assoc, List.cons_append, idxOf?_append_cons hno]
  -- The byte before the zeros is the dot itself, or a digit other than zero.
  have hstop : whole.length + fraction.length = whole.length ∨
      (whole ++ 46 :: fraction)[whole.length + fraction.length]? ≠ some 48 := by
    by_cases hnil : fraction = []
    · exact .inl (by rw [hnil]; rfl)
    · right
      obtain ⟨n, hn⟩ : ∃ n, fraction.length = n + 1 :=
        Nat.exists_eq_succ_of_ne_zero fun h0 => hnil (List.length_eq_zero_iff.mp h0)
      rw [List.getElem?_append_right (by omega), Nat.add_sub_cancel_left, hn,
        List.getElem?_cons_succ]
      rwa [List.getLast?_eq_getElem?, hn, Nat.add_sub_cancel] at hlast
  have hkept : (whole ++ 46 :: fraction).length = whole.length + fraction.length + 1 := by
    rw [List.length_append, List.length_cons]
    omega
  have hcut := cutZeros_zeros hkept (Nat.le_add_right _ _) hstop zeros (0 :: rest)
  have hfrom : whole.length + fraction.length + zeros + 1 - 1 =
      whole.length + fraction.length + zeros := rfl
  unfold formatAmountField
  dsimp only
  rw [cstr_append_nul hfree', hlen, if_neg (Nat.succ_ne_zero _), hidx, hfrom]
  dsimp only
  rw [hcut]
  dsimp only
  by_cases hnil : fraction = []
  · -- Nothing of the fraction is left: the dot goes too.
    subst hnil
    rw [List.length_nil, Nat.add_zero, if_pos rfl, if_pos rfl, List.append_assoc, List.append_assoc,
      List.set_append_right _ _ (le_refl _), Nat.sub_self, List.cons_append, List.set_cons_zero,
      cstr_append_nul hwhole]
  · have hne : fraction.length ≠ 0 := fun h0 => hnil (List.length_eq_zero_iff.mp h0)
    rw [if_neg hnil, if_neg (by omega), cstr_append_nuls hfree]

/-- The formatter on a buffer: its text becomes `formatAmountText` of the text. -/
theorem formatAmountField_text {buf : Bytes} (hnul : 0 ∈ buf) :
    cstr (formatAmountField buf) = formatAmountText (cstr buf) := by
  obtain ⟨rest, hbuf⟩ := exists_eq_cstr_append hnul
  have hfree := cstr_nulFree buf
  rcases formatAmountText_trimmed (cstr buf) with
    ⟨hno, heq⟩ | ⟨whole, fraction, zeros, ha, hno, hlast, heq⟩
  · unfold formatAmountField
    dsimp only
    rw [heq]
    split
    · rfl
    · rw [List.idxOf?_eq_none_iff.mpr hno]
  · have hsplit : cstr buf = whole ++ 46 :: fraction ++ List.replicate zeros 48 := by
      rw [ha, List.append_assoc, List.cons_append]
    rw [heq, hbuf, hsplit]
    refine formatAmountField_dotted (fun c hc => hfree c ?_) hno hlast rest
    rw [hsplit]
    exact List.mem_append_left _ hc

/-- The formatter leaves a NUL in the buffer. -/
theorem zero_mem_formatAmountField {buf : Bytes} (hnul : 0 ∈ buf) : 0 ∈ formatAmountField buf := by
  have hcut : ∀ (dot last : Nat) (buf : Bytes), 0 ∈ buf → 0 ∈ (cutZeros dot last buf).2 := by
    intro dot last
    induction last with
    | zero => exact fun buf h => h
    | succ last ih =>
      intro buf h
      rw [cutZeros]
      split
      · rename_i hzero
        exact ih _ (List.mem_iff_getElem?.mpr ⟨last + 1, by
          rw [List.getElem?_set_self (List.getElem?_eq_some_iff.mp hzero.2).1]⟩)
      · exact h
  unfold formatAmountField
  dsimp only
  split
  · exact hnul
  · split
    · exact hnul
    · rename_i dot _
      have h := hcut dot ((cstr buf).length - 1) buf hnul
      generalize cutZeros dot ((cstr buf).length - 1) buf = cut at h ⊢
      obtain ⟨last, buf'⟩ := cut
      dsimp only at h ⊢
      split
      · by_cases hlt : last < buf'.length
        · exact List.mem_set hlt 0
        · rwa [List.set_eq_of_length_le (by omega)]
      · exact h

example : formatAmountField (str "10.500" ++ [0]) = str "10.5" ++ [0, 0, 0] := by decide

/-! ## What is left of a text -/

theorem Trimmed.isPrefix {a t : Bytes} (h : Trimmed a t) : t <+: a := by
  rcases h with ⟨-, rfl⟩ | ⟨whole, fraction, zeros, ha, -, -, heq⟩
  · exact List.prefix_rfl
  · rw [heq, ha]
    split
    · exact List.prefix_append _ _
    · rw [List.prefix_append_right_inj, List.cons_prefix_cons]
      exact ⟨rfl, List.prefix_append _ _⟩

/-- With a dot in it, the text does not end in a zero. -/
theorem Trimmed.getLast?_ne_zero {a t : Bytes} (h : Trimmed a t) (hdot : 46 ∈ t) :
    t.getLast? ≠ some 48 := by
  rcases h with ⟨hno, heq⟩ | ⟨whole, fraction, zeros, -, hno, hlast, heq⟩
  · exact absurd (heq ▸ hdot) hno
  · rw [heq] at hdot ⊢
    by_cases hnil : fraction = []
    · rw [if_pos hnil] at hdot
      exact absurd hdot hno
    · rwa [if_neg hnil, List.append_cons, List.getLast?_append_of_ne_nil _ hnil]

/-! ## Numerals -/

/-- What the formatter makes of a numeral: the zeros at the end of its fraction go, and the
dot with them if no digit is left. -/
theorem formatAmountText_numeral (n : Numeral) :
    ∃ fraction zeros, n.fractionDigits = fraction ++ List.replicate zeros 48 ∧
      fraction.getLast? ≠ some 48 ∧
      formatAmountText n.text = n.integerText ++ if fraction = [] then [] else 46 :: fraction := by
  have hno := n.dot_notMem_integerText
  unfold Numeral.text Numeral.fractionDigits
  cases hf : n.fraction with
  | none =>
    refine ⟨[], 0, rfl, nofun, ?_⟩
    rw [if_pos rfl, List.append_nil]
    unfold formatAmountText
    rw [if_neg (by simpa using hno)]
  | some f =>
    dsimp only [Option.getD_some]
    rcases formatAmountText_trimmed (n.integerText ++ 46 :: f) with
      ⟨hdot, -⟩ | ⟨whole, fraction, zeros, ha, hno', hlast, heq⟩
    · exact absurd (by simp) hdot
    · obtain ⟨hwhole, hfraction⟩ := append_cons_injective hno hno' ha
      refine ⟨fraction, zeros, hfraction, hlast, ?_⟩
      rw [heq, hwhole]
      split
      · rw [List.append_nil]
      · rfl

/-- The numeral that the formatter leaves. -/
theorem formatAmountText_numeral_text (n : Numeral) :
    ∃ m : Numeral, m.text = formatAmountText n.text ∧ m.integerText = n.integerText ∧
      m.value = n.value := by
  obtain ⟨fraction, zeros, hfraction, -, heq⟩ := formatAmountText_numeral n
  have hdigits : IsDigits fraction := by
    intro c hc
    refine n.fractionDigits_digits c ?_
    rw [hfraction]
    exact List.mem_append_left _ hc
  have hvalue : fractionValue n.fractionDigits = fractionValue fraction := by
    rw [hfraction, fractionValue_append_zeros]
  by_cases hnil : fraction = []
  · refine ⟨⟨n.sign, n.whole, none, n.whole_digits, nofun⟩, ?_, rfl, ?_⟩
    · rw [heq, if_pos hnil]
      rfl
    · unfold Numeral.value
      rw [hvalue, hnil]
      rfl
  · refine ⟨⟨n.sign, n.whole, some fraction, n.whole_digits, ?_⟩, ?_, rfl, ?_⟩
    · rintro f hf
      rw [← Option.some.inj hf]
      exact hdigits
    · rw [heq, if_neg hnil]
      rfl
    · unfold Numeral.value
      rw [hvalue]
      rfl

/-- Numerals with the same text before the dot and the same value are formatted alike. -/
theorem formatAmountText_canonical {n m : Numeral} (hinteger : m.integerText = n.integerText)
    (hvalue : m.value = n.value) : formatAmountText m.text = formatAmountText n.text := by
  obtain ⟨f, zeros, hf, hflast, hfeq⟩ := formatAmountText_numeral n
  obtain ⟨g, zeros', hg, hglast, hgeq⟩ := formatAmountText_numeral m
  have hdigits : ∀ {n : Numeral} {f : Bytes} {z : Nat},
      n.fractionDigits = f ++ List.replicate z 48 → IsDigits f := by
    intro n f z h c hc
    refine n.fractionDigits_digits c ?_
    rw [h]
    exact List.mem_append_left _ hc
  obtain ⟨hsign, hwhole⟩ := Numeral.integerText_injective hinteger
  unfold Numeral.value at hvalue
  rw [hsign, hwhole, hf, hg, fractionValue_append_zeros, fractionValue_append_zeros] at hvalue
  have hfractions : fractionValue g = fractionValue f :=
    add_left_cancel (Sign.apply_injective hvalue)
  rw [hfeq, hgeq, hinteger,
    fractionValue_injective (hdigits hg) (hdigits hf) hglast hflast hfractions]

/-- The formatter keeps the number of a numeral, leaves neither a zero at the end of a
fraction nor a dot at the end, only cuts, and has nothing more to cut the second time.
Numerals with the same text before the dot and the same value are shown alike. -/
theorem amount_keeps_number (n : Numeral) (rest : Bytes) :
    let formatted := formatAmountField (n.text ++ 0 :: rest)
    Denotes (cstr formatted) n.value ∧
      (46 ∈ cstr formatted → (cstr formatted).getLast? ≠ some 48) ∧
      (cstr formatted).getLast? ≠ some 46 ∧
      cstr formatted <+: n.text ∧
      cstr (formatAmountField formatted) = cstr formatted ∧
      ∀ (m : Numeral) (rest' : Bytes), m.integerText = n.integerText → m.value = n.value →
        cstr (formatAmountField (m.text ++ 0 :: rest')) = cstr formatted := by
  intro formatted
  have hbuf : ∀ (m : Numeral) (rest : Bytes), 0 ∈ m.text ++ 0 :: rest := fun m rest => by simp
  have htext : ∀ (m : Numeral) (rest : Bytes),
      cstr (formatAmountField (m.text ++ 0 :: rest)) = formatAmountText m.text := by
    intro m rest
    rw [formatAmountField_text (hbuf m rest), cstr_append_nul m.nulFree_text]
  have hformatted : cstr formatted = formatAmountText n.text := htext n rest
  -- the shown text is itself a numeral, of the same value
  obtain ⟨m, hm, hminteger, hmvalue⟩ := formatAmountText_numeral_text n
  obtain ⟨fraction, zeros, hfraction, hlast, heq⟩ := formatAmountText_numeral n
  have hdot := n.dot_notMem_integerText
  have hdotf : 46 ∉ fraction := by
    intro hmem
    refine Numeral.dot_notMem_digits n.fractionDigits_digits ?_
    rw [hfraction]
    exact List.mem_append_left _ hmem
  rw [hformatted]
  refine ⟨⟨m, hm, hmvalue⟩, ?_, ?_, ?_, ?_, fun m rest' hi hv => ?_⟩
  · exact (formatAmountText_trimmed n.text).getLast?_ne_zero
  · -- a dot is only left before a digit
    rw [heq]
    by_cases hnil : fraction = []
    · rw [if_pos hnil, List.append_nil]
      exact fun h => hdot (List.mem_of_getLast? h)
    · rw [if_neg hnil, List.append_cons, List.getLast?_append_of_ne_nil _ hnil]
      exact fun h => hdotf (List.mem_of_getLast? h)
  · exact (formatAmountText_trimmed n.text).isPrefix
  · rw [formatAmountField_text (zero_mem_formatAmountField (hbuf n rest)), hformatted, ← hm]
    exact (formatAmountText_canonical hminteger hmvalue).trans hm.symm
  · rw [htext m rest', formatAmountText_canonical hi hv]

end DisplayParser

end CantonSigner
