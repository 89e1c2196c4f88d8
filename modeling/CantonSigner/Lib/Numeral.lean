import Mathlib.Algebra.Order.Field.Rat
import Mathlib.Tactic.Linarith
import CantonSigner.Lib.Decimal

/-!
# Decimal numerals with a fraction

The texts `[+-]?digits(.digits)?` and the rational numbers they stand for. Zeros at the
end of a fraction do not change its value (`fractionValue_append_zeros`), and without such
zeros the value determines the digits (`fractionValue_injective`).
-/

namespace ByteCodec

/-! ## Fractions -/

/-- The number that the digits after a decimal point stand for. -/
def fractionValue : Bytes → ℚ
  | [] => 0
  | c :: s => (((c.toNat - 48 : ℕ) : ℚ) + fractionValue s) / 10

theorem fractionValue_replicate_zero (n : Nat) : fractionValue (List.replicate n 48) = 0 := by
  induction n with
  | zero => rfl
  | succ n ih =>
    rw [List.replicate_succ, fractionValue, ih]
    simp

theorem fractionValue_append_zeros (s : Bytes) (n : Nat) :
    fractionValue (s ++ List.replicate n 48) = fractionValue s := by
  induction s with
  | nil => exact fractionValue_replicate_zero n
  | cons c s ih => rw [List.cons_append, fractionValue, fractionValue, ih]

theorem IsDigits.head {c : UInt8} {s : Bytes} (h : IsDigits (c :: s)) :
    48 ≤ c.toNat ∧ c.toNat ≤ 57 := h c List.mem_cons_self

theorem IsDigits.tail {c : UInt8} {s : Bytes} (h : IsDigits (c :: s)) : IsDigits s :=
  fun b hb => h b (List.mem_cons_of_mem _ hb)

theorem fractionValue_nonneg (s : Bytes) : 0 ≤ fractionValue s := by
  induction s with
  | nil => exact le_refl 0
  | cons c s ih =>
    have hdigit : (0 : ℚ) ≤ ((c.toNat - 48 : ℕ) : ℚ) := Nat.cast_nonneg _
    rw [fractionValue]
    linarith

theorem fractionValue_lt_one {s : Bytes} (h : IsDigits s) : fractionValue s < 1 := by
  induction s with
  | nil => exact one_pos
  | cons c s ih =>
    have hdigit : ((c.toNat - 48 : ℕ) : ℚ) ≤ 9 := by
      have := h.head
      exact_mod_cast (by omega : c.toNat - 48 ≤ 9)
    have hrest := ih h.tail
    rw [fractionValue]
    linarith

theorem getLast?_tail_ne {c b : UInt8} {s : Bytes} (h : (c :: s).getLast? ≠ some b) :
    s.getLast? ≠ some b := by
  cases s with
  | nil => exact fun hs => by simp at hs
  | cons c' s => rwa [List.getLast?_cons_cons] at h

/-- Digits that end in another digit than zero stand for a positive number. -/
theorem fractionValue_pos {s : Bytes} (hdigits : IsDigits s) (hne : s ≠ [])
    (hlast : s.getLast? ≠ some 48) : 0 < fractionValue s := by
  induction s with
  | nil => exact absurd rfl hne
  | cons c s ih =>
    rw [fractionValue]
    by_cases hs : s = []
    · subst hs
      have hc : c.toNat ≠ 48 := by
        intro hc
        have : c = 48 := UInt8.toNat_inj.mp hc
        exact hlast (by rw [this]; rfl)
      have hdigit : (1 : ℚ) ≤ ((c.toNat - 48 : ℕ) : ℚ) := by
        have := hdigits.head
        exact_mod_cast (by omega : 1 ≤ c.toNat - 48)
      rw [fractionValue]
      linarith
    · have hrest := ih hdigits.tail hs (getLast?_tail_ne hlast)
      have hdigit : (0 : ℚ) ≤ ((c.toNat - 48 : ℕ) : ℚ) := Nat.cast_nonneg _
      linarith

/-- A digit and a number below one determine each other's sum. -/
theorem digit_of_sum_eq {j k : Nat} {p q : ℚ} (hp : 0 ≤ p) (hp1 : p < 1) (hq : 0 ≤ q) (hq1 : q < 1)
    (h : (j : ℚ) + p = k + q) : j = k := by
  have hlt : (j : ℚ) < k + 1 := by linarith
  have hgt : (k : ℚ) < j + 1 := by linarith
  have hlt' : j < k + 1 := by exact_mod_cast hlt
  have hgt' : k < j + 1 := by exact_mod_cast hgt
  omega

/-- Without zeros at the end, the value determines the digits. -/
theorem fractionValue_injective {a b : Bytes} (ha : IsDigits a) (hb : IsDigits b)
    (hlasta : a.getLast? ≠ some 48) (hlastb : b.getLast? ≠ some 48)
    (h : fractionValue a = fractionValue b) : a = b := by
  induction a generalizing b with
  | nil =>
    by_contra hne
    have hpos := fractionValue_pos hb (Ne.symm hne) hlastb
    rw [← h] at hpos
    exact lt_irrefl _ hpos
  | cons c a ih =>
    cases b with
    | nil =>
      have hpos := fractionValue_pos ha (List.cons_ne_nil _ _) hlasta
      rw [h] at hpos
      exact absurd hpos (lt_irrefl _)
    | cons c' b =>
      rw [fractionValue, fractionValue] at h
      have hsum : ((c.toNat - 48 : ℕ) : ℚ) + fractionValue a =
          ((c'.toNat - 48 : ℕ) : ℚ) + fractionValue b := by linarith
      -- The first digit is the integer part of ten times the value.
      have hdigit := digit_of_sum_eq (fractionValue_nonneg a) (fractionValue_lt_one ha.tail)
        (fractionValue_nonneg b) (fractionValue_lt_one hb.tail) hsum
      have hc : c = c' := by
        have := ha.head
        have := hb.head
        exact UInt8.toNat_inj.mp (by omega)
      rw [hdigit] at hsum
      have htail : fractionValue a = fractionValue b := by linarith
      rw [hc, ih ha.tail hb.tail (getLast?_tail_ne hlasta) (getLast?_tail_ne hlastb) htail]

/-! ## Numerals -/

/-- The sign of a numeral, as it is written. -/
inductive Sign where
  | unsigned
  | plus
  | minus
deriving Repr, DecidableEq

/-- The text of a sign. -/
def Sign.text : Sign → Bytes
  | .unsigned => []
  | .plus => str "+"
  | .minus => str "-"

theorem Sign.nulFree_text (σ : Sign) : NulFree σ.text := by
  cases σ
  case unsigned => exact fun c hc => absurd hc List.not_mem_nil
  case plus => show NulFree (str "+"); decide
  case minus => show NulFree (str "-"); decide

/-- A number with the sign. -/
def Sign.apply : Sign → ℚ → ℚ
  | .minus, q => -q
  | _, q => q

theorem Sign.apply_injective {σ : Sign} {p q : ℚ} (h : σ.apply p = σ.apply q) : p = q := by
  cases σ with
  | unsigned => exact h
  | plus => exact h
  | minus => exact neg_injective h

/-- A numeral `[+-]?digits(.digits)?`. -/
structure Numeral where
  sign : Sign
  whole : Bytes
  fraction : Option Bytes
  whole_digits : IsDigits whole
  fraction_digits : ∀ f ∈ fraction, IsDigits f

namespace Numeral

/-- The text before the decimal point. -/
def integerText (n : Numeral) : Bytes := n.sign.text ++ n.whole

/-- The text of a numeral. -/
def text (n : Numeral) : Bytes :=
  n.integerText ++ match n.fraction with
    | none => []
    | some f => 46 :: f

/-- The digits after the decimal point. -/
def fractionDigits (n : Numeral) : Bytes := n.fraction.getD []

/-- The rational number a numeral stands for. -/
def value (n : Numeral) : ℚ :=
  n.sign.apply ((digitsValue n.whole : ℕ) + fractionValue n.fractionDigits)

variable {n m : Numeral}

theorem fractionDigits_digits (n : Numeral) : IsDigits n.fractionDigits := by
  unfold fractionDigits
  cases h : n.fraction with
  | none => exact fun c hc => absurd hc List.not_mem_nil
  | some f => exact n.fraction_digits f h

theorem integerText_injective (h : n.integerText = m.integerText) :
    n.sign = m.sign ∧ n.whole = m.whole := by
  -- A digit is neither a plus nor a minus.
  have hsign : ∀ {w : Bytes} {c : UInt8} {s : Bytes}, IsDigits w → (c = 43 ∨ c = 45) →
      w ≠ c :: s := by
    rintro w c s hw hc rfl
    have := hw.head
    rcases hc with rfl | rfl
    · exact absurd this.1 (by decide)
    · exact absurd this.1 (by decide)
  unfold integerText at h
  cases hn : n.sign <;> cases hm : m.sign <;> rw [hn, hm] at h
  case unsigned.unsigned => exact ⟨rfl, h⟩
  case plus.plus => exact ⟨rfl, List.append_cancel_left h⟩
  case minus.minus => exact ⟨rfl, List.append_cancel_left h⟩
  case unsigned.plus => exact absurd h (hsign n.whole_digits (.inl rfl))
  case unsigned.minus => exact absurd h (hsign n.whole_digits (.inr rfl))
  case plus.unsigned => exact absurd h.symm (hsign m.whole_digits (.inl rfl))
  case minus.unsigned => exact absurd h.symm (hsign m.whole_digits (.inr rfl))
  case plus.minus => exact absurd (List.cons.inj h).1 (by decide)
  case minus.plus => exact absurd (List.cons.inj h).1 (by decide)

theorem dot_notMem_digits {s : Bytes} (h : IsDigits s) : 46 ∉ s :=
  fun hmem => absurd (h 46 hmem).1 (by decide)

theorem dot_notMem_integerText (n : Numeral) : 46 ∉ n.integerText := by
  intro hmem
  rcases List.mem_append.mp hmem with hmem | hmem
  · cases hsign : n.sign <;> rw [hsign] at hmem <;> revert hmem <;> decide
  · exact dot_notMem_digits n.whole_digits hmem

theorem nulFree_text (n : Numeral) : NulFree n.text := by
  have hdigits : ∀ {s : Bytes}, IsDigits s → NulFree s := by
    rintro s hs c hc rfl
    exact absurd (hs 0 hc).1 (by decide)
  intro c hc
  rcases List.mem_append.mp hc with hc | hc
  · rcases List.mem_append.mp hc with hc | hc
    · exact n.sign.nulFree_text c hc
    · exact hdigits n.whole_digits c hc
  · cases hf : n.fraction with
    | none => rw [hf] at hc; exact absurd hc List.not_mem_nil
    | some f =>
      rw [hf] at hc
      rcases List.mem_cons.mp hc with rfl | hc
      · decide
      · exact hdigits (n.fraction_digits f hf) c hc

end Numeral

/-- A split at the first occurrence of a byte is unique. -/
theorem append_cons_injective {c : UInt8} {a b s t : Bytes} (ha : c ∉ a) (hb : c ∉ b)
    (h : a ++ c :: s = b ++ c :: t) : a = b ∧ s = t := by
  induction a generalizing b with
  | nil =>
    cases b with
    | nil => exact ⟨rfl, (List.cons.inj h).2⟩
    | cons x b =>
      have := (List.cons.inj h).1
      exact absurd (this ▸ List.mem_cons_self) hb
  | cons x a ih =>
    cases b with
    | nil =>
      have := (List.cons.inj h).1
      exact absurd (this ▸ List.mem_cons_self) ha
    | cons y b =>
      obtain ⟨hxy, htail⟩ := List.cons.inj h
      obtain ⟨hab, hst⟩ := ih (fun hc => ha (List.mem_cons_of_mem _ hc))
        (fun hc => hb (List.mem_cons_of_mem _ hc)) htail
      exact ⟨by rw [hxy, hab], hst⟩

/-- The number a text stands for. -/
def Denotes (s : Bytes) (q : ℚ) : Prop := ∃ n : Numeral, n.text = s ∧ n.value = q

end ByteCodec
