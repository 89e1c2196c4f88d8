import Mathlib.Data.List.Induction
import Mathlib.Tactic.IntervalCases
import CantonSigner.Lib.Bytes

/-!
# Decimal numerals

The canonical numeral of a number as a byte string, and the number that a string of
digits stands for. A digit string is the numeral of its number exactly when it has no
leading zero (`PlainDecimal`, `decimal_digitsValue`).
-/

namespace ByteCodec

/-- The canonical decimal numeral of a number. -/
def decimal (k : Nat) : Bytes := (Nat.toDigits 10 k).map fun c => UInt8.ofNat c.toNat

/-- The number a string of digits stands for. -/
def digitsValue (s : Bytes) : Nat := s.foldl (fun v c => 10 * v + (c.toNat - 48)) 0

/-- Every byte is a decimal digit. -/
def IsDigits (s : Bytes) : Prop := ∀ c ∈ s, 48 ≤ c.toNat ∧ c.toNat ≤ 57

instance (s : Bytes) : Decidable (IsDigits s) := List.decidableBAll _ s

/-- Digits without a leading zero. -/
structure PlainDecimal (s : Bytes) : Prop where
  ne_nil : s ≠ []
  digits : IsDigits s
  leading : s.head? = some 48 → s = [48]

theorem digitsValue_concat (s : Bytes) (c : UInt8) :
    digitsValue (s ++ [c]) = 10 * digitsValue s + (c.toNat - 48) := by
  simp [digitsValue]

theorem decimal_of_lt {k : Nat} (h : k < 10) : decimal k = [UInt8.ofNat (48 + k)] := by
  rw [decimal, Nat.toDigits_of_lt_base h]
  interval_cases k <;> rfl

theorem decimal_append {q r : Nat} (hq : 0 < q) (hr : r < 10) :
    decimal (10 * q + r) = decimal q ++ [UInt8.ofNat (48 + r)] := by
  rw [← decimal_of_lt hr]
  simp only [decimal]
  rw [← Nat.toDigits_append_toDigits (by decide) hq hr, List.map_append]

/-- A numeral is one digit, or a numeral and one more digit. -/
theorem decimal_induction {P : Nat → Prop} (hlt : ∀ k, k < 10 → P k)
    (happend : ∀ q r, 0 < q → r < 10 → P q → P (10 * q + r)) (k : Nat) : P k := by
  induction k using Nat.strongRecOn with
  | ind k ih =>
    by_cases h : k < 10
    · exact hlt k h
    · rw [← Nat.div_add_mod k 10]
      exact happend (k / 10) (k % 10) (by omega) (by omega) (ih (k / 10) (by omega))

theorem toNat_digit {r : Nat} (hr : r < 10) : (UInt8.ofNat (48 + r)).toNat = 48 + r := by
  rw [UInt8.toNat_ofNat']
  omega

theorem isDigits_decimal (k : Nat) : IsDigits (decimal k) := by
  have hdigit : ∀ r, r < 10 → IsDigits [UInt8.ofNat (48 + r)] := by
    intro r hr c hc
    rw [List.mem_singleton.mp hc, toNat_digit hr]
    omega
  induction k using decimal_induction with
  | hlt k h =>
    rw [decimal_of_lt h]
    exact hdigit k h
  | happend q r hq hr ih =>
    rw [decimal_append hq hr]
    intro c hc
    rcases List.mem_append.mp hc with hc | hc
    · exact ih c hc
    · exact hdigit r hr c hc

theorem digitsValue_decimal (k : Nat) : digitsValue (decimal k) = k := by
  induction k using decimal_induction with
  | hlt k h =>
    rw [decimal_of_lt h]
    simp only [digitsValue, List.foldl_cons, List.foldl_nil, toNat_digit h]
    omega
  | happend q r hq hr ih =>
    rw [decimal_append hq hr, digitsValue_concat, ih, toNat_digit hr]
    omega

theorem decimal_injective {j k : Nat} (h : decimal j = decimal k) : j = k := by
  rw [← digitsValue_decimal j, h, digitsValue_decimal]

theorem digitsValue_lt {s : Bytes} (h : IsDigits s) : digitsValue s < 10 ^ s.length := by
  induction s using List.reverseRecOn with
  | nil => decide
  | append_singleton s c ih =>
    have hs := ih fun c hc => h c (List.mem_append_left _ hc)
    have hc := h c (by simp)
    rw [digitsValue_concat, List.length_append, List.length_singleton, Nat.pow_succ]
    omega

/-- The numeral of the number that digits without a leading zero stand for. -/
theorem decimal_digitsValue {s : Bytes} (h : PlainDecimal s) : decimal (digitsValue s) = s := by
  suffices hpos : decimal (digitsValue s) = s ∧ (s ≠ [48] → 0 < digitsValue s) from hpos.1
  induction s using List.reverseRecOn with
  | nil => exact absurd rfl h.ne_nil
  | append_singleton s c ih =>
    have hc := h.digits c (by simp)
    have hlast : UInt8.ofNat (48 + (c.toNat - 48)) = c := by
      rw [Nat.add_sub_cancel' hc.1, UInt8.ofNat_toNat]
    rw [digitsValue_concat]
    by_cases hnil : s = []
    · subst hnil
      rw [show digitsValue [] = 0 from rfl, Nat.mul_zero, Nat.zero_add, decimal_of_lt (by omega),
        hlast]
      refine ⟨rfl, fun hne => ?_⟩
      have : c.toNat ≠ 48 := fun heq => hne (by
        rw [List.nil_append, UInt8.toNat_inj.mp (heq.trans (by decide : 48 = (48 : UInt8).toNat))])
      omega
    · have hplain : PlainDecimal s := by
        refine ⟨hnil, fun c hc => h.digits c (List.mem_append_left _ hc), fun hhead => ?_⟩
        have hlen := congrArg List.length (h.leading (by rw [List.head?_append, hhead]; rfl))
        simp only [List.length_append, List.length_singleton, Nat.add_eq_right] at hlen
        exact absurd (List.length_eq_zero_iff.mp hlen) hnil
      have hne : s ≠ [48] := by
        rintro rfl
        have := h.leading rfl
        simp at this
      obtain ⟨hs, hpos⟩ := ih hplain
      refine ⟨?_, fun _ => by have := hpos hne; omega⟩
      rw [decimal_append (hpos hne) (by omega), hs, hlast]

/-- Numerals have no leading zero. -/
theorem plainDecimal_decimal (k : Nat) : PlainDecimal (decimal k) := by
  refine ⟨?_, isDigits_decimal k, ?_⟩
  · simp [decimal, Nat.toDigits_ne_nil]
  · induction k using decimal_induction with
    | hlt k h =>
      rw [decimal_of_lt h]
      intro hhead
      rw [Option.some.inj hhead]
    | happend q r hq hr ih =>
      rw [decimal_append hq hr]
      intro hhead
      -- The head is that of the first digits, which are not zero.
      have hq0 : (decimal q).head? = some 48 := by
        cases hd : decimal q with
        | nil => simp [decimal, Nat.toDigits_ne_nil] at hd
        | cons c cs => simpa [hd] using hhead
      have hval := digitsValue_decimal q
      rw [ih hq0] at hval
      exact absurd hval (by simp [digitsValue]; omega)

end ByteCodec
