import CantonSigner.Display.Amount
import CantonSigner.Display.Found
import CantonSigner.Model.Host
import CantonSigner.Model.TestDevice

/-!
# What a field stores

A field keeps its value as a block of bytes without a type. The first value that is found for it
is stored, of whatever wire type; `Expected` says which wire types its formatter reads, and
`readAs_iff_expected` that a block is read as it was stored exactly for these.
-/

namespace CantonSigner

open ByteCodec

namespace DisplayParser

/-! ## What is stored -/

/-- The wire types that `find_tx_field` stores. -/
def stores : Which → Bool
  | .prim (.party _) | .prim (.numeric _) | .prim (.text _) | .prim (.timestamp _) => true
  | _ => false

/-- The block of a value in a field that had none; neither an empty text nor one that is too long
is kept. -/
def storedBlock : Which → Option Bytes
  | .prim (.party s) | .prim (.numeric s) | .prim (.text s) =>
    if s.isEmpty || maxFieldValueLen < s.length then none else some (s ++ [0])
  | .prim (.timestamp t) => some (beBytes 8 (t % 2 ^ 64).toNat)
  | _ => none

/-- The value that the block of a field was taken from. -/
def storedFrom : List Which → TxField → Option Which
  | [], _ => none
  | w :: ws, f =>
    if f.value.isNone && (matchField w f).value.isSome then some w
    else storedFrom ws (matchField w f)

variable {f f₀ : TxField} {w : Which} {ws : List Which} {b : Bytes}

theorem matchField_other (h : stores w = false) (f : TxField) :
    (matchField w f).matched = f.matched ∧ (matchField w f).value = f.value := by
  cases w with
  | prim p =>
    cases p with
    | party s => cases h
    | numeric s => cases h
    | text s => cases h
    | timestamp t => cases h
    | bool b => exact ⟨rfl, rfl⟩
    | int64 v => exact ⟨rfl, rfl⟩
    | date v => exact ⟨rfl, rfl⟩
    | contractId s => exact ⟨rfl, rfl⟩
  | none => exact ⟨rfl, rfl⟩
  | unit => exact ⟨rfl, rfl⟩
  | list => exact ⟨rfl, rfl⟩
  | optional => exact ⟨rfl, rfl⟩
  | textMap => exact ⟨rfl, rfl⟩
  | genMap => exact ⟨rfl, rfl⟩
  | record => exact ⟨rfl, rfl⟩
  | variant => exact ⟨rfl, rfl⟩
  | enum => exact ⟨rfl, rfl⟩

theorem matchField_first (h : stores w = true) (hnew : f.matched = false)
    (hempty : f.value = none) :
    (matchField w f).matched = true ∧ (matchField w f).value = storedBlock w := by
  -- a text is stored if it is there and fits
  have htext : ∀ s, (storeValue f (.text s)).matched = true ∧ (storeValue f (.text s)).value =
      if s.isEmpty || maxFieldValueLen < s.length then none else some (s ++ [0]) := by
    intro s
    unfold storeValue
    rw [if_neg (by simp [hnew])]
    dsimp only
    by_cases hs : s.isEmpty = true
    · simp [hs, hempty]
    · by_cases hlong : maxFieldValueLen < s.length
      · simp [hs, hlong, hempty]
      · simp [hs, hlong]
  cases w with
  | prim p =>
    cases p with
    | party s => exact htext s
    | numeric s => exact htext s
    | text s => exact htext s
    -- a timestamp always fits
    | timestamp t =>
      show (storeValue f (.timestamp t)).matched = true ∧ (storeValue f (.timestamp t)).value = _
      unfold storeValue
      rw [if_neg (by simp [hnew])]
      exact ⟨rfl, rfl⟩
    | bool b => cases h
    | int64 v => cases h
    | date v => cases h
    | contractId s => cases h
  | none => cases h
  | unit => cases h
  | list => cases h
  | optional => cases h
  | textMap => cases h
  | genMap => cases h
  | record => cases h
  | variant => cases h
  | enum => cases h

theorem matchField_again (h : f.matched = true) (w : Which) :
    (matchField w f).matched = true ∧ (matchField w f).value = f.value := by
  have hstore : ∀ v, storeValue f v = { f with storeFailed := true } := fun v => if_pos h
  by_cases hw : stores w = true
  · unfold matchField
    split
    · rw [hstore]
      exact ⟨h, rfl⟩
    · rw [hstore]
      exact ⟨h, rfl⟩
    · rw [hstore]
      exact ⟨h, rfl⟩
    · rw [hstore]
      exact ⟨h, rfl⟩
    · exact ⟨h, rfl⟩
    · exact ⟨h, rfl⟩
  · obtain ⟨hmatched, hvalue⟩ := matchField_other (by simpa using hw) f
    exact ⟨hmatched.trans h, hvalue⟩

/-- Nothing is stored in a field that was matched before. -/
theorem settle_again (h : f.matched = true) :
    storedFrom ws f = none ∧ (settle ws f).value = f.value := by
  induction ws generalizing f with
  | nil => exact ⟨rfl, rfl⟩
  | cons w ws ih =>
    obtain ⟨hmatched, hvalue⟩ := matchField_again h w
    obtain ⟨hfrom, hrest⟩ := ih hmatched
    have hnew : ¬ (f.value.isNone && (matchField w f).value.isSome) = true := by
      rw [hvalue]
      cases f.value <;> simp
    refine ⟨?_, hrest.trans hvalue⟩
    rw [storedFrom, if_neg hnew, hfrom]

/-- The first of the four types that is found is stored, if it is kept at all. -/
theorem settle_first (hnew : f.matched = false) (hempty : f.value = none) :
    (settle ws f).value = (ws.find? stores).bind storedBlock ∧
      storedFrom ws f = (ws.find? stores).filter fun w => (storedBlock w).isSome := by
  induction ws generalizing f with
  | nil => exact ⟨hempty, rfl⟩
  | cons w ws ih =>
    by_cases hw : stores w = true
    · obtain ⟨hmatched, hvalue⟩ := matchField_first hw hnew hempty
      obtain ⟨hfrom, hrest⟩ : storedFrom ws (matchField w f) = none ∧ _ := settle_again hmatched
      rw [List.find?_cons_of_pos hw, storedFrom, hempty, hvalue]
      refine ⟨hrest.trans hvalue, ?_⟩
      cases hblock : storedBlock w with
      | none => simp [hfrom, hblock, Option.filter]
      | some b => simp [hblock, Option.filter]
    · have hw : stores w = false := by simpa using hw
      obtain ⟨hmatched, hvalue⟩ := matchField_other hw f
      obtain ⟨hrest, hfrom⟩ := ih (hmatched.trans hnew) (hvalue.trans hempty)
      rw [List.find?_cons_of_neg (by simp [hw]), storedFrom, hempty, hvalue, hempty]
      exact ⟨hrest, hfrom⟩

/-! ## What is expected -/

/-- The wire types that fit a field's formatter and use. An Optional is passed over: what it holds
was found at the same path before. -/
def Expected (callback : Option FormatCallback) : Which → Prop
  | .prim (.timestamp _) => callback = some .timestamp
  | .prim (.party _) | .prim (.numeric _) | .prim (.text _) => callback ≠ some .timestamp
  | .optional => True
  | _ => False

instance (callback : Option FormatCallback) : DecidablePred (Expected callback)
  | .prim (.timestamp _) => inferInstanceAs (Decidable (callback = some .timestamp))
  | .prim (.party _) | .prim (.numeric _) | .prim (.text _) =>
    inferInstanceAs (Decidable (callback ≠ some .timestamp))
  | .optional => inferInstanceAs (Decidable True)
  | .prim (.int64 _) | .prim (.bool _) | .prim (.date _) | .prim (.contractId _) | .none | .unit
  | .list | .textMap | .genMap | .record | .variant | .enum => inferInstanceAs (Decidable False)

/-- A block that was stored from a value is read as that value. -/
def ReadAs (callback : Option FormatCallback) (w : Which) (b : Bytes) : Prop :=
  if callback = some .timestamp then
    ∃ t, w = .prim (.timestamp t) ∧ b = beBytes 8 (t % 2 ^ 64).toNat
  else
    ∃ s, (w = .prim (.party s) ∨ w = .prim (.numeric s) ∨ w = .prim (.text s)) ∧ b = s ++ [0]

theorem readAs_iff_expected {callback : Option FormatCallback} (h : storedBlock w = some b) :
    ReadAs callback w b ↔ Expected callback w := by
  unfold ReadAs
  -- a text is stored with its terminator
  have htext : ∀ s : Bytes,
      (if s.isEmpty || maxFieldValueLen < s.length then none else some (s ++ [0])) = some b →
        b = s ++ [0] := by
    intro s hs
    split at hs
    · cases hs
    · exact (Option.some.inj hs).symm
  by_cases hcb : callback = some .timestamp
  · -- a field that is read as a timestamp
    rw [if_pos hcb]
    constructor
    · rintro ⟨t, rfl, -⟩
      exact hcb
    · intro hexp
      cases w with
      | prim p =>
        cases p with
        | timestamp t => exact ⟨t, rfl, (Option.some.inj h).symm⟩
        | party s => exact absurd hcb hexp
        | numeric s => exact absurd hcb hexp
        | text s => exact absurd hcb hexp
        | _ => cases h
      | _ => cases h
  · -- a field that is read as text
    rw [if_neg hcb]
    constructor
    · rintro ⟨s, rfl | rfl | rfl, -⟩
      · exact hcb
      · exact hcb
      · exact hcb
    · intro hexp
      cases w with
      | prim p =>
        cases p with
        | timestamp t => exact absurd hexp hcb
        | party s => exact ⟨s, .inl rfl, htext s h⟩
        | numeric s => exact ⟨s, .inr (.inl rfl), htext s h⟩
        | text s => exact ⟨s, .inr (.inr rfl), htext s h⟩
        | _ => cases h
      | _ => cases h

/-- A field as the walk left it: what it holds is the screen's own text, or it is read as the
value it was stored from. -/
def ReadAsStored (found : List Found) (f₀ f : TxField) : Prop :=
  ∀ b, f.value = some b → f₀.value = some b ∨
    ∃ w, storedFrom (foundAt found f₀.config.path) f₀ = some w ∧
      ReadAs f₀.config.formatCallback w b

/-- Whatever is found at the path of a field is of a type the field expects. -/
def AllExpected (found : List Found) (c : DisplayConfig) : Prop :=
  ∀ f ∈ c.fields, ∀ e ∈ found, e.1 = f.path → Expected f.formatCallback e.2

/-- At the path of each field that is read from the argument, the first Party, Numeric, Text or
Timestamp is a Timestamp if and only if the field has the timestamp formatter, unless it is a text
that is not kept. -/
def FirstExpected (found : List Found) (c : DisplayConfig) : Prop :=
  ∀ f ∈ screenFields c, f.matched = false →
    ∀ w, (foundAt found f.config.path).find? stores = some w → (storedBlock w).isSome = true →
      Expected f.config.formatCallback w

/-- The fields of a screen have no value yet, but for the text that the screen brings along. -/
theorem screenFields_fresh : ∀ c ∈ displayConfigs, ∀ f ∈ screenFields c,
    f.storeFailed = false ∧ (f.matched = false ∧ f.value = none ∨ f.matched = true ∧
      f.value = some (preapprovalAssetFieldValue ++ [0]) ∧ f.config.formatCallback = none) := by
  decide +kernel

theorem readAsStored_iff {found : List Found} (h : f₀.matched = false ∧ f₀.value = none) :
    ReadAsStored found f₀ (settle (foundAt found f₀.config.path) f₀) ↔
      ∀ w, (foundAt found f₀.config.path).find? stores = some w → (storedBlock w).isSome = true →
        Expected f₀.config.formatCallback w := by
  obtain ⟨hvalue, hfrom⟩ : (settle (foundAt found f₀.config.path) f₀).value = _ ∧ _ :=
    settle_first h.1 h.2
  unfold ReadAsStored
  rw [hvalue, hfrom, h.2]
  constructor
  · intro hread w hw hkept
    obtain ⟨b, hb⟩ := Option.isSome_iff_exists.mp hkept
    obtain hnone | ⟨w', hw', hreads⟩ := hread b (by rw [hw]; exact hb)
    · cases hnone
    · rw [hw] at hw'
      obtain rfl : w = w' := Option.some.inj ((Option.filter_eq_some_iff.mp hw').1)
      exact (readAs_iff_expected hb).mp hreads
  · intro hexp b hb
    obtain ⟨w, hw, hblock⟩ := Option.bind_eq_some_iff.mp hb
    have hkept : (storedBlock w).isSome = true := by simp [hblock]
    refine .inr ⟨w, ?_, (readAs_iff_expected hblock).mpr (hexp w hw hkept)⟩
    rw [hw]
    exact Option.filter_eq_some_iff.mpr ⟨rfl, hkept⟩

end DisplayParser

end CantonSigner
