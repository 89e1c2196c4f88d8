import CantonSigner.Display.Amount
import CantonSigner.Lib.Calendar
import CantonSigner.Lib.Numeral
import CantonSigner.Model.TestDevice

/-!
# The expiration row

A timestamp is a signed number of microseconds. It is stored as an unsigned number of 64
bits and divided as such, so that the row is right for the moments from 1970 on
(`expirationRow_of_nonneg`) and wrong for every moment before (`expiration_row_iff`): these
become dates more than half a million years ahead.
-/

namespace CantonSigner

open ByteCodec

namespace DisplayParser

/-! ## Civil time -/

/-- The date and time of a number of seconds since 1970-01-01. -/
structure IsCivil (tm : Tm) (secs : Int) : Prop where
  date : Calendar.ValidDate tm.year tm.month tm.day
  hour : tm.hour < 24
  minute : tm.minute < 60
  second : tm.second < 60
  secs : secs = 86400 * ((Calendar.dayNumber tm.year tm.month tm.day : Int) -
    Calendar.dayNumber 1970 1 1) + 3600 * tm.hour + 60 * tm.minute + tm.second

theorem dayNumber_1970 : Calendar.dayNumber 1970 1 1 = 719528 := by
  rw [Calendar.dayNumber, Calendar.daysBeforeYear_succ]
  rfl

/-- The date of `gmtime` as a day of a year that begins on the first of March. -/
theorem gmtime_march (secs : Nat) :
    ∃ y doy, doy ≤ 365 ∧ (doy = 365 → Calendar.IsLeap (y + 1)) ∧
      365 * y + y / 4 - y / 100 + y / 400 + doy = secs / 86400 + 719468 ∧
      let mp := (5 * doy + 2) / 153
      let month := if mp < 10 then mp + 3 else mp - 9
      (gmtime secs).year = y + (if month ≤ 2 then 1 else 0) ∧ (gmtime secs).month = month ∧
        (gmtime secs).day = doy - (153 * mp + 2) / 5 + 1 := by
  let z := secs / 86400 + 719468
  let doe := z % 146097
  let yoe := (doe - doe / 1460 + doe / 36524 - doe / 146096) / 365
  let doy := doe - (365 * yoe + yoe / 4 - yoe / 100)
  have hspec : doe = 365 * yoe + yoe / 4 - yoe / 100 + doy ∧ yoe < 400 ∧ doy ≤ 365 ∧
      (doy = 365 → Calendar.IsLeap (yoe + 1)) :=
    Calendar.yearOfEra_spec (Nat.mod_lt _ (by decide))
  obtain ⟨hdoe, hyoe, hdoy, hleap⟩ := hspec
  refine ⟨yoe + z / 146097 * 400, doy, hdoy, fun h => ?_, ?_, rfl, rfl, rfl⟩
  · -- Whole cycles change nothing about leap years.
    have hyear := hleap h
    clear_value doy yoe
    unfold Calendar.IsLeap at hyear ⊢
    omega
  · have hz : z = z / 146097 * 146097 + doe := by omega
    show _ = z
    clear_value doy yoe doe z
    have h4 : (yoe + z / 146097 * 400) / 4 = yoe / 4 + z / 146097 * 100 := by omega
    have h100 : (yoe + z / 146097 * 400) / 100 = yoe / 100 + z / 146097 * 4 := by omega
    have h400 : (yoe + z / 146097 * 400) / 400 = z / 146097 := by omega
    rw [h4, h100, h400]
    omega

theorem gmtime_date (secs : Nat) :
    Calendar.ValidDate (gmtime secs).year (gmtime secs).month (gmtime secs).day ∧
      Calendar.dayNumber (gmtime secs).year (gmtime secs).month (gmtime secs).day =
        secs / 86400 + 719528 := by
  obtain ⟨y, doy, hdoy, hleap, hdays, hyear, hmonth, hday⟩ := gmtime_march secs
  rw [hyear, hmonth, hday]
  refine ⟨Calendar.validDate_march hleap hdoy rfl, ?_⟩
  rw [Calendar.dayNumber_march hdoy rfl]
  omega

theorem gmtime_civil (secs : Nat) : IsCivil (gmtime secs) secs := by
  obtain ⟨hvalid, hday⟩ := gmtime_date secs
  have hhour : (gmtime secs).hour = secs % 86400 / 3600 := rfl
  have hminute : (gmtime secs).minute = secs % 3600 / 60 := rfl
  have hsecond : (gmtime secs).second = secs % 60 := rfl
  refine ⟨hvalid, by omega, by omega, by omega, ?_⟩
  rw [dayNumber_1970, hday, hhour, hminute, hsecond]
  omega

/-- Moments from 1970 on lie in the years from 1970 on. -/
theorem IsCivil.year_iff {tm : Tm} {secs : Int} (h : IsCivil tm secs) :
    1970 ≤ tm.year ↔ 0 ≤ secs := by
  have hsecs := h.secs
  have hhour := h.hour
  have hminute := h.minute
  have hsecond := h.second
  have hfirst : Calendar.daysBeforeYear 1970 = 719528 := by rw [Calendar.daysBeforeYear_succ]
  rw [dayNumber_1970] at hsecs
  constructor
  · intro hyear
    have hmono := Calendar.daysBeforeYear_mono hyear
    have hday : Calendar.daysBeforeYear tm.year ≤ Calendar.dayNumber tm.year tm.month tm.day := by
      unfold Calendar.dayNumber
      omega
    omega
  · intro hpos
    by_contra hyear
    have hmono := Calendar.daysBeforeYear_mono (show tm.year + 1 ≤ 1970 by omega)
    have hday := h.date.lt_nextYear
    omega

/-! ## The text of the row -/

/-- The hour on a 12-hour clock. -/
def clockHour (hour : Nat) : Nat := if hour = 0 then 12 else if hour ≤ 12 then hour else hour - 12

/-- The row for a date and time: `YYYY-MM-DD hh:mm:ss AM/PM UTC`, with a line break where the
screen needs it. -/
def expirationText (d : Device) (tm : Tm) : Bytes :=
  let date := decimal 4 tm.year ++ 45 :: decimal 2 tm.month ++ 45 :: decimal 2 tm.day
  let time := decimal 2 (clockHour tm.hour) ++ 58 :: decimal 2 tm.minute ++
    58 :: decimal 2 tm.second
  let amPm := if tm.hour < 12 then str "AM" else str "PM"
  if d.screenSizeWallet then date ++ 32 :: time ++ 10 :: amPm ++ str " UTC"
  else date ++ 10 :: time ++ 32 :: amPm ++ str " UTC"

theorem clockHour_eq {hour : Nat} (h : hour < 24) :
    clockHour hour = if hour % 12 = 0 then 12 else hour % 12 := by
  unfold clockHour
  interval_cases hour <;> rfl

/-- The text that `format_timestamp_field` writes for a `struct tm`. -/
theorem timestampText_eq (d : Device) {tm : Tm} (hhour : tm.hour < 24) :
    (let hour := if tm.hour % 12 = 0 then 12 else tm.hour % 12
     let amPm := if 12 ≤ tm.hour then str "PM" else str "AM"
     let date := decimal 4 tm.year ++ str "-" ++ decimal 2 tm.month ++ str "-" ++ decimal 2 tm.day
     let time := decimal 2 hour ++ str ":" ++ decimal 2 tm.minute ++ str ":" ++ decimal 2 tm.second
     if d.screenSizeWallet then date ++ str " " ++ time ++ str "\n" ++ amPm ++ str " UTC"
     else date ++ str "\n" ++ time ++ str " " ++ amPm ++ str " UTC") = expirationText d tm := by
  have hmarker : (if 12 ≤ tm.hour then str "PM" else str "AM") =
      if tm.hour < 12 then str "AM" else str "PM" := by
    by_cases h : tm.hour < 12
    · rw [if_pos h, if_neg (by omega)]
    · rw [if_neg h, if_pos (by omega)]
  have hdash : str "-" = [45] := by decide
  have hcolon : str ":" = [58] := by decide
  have hspace : str " " = [32] := by decide
  have hbreak : str "\n" = [10] := by decide
  unfold expirationText
  dsimp only
  rw [clockHour_eq hhour, hmarker, hdash, hcolon, hspace, hbreak]
  split
  · simp only [List.append_assoc, List.cons_append, List.nil_append]
  · simp only [List.append_assoc, List.cons_append, List.nil_append]

theorem formatTimestampText_eq (d : Device) (block : Bytes) :
    formatTimestampText d block = expirationText d (gmtime (readU64 d block / 1000000)) :=
  timestampText_eq d (gmtime_civil _).hour

theorem foldl_beBytes (w n acc : Nat) :
    (beBytes w n).foldl (fun n b => n * 256 + b.toNat) acc = acc * 256 ^ w + n % 256 ^ w := by
  induction w generalizing acc with
  | zero => simp [beBytes, Nat.mod_one]
  | succ w ih =>
    have hsplit : n % 256 ^ (w + 1) = 256 ^ w * (n / 256 ^ w % 256) + n % 256 ^ w := by
      rw [Nat.pow_succ, Nat.mod_mul, Nat.add_comm]
    have hbyte : (UInt8.ofNat (n / 256 ^ w % 256)).toNat = n / 256 ^ w % 256 := by
      rw [UInt8.toNat_ofNat']
      omega
    rw [beBytes, List.foldl_cons, ih, hsplit, hbyte, Nat.pow_succ]
    ring

/-- The block of a timestamp is read as the number that was stored. -/
theorem readU64_beBytes (d : Device) {n : Nat} (h : n < 2 ^ 64) : readU64 d (beBytes 8 n) = n := by
  unfold readU64
  rw [List.take_append_of_le_length (by simp), List.take_of_length_le (by simp), foldl_beBytes,
    Nat.zero_mul, Nat.zero_add]
  exact Nat.mod_eq_of_lt h

theorem isDigits_paddedDecimal (w n : Nat) : IsDigits (decimal w n) := by
  intro c hc
  rcases List.mem_append.mp hc with hc | hc
  · rw [(List.mem_replicate.mp hc).2]
    decide
  · exact isDigits_decimal n c hc

theorem digitsValue_paddedDecimal (w n : Nat) : digitsValue (decimal w n) = n := by
  have hzeros : ∀ k, digitsValue (List.replicate k 48) = 0 := by
    intro k
    induction k with
    | zero => rfl
    | succ k ih => rw [List.replicate_succ', digitsValue_concat, ih]; rfl
  have hvalue := digitsValue_decimal n
  unfold digitsValue at hzeros hvalue ⊢
  show List.foldl _ 0 (List.replicate _ 48 ++ ByteCodec.decimal n) = n
  rw [List.foldl_append, hzeros, hvalue]

/-- The row begins with the year. -/
theorem expirationText_year (d : Device) (tm : Tm) :
    ∃ rest, expirationText d tm = decimal 4 tm.year ++ 45 :: rest := by
  unfold expirationText
  dsimp only
  split
  · exact ⟨_, by simp only [List.append_assoc, List.cons_append]; rfl⟩
  · exact ⟨_, by simp only [List.append_assoc, List.cons_append]; rfl⟩

theorem expirationText_year_injective {d : Device} {tm tm' : Tm}
    (h : expirationText d tm = expirationText d tm') : tm.year = tm'.year := by
  obtain ⟨rest, hrest⟩ := expirationText_year d tm
  obtain ⟨rest', hrest'⟩ := expirationText_year d tm'
  have hdash : ∀ w n, 45 ∉ decimal w n := fun w n hmem =>
    absurd (isDigits_paddedDecimal w n 45 hmem).1 (by decide)
  rw [hrest, hrest'] at h
  have hyear := (append_cons_injective (hdash _ _) (hdash _ _) h).1
  rw [← digitsValue_paddedDecimal 4 tm.year, hyear, digitsValue_paddedDecimal]

theorem nulFree_expirationText (d : Device) (tm : Tm) : NulFree (expirationText d tm) := by
  have hdigits : ∀ w n, 0 ∉ decimal w n := fun w n hmem =>
    absurd (isDigits_paddedDecimal w n 0 hmem).1 (by decide)
  have hmarker : 0 ∉ if tm.hour < 12 then str "AM" else str "PM" := by
    split <;> decide
  have hutc : 0 ∉ str " UTC" := by decide
  rintro c hc rfl
  unfold expirationText at hc
  dsimp only at hc
  split at hc
  · simp only [List.mem_append, List.mem_cons, hdigits, hmarker, hutc, or_false, false_or] at hc
    exact absurd hc (by decide)
  · simp only [List.mem_append, List.mem_cons, hdigits, hmarker, hutc, or_false, false_or] at hc
    exact absurd hc (by decide)

/-! ## The row -/

/-- `set_field_value` of a timestamp on the `i`-th field, and then `format_timestamp_field`. -/
def storeAndFormat (d : Device) (s : Ctx) (fs : List TxField) (i : Nat) (t : Int) : Ctx :=
  let fs := fs.modify i fun f => storeValue f (.timestamp t)
  match fs[i]?.bind (·.value) with
  | none => { s with fields := some fs }
  | some block => runFormatCallback d { s with fields := some fs } fs i block (some .timestamp)

/-- The `i`-th field shows the date and time of a number of seconds. -/
def ShowsMoment (d : Device) (s : Ctx) (i : Nat) (secs : Int) : Prop :=
  ∃ f block tm, (s.fields.getD [])[i]? = some f ∧ f.value = some block ∧ IsCivil tm secs ∧
    blockText d block = expirationText d tm

/-- The `i`-th field cannot be shown, or the token is unknown: clear signing is dropped. -/
def ClearDropped (s : Ctx) (i : Nat) : Prop :=
  s.unknownToken = true ∨ ∃ f, (s.fields.getD [])[i]? = some f ∧ f.storeFailed = true

/-- What the row holds: the date of the stored number, read as unsigned. -/
theorem storeAndFormat_field (d : Device) (s : Ctx) {fs : List TxField} {i : Nat} {f : TxField}
    {t : Int} (hi : fs[i]? = some f) (hfresh : f.matched = false) :
    (storeAndFormat d s fs i t).unknownToken = s.unknownToken ∧
      ∃ f', ((storeAndFormat d s fs i t).fields.getD [])[i]? = some f' ∧
        f'.storeFailed = f.storeFailed ∧ f'.value =
          some (expirationText d (gmtime ((t % 2 ^ 64).toNat / 1000000)) ++ [0]) := by
  have hstored : (fs.modify i fun f => storeValue f (.timestamp t))[i]? =
      some { f with matched := true, value := some (beBytes 8 (t % 2 ^ 64).toNat) } := by
    rw [List.getElem?_modify, hi]
    simp [storeValue, hfresh]
  have hread : formatTimestampText d (beBytes 8 (t % 2 ^ 64).toNat) =
      expirationText d (gmtime ((t % 2 ^ 64).toNat / 1000000)) := by
    rw [formatTimestampText_eq, readU64_beBytes d (by omega)]
  unfold storeAndFormat
  dsimp only
  rw [hstored, Option.bind_some]
  refine ⟨rfl, { f with matched := true, value := some (_ ++ [0]) }, ?_, rfl, rfl⟩
  show (setFieldText _ i _)[i]? = _
  unfold setFieldText
  rw [List.getElem?_modify, hstored, hread]
  simp

/-- From 1970 on, the row shows the moment. -/
theorem expirationRow_of_nonneg (d : Device) (s : Ctx) {fs : List TxField} {i : Nat} {f : TxField}
    {t : Int} (hi : fs[i]? = some f) (hfresh : f.matched = false) (hpos : 0 ≤ t)
    (ht : t < 2 ^ 63) : ShowsMoment d (storeAndFormat d s fs i t) i (t / 1000000) := by
  obtain ⟨-, f', hf', -, hvalue⟩ := storeAndFormat_field d s (t := t) hi hfresh
  have hsecs : (((t % 2 ^ 64).toNat / 1000000 : Nat) : Int) = t / 1000000 := by omega
  refine ⟨f', _, _, hf', hvalue, ?_, blockText_terminated d (nulFree_expirationText d _)⟩
  rw [← hsecs]
  exact gmtime_civil _

/-- Before 1970, the row shows a date from 1970 on. -/
theorem expirationRow_of_neg (d : Device) (s : Ctx) {fs : List TxField} {i : Nat} {f : TxField}
    {t : Int} (hi : fs[i]? = some f) (hfresh : f.matched = false) (hneg : t < 0) :
    ¬ ShowsMoment d (storeAndFormat d s fs i t) i (t / 1000000) := by
  rintro ⟨f', block, tm, hf', hblock, hcivil, htext⟩
  obtain ⟨-, f'', hf'', -, hvalue⟩ := storeAndFormat_field d s (t := t) hi hfresh
  rw [hf'] at hf''
  obtain rfl := Option.some.inj hf''
  rw [hblock] at hvalue
  rw [Option.some.inj hvalue, blockText_terminated d (nulFree_expirationText d _)] at htext
  have hyear := expirationText_year_injective htext
  have hlate : 1970 ≤ tm.year := by
    rw [← hyear]
    exact (gmtime_civil _).year_iff.mpr (Int.natCast_nonneg _)
  have := hcivil.year_iff.mp hlate
  omega

/-- The row is right, or clear signing is dropped, exactly for the moments from 1970 on. -/
theorem expiration_row_iff (d : Device) (s : Ctx) {fs : List TxField} {i : Nat} {f : TxField}
    {t : Int} (hi : fs[i]? = some f) (hfresh : f.matched = false) (hstored : f.storeFailed = false)
    (htoken : s.unknownToken = false) (ht : t < 2 ^ 63) :
    ShowsMoment d (storeAndFormat d s fs i t) i (t / 1000000) ∨
        ClearDropped (storeAndFormat d s fs i t) i ↔ 0 ≤ t := by
  obtain ⟨hunknown, f', hf', hfailed, -⟩ := storeAndFormat_field d s (t := t) hi hfresh
  -- Nothing in the two steps drops clear signing.
  have hkept : ¬ ClearDropped (storeAndFormat d s fs i t) i := by
    rintro (h | ⟨g, hg, h⟩)
    · rw [hunknown, htoken] at h
      cases h
    · rw [hf'] at hg
      rw [← Option.some.inj hg, hfailed, hstored] at h
      cases h
  constructor
  · rintro (h | h)
    · by_contra hneg
      exact expirationRow_of_neg d s hi hfresh (by omega) h
    · exact absurd h hkept
  · exact fun hpos => .inl (expirationRow_of_nonneg d s hi hfresh hpos ht)

/-- The expiration field of an accepted transfer, before anything was found for it. -/
def expirationField : TxField := freshField
  ⟨str "transfer.executeBefore", some (str "Expiration time"), some .timestamp, true, .other⟩

/-- The last microsecond of 2025 is shown, down to its second. -/
theorem expiration_row_iff_yearEnd :
    let t := 1767225599999999
    let s := storeAndFormat testDevice (Ctx.start none TxInfo.zero.review) [expirationField] 0 t
    (ShowsMoment testDevice s 0 (t / 1000000) ∨ ClearDropped s 0) ∧
      ∃ f, (s.fields.getD [])[0]? = some f ∧
        f.value = some (str "2025-12-31 11:59:59\nPM UTC" ++ [0]) := by
  intro t s
  refine ⟨(expiration_row_iff testDevice _ (f := expirationField) rfl rfl rfl rfl (by decide)).mpr
    (by decide), ?_⟩
  exact ⟨_, rfl, by decide +kernel⟩

/-- One microsecond before 1970 is shown as a moment of the year 586524, on a clear screen. -/
theorem expirationRow_before_epoch :
    let s := storeAndFormat testDevice (Ctx.start none TxInfo.zero.review) [expirationField] 0 (-1)
    ¬ (ShowsMoment testDevice s 0 (-1 / 1000000) ∨ ClearDropped s 0) ∧
      ∃ f, (s.fields.getD [])[0]? = some f ∧
        f.value = some (str "586524-01-19 08:01:49\nAM UTC" ++ [0]) := by
  intro s
  have hi : [expirationField][0]? = some expirationField := rfl
  obtain ⟨hunknown, f, hf, hfailed, hvalue⟩ :=
    storeAndFormat_field testDevice (Ctx.start none TxInfo.zero.review) (t := -1) hi rfl
  refine ⟨?_, f, hf, ?_⟩
  · rintro (h | h | ⟨g, hg, h⟩)
    · exact expirationRow_of_neg testDevice _ rfl rfl (by decide) h
    · rw [hunknown] at h
      cases h
    · rw [hf] at hg
      rw [← Option.some.inj hg, hfailed] at h
      cases h
  · rw [hvalue]
    decide +kernel

end DisplayParser

end CantonSigner
