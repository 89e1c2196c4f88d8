import CantonSigner.Display.Rows
import CantonSigner.Lib.Bytes
import Mathlib.Data.List.Nodup

/-!
# The amount row of a token screen

On the screens of a token transfer the amount is formatted with the ticker of the
instrument. `amountRow_of_loop` says what its row shows in terms of the strings that were found:
the amount without the trailing zeros of its fraction (`Trimmed`), and the ticker that the
table gives for administrator and instrument.
-/

namespace CantonSigner

open ByteCodec

namespace DisplayParser

/-! ## Trimming -/

/-- `t` is the number `a` without the trailing zeros of its fraction, and without the dot
if nothing of the fraction is left. -/
def Trimmed (a t : Bytes) : Prop :=
  (46 ∉ a ∧ t = a) ∨
    ∃ whole fraction zeros, a = whole ++ 46 :: (fraction ++ List.replicate zeros 48) ∧
      46 ∉ whole ∧ fraction.getLast? ≠ some 48 ∧
      t = if fraction = [] then whole else whole ++ 46 :: fraction

theorem head?_dropWhile_ne {α : Type} {p : α → Bool} {l : List α} {x : α}
    (h : (l.dropWhile p).head? = some x) : p x = false := by
  have := List.head?_dropWhile_not p l
  rw [h] at this
  simpa using this

theorem formatAmountText_trimmed (a : Bytes) : Trimmed a (formatAmountText a) := by
  unfold formatAmountText
  by_cases hdot : 46 ∈ a
  · rw [if_pos (by simpa using hdot)]
    right
    obtain ⟨rest, hrest⟩ : ∃ rest, a.dropWhile (· != 46) = 46 :: rest := by
      cases hdrop : a.dropWhile (· != 46) with
      | nil =>
        have hall := List.dropWhile_eq_nil_iff.mp hdrop 46 hdot
        simp at hall
      | cons x rest =>
        have hhead : (a.dropWhile (· != 46)).head? = some x := by rw [hdrop]; rfl
        have hx : x = 46 := by simpa using head?_dropWhile_ne hhead
        exact ⟨rest, by rw [hx]⟩
    -- The fraction is read from its end: first the zeros, then what stays.
    have hsplit : rest = (rest.reverse.dropWhile (· == 48)).reverse ++
        List.replicate (rest.reverse.takeWhile (· == 48)).length 48 := by
      have hzeros : rest.reverse.takeWhile (· == 48) =
          List.replicate (rest.reverse.takeWhile (· == 48)).length 48 := by
        refine List.eq_replicate_iff.mpr ⟨rfl, fun b hb => ?_⟩
        have := List.mem_takeWhile_imp hb
        simpa using this
      have hall := List.takeWhile_append_dropWhile (p := (· == 48)) (l := rest.reverse)
      have hrev := congrArg List.reverse hall
      rw [List.reverse_append, List.reverse_reverse] at hrev
      rw [← List.reverse_replicate, ← hzeros]
      exact hrev.symm
    refine ⟨a.takeWhile (· != 46), (rest.reverse.dropWhile (· == 48)).reverse,
      (rest.reverse.takeWhile (· == 48)).length, ?_, ?_, ?_, ?_⟩
    · rw [← hsplit, ← hrest]
      exact List.takeWhile_append_dropWhile.symm
    · intro hmem
      have := List.mem_takeWhile_imp hmem
      simp at this
    · rw [List.getLast?_reverse]
      intro hlast
      have := head?_dropWhile_ne hlast
      simp at this
    · rw [hrest, List.drop_one, List.tail_cons]
      simp
  · rw [if_neg (by simpa using hdot)]
    exact .inl ⟨hdot, rfl⟩

theorem mem_formatAmountText {a : Bytes} {b : UInt8} (h : b ∈ formatAmountText a) : b ∈ a := by
  rcases formatAmountText_trimmed a with ⟨-, heq⟩ | ⟨whole, fraction, zeros, ha, -, -, heq⟩
  · rwa [heq] at h
  · rw [heq] at h
    rw [ha]
    split at h
    · exact List.mem_append_left _ h
    · simp only [List.mem_append, List.mem_cons] at h ⊢
      tauto

/-! ## Texts of blocks -/

theorem blockText_nulFree (d : Device) (block : Bytes) : NulFree (blockText d block) := by
  unfold blockText
  split
  · exact cstr_nulFree block
  · rename_i hnul
    intro b hb
    rcases List.mem_append.mp hb with hb | hb
    · rintro rfl
      exact hnul hb
    · exact cstr_nulFree _ b hb

theorem blockText_terminated (d : Device) {t : Bytes} (h : NulFree t) :
    blockText d (t ++ [0]) = t := by
  unfold blockText cstr
  rw [if_pos (by simp), List.takeWhile_append_of_pos fun b hb => by simpa using h b hb]
  simp

/-! ## The fields of a token screen -/

/-- A token-standard screen for sending or accepting: its value goes to the receiver, and
its amount can be compared. -/
structure TokenScreen (c : DisplayConfig) : Prop where
  table : c ∈ displayConfigs
  destination : c.destination = .receiver
  amountCheck : c.amountCheck = .comparable
  admin : ∃ f ∈ c.fields, f.shownAs = .admin

/-- The fields of such a screen, in their order: sender, amount, receiver, instrument and
administrator, and others that play no part in the value check. -/
def tokenShape : List FieldConfig → Bool
  | sender :: amount :: receiver :: instrument :: admin :: rest =>
    sender.shownAs = .sender && sender.mandatory && sender.formatCallback = none &&
    sender.itemName ≠ some (str "Amount") && !decide (TokenPath sender.path) &&
    amount.shownAs = .amount && amount.mandatory && amount.formatCallback = some .tokenAmount &&
    amount.itemName = some (str "Amount") && !decide (TokenPath amount.path) &&
    receiver.shownAs = .receiver && receiver.mandatory &&
    receiver.itemName ≠ some (str "Amount") && !decide (TokenPath receiver.path) &&
    instrument.shownAs = .instrument && instrument.mandatory &&
      instrument.path = instrumentIdPath && instrument.itemName ≠ some (str "Amount") &&
    admin.shownAs = .admin && admin.mandatory && admin.path = instrumentIdAdminPath &&
    admin.itemName ≠ some (str "Amount") &&
    rest.all fun f => f.shownAs = .other && f.itemName ≠ some (str "Amount") &&
      !decide (TokenPath f.path)
  | _ => false

theorem displayConfigs_tokenShape : ∀ c ∈ displayConfigs, c.destination = .receiver →
    c.amountCheck = .comparable → (c.fields.any fun f => f.shownAs = .admin) = true →
    tokenShape c.fields = true := by decide +kernel

/-- The fields found for a token screen. -/
structure TokenFields (fs : List TxField) (sender amount receiver instrument admin : TxField)
    (rest : List TxField) : Prop where
  fields : fs = sender :: amount :: receiver :: instrument :: admin :: rest
  sender : sender.config.shownAs = .sender ∧ sender.config.mandatory = true ∧
    sender.config.formatCallback = none ∧ sender.config.itemName ≠ some (str "Amount") ∧
    ¬ TokenPath sender.config.path
  amount : amount.config.shownAs = .amount ∧ amount.config.mandatory = true ∧
    amount.config.formatCallback = some .tokenAmount ∧
    amount.config.itemName = some (str "Amount") ∧ ¬ TokenPath amount.config.path
  receiver : receiver.config.shownAs = .receiver ∧ receiver.config.mandatory = true ∧
    receiver.config.itemName ≠ some (str "Amount") ∧ ¬ TokenPath receiver.config.path
  instrument : instrument.config.shownAs = .instrument ∧ instrument.config.mandatory = true ∧
    instrument.config.path = instrumentIdPath ∧ instrument.config.itemName ≠ some (str "Amount")
  admin : admin.config.shownAs = .admin ∧ admin.config.mandatory = true ∧
    admin.config.path = instrumentIdAdminPath ∧ admin.config.itemName ≠ some (str "Amount")
  rest : ∀ f ∈ rest, f.config.shownAs = .other ∧ f.config.itemName ≠ some (str "Amount") ∧
    ¬ TokenPath f.config.path

theorem tokenFields_of_shape {fs : List TxField} (h : tokenShape (fs.map (·.config)) = true) :
    ∃ sender amount receiver instrument admin rest,
      TokenFields fs sender amount receiver instrument admin rest := by
  match fs, h with
  | sender :: amount :: receiver :: instrument :: admin :: rest, h =>
    simp only [List.map_cons, tokenShape, Bool.and_eq_true, decide_eq_true_eq,
      Bool.not_eq_true', decide_eq_false_iff_not, List.all_map, List.all_eq_true,
      Function.comp_apply, and_assoc] at h
    obtain ⟨h₁, h₂, h₃, h₄, h₅, h₆, h₇, h₈, h₉, h₁₀, h₁₁, h₁₂, h₁₃, h₁₄, h₁₅, h₁₆, h₁₇, h₁₈, h₁₉,
      h₂₀, h₂₁, h₂₂, h₂₃⟩ := h
    exact ⟨sender, amount, receiver, instrument, admin, rest, rfl, ⟨h₁, h₂, h₃, h₄, h₅⟩,
      ⟨h₆, h₇, h₈, h₉, h₁₀⟩, ⟨h₁₁, h₁₂, h₁₃, h₁₄⟩, ⟨h₁₅, h₁₆, h₁₇, h₁₈⟩, ⟨h₁₉, h₂₀, h₂₁, h₂₂⟩, h₂₃⟩

variable {d : Device} {fs cur : List TxField} {sender amount receiver instrument admin : TxField}
  {rest : List TxField} {s s' : Ctx} {i j n : Nat} {f : TxField} {block : Bytes}

/-- The text of a field. -/
def fieldText (d : Device) (f : TxField) : Option Bytes := f.value.map (blockText d)

/-- What is bound in each role. -/
theorem TokenFields.shown (h : TokenFields fs sender amount receiver instrument admin rest) :
    shownText d fs .sender = fieldText d sender ∧ shownText d fs .amount = fieldText d amount ∧
      shownText d fs .receiver = fieldText d receiver ∧
      shownText d fs .instrument = fieldText d instrument ∧
      shownText d fs .admin = fieldText d admin := by
  have hrest : ∀ (role : ShownAs), role ≠ .other → ∀ acc, rest.foldl (fun acc f =>
      if f.config.shownAs = role then (f.value.map (blockText d)).or acc else acc) acc = acc := by
    intro role hrole acc
    have hskip : ∀ f ∈ rest, f.config.shownAs ≠ role := by
      intro f hf heq
      exact hrole (heq.symm.trans (h.rest f hf).1)
    generalize rest = l at hskip
    induction l generalizing acc with
    | nil => rfl
    | cons f l ih =>
      rw [List.foldl_cons, if_neg (hskip f List.mem_cons_self)]
      exact ih acc fun f hf => hskip f (List.mem_cons_of_mem _ hf)
  unfold shownText fieldText
  rw [h.fields]
  simp only [List.foldl_cons, h.sender.1, h.amount.1, h.receiver.1, h.instrument.1, h.admin.1,
    reduceCtorEq, if_true, if_false, Option.or_none]
  exact ⟨hrest .sender nofun _, hrest .amount nofun _, hrest .receiver nofun _,
    hrest .instrument nofun _, hrest .admin nofun _⟩

/-- The lookups of the amount formatter find the instrument and the administrator. -/
theorem TokenFields.found (h : TokenFields fs sender amount receiver instrument admin rest) :
    lastFieldAt instrumentIdPath proxyInstrumentIdPath fs = some instrument ∧
      lastFieldAt instrumentIdAdminPath instrumentIdProxyAdminPath fs = some admin := by
  -- the fields after the five have other paths, so the search passes over them
  have hrest : ∀ (p q : Bytes), TokenPath p → TokenPath q → ∀ acc, rest.foldl (fun acc f =>
      if f.config.path = p || f.config.path = q then some f else acc) acc = acc := by
    intro p q hp hq acc
    have hskip : ∀ f ∈ rest, ¬ (f.config.path = p || f.config.path = q) = true := by
      intro f hf hor
      rcases Bool.or_eq_true_iff.mp hor with heq | heq
      · exact (h.rest f hf).2.2 (by rw [of_decide_eq_true heq]; exact hp)
      · exact (h.rest f hf).2.2 (by rw [of_decide_eq_true heq]; exact hq)
    generalize rest = l at hskip
    induction l generalizing acc with
    | nil => rfl
    | cons f l ih =>
      rw [List.foldl_cons, if_neg (hskip f List.mem_cons_self)]
      exact ih acc fun f hf => hskip f (List.mem_cons_of_mem _ hf)
  have hother : ∀ {f : TxField} {p q : Bytes}, ¬ TokenPath f.config.path → TokenPath p →
    TokenPath q →
      ¬ (f.config.path = p || f.config.path = q) = true := by
    intro f p q hf hp hq hor
    rcases Bool.or_eq_true_iff.mp hor with heq | heq
    · exact hf (by rw [of_decide_eq_true heq]; exact hp)
    · exact hf (by rw [of_decide_eq_true heq]; exact hq)
  -- the four paths of the search, two for each of the fields
  have hi : TokenPath instrumentIdPath := .inl rfl
  have hpi : TokenPath proxyInstrumentIdPath := .inr (.inl rfl)
  have ha : TokenPath instrumentIdAdminPath := .inr (.inr (.inl rfl))
  have hpa : TokenPath instrumentIdProxyAdminPath := .inr (.inr (.inr rfl))
  have hpaths : instrumentIdAdminPath ≠ instrumentIdPath ∧
      instrumentIdAdminPath ≠ proxyInstrumentIdPath ∧ instrumentIdPath ≠ instrumentIdAdminPath ∧
      instrumentIdPath ≠ instrumentIdProxyAdminPath := by decide +kernel
  have hadmin : ¬ (admin.config.path = instrumentIdPath ||
      admin.config.path = proxyInstrumentIdPath) = true := by
    rw [h.admin.2.2.1]
    simpa using ⟨hpaths.1, hpaths.2.1⟩
  have hinstrument : ¬ (instrument.config.path = instrumentIdAdminPath ||
      instrument.config.path = instrumentIdProxyAdminPath) = true := by
    rw [h.instrument.2.2.1]
    simpa using ⟨hpaths.2.2.1, hpaths.2.2.2⟩
  unfold lastFieldAt
  rw [h.fields]
  simp only [List.foldl_cons]
  -- the fold goes down the list; the last field with one of the two paths stays
  constructor
  · rw [if_neg (hother h.sender.2.2.2.2 hi hpi), if_neg (hother h.amount.2.2.2.2 hi hpi),
      if_neg (hother h.receiver.2.2.2 hi hpi), if_neg hadmin, if_pos (by simp [h.instrument.2.2.1]),
      hrest _ _ hi hpi]
  · rw [if_neg (hother h.sender.2.2.2.2 ha hpa), if_neg (hother h.amount.2.2.2.2 ha hpa),
      if_neg (hother h.receiver.2.2.2 ha hpa), if_neg hinstrument, if_pos (by simp [h.admin.2.2.1]),
      hrest _ _ ha hpa]

/-! ## The loop -/

theorem setFieldText_values (fs : List TxField) (i : Nat) (text : Bytes) (hij : j ≠ i) :
    ((setFieldText fs i text)[j]?).map (·.value) = (fs[j]?).map (·.value) := by
  unfold setFieldText
  rw [List.getElem?_modify]
  simp [Ne.symm hij]

theorem hideLastFieldAt_values (p q : Bytes) (fs : List TxField) :
    (hideLastFieldAt p q fs).map (·.value) = fs.map (·.value) := by
  unfold hideLastFieldAt
  induction fs with
  | nil => rfl
  | cons f fs ih =>
    rw [List.foldr_cons]
    split
    · simpa using ih
    · simpa using ih

theorem hideLastFieldAt_value (p q : Bytes) (fs : List TxField) (j : Nat) :
    ((hideLastFieldAt p q fs)[j]?).map (·.value) = (fs[j]?).map (·.value) := by
  rw [← List.getElem?_map, hideLastFieldAt_values, List.getElem?_map]

/-- Formatting a field leaves the values of the others alone. -/
theorem formatField_values (hs : s.fields = some cur) (hij : j ≠ i) :
    ∃ cur', (formatField d s i f block).fields = some cur' ∧
      (cur'[j]?).map (·.value) = (cur[j]?).map (·.value) := by
  unfold formatField
  split
  · rw [hs, Option.getD_some]
    cases f.config.formatCallback with
    | none => exact ⟨cur, hs, rfl⟩
    | some cb =>
      cases cb with
      | nativeAmount => exact ⟨_, rfl, setFieldText_values _ _ _ hij⟩
      | timestamp => exact ⟨_, rfl, setFieldText_values _ _ _ hij⟩
      | tokenAmount =>
        show ∃ cur', (formatTokenAmount d s cur i _).fields = some cur' ∧ _
        unfold formatTokenAmount
        dsimp only
        split
        · split
          · exact ⟨_, rfl, setFieldText_values _ _ _ hij⟩
          · have hhidden : ∀ l : List TxField, ((hideLastFieldAt instrumentIdAdminPath
                instrumentIdProxyAdminPath (hideLastFieldAt instrumentIdPath proxyInstrumentIdPath
                  l))[j]?).map (·.value) = (l[j]?).map (·.value) := by
              intro l
              rw [hideLastFieldAt_value, hideLastFieldAt_value]
            split
            · refine ⟨_, rfl, ?_⟩
              rw [hhidden, setFieldText_values _ _ _ hij, setFieldText_values _ _ _ hij]
            · refine ⟨_, rfl, ?_⟩
              rw [hhidden, setFieldText_values _ _ _ hij, setFieldText_values _ _ _ hij]
        · exact ⟨_, rfl, setFieldText_values _ _ _ hij⟩
  · exact ⟨cur, hs, rfl⟩

/-- The loop leaves the values of the fields before it alone. -/
theorem formatLoop_values (hs : s.fields = some cur) (hij : j < i)
    (h : formatLoop d n i s = .formatted s') :
    ∃ cur', s'.fields = some cur' ∧ (cur'[j]?).map (·.value) = (cur[j]?).map (·.value) := by
  induction n generalizing i s cur with
  | zero =>
    cases h
    exact ⟨cur, hs, rfl⟩
  | succ n ih =>
    rw [formatLoop_succ, hs, Option.getD_some] at h
    split at h
    · cases h
      exact ⟨cur, hs, rfl⟩
    · rename_i f hf
      split at h
      · cases h
      · split at h
        · split at h
          · cases h
          · exact ih hs (by omega) h
        · rename_i block hblock
          split at h
          · cases h
          · obtain ⟨cur₁, hs₁, hv₁⟩ : ∃ cur₁, (formatField d s i f block).fields = some cur₁ ∧
                (cur₁[j]?).map (·.value) = (cur[j]?).map (·.value) :=
              formatField_values hs (Nat.ne_of_lt hij)
            obtain ⟨cur', hs', hv'⟩ := ih hs₁ (by omega) h
            exact ⟨cur', hs', hv'.trans hv₁⟩

/-- A field of the loop that is shown as it was found. -/
theorem formatLoop_plain (hs : s.fields = some cur) (hf : cur[i]? = some f)
    (hmand : f.config.mandatory = true) (hcb : f.config.formatCallback = none)
    (h : formatLoop d (n + 1) i s = .formatted s') : formatLoop d n (i + 1) s = .formatted s' := by
  rw [formatLoop_succ, hs, Option.getD_some, hf] at h
  dsimp only at h
  split at h
  · cases h
  · cases hvalue : f.value with
    | none =>
      rw [hvalue] at h
      cases h
    | some block =>
      have hsame : formatField d s i f block = s := by
        unfold formatField
        rw [hcb]
        split <;> rfl
      rw [hvalue] at h
      dsimp only at h
      rw [hsame] at h
      split at h
      · cases h
      · exact h

/-- Formatting the amount of a token screen: the ticker is not known, or the amount has it
as its unit. -/
theorem formatTokenAmount_value (h : TokenFields fs sender amount receiver instrument admin rest)
    {id adm : Bytes} (hid : fieldText d instrument = some id) (hadm : fieldText d admin = some adm)
    (text : Bytes) :
    (formatTokenAmount d s fs 1 text).unknownToken = true ∨
      ∃ ticker cur', findTicker adm id = some ticker ∧
        (formatTokenAmount d s fs 1 text).fields = some cur' ∧
        (cur'[1]?).map (·.value) = some (some (text ++ [32] ++ ticker ++ [0])) := by
  obtain ⟨blockI, hvI, rfl⟩ := Option.map_eq_some_iff.mp hid
  obtain ⟨blockD, hvD, rfl⟩ := Option.map_eq_some_iff.mp hadm
  -- Instrument and administrator are found in the list with the new text, too.
  have hset : TokenFields (setFieldText fs 1 text) sender
    { amount with value := some (text ++ [0]) }
      receiver instrument admin rest :=
    ⟨by rw [h.fields]; rfl, h.sender, h.amount, h.receiver, h.instrument, h.admin, h.rest⟩
  obtain ⟨hinstrument, hadmin⟩ := hset.found
  unfold formatTokenAmount
  dsimp only
  rw [hinstrument, hadmin, Option.bind_some, Option.bind_some, hvI, hvD]
  dsimp only
  cases hticker : findTicker (blockText d blockD) (blockText d blockI) with
  | none => exact .inl rfl
  | some ticker =>
    have hvalue : ((hideLastFieldAt instrumentIdAdminPath instrumentIdProxyAdminPath
        (hideLastFieldAt instrumentIdPath proxyInstrumentIdPath
          (setFieldText (setFieldText fs 1 text) 1
          (text ++ [32] ++ ticker))))[1]?).map (·.value) =
        some (some (text ++ [32] ++ ticker ++ [0])) := by
      rw [hideLastFieldAt_value, hideLastFieldAt_value, h.fields]
      rfl
    right
    dsimp only
    split
    · exact ⟨ticker, _, rfl, rfl, hvalue⟩
    · exact ⟨ticker, _, rfl, rfl, hvalue⟩

/-- The step of the loop that formats the amount: its ticker is known, and the loop leaves
it as the unit. -/
theorem formatLoop_amount (h : TokenFields fs sender amount receiver instrument admin rest)
    (hs : s.fields = some fs) (hdisplay : amount.display = true) {text id adm : Bytes}
    (htext : fieldText d amount = some text) (hid : fieldText d instrument = some id)
    (hadm : fieldText d admin = some adm) (hloop : formatLoop d (n + 1) 1 s = .formatted s') :
    ∃ ticker cur', findTicker adm id = some ticker ∧ s'.fields = some cur' ∧
      (cur'[1]?).map (·.value) = some (some (formatAmountText text ++ [32] ++ ticker ++ [0])) := by
  obtain ⟨block, hvalue, rfl⟩ := Option.map_eq_some_iff.mp htext
  have hf : fs[1]? = some amount := by rw [h.fields]; rfl
  have hfield : formatField d s 1 amount block =
      formatTokenAmount d s fs 1 (formatAmountText (blockText d block)) := by
    unfold formatField
    rw [if_pos hdisplay, h.amount.2.2.1, hs]
    rfl
  rw [formatLoop_succ, hs, Option.getD_some, hf] at hloop
  dsimp only at hloop
  split at hloop
  · cases hloop
  · rw [hvalue] at hloop
    dsimp only at hloop
    rw [hfield] at hloop
    rcases formatTokenAmount_value (s := s) h hid hadm (formatAmountText (blockText d block)) with
      hunknown | ⟨ticker, cur, hticker, hcur, hunit⟩
    · rw [if_pos hunknown] at hloop
      cases hloop
    · split at hloop
      · cases hloop
      · obtain ⟨cur', hcur', hkept⟩ := formatLoop_values hcur (by omega : 1 < 1 + 1) hloop
        exact ⟨ticker, cur', hticker, hcur', hkept.trans hunit⟩

theorem instrumentToTickerMappings_nulFree :
    ∀ m ∈ instrumentToTickerMappings, (m.ticker.all (· != 0)) = true := by decide +kernel

theorem findTicker_nulFree {adm id ticker : Bytes} (h : findTicker adm id = some ticker) :
    NulFree ticker := by
  obtain ⟨m, hm, rfl⟩ := Option.map_eq_some_iff.mp h
  intro b hb
  have hall := instrumentToTickerMappings_nulFree m (List.mem_of_find?_eq_some hm)
  simpa using List.all_eq_true.mp hall b hb

/-! ## The row -/

/-- The strings found for a token screen, by the role of their field. -/
structure TokenStrings (d : Device) (fs : List TxField) (sender amount receiver adm id : Bytes) :
    Prop where
  sender : shownText d fs .sender = some sender
  amount : shownText d fs .amount = some amount
  receiver : shownText d fs .receiver = some receiver
  admin : shownText d fs .admin = some adm
  instrument : shownText d fs .instrument = some id

/-- The amount is shown in one row: the number found, without the trailing zeros of its
fraction, and the ticker that the table gives for administrator and instrument. -/
def AmountRow (rows : List Pair) (amount adm id : Bytes) : Prop :=
  ∃ trimmed ticker, Trimmed amount trimmed ∧ findTicker adm id = some ticker ∧
    ∀ text, (str "Amount", text) ∈ rows ↔ text = trimmed ++ [32] ++ ticker

/-- **The rows of a token screen.** -/
theorem amountRow_of_loop {c : DisplayConfig} (htoken : TokenScreen c)
    (hconf : fs.map (·.config) = c.fields) (hshown : ∀ f ∈ fs, f.display = true)
    (hs : s.fields = some fs) (hloop : formatLoop d fs.length 0 s = .formatted s') :
    ∃ F A T adm id, TokenStrings d fs F A T adm id ∧
      AmountRow (populateRows d (s'.fields.getD [])) A adm id := by
  obtain ⟨sender, amount, receiver, instrument, admin, rest, h⟩ := tokenFields_of_shape
    (hconf ▸ displayConfigs_tokenShape c htoken.table htoken.destination htoken.amountCheck
      (by simpa using htoken.admin) : tokenShape (fs.map (·.config)) = true)
  have hcomplete := populateRows_complete htoken.table hconf hshown hs hloop
  have hplain : PlainTokens fs := by
    intro f hf hp
    exact ((displayConfigs_fields c htoken.table).2.1 f.config
      (hconf ▸ List.mem_map_of_mem hf) hp).1
  obtain ⟨⟨cur, hcur, hkept⟩, hfound⟩ := formatLoop_kept hplain hs
    (List.forall₂_same.mpr fun f _ => FieldKept.refl f) hloop
  -- All five were found, since they are mandatory.
  have htext : ∀ (j : Nat) (f : TxField), fs[j]? = some f → f.config.mandatory = true →
      ∃ text, fieldText d f = some text := by
    intro j f hj hmand
    have hsome := hfound j f (by omega) (by simpa using (List.getElem?_eq_some_iff.mp hj).1) hj
      hmand
    obtain ⟨block, hblock⟩ := Option.isSome_iff_exists.mp hsome
    exact ⟨blockText d block, by simp [fieldText, hblock]⟩
  obtain ⟨F, hF⟩ := htext 0 sender (by rw [h.fields]; rfl) h.sender.2.1
  obtain ⟨A, hA⟩ := htext 1 amount (by rw [h.fields]; rfl) h.amount.2.1
  obtain ⟨T, hT⟩ := htext 2 receiver (by rw [h.fields]; rfl) h.receiver.2.1
  obtain ⟨id, hid⟩ := htext 3 instrument (by rw [h.fields]; rfl) h.instrument.2.1
  obtain ⟨adm, hadm⟩ := htext 4 admin (by rw [h.fields]; rfl) h.admin.2.1
  obtain ⟨hsF, hsA, hsT, hsI, hsD⟩ := h.shown (d := d)
  refine ⟨F, A, T, adm, id, ⟨hsF.trans hF, hsA.trans hA, hsT.trans hT, hsD.trans hadm,
    hsI.trans hid⟩, ?_⟩
  -- The loop passes the sender and formats the amount.
  have hlen : fs.length = rest.length + 3 + 1 + 1 := by rw [h.fields]; simp
  rw [hlen] at hloop
  have hloop₁ := formatLoop_plain hs (by rw [h.fields]; rfl) h.sender.2.1 h.sender.2.2.1 hloop
  obtain ⟨ticker, cur', hticker, hcur', hunit⟩ := formatLoop_amount h hs
    (hshown amount (by rw [h.fields]; simp)) hA hid hadm hloop₁
  obtain rfl : cur = cur' := Option.some.inj (hcur.symm.trans hcur')
  refine ⟨formatAmountText A, ticker, formatAmountText_trimmed A, hticker, ?_⟩
  have hrow : (str "Amount", formatAmountText A ++ [32] ++ ticker) ∈
      populateRows d (s'.fields.getD []) := by
    obtain ⟨f₁, hf₁, hk⟩ := hkept.getElem?_left (i := 1) (a := amount) (by rw [h.fields]; rfl)
    rw [hf₁, Option.map_some] at hunit
    have hvalue : f₁.value = some (formatAmountText A ++ [32] ++ ticker ++ [0]) :=
      Option.some.inj hunit
    have hdisplay : f₁.display = true := by
      rcases hk.display with hsame | ⟨-, hpath, -⟩
      · rw [hsame]
        exact hshown amount (by rw [h.fields]; simp)
      · exact absurd hpath h.amount.2.2.2.2
    have hitem : f₁.config.itemName = some (str "Amount") := by
      rw [hk.config]
      exact h.amount.2.2.2.1
    have hnul : NulFree (formatAmountText A ++ [32] ++ ticker) := by
      obtain ⟨block, -, rfl⟩ := Option.map_eq_some_iff.mp hA
      intro b hb
      rcases List.mem_append.mp hb with hb | hb
      · rcases List.mem_append.mp hb with hb | hb
        · exact blockText_nulFree d block b (mem_formatAmountText hb)
        · rw [List.mem_singleton.mp hb]
          decide
      · exact findTicker_nulFree hticker b hb
    rw [hcur, Option.getD_some]
    refine List.mem_filterMap.mpr ⟨f₁, List.mem_of_getElem? hf₁, ?_⟩
    rw [hdisplay, hvalue, hitem]
    simp only [Option.some.injEq, Prod.mk.injEq, true_and]
    exact blockText_terminated d hnul
  intro text
  constructor
  · intro htext
    exact (Prod.mk.inj (List.inj_on_of_nodup_map hcomplete.labels htext hrow rfl)).2
  · rintro rfl
    exact hrow

end DisplayParser

end CantonSigner
