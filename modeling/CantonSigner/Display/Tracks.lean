import CantonSigner.Display.ValuesCalls

/-!
# The store follows the calls

The store keeps digests, in slots and counters, of what the calls report. `Tracks` relates the
two, and `run_tracks` keeps it for as long as the calls are `Fine`; once they are not, the store
has given up.
-/

namespace CantonSigner

open ByteCodec

variable {d : Device} {calls : List ValuesCall} {c : ValuesCall}

/-! ## The store follows the calls -/

/-- A holding by its digests. -/
def HoldingText.digests (d : Device) (h : HoldingText) : Holding :=
  ⟨d.sha h.owner, d.sha h.amount, d.sha h.admin⟩

/-- What the store has collected while nothing made it give up. -/
structure Tracks (d : Device) (calls : List ValuesCall) (s : ValuesStore) : Prop where
  ok : s.ok = true
  holdings : s.holdings = (holdingsOf calls).map (HoldingText.digests d)
  instrument : s.holdingsInstrument = (instrumentsOf calls).head?.map d.sha
  nodup : s.usedContracts.Nodup
  used : ∀ x, x ∈ s.usedContracts ↔ ∃ id ∈ recordedOf calls, contractDigest d id = x

/-- The contracts of the calls, recorded or disclosed. -/
def contractIdsOf (calls : List ValuesCall) : Set Bytes :=
  {id | ValuesCall.recordUsed (some id) ∈ calls ∨ ValuesCall.disclosed (some id) ∈ calls}

theorem mem_contractIdsOf_of_recorded {id : Bytes} (h : id ∈ recordedOf calls) :
    id ∈ contractIdsOf calls := by
  obtain ⟨c, hc, hid⟩ := List.mem_filterMap.mp h
  cases c with
  | recordUsed i =>
    obtain rfl : i = some id := hid
    exact .inl hc
  | _ => cases hid

/-- Recorded contracts are found by their digests. -/
theorem Tracks.mem_used {s : ValuesStore} (h : Tracks d calls s)
    (hinj : Set.InjOn (contractDigest d) (contractIdsOf (calls ++ [c]))) {id : Bytes}
    (hid : id ∈ contractIdsOf (calls ++ [c])) :
    contractDigest d id ∈ s.usedContracts ↔ id ∈ recordedOf calls := by
  rw [h.used]
  constructor
  · rintro ⟨id', hrec, heq⟩
    have hmem : id' ∈ contractIdsOf (calls ++ [c]) :=
      (mem_contractIdsOf_of_recorded hrec).imp (List.mem_append_left _) (List.mem_append_left _)
    rwa [← hinj hmem hid heq]
  · intro hrec
    exact ⟨id, hrec, rfl⟩

/-- There are as many digests as contracts. -/
theorem Tracks.card_used {s : ValuesStore} (h : Tracks d calls s)
    (hinj : Set.InjOn (contractDigest d) (contractIdsOf calls)) :
    s.usedContracts.length = (recordedOf calls).toFinset.card := by
  have himage : s.usedContracts.toFinset =
      (recordedOf calls).toFinset.image (contractDigest d) := by
    ext x
    simp [h.used]
  rw [← List.toFinset_card_of_nodup h.nodup, himage, Finset.card_image_of_injOn]
  intro i hi j hj
  exact hinj (mem_contractIdsOf_of_recorded (by simpa using hi))
    (mem_contractIdsOf_of_recorded (by simpa using hj))

/-- A check that gave up stays so. -/
theorem run_ok {s : ValuesStore} (h : (c.run d s).ok = true) : s.ok = true := by
  cases c with
  | recordUsed id =>
    cases id with
    | none => exact h
    | some id =>
      by_contra hok
      rw [Bool.not_eq_true] at hok
      simp [ValuesCall.run, valuesRecordUsedContract, hok] at h
  | holding owner amount admin instrument =>
    simp only [ValuesCall.run, valuesReportHolding] at h
    split at h
    · cases h
    · split at h
      · exact h
      · exact h
      · split at h
        · exact h
        · cases h
  | disclosed id =>
    cases id with
    | none => exact h
    | some id =>
      by_contra hok
      rw [Bool.not_eq_true] at hok
      simp [ValuesCall.run, valuesCheckDisclosedContract, hok] at h
  | bind => exact h
  | unknownTemplate | unreadableHolding | parseFailure => cases h

/-- The texts that holdings name as their instruments. -/
def instrumentTexts (calls : List ValuesCall) : Set Bytes := {i | i ∈ instrumentsOf calls}

/-- A call that reports no holding changes the contracts alone. -/
theorem Tracks.of_noHolding {s t : ValuesStore} (h : Tracks d calls s)
    (hholding : c.holding? = none) (hok : t.ok = s.ok) (hholdings : t.holdings = s.holdings)
    (hinstrument : t.holdingsInstrument = s.holdingsInstrument) (hnodup : t.usedContracts.Nodup)
    (hused : ∀ x, x ∈ t.usedContracts ↔
      ∃ id ∈ recordedOf (calls ++ [c]), contractDigest d id = x) :
    Tracks d (calls ++ [c]) t := by
  refine ⟨hok.trans h.ok, ?_, ?_, hnodup, hused⟩
  · rw [hholdings, holdingsOf_concat, hholding, h.holdings]
    simp
  · rw [hinstrument, instrumentsOf_concat, hholding, h.instrument]
    simp

/-- A contract that is known does not count again. -/
theorem record_known {s : ValuesStore} {id : Bytes} (hfine : Fine calls) (h : Tracks d calls s)
    (hid : id ∈ recordedOf calls) :
    Tracks d (calls ++ [.recordUsed (some id)]) s ∧ Admits calls (.recordUsed (some id)) := by
  constructor
  · refine h.of_noHolding rfl rfl rfl rfl h.nodup fun x => ?_
    rw [recordedOf_concat, h.used]
    constructor
    · rintro ⟨i, hi, hx⟩
      exact ⟨i, List.mem_append_left _ hi, hx⟩
    · rintro ⟨i, hi, hx⟩
      rcases List.mem_append.mp hi with hi | hi
      · exact ⟨i, hi, hx⟩
      · obtain rfl : i = id := by simpa [ValuesCall.recorded?] using hi
        exact ⟨i, hid, hx⟩
  · have hset : (recordedOf calls ++ [id]).toFinset = (recordedOf calls).toFinset := by
      ext x
      simp only [List.toFinset_append, List.toFinset_cons, List.toFinset_nil,
        Finset.mem_union, List.mem_toFinset, insert_empty_eq, Finset.mem_singleton]
      constructor
      · rintro (hx | rfl)
        · exact hx
        · exact hid
      · exact .inl
    show (recordedOf calls ++ [id]).toFinset.card ≤ 32
    rw [hset]
    exact hfine.contracts

/-- One that is new is one more. -/
theorem card_recorded_concat {id : Bytes} (hnew : id ∉ recordedOf calls) :
    (recordedOf calls ++ [id]).toFinset.card = (recordedOf calls).toFinset.card + 1 := by
  rw [List.toFinset_append, List.toFinset_cons, List.toFinset_nil, insert_empty_eq,
    Finset.card_union_of_disjoint (by simpa using hnew), Finset.card_singleton]

/-- It is added by its digest. -/
theorem record_new {s : ValuesStore} {id : Bytes} (h : Tracks d calls s)
    (hnew : contractDigest d id ∉ s.usedContracts) :
    Tracks d (calls ++ [.recordUsed (some id)])
      { s with usedContracts := s.usedContracts ++ [contractDigest d id] } := by
  refine h.of_noHolding rfl rfl rfl rfl ?_ fun x => ?_
  · rw [List.nodup_append]
    refine ⟨h.nodup, List.nodup_singleton _, ?_⟩
    rintro x hx y hy rfl
    rw [List.mem_singleton.mp hy] at hx
    exact hnew hx
  · show x ∈ s.usedContracts ++ [contractDigest d id] ↔ _
    rw [recordedOf_concat, List.mem_append, h.used, List.mem_singleton]
    simp only [ValuesCall.recorded?, Option.toList_some, List.mem_append, List.mem_singleton]
    constructor
    · rintro (⟨i, hi, hx⟩ | rfl)
      · exact ⟨i, .inl hi, hx⟩
      · exact ⟨id, .inr rfl, rfl⟩
    · rintro ⟨i, hi | rfl, hx⟩
      · exact .inl ⟨i, hi, hx⟩
      · exact .inr hx.symm

/-- Recording a contract: the store has room for 32 different ones. -/
theorem record_tracks {s : ValuesStore} {id : Bytes} (hfine : Fine calls) (h : Tracks d calls s)
    (hids : Set.InjOn (contractDigest d) (contractIdsOf (calls ++ [.recordUsed (some id)]))) :
    (Admits calls (.recordUsed (some id)) →
      Tracks d (calls ++ [.recordUsed (some id)]) (valuesRecordUsedContract d s (some id))) ∧
    ((valuesRecordUsedContract d s (some id)).ok = true →
      Admits calls (.recordUsed (some id))) := by
  have hmem := h.mem_used hids (.inl (List.mem_append_right _ (List.mem_singleton_self _)))
  have hcard := h.card_used (hids.mono fun i hi =>
    hi.imp (List.mem_append_left _) (List.mem_append_left _))
  have hrun : valuesRecordUsedContract d s (some id) =
      if contractDigest d id ∈ s.usedContracts then s
      else if maxUsedContracts ≤ s.usedContracts.length then s.giveUp
      else { s with usedContracts := s.usedContracts ++ [contractDigest d id] } := by
    simp only [valuesRecordUsedContract, h.ok]
    rfl
  rw [hrun]
  by_cases hused : contractDigest d id ∈ s.usedContracts
  · obtain ⟨htracks, hadmits⟩ := record_known hfine h (hmem.mp hused)
    rw [if_pos hused]
    exact ⟨fun _ => htracks, fun _ => hadmits⟩
  · have hadmits : Admits calls (.recordUsed (some id)) ↔ s.usedContracts.length + 1 ≤ 32 := by
      show (recordedOf calls ++ [id]).toFinset.card ≤ 32 ↔ _
      rw [card_recorded_concat fun hid => hused (hmem.mpr hid), ← hcard]
    have hmax : maxUsedContracts = 32 := rfl
    rw [if_neg hused]
    -- a full store gives up, any other one has room
    by_cases hfull : maxUsedContracts ≤ s.usedContracts.length
    · rw [if_pos hfull]
      refine ⟨fun hc => ?_, fun hok => absurd hok Bool.false_ne_true⟩
      have := hadmits.mp hc
      omega
    · rw [if_neg hfull]
      exact ⟨fun _ => record_new h hused, fun _ => hadmits.mpr (by omega)⟩

/-- Reporting a holding: the first instrument named is the one that all must name. -/
theorem holding_tracks {s : ValuesStore} {x : HoldingText} (hfine : Fine calls)
    (h : Tracks d calls s) (htexts : Set.InjOn d.sha
      (instrumentTexts (calls ++ [.holding x.owner x.amount x.admin x.instrument]))) :
    (Admits calls (.holding x.owner x.amount x.admin x.instrument) →
      Tracks d (calls ++ [.holding x.owner x.amount x.admin x.instrument])
        (valuesReportHolding s (x.digests d) (x.instrument.map d.sha))) ∧
    ((valuesReportHolding s (x.digests d) (x.instrument.map d.sha)).ok = true →
      Admits calls (.holding x.owner x.amount x.admin x.instrument)) := by
  have hlen : s.holdings.length = (holdingsOf calls).length := by
    rw [h.holdings, List.length_map]
  have hmax : maxHoldings = 4 := rfl
  have hholdings : s.holdings ++ [x.digests d] = (holdingsOf (calls ++
      [.holding x.owner x.amount x.admin x.instrument])).map (HoldingText.digests d) := by
    rw [holdingsOf_concat, List.map_append, h.holdings]
    rfl
  have hused : ∀ y, y ∈ s.usedContracts ↔ ∃ id ∈ recordedOf (calls ++
      [.holding x.owner x.amount x.admin x.instrument]), contractDigest d id = y := by
    rw [recordedOf_concat]
    simpa [ValuesCall.recorded?] using h.used
  unfold valuesReportHolding
  -- a fifth holding makes the store give up
  by_cases hfull : maxHoldings ≤ s.holdings.length
  · rw [if_pos hfull]
    refine ⟨fun hc => ?_, fun hok => absurd hok Bool.false_ne_true⟩
    have := hc.1
    omega
  · rw [if_neg hfull]
    have hfew : (holdingsOf calls).length < 4 := by omega
    have hfirst := h.instrument
    cases hi : x.instrument with
    | none =>
      rw [hi] at hholdings hused
      refine ⟨fun _ => ⟨h.ok, hholdings, ?_, h.nodup, hused⟩, fun _ => ⟨hfew, ?_⟩⟩
      · rw [instrumentsOf_concat]
        simpa [ValuesCall.holding?] using hfirst
      · intro k hk
        cases hk
    | some i =>
      rw [hi] at hholdings hused htexts
      cases hnamed : instrumentsOf calls with
      -- the first instrument that is named is kept
      | nil =>
        rw [hnamed] at hfirst
        simp only [Option.map_some, hfirst, List.head?_nil, Option.map_none]
        refine ⟨fun _ => ⟨h.ok, hholdings, ?_, h.nodup, hused⟩, fun _ => ⟨hfew, ?_⟩⟩
        · rw [instrumentsOf_concat, hnamed]
          rfl
        · rw [hnamed]
          exact fun _ _ _ hk => absurd hk List.not_mem_nil
      -- the next ones are compared with it, digest by digest
      | cons j rest =>
        rw [hnamed] at hfirst
        have hall : ∀ k ∈ instrumentsOf calls, j = k :=
          hfine.instrument j (hnamed ▸ List.mem_cons_self)
        have hij : d.sha i = d.sha j ↔ i = j := by
          refine htexts.eq_iff ?_ ?_
          · show i ∈ instrumentsOf _
            rw [instrumentsOf_concat]
            exact List.mem_append_right _ (List.mem_singleton_self _)
          · show j ∈ instrumentsOf _
            rw [instrumentsOf_concat, hnamed]
            exact List.mem_append_left _ List.mem_cons_self
        simp only [Option.map_some, hfirst, List.head?_cons]
        by_cases heq : i = j
        · rw [if_pos (hij.mpr heq)]
          refine ⟨fun _ => ⟨h.ok, hholdings, ?_, h.nodup, hused⟩, fun _ => ⟨hfew, ?_⟩⟩
          · rw [instrumentsOf_concat, hnamed]
            rfl
          · rintro k ⟨⟩ k' hk'
            exact heq.trans (hall k' hk')
        · rw [if_neg fun hsha => heq (hij.mp hsha)]
          refine ⟨fun hc => ?_, fun hok => absurd hok Bool.false_ne_true⟩
          exact absurd (hc.2 i rfl j (hnamed ▸ List.mem_cons_self)) heq

/-- **One call**: the store follows it exactly if it is admitted. -/
theorem run_tracks_step {s : ValuesStore} (hfine : Fine calls) (h : Tracks d calls s)
    (hids : Set.InjOn (contractDigest d) (contractIdsOf (calls ++ [c])))
    (htexts : Set.InjOn d.sha (instrumentTexts (calls ++ [c]))) :
    (Admits calls c → Tracks d (calls ++ [c]) (c.run d s)) ∧
      ((c.run d s).ok = true → Admits calls c) := by
  -- Calls that report no holding and no contract leave what is tracked as it is.
  have hkept (hholding : c.holding? = none) (hrecorded : c.recorded? = none)
      (hrun : c.run d s = s) : Tracks d (calls ++ [c]) (c.run d s) := by
    rw [hrun]
    refine h.of_noHolding hholding rfl rfl rfl h.nodup ?_
    rw [recordedOf_concat, hrecorded]
    simpa using h.used
  cases c with
  | unknownTemplate | unreadableHolding | parseFailure =>
    exact ⟨False.elim, fun hok => absurd hok Bool.false_ne_true⟩
  | bind fields destination amountCheck =>
    refine ⟨fun _ => h.of_noHolding rfl rfl rfl rfl h.nodup ?_, fun _ => trivial⟩
    show ∀ x, x ∈ s.usedContracts ↔ _
    rw [recordedOf_concat]
    simpa [ValuesCall.recorded?] using h.used
  | disclosed id =>
    cases id with
    | none =>
      refine ⟨fun _ => hkept rfl rfl rfl, fun _ => ?_⟩
      intro i hi
      cases hi
    | some id =>
      have hmem := h.mem_used hids (.inr (List.mem_append_right _ (List.mem_singleton_self _)))
      have hrun : (ValuesCall.disclosed (some id)).run d s =
          if contractDigest d id ∈ s.usedContracts then s else s.giveUp := by
        simp only [ValuesCall.run, valuesCheckDisclosedContract, h.ok]
        rfl
      constructor
      · intro hc
        exact hkept rfl rfl (by rw [hrun, if_pos (hmem.mpr (hc id rfl))])
      · intro hok i hi
        cases hi
        rw [← hmem]
        by_contra hnot
        rw [hrun, if_neg hnot] at hok
        cases hok
  | recordUsed id =>
    cases id with
    | none =>
      refine ⟨fun _ => hkept rfl rfl rfl, fun _ => ?_⟩
      show (recordedOf calls ++ []).toFinset.card ≤ 32
      rw [List.append_nil]
      exact hfine.contracts
    | some id =>
      exact record_tracks hfine h hids
  | holding owner amount admin instrument =>
    exact holding_tracks (x := ⟨owner, amount, admin, instrument⟩) hfine h htexts

theorem valuesAfter_concat : valuesAfter d (calls ++ [c]) = c.run d (valuesAfter d calls) := by
  simp [valuesAfter]

theorem contractIdsOf_init : contractIdsOf calls ⊆ contractIdsOf (calls ++ [c]) :=
  fun _ h => h.imp (List.mem_append_left _) (List.mem_append_left _)

theorem instrumentTexts_init : instrumentTexts calls ⊆ instrumentTexts (calls ++ [c]) := by
  intro i hi
  show i ∈ instrumentsOf _
  rw [instrumentsOf_concat]
  exact List.mem_append_left _ hi

/-- **All calls**: the store follows fine calls, and gives up on all others. -/
theorem run_tracks (hids : Set.InjOn (contractDigest d) (contractIdsOf calls))
    (htexts : Set.InjOn d.sha (instrumentTexts calls)) :
    (Fine calls → Tracks d calls (valuesAfter d calls)) ∧
      ((valuesAfter d calls).ok = true → Fine calls) := by
  induction calls using List.reverseRecOn with
  | nil =>
    constructor
    · intro _
      refine ⟨rfl, rfl, rfl, List.nodup_nil, fun x => ?_⟩
      simp [valuesAfter, valuesCheckReset, recordedOf]
    · exact fun _ => fine_nil
  | append_singleton calls c ih =>
    obtain ⟨htracks, hfine⟩ := ih (hids.mono contractIdsOf_init) (htexts.mono instrumentTexts_init)
    rw [valuesAfter_concat]
    constructor
    · intro h
      obtain ⟨hbefore, hlast⟩ := fine_concat.mp h
      exact (run_tracks_step hbefore (htracks hbefore) hids htexts).1 hlast
    · intro hok
      have hbefore := hfine (run_ok hok)
      exact fine_concat.mpr
        ⟨hbefore, (run_tracks_step hbefore (htracks hbefore) hids htexts).2 hok⟩

end CantonSigner
