import CantonSigner.Display.Tracks

/-!
# The verdict of the value check

The last screen bound is what the store shows (`run_shows`). `verdict_iff`: the verdict is
`Cleared`, where digests separate the texts they are taken of.
-/

namespace CantonSigner

open ByteCodec

variable {d : Device} {calls : List ValuesCall} {c : ValuesCall}

/-! ## The screen -/

/-- What the store has bound of a screen. -/
structure HoldsScreen (d : Device) (screen : Option BoundScreen) (s : ValuesStore) : Prop where
  bound : s.bound = screen.isSome
  boundDestination : ∀ x ∈ screen, s.boundDestination = x.destination
  destination : ∀ x ∈ screen, s.destination = x.account.map d.sha
  amount : ∀ x ∈ screen, s.amount = x.amount.map d.sha
  admin : ∀ x ∈ screen, s.admin = x.admin.map d.sha
  sender : ∀ x ∈ screen, s.sender = x.sender.map d.sha
  instrument : ∀ x ∈ screen, s.instrument = x.instrument.map d.sha

/-- What is shown depends on the screen of the store only. -/
theorem HoldsScreen.of_screen {screen : Option BoundScreen} {s t : ValuesStore}
    (h : HoldsScreen d screen s) (heq : t.screen = s.screen) : HoldsScreen d screen t := by
  simp only [ValuesStore.screen, Prod.mk.injEq] at heq
  obtain ⟨hdestination, hamount, hadmin, hinstrument, hsender, hbound, hboundDestination⟩ := heq
  constructor
  · exact hbound.trans h.bound
  · exact fun x hx => hboundDestination.trans (h.boundDestination x hx)
  · exact fun x hx => hdestination.trans (h.destination x hx)
  · exact fun x hx => hamount.trans (h.amount x hx)
  · exact fun x hx => hadmin.trans (h.admin x hx)
  · exact fun x hx => hsender.trans (h.sender x hx)
  · exact fun x hx => hinstrument.trans (h.instrument x hx)

/-- Only a bind changes what is shown. -/
theorem run_screen {s : ValuesStore} (h : c.screen? d = none) : (c.run d s).screen = s.screen := by
  cases c with
  | bind => cases h
  | recordUsed id => exact (useKept_record s id).screen
  | disclosed id => exact (useKept_check s id).screen
  | holding owner amount admin instrument => exact HoldingParser.valuesReportHolding_screen _ _ _
  | unknownTemplate | unreadableHolding | parseFailure => rfl

/-- The last screen bound is the one that the store shows. -/
theorem run_shows : HoldsScreen d (lastScreen d calls) (valuesAfter d calls) := by
  induction calls using List.reverseRecOn with
  | nil => exact ⟨rfl, nofun, nofun, nofun, nofun, nofun, nofun⟩
  | append_singleton calls c ih =>
    rw [lastScreen_concat, valuesAfter_concat]
    cases hc : c.screen? d with
    | none =>
      rw [Option.none_or]
      exact ih.of_screen (run_screen hc)
    | some x =>
      rw [Option.some_or]
      cases c with
      | bind fields destination amountCheck =>
        -- A bind replaces everything, whatever the screen before it has left.
        simp only [ValuesCall.screen?, Option.some.injEq] at hc
        subst hc
        refine ⟨rfl, ?_, ?_, ?_, ?_, ?_, ?_⟩ <;> rintro _ ⟨⟩ <;> rfl
      | _ => cases hc

/-! ## The verdict -/

/-- The texts of a holding. -/
def HoldingText.texts (h : HoldingText) : List Bytes :=
  [h.owner, h.amount, h.admin] ++ h.instrument.toList

/-- The texts of a screen. -/
def BoundScreen.texts (x : BoundScreen) : List Bytes :=
  x.account.toList ++ x.amount.toList ++ x.admin.toList ++ x.sender.toList ++ x.instrument.toList

/-- The texts that are compared by their digests: those of the holdings and of the last screen. -/
def textsOf (d : Device) (calls : List ValuesCall) : Set Bytes :=
  {t | (∃ h ∈ holdingsOf calls, t ∈ h.texts) ∨ ∃ x ∈ lastScreen d calls, t ∈ x.texts}

theorem instrumentTexts_subset : instrumentTexts calls ⊆ textsOf d calls := by
  intro i hi
  obtain ⟨h, hh, hi⟩ := List.mem_filterMap.mp hi
  exact .inl ⟨h, hh, List.mem_append_right _ (Option.mem_toList.mpr hi)⟩

section Verdict

variable {s : ValuesStore} {x : BoundScreen}

/-- Where digests separate texts, comparing them compares the texts. -/
theorem map_sha_eq_some {S : Set Bytes} (hinj : Set.InjOn d.sha S) {o : Option Bytes} {t : Bytes}
    (ho : ∀ u ∈ o, u ∈ S) (ht : t ∈ S) : o.map d.sha = some (d.sha t) ↔ o = some t := by
  rw [Option.map_eq_some_iff]
  constructor
  · rintro ⟨u, hu, heq⟩
    rw [hu, hinj (ho u hu) ht heq]
  · intro h
    exact ⟨t, h, rfl⟩

/-- Whether the verdict on a bound screen is a good one, in the texts. -/
theorem paidTo_iff (hfine : Fine calls) (h : Tracks d calls s)
    (hscreen : lastScreen d calls = some x) (hshows : HoldsScreen d (some x) s)
    (hinj : Set.InjOn d.sha (textsOf d calls)) {D : Bytes}
    (hD : x.account = some D) :
    (destinationHoldsValue s (d.sha D) = true ∧
      (∀ a ∈ s.admin, holdingsMatchDisplayedInstrument s a = true) ∧
      holdingsMatchDisplayedId s = true) ↔ x.PaidTo D (holdingsOf calls) := by
  have hheld : ∀ {y t}, y ∈ holdingsOf calls → t ∈ y.texts → t ∈ textsOf d calls :=
    fun hy ht => .inl ⟨_, hy, ht⟩
  have hshown : ∀ {t}, t ∈ x.texts → t ∈ textsOf d calls := fun ht => .inr ⟨x, hscreen, ht⟩
  have hDx : D ∈ textsOf d calls := hshown (by simp [BoundScreen.texts, hD])
  -- Owners and amounts are compared with the screen by their digests.
  have howner : ∀ y ∈ holdingsOf calls, d.sha y.owner = d.sha D ↔ y.owner = D := fun y hy =>
    hinj.eq_iff (hheld hy (by simp [HoldingText.texts])) hDx
  have hsender : ∀ y ∈ holdingsOf calls,
      s.sender = some (d.sha y.owner) ↔ x.sender = some y.owner := by
    intro y hy
    rw [hshows.sender x rfl]
    refine map_sha_eq_some hinj (fun u hu => hshown ?_) (hheld hy (by simp [HoldingText.texts]))
    simp [BoundScreen.texts, Option.mem_def.mp hu]
  have hcarries : ∀ y ∈ holdingsOf calls, carries s (d.sha D) (y.digests d) = true ↔
      y.owner = D ∧ ∀ a ∈ x.amount, y.amount = a := by
    intro y hy
    have hamount := hshows.amount x rfl
    rw [carries, Bool.and_eq_true, decide_eq_true_eq, HoldingText.digests, howner y hy, hamount]
    refine and_congr_right fun _ => ?_
    cases ha : x.amount with
    | none => simp
    | some a =>
      have heq : d.sha y.amount = d.sha a ↔ y.amount = a :=
        hinj.eq_iff (hheld hy (by simp [HoldingText.texts]))
          (hshown (by simp [BoundScreen.texts, ha]))
      simp [eq_comm (a := d.sha a), heq]
  have hcount : s.holdings.countP (fun h => h.owner = d.sha D) =
      (holdingsOf calls).countP (fun h => h.owner = D) := by
    rw [h.holdings, List.countP_map]
    refine List.countP_congr fun y hy => ?_
    show decide (d.sha y.owner = d.sha D) = true ↔ decide (y.owner = D) = true
    rw [decide_eq_true_eq, decide_eq_true_eq]
    exact howner y hy
  have hself : isTransferToSelf s = true ↔ x.destination = .receiver ∧ x.sender = some D := by
    have hdestination : s.destination = some (d.sha D) := by
      rw [hshows.destination x rfl, hD]
      rfl
    have heq : x.sender.map d.sha = some (d.sha D) ↔ x.sender = some D := by
      refine map_sha_eq_some hinj (fun u hu => hshown ?_) hDx
      simp [BoundScreen.texts, Option.mem_def.mp hu]
    rw [isTransferToSelf, hdestination, hshows.sender x rfl, hshows.boundDestination x rfl, ← heq]
    cases x.sender <;> simp
  have hadmin : (∀ a ∈ s.admin, holdingsMatchDisplayedInstrument s a = true) ↔
      ∀ a ∈ x.admin, ∀ y ∈ holdingsOf calls, y.admin = a := by
    rw [hshows.admin x rfl]
    cases ha : x.admin with
    | none => simp
    | some a =>
      have heq : ∀ y ∈ holdingsOf calls, d.sha y.admin = d.sha a ↔ y.admin = a := fun y hy =>
        hinj.eq_iff (hheld hy (by simp [HoldingText.texts]))
          (hshown (by simp [BoundScreen.texts, ha]))
      simp only [Option.map_some, Option.mem_some_iff, forall_eq',
        holdingsMatchDisplayedInstrument, h.holdings, List.all_map, List.all_eq_true,
        Function.comp_apply, HoldingText.digests, beq_iff_eq]
      exact forall₂_congr heq
  have hinstrument : holdingsMatchDisplayedId s = true ↔
      ∀ y ∈ holdingsOf calls, ∀ i ∈ y.instrument, x.instrument = some i := by
    have hall : (∀ y ∈ holdingsOf calls, ∀ i ∈ y.instrument, x.instrument = some i) ↔
        ∀ i ∈ instrumentsOf calls, x.instrument = some i := by
      simp only [instrumentsOf, List.mem_filterMap]
      constructor
      · rintro h i ⟨y, hy, hi⟩
        exact h y hy i hi
      · exact fun h y hy i hi => h i ⟨y, hy, hi⟩
    rw [hall, holdingsMatchDisplayedId, h.instrument, hshows.instrument x rfl]
    cases hnamed : instrumentsOf calls with
    | nil => simp
    | cons i rest =>
      -- All holdings name the instrument that the first of them names.
      have hrest : ∀ j ∈ i :: rest, j = i := fun j hj =>
        hfine.instrument j (hnamed ▸ hj) i (hnamed ▸ List.mem_cons_self)
      have heq : x.instrument.map d.sha = some (d.sha i) ↔ x.instrument = some i := by
        refine map_sha_eq_some hinj (fun u hu => hshown ?_) (instrumentTexts_subset ?_)
        · simp [BoundScreen.texts, Option.mem_def.mp hu]
        · show i ∈ instrumentsOf calls
          rw [hnamed]
          exact List.mem_cons_self
      have hfirst : (∀ j ∈ i :: rest, x.instrument = some j) ↔ x.instrument = some i := by
        constructor
        · exact fun h => h i List.mem_cons_self
        · exact fun h j hj => by rw [h, hrest j hj]
      rw [hfirst, ← heq]
      cases x.instrument with
      | none => simp
      | some j => simp [eq_comm (a := d.sha j)]
  rw [destinationHoldsValue_iff, hadmin, hinstrument, hcount, hself]
  have howners : (∀ y ∈ s.holdings, y.owner = d.sha D ∨ s.sender = some y.owner) ↔
      ∀ y ∈ holdingsOf calls, y.owner = D ∨ x.sender = some y.owner := by
    rw [h.holdings, List.forall_mem_map]
    exact forall₂_congr fun y hy => or_congr (howner y hy) (hsender y hy)
  have hpaid : (∃ y ∈ s.holdings, carries s (d.sha D) y = true) ↔
      ∃ y ∈ holdingsOf calls, y.owner = D ∧ ∀ a ∈ x.amount, y.amount = a := by
    rw [h.holdings]
    simp only [List.mem_map, exists_exists_and_eq_and]
    exact exists_congr fun y => and_congr_right (hcarries y)
  rw [howners, hpaid]
  constructor
  · rintro ⟨⟨ho, hn, ha⟩, hadm, hi⟩
    exact ⟨ho, hn.imp_right fun h => ⟨h.1.1, h.1.2, h.2⟩, ha, hadm, hi⟩
  · intro h
    exact ⟨⟨h.owners, h.owned.imp_right fun h => ⟨⟨h.1, h.2.1⟩, h.2.2⟩, h.amount⟩, h.admin,
      h.instrument⟩

/-- The verdict on a store that has not given up. -/
theorem allows_iff (hfine : Fine calls) (h : Tracks d calls s)
    (hscreen : lastScreen d calls = some x) (hshows : HoldsScreen d (some x) s)
    (hinj : Set.InjOn d.sha (textsOf d calls)) :
    valuesVerdict s = true ↔ x.Allows (holdingsOf calls) := by
  have hbound : s.bound = true := hshows.bound
  rw [valuesVerdict, h.ok, hbound, hshows.boundDestination x rfl, BoundScreen.Allows]
  simp only [Bool.not_true, Bool.false_eq_true, if_false]
  by_cases hnone : x.destination = .none
  · -- Behind such a screen, nothing may move.
    rw [if_pos hnone, h.holdings]
    simp [hnone]
  · rw [if_neg hnone, hshows.destination x rfl]
    cases hD : x.account with
    | none => simp [hnone]
    | some D =>
      simp only [hnone, Option.map_some, false_and, false_or, ne_eq, not_false_eq_true, true_and,
        Option.some.injEq, exists_eq_left', ← paidTo_iff hfine h hscreen hshows hinj hD,
        Bool.and_eq_true, and_assoc]
      refine and_congr_right fun _ => and_congr_left fun _ => ?_
      cases s.admin <;> simp

end Verdict

/-- **The verdict is its specification**: where digests separate the contracts and the texts of
the calls, clear signing is allowed exactly after calls that clear it. -/
theorem verdict_iff {d : Device} {calls : List ValuesCall}
    (hids : Set.InjOn (contractDigest d) (contractIdsOf calls))
    (htexts : Set.InjOn d.sha (textsOf d calls)) :
    (valuesCanClearSign (valuesAfter d calls)).2 = true ↔ Cleared d calls := by
  obtain ⟨htracks, hfine⟩ := run_tracks hids (htexts.mono instrumentTexts_subset)
  have hshows : HoldsScreen d (lastScreen d calls) (valuesAfter d calls) := run_shows
  rw [valuesCanClearSign_verdict]
  constructor
  · intro hv
    have hok : (valuesAfter d calls).ok = true := by
      by_contra hok
      simp [valuesVerdict, hok] at hv
    refine ⟨hfine hok, ?_⟩
    cases hscreen : lastScreen d calls with
    | none =>
      have hbound := hshows.bound
      rw [hscreen] at hbound
      simp [valuesVerdict, hbound] at hv
    | some x =>
      rw [hscreen] at hshows
      exact ⟨x, rfl, (allows_iff (hfine hok) (htracks (hfine hok)) hscreen hshows htexts).mp hv⟩
  · rintro ⟨hfine, x, hscreen, hallows⟩
    rw [hscreen] at hshows
    exact (allows_iff hfine (htracks hfine) hscreen hshows htexts).mpr hallows

/-- A screen on which alice pays bob ten amulets. -/
def paymentFields : List TxField := [
  ⟨⟨str "transfer.sender", none, none, true, .sender⟩, some (str "alice"), true, true, false⟩,
  ⟨⟨str "transfer.receiver", none, none, true, .receiver⟩, some (str "bob"), true, true, false⟩,
  ⟨⟨str "transfer.amount", none, none, true, .amount⟩, some (str "10.0"), true, true, false⟩,
  ⟨⟨str "transfer.admin", none, none, true, .admin⟩, some (str "dso"), true, true, false⟩,
  ⟨⟨str "transfer.id", none, none, true, .instrument⟩, some (str "Amulet"), true, true, false⟩]

/-- The screen is bound, and the payment made, with change for alice. -/
def paymentCalls : List ValuesCall := [
  .recordUsed (some (str "00aa")), .recordUsed (some (str "00bb")),
  .bind paymentFields .receiver .comparable, .disclosed (some (str "00aa")),
  .holding (str "bob") (str "10.0") (str "dso") (some (str "Amulet")),
  .holding (str "alice") (str "4.5") (str "dso") (some (str "Amulet"))]

/-- The texts that are compared for it. -/
def paymentTexts : List Bytes :=
  [str "alice", str "bob", str "10.0", str "4.5", str "dso", str "Amulet"]

/-- A payment that passes. -/
theorem verdict_iff_payment :
    (valuesCanClearSign (valuesAfter testDevice paymentCalls)).2 = true := by
  have hids : ∀ id ∈ contractIdsOf paymentCalls, id ∈ [str "00aa", str "00bb"] := by
    rintro id (h | h)
    · simpa [paymentCalls, recordedOf, ValuesCall.recorded?] using h
    · exact List.mem_cons.mpr (.inl (by simpa [paymentCalls] using h))
  have hholdings : holdingsOf paymentCalls =
      [⟨str "bob", str "10.0", str "dso", some (str "Amulet")⟩,
        ⟨str "alice", str "4.5", str "dso", some (str "Amulet")⟩] := by decide
  have hscreen : lastScreen testDevice paymentCalls = some ⟨.receiver, some (str "bob"),
      some (str "10.0"), some (str "dso"), some (str "alice"), some (str "Amulet")⟩ := by decide
  have htexts : ∀ t ∈ textsOf testDevice paymentCalls, t ∈ paymentTexts := by
    have hheld : ∀ h ∈ holdingsOf paymentCalls, ∀ t ∈ h.texts, t ∈ paymentTexts := by decide
    have hshown : ∀ x ∈ lastScreen testDevice paymentCalls, ∀ t ∈ x.texts, t ∈ paymentTexts := by
      rw [hscreen]
      decide
    rintro t (⟨h, hh, ht⟩ | ⟨x, hx, ht⟩)
    · exact hheld h hh t ht
    · exact hshown x hx t ht
  -- Each call is admitted after those before it.
  have hrecorded : Fine ([] ++ [.recordUsed (some (str "00aa"))]) :=
    fine_concat.mpr ⟨fine_nil, show ([] ++ [str "00aa"]).toFinset.card ≤ 32 by decide⟩
  have hrecorded₂ : Fine (_ ++ [.recordUsed (some (str "00bb"))]) :=
    fine_concat.mpr ⟨hrecorded, show ([str "00aa"] ++ [str "00bb"]).toFinset.card ≤ 32 by decide⟩
  have hbound : Fine (_ ++ [.bind paymentFields .receiver .comparable]) :=
    fine_concat.mpr ⟨hrecorded₂, trivial⟩
  have hdisclosed : Fine (_ ++ [.disclosed (some (str "00aa"))]) :=
    fine_concat.mpr ⟨hbound, by rintro _ ⟨⟩; decide⟩
  have hpaid : Fine (_ ++ [.holding (str "bob") (str "10.0") (str "dso") (some (str "Amulet"))]) :=
    fine_concat.mpr ⟨hdisclosed, by decide, by rintro _ ⟨⟩ _ h; cases h⟩
  have hfine : Fine (_ ++ [.holding (str "alice") (str "4.5") (str "dso") (some (str "Amulet"))]) :=
    fine_concat.mpr ⟨hpaid, by decide, by rintro _ ⟨⟩; decide⟩
  refine (verdict_iff ?_ ?_).mpr ⟨hfine, _, hscreen, ?_⟩
  · exact fun _ h _ h' => List.inj_on_of_nodup_map (by decide +kernel) (hids _ h) (hids _ h')
  · exact fun _ h _ h' => List.inj_on_of_nodup_map (by decide +kernel) (htexts _ h) (htexts _ h')
  rw [hholdings]
  refine .inr ⟨by decide, str "bob", rfl, by decide, .inl (by decide), ?_, by decide, by decide⟩
  decide

end CantonSigner
