import CantonSigner.Display.Amount
import CantonSigner.Display.Holdings
import Mathlib.Data.Set.Function

/-!
# What the verdict of the value check says

The value check compares digests: of the strings bound from the screen, and of the strings
read from each create node. Where the hash separates these strings (`comparedStrings`), a
verdict that lets a token screen pass says about the create nodes themselves what
`HoldingsAgree` lists.
-/

namespace CantonSigner

open ByteCodec DisplayParser HoldingParser

variable {d : Device} {s : ValuesStore} {cs : List Create} {c : Create}
  {F A T adm id : Bytes}

/-! ## Create nodes -/

/-- The template of a holding, if the create node has one. -/
def holdingConfig (c : Create) : Option HoldingPathConfig := c.templateId.bind findHolding

/-- The string of a create node of a holding in a slot. -/
def createString (slot : Slot) (c : Create) : Option Bytes :=
  (holdingConfig c).bind fun cfg => holdingString cfg slot c

/-- Create nodes agree with a token screen that shows sender `F`, amount `A`, receiver `T`,
administrator `adm` and instrument `id`. -/
structure HoldingsAgree (cs : List Create) (F A T adm id : Bytes) : Prop where
  known : ∀ c ∈ cs, ∃ template, c.templateId = some template ∧
    ((findHolding template).isSome = true ∨ isNonHolding template = true)
  few : cs.countP (fun c => (holdingConfig c).isSome) ≤ maxHoldings
  shown : ∀ c ∈ cs, (holdingConfig c).isSome = true →
    (createString .owner c = some T ∨ createString .owner c = some F) ∧
      createString .admin c = some adm ∧ ∀ i, createString .instrument c = some i → i = id
  owned : 1 ≤ cs.countP (fun c => createString .owner c = some T) ∧
    cs.countP (fun c => createString .owner c = some T) ≤ if F = T then 2 else 1
  amount : ∃ c ∈ cs, createString .owner c = some T ∧ createString .amount c = some A

/-- The strings that are compared by their digests. -/
def comparedStrings (cs : List Create) (F A T adm id : Bytes) : Set Bytes :=
  {t | t ∈ [F, A, T, adm, id] ∨ ∃ c ∈ cs, ∃ slot, createString slot c = some t}

/-- A create node without a holding has no string. -/
theorem createString_none (slot : Slot) (h : holdingConfig c = none) :
    createString slot c = none := by
  rw [createString, h]
  rfl

/-- What a readable create node of a holding is reported as. -/
theorem holding_of_create (hread : (readCreate d c).isSome = true)
    (hcfg : (holdingConfig c).isSome = true) : ∃ h, createHolding d c = some h ∧
      (∃ t, createString .owner c = some t ∧ h.owner = d.sha t) ∧
      (∃ t, createString .amount c = some t ∧ h.amount = d.sha t) ∧
      (∃ t, createString .admin c = some t ∧ h.admin = d.sha t) ∧
      ∀ t, createString .instrument c = some t → createInstrument d c = some (d.sha t) := by
  have hsome := (createHolding_isSome hread).trans hcfg
  obtain ⟨h, hh⟩ := Option.isSome_iff_exists.mp hsome
  obtain ⟨⟨h', i⟩, hjoin, heq⟩ := Option.map_eq_some_iff.mp hh
  obtain rfl : h' = h := heq
  have hr : readCreate d c = some (some (h', i)) := Option.join_eq_some_iff.mp hjoin
  obtain ⟨template, cfg, htemplate, hfind, hof⟩ := readCreate_strings hr
  have hconfig : holdingConfig c = some cfg := by
    rw [holdingConfig, htemplate]
    exact hfind
  -- the strings that were read are those at the paths of its template
  have hstring : ∀ slot, createString slot c = holdingString cfg slot c := by
    intro slot
    rw [createString, hconfig]
    rfl
  refine ⟨h', hh, ?_, ?_, ?_, ?_⟩
  · rw [hstring]
    exact hof.owner
  · rw [hstring]
    exact hof.amount
  · rw [hstring]
    exact hof.admin
  · intro t ht
    rw [hstring] at ht
    have hi : createInstrument d c = i := by simp [createInstrument, hr]
    rw [hi]
    have hinstrument := hof.instrument
    split at hinstrument
    · obtain ⟨t', ht', rfl⟩ := hinstrument
      rw [Option.some.inj (ht.symm.trans ht')]
    · -- A template without the path of an instrument has no string for it.
      rename_i hnone
      have hnopath : cfg.idPath = none := by simpa using hnone
      exfalso
      obtain ⟨⟨p, w⟩, -, htakes⟩ := List.exists_of_findSome?_eq_some ht
      unfold Slot.takes at htakes
      split at htakes
      all_goals simp [Slot.path, hnopath] at htakes

/-! ## The verdict -/

theorem valuesCanClearSign_verdict (s : ValuesStore) :
    (valuesCanClearSign s).2 = valuesVerdict s := by
  unfold valuesCanClearSign
  cases hv : valuesVerdict s with
  | true => rfl
  | false =>
    rw [if_neg nofun]
    split <;> rfl

/-- A holding of the account that carries the amount shown. -/
def carries (s : ValuesStore) (dest : Bytes) (h : Holding) : Bool :=
  h.owner = dest && (s.amount.isNone || s.amount == some h.amount)

/-- The loop over the holdings gets to its end exactly if it shows every owner. -/
theorem countOwned_eq_some {dest : Bytes} {hs : List Holding} {n owned : Nat} {seen₀ seen : Bool} :
    countOwned s dest hs n seen₀ = some (owned, seen) ↔
      (∀ h ∈ hs, h.owner = dest ∨ s.sender = some h.owner) ∧
        owned = n + hs.countP (fun h => h.owner = dest) ∧
          seen = (seen₀ || hs.any (carries s dest)) := by
  induction hs generalizing n seen₀ with
  | nil => simp [countOwned, eq_comm]
  | cons x hs ih =>
    rw [countOwned, List.forall_mem_cons, List.countP_cons, List.any_cons]
    by_cases hx : x.owner = dest
    · -- A holding of the account itself.
      have hcarries : carries s dest x = (s.amount.isNone || s.amount == some x.amount) := by
        simp [carries, hx]
      rw [if_neg (by simpa using hx), ih, hcarries, if_pos (by simpa using hx)]
      simp only [hx, true_or, true_and, Bool.or_assoc, Nat.add_assoc, Nat.add_comm 1]
    · -- Change of the sender does not count.
      have hcarries : carries s dest x = false := by simp [carries, hx]
      rw [if_pos hx, hcarries]
      by_cases hsender : s.sender = some x.owner
      · rw [if_pos hsender, ih]
        simp [hsender, hx]
      · rw [if_neg hsender]
        simp [hx, hsender]

/-- What `destination_holds_value` asks of the holdings. -/
theorem destinationHoldsValue_iff {dest : Bytes} : destinationHoldsValue s dest = true ↔
    (∀ h ∈ s.holdings, h.owner = dest ∨ s.sender = some h.owner) ∧
      (s.holdings.countP (fun h => h.owner = dest) = 1 ∨
        isTransferToSelf s = true ∧ s.holdings.countP (fun h => h.owner = dest) ≤ 2) ∧
      ∃ h ∈ s.holdings, carries s dest h = true := by
  unfold destinationHoldsValue
  cases hcount : countOwned s dest s.holdings 0 false with
  | none =>
    refine iff_of_false nofun fun h => ?_
    rw [countOwned_eq_some.mpr ⟨h.1, rfl, rfl⟩] at hcount
    cases hcount
  | some r =>
    obtain ⟨owned, seen⟩ := r
    obtain ⟨howners, hn, hseen⟩ := countOwned_eq_some.mp hcount
    rw [Nat.zero_add] at hn
    rw [Bool.false_or] at hseen
    have hexists : (∃ h ∈ s.holdings, carries s dest h = true) ↔ seen = true := by
      rw [hseen, List.any_eq_true]
    -- A holding that carries the amount is one of the account.
    have hpos : seen = true → 0 < owned := by
      intro h
      obtain ⟨x, hx, hcarries⟩ := hexists.mpr h
      rw [carries, Bool.and_eq_true] at hcarries
      rw [hn]
      exact List.countP_pos_iff.mpr ⟨x, hx, hcarries.1⟩
    rw [hexists, ← hn, and_iff_right howners]
    dsimp only
    by_cases hzero : owned = 0
    · rw [if_pos hzero]
      exact iff_of_false nofun fun h => absurd (hpos h.2) (by omega)
    · rw [if_neg hzero]
      by_cases hone : owned = 1
      · simp [hone]
      · have hmore : 1 < owned := by omega
        by_cases hself : isTransferToSelf s = true
        · by_cases htwo : 2 < owned
          · simp only [hself, htwo, hone]
            simp [Nat.not_le.mpr htwo]
          · simp only [hself, htwo, hone]
            simp [Nat.not_lt.mp htwo]
        · simp [hself, hmore, hone]

/-- The store is bound to a token screen. -/
structure TokenBound (d : Device) (s : ValuesStore) (F A T adm id : Bytes) : Prop where
  destination : s.destination = some (d.sha T)
  amount : s.amount = some (d.sha A)
  admin : s.admin = some (d.sha adm)
  instrument : s.instrument = some (d.sha id)
  sender : s.sender = some (d.sha F)
  bound : s.bound = true
  boundDestination : s.boundDestination = .receiver

/-- What the verdict says about the holdings of the store. -/
structure HoldingsMatch (d : Device) (s : ValuesStore) (F A T adm id : Bytes) : Prop where
  ok : s.ok = true
  owners : ∀ h ∈ s.holdings, h.owner = d.sha T ∨ h.owner = d.sha F
  owned : 1 ≤ s.holdings.countP (fun h => h.owner = d.sha T) ∧
    s.holdings.countP (fun h => h.owner = d.sha T) ≤ if d.sha F = d.sha T then 2 else 1
  amount : ∃ h ∈ s.holdings, h.owner = d.sha T ∧ h.amount = d.sha A
  admin : ∀ h ∈ s.holdings, h.admin = d.sha adm
  instrument : ∀ i, s.holdingsInstrument = some i → i = d.sha id

theorem holdingsMatch_of_verdict (h : TokenBound d s F A T adm id) (hv : valuesVerdict s = true) :
    HoldingsMatch d s F A T adm id := by
  unfold valuesVerdict at hv
  cases hok : s.ok with
  | false =>
    rw [hok] at hv
    cases hv
  | true =>
    rw [hok, h.bound, h.boundDestination, h.destination, h.admin] at hv
    simp only [Bool.not_true, Bool.false_eq_true, if_false, reduceCtorEq, Bool.and_eq_true] at hv
    obtain ⟨⟨hdest, hadmin⟩, hinstrument⟩ := hv
    -- sender and receiver agree exactly if their digests do
    have hself : isTransferToSelf s = decide (d.sha F = d.sha T) := by
      simp [isTransferToSelf, h.boundDestination, h.sender, h.destination, beq_eq_decide]
    obtain ⟨howners, howned, x, hx, hcarries⟩ := destinationHoldsValue_iff.mp hdest
    simp only [carries, h.amount, Option.isNone_some, Bool.false_or, Bool.and_eq_true,
      decide_eq_true_eq, beq_iff_eq, Option.some.injEq] at hcarries
    -- the holding with the amount is one of the receiver's
    have hone : 1 ≤ s.holdings.countP fun h => h.owner = d.sha T :=
      List.countP_pos_iff.mpr ⟨x, hx, by simpa using hcarries.1⟩
    refine ⟨hok, ?_, ⟨hone, ?_⟩, ⟨x, hx, hcarries.1, hcarries.2.symm⟩, ?_, ?_⟩
    · intro y hy
      refine (howners y hy).imp_right fun hsender => ?_
      rw [h.sender] at hsender
      exact (Option.some.inj hsender).symm
    · rw [hself, decide_eq_true_eq] at howned
      split
      · rcases howned with hn | ⟨-, hn⟩ <;> omega
      · rename_i hne
        rcases howned with hn | ⟨heq, -⟩
        · omega
        · exact absurd heq hne
    · intro y hy
      simpa using List.all_eq_true.mp hadmin y hy
    · intro i hi
      unfold holdingsMatchDisplayedId at hinstrument
      rw [hi, h.instrument] at hinstrument
      simpa using hinstrument

/-- **A verdict on a token screen is about the create nodes.** -/
theorem holdingsAgree_of_verdict (hcollects : Collects d valuesCheckReset cs s)
    (hbound : TokenBound d s F A T adm id) (hv : valuesVerdict s = true)
    (hinj : Set.InjOn d.sha (comparedStrings cs F A T adm id)) : HoldingsAgree cs F A T adm id := by
  have hmatch := holdingsMatch_of_verdict hbound hv
  have hok := hmatch.ok
  have hread := hcollects.readable hok
  have hholdings : s.holdings = cs.filterMap (createHolding d) := hcollects.holdings hok
  have hscreen : ∀ {t}, t ∈ [F, A, T, adm, id] → t ∈ comparedStrings cs F A T adm id := .inl
  have hstring : ∀ {c slot t}, c ∈ cs → createString slot c = some t →
      t ∈ comparedStrings cs F A T adm id := fun hc ht => .inr ⟨_, hc, _, ht⟩
  have hmem : ∀ {c h}, c ∈ cs → createHolding d c = some h → h ∈ s.holdings := by
    intro c h hc hh
    rw [hholdings]
    exact List.mem_filterMap.mpr ⟨c, hc, hh⟩
  -- The owner by digest and by string.
  have howner : ∀ c ∈ cs, (createString .owner c = some T ↔
      ∃ h, createHolding d c = some h ∧ h.owner = d.sha T) := by
    intro c hc
    constructor
    · intro ht
      have hcfg : (holdingConfig c).isSome = true := by
        by_contra hnone
        rw [createString_none .owner (by simpa using hnone)] at ht
        cases ht
      obtain ⟨h, hh, ⟨t, ht', heq⟩, -⟩ := holding_of_create (hread c hc) hcfg
      obtain rfl : t = T := Option.some.inj (ht'.symm.trans ht)
      exact ⟨h, hh, heq⟩
    · rintro ⟨h, hh, heq⟩
      have hcfg : (holdingConfig c).isSome = true := by
        rw [holdingConfig, ← createHolding_isSome (hread c hc), hh]
        rfl
      obtain ⟨h', hh', ⟨t, ht, heq'⟩, -⟩ := holding_of_create (hread c hc) hcfg
      obtain rfl : h' = h := Option.some.inj (hh'.symm.trans hh)
      rw [ht, hinj (hstring hc ht) (hscreen (by simp)) (heq'.symm.trans heq)]
  have hcount : s.holdings.countP (fun h => h.owner = d.sha T) =
      cs.countP (fun c => createString .owner c = some T) := by
    rw [hholdings, List.countP_filterMap]
    refine List.countP_congr fun c hc => ?_
    rw [decide_eq_true_eq, howner c hc]
    cases createHolding d c with
    | none => simp
    | some h => simp
  refine ⟨fun c hc => readCreate_template (hread c hc), ?_, ?_, ?_, ?_⟩
  · have hlen := hcollects.bounded hok (Nat.zero_le _)
    rw [hholdings, List.length_filterMap_eq_countP] at hlen
    refine le_trans (le_of_eq (List.countP_congr fun c hc => ?_)) hlen
    rw [createHolding_isSome (hread c hc), holdingConfig]
  · intro c hc hcfg
    obtain ⟨h, hh, ⟨o, ho, hoeq⟩, -, ⟨a, ha, haeq⟩, hi⟩ := holding_of_create (hread c hc) hcfg
    refine ⟨?_, ?_, ?_⟩
    · rcases hmatch.owners h (hmem hc hh) with heq | heq
      · left
        rw [ho, hinj (hstring hc ho) (hscreen (by simp)) (hoeq.symm.trans heq)]
      · right
        rw [ho, hinj (hstring hc ho) (hscreen (by simp)) (hoeq.symm.trans heq)]
    · have heq := hmatch.admin h (hmem hc hh)
      rw [ha, hinj (hstring hc ha) (hscreen (by simp)) (haeq.symm.trans heq)]
    · intro i ht
      have heq := hmatch.instrument _ (hcollects.instruments hok c hc _ (hi i ht))
      exact hinj (hstring hc ht) (hscreen (by simp)) heq
  · rw [← hcount]
    refine ⟨hmatch.owned.1, le_trans hmatch.owned.2 ?_⟩
    by_cases hFT : F = T
    · rw [if_pos hFT]
      split <;> decide
    · rw [if_neg hFT, if_neg fun heq => hFT (hinj (hscreen (by simp)) (hscreen (by simp)) heq)]
  · obtain ⟨h, hh, hown, hamt⟩ := hmatch.amount
    rw [hholdings] at hh
    obtain ⟨c, hc, hch⟩ := List.mem_filterMap.mp hh
    have hcfg : (holdingConfig c).isSome = true := by
      rw [holdingConfig, ← createHolding_isSome (hread c hc), hch]
      rfl
    obtain ⟨h', hh', -, ⟨t, ht, heq⟩, -⟩ := holding_of_create (hread c hc) hcfg
    obtain rfl : h' = h := Option.some.inj (hh'.symm.trans hch)
    refine ⟨c, hc, (howner c hc).mpr ⟨h', hh', hown⟩, ?_⟩
    rw [ht, hinj (hstring hc ht) (hscreen (by simp)) (heq.symm.trans hamt)]

end CantonSigner
