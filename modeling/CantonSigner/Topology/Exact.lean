import CantonSigner.Flow.Chunks
import CantonSigner.Topology.AppRuns
import CantonSigner.Topology.MultiHash

/-!
# Onboarding, exactly

Which topology messages end in a clear review: the three checked mappings, in any order, and
nothing else. That a clear review stands for these mappings is the invariant of
`Topology.Onboarding`; the other half is here. `Awaiting` says what the flags and the rows are
while mappings are still to come, and that each of them is accepted then.

`onboarding_shown_iff` puts both together for the app: after any first command, in any order of
the messages and in any cutting of them.
-/

namespace CantonSigner

open ByteCodec

variable {d : Device} {key : Bytes} {t t' : Topology} {buf : Bytes}

/-! ## The checks -/

theorem checkPartyKeyValue_of_device {k : SigningPublicKey} (hlen : t.signature.length = 32)
    (h : IsDeviceKey t.signature k) : checkPartyKeyValue t k = 0 := by
  unfold checkPartyKeyValue
  rw [List.take_of_length_le hlen.le]
  rcases h with ⟨hformat, hkey⟩ | ⟨hformat, hkey⟩
  · have hne : k.publicKey.isEmpty = false := by
      rw [hkey, List.isEmpty_eq_false_iff, ← List.length_pos_iff]
      omega
    rw [hne, if_neg Bool.false_ne_true, if_pos hformat, hkey, if_neg (not_not.mpr hlen),
      if_neg (not_not.mpr rfl)]
  · have hraw : k.format ≠ cryptoKeyFormatRaw := by rw [hformat]; decide
    have hder : ed25519DerPrefix.length = 12 := rfl
    have hne : k.publicKey.isEmpty = false := by rw [hkey]; rfl
    rw [hne, if_neg Bool.false_ne_true, if_neg hraw, if_pos hformat, hkey,
      if_neg (by simp [hder, hlen]), ← hder, List.take_left, List.drop_left,
      if_neg (not_not.mpr rfl), if_neg (not_not.mpr rfl)]

theorem processNamespaceDelegation_of_checked {m : NamespaceDelegation}
    (hlen : t.signature.length = 32) (hflag : t.hasParsedNamespaceDelegation = false)
    (h : DelegationChecked t.signature m) :
    processNamespaceDelegation t m = .ok { t with hasParsedNamespaceDelegation := true } := by
  obtain ⟨k, hk, hdevice⟩ := h.target
  unfold processNamespaceDelegation
  rw [hflag, if_neg Bool.false_ne_true, hk]
  dsimp only
  rw [if_pos (checkPartyKeyValue_of_device hlen hdevice)]

theorem processPartyToKeyMapping_of_checked {m : PartyToKeyMapping}
    (hlen : t.signature.length = 32) (hflag : t.hasParsedPartyToKeyMapping = false)
    (h : KeyMappingChecked d t.signature m) :
    processPartyToKeyMapping d t m = .ok { t with hasParsedPartyToKeyMapping := true } := by
  obtain ⟨k, hk, hdevice⟩ := h.keys
  have hthreshold : m.threshold = m.signingKeys.length := by rw [h.threshold, hk]; rfl
  unfold processPartyToKeyMapping
  rw [hflag, if_neg Bool.false_ne_true, if_neg (by simp [checkPartyIdValue, h.party]),
    if_neg (not_not.mpr hthreshold), hk]
  dsimp only
  rw [if_pos (checkPartyKeyValue_of_device hlen hdevice)]

/-- The validators of a network are found in either order. -/
theorem findParticipants_of_config {x y : ParticipantName} (h : [x, y] ∈ validParticipantsConfigs) :
    findParticipants [some x.participantId, some y.participantId] validParticipantsConfigs =
        .ok [x.participantName, y.participantName] ∧
      findParticipants [some y.participantId, some x.participantId] validParticipantsConfigs =
        .ok [y.participantName, x.participantName] := by
  simp only [validParticipantsConfigs, mainnetDualValidators, testnetDualValidators,
    devnetDualValidators, List.mem_cons, List.not_mem_nil, or_false, List.cons.injEq, and_true] at h
  rcases h with ⟨rfl, rfl⟩ | ⟨rfl, rfl⟩ | ⟨rfl, rfl⟩ <;> decide +kernel

/-- A mapping to the validators of a network is accepted, and sets every row. -/
theorem processPartyToParticipant_of_checked {m : PartyToParticipant} {first second : Bytes}
    (hflag : t.hasParsedPartyToParticipant = false) (hrows : t.review.pairs = some [])
    (hfound : t.found = List.replicate 4 false)
    (h : ParticipantsChecked d t.signature m first second) :
    processPartyToParticipant d t m = .ok { t with
      review := { t.review with
        pairs := some (onboardingRows (partyIdFromPubkey d t.signature) first second) }
      found := List.replicate 4 true
      hasParsedPartyToParticipant := true } := by
  obtain ⟨x, y, hconfig, hpair⟩ := h.validators
  have hlen : m.participants.length = 2 := by
    rcases hpair with ⟨hp, -, -⟩ | ⟨hp, -, -⟩ <;> rw [hp] <;> rfl
  have hnames : findParticipants m.participants validParticipantsConfigs = .ok [first, second] := by
    rcases hpair with ⟨hp, rfl, rfl⟩ | ⟨hp, rfl, rfl⟩
    · rw [hp]
      exact (findParticipants_of_config hconfig).1
    · rw [hp]
      exact (findParticipants_of_config hconfig).2
  rcases processPartyToParticipant_cases (d := d) t m with ⟨hnot, -⟩ | ⟨party, hsets, heq⟩
  · exact absurd ⟨hflag, h.party, by simp [checkPartyIdValue], hlen, by rw [h.threshold, hlen],
      h.noSigningKeys⟩ (hnot (partyIdFromPubkey d t.signature))
  · obtain rfl : party = partyIdFromPubkey d t.signature :=
      Option.some.inj (hsets.named.symm.trans h.party)
    rw [heq, setMappingRows]
    simp only [setFieldValue, hrows, hnames, h.threshold, hlen, hfound, setParticipantRows,
      onboardingFlowDisplayFieldsNb, List.zipIdx]
    rfl

/-! ## Mappings still to come -/

/-- What a mapping is for. -/
inductive MappingKind where
  | delegation
  | keyMapping
  | participants
  | other
deriving DecidableEq

def TopologyMapping.kind : TopologyMapping → MappingKind
  | .namespaceDelegation _ => .delegation
  | .partyToKeyMapping _ => .keyMapping
  | .partyToParticipant _ => .participants
  | .other => .other

/-- The kind of the mapping that a message carries. -/
def TopologyTransaction.kind (tt : TopologyTransaction) : Option MappingKind :=
  tt.mapping.map TopologyMapping.kind

/-- One of the three mappings of an onboarding. -/
inductive MappingChecked (d : Device) (key first second : Bytes) : TopologyMapping → Prop where
  | delegation {m : NamespaceDelegation} : DelegationChecked key m →
      MappingChecked d key first second (.namespaceDelegation m)
  | keyMapping {m : PartyToKeyMapping} : KeyMappingChecked d key m →
      MappingChecked d key first second (.partyToKeyMapping m)
  | participants {m : PartyToParticipant} : ParticipantsChecked d key m first second →
      MappingChecked d key first second (.partyToParticipant m)

/-- The flags and the rows after the messages `ts`, all accepted and none of them the last. -/
structure Awaiting (key : Bytes) (ts : List TopologyTransaction) (t : Topology) : Prop where
  signature : t.signature = key
  delegation : t.hasParsedNamespaceDelegation = decide (some .delegation ∈ ts.map (·.kind))
  keyMapping : t.hasParsedPartyToKeyMapping = decide (some .keyMapping ∈ ts.map (·.kind))
  participants : t.hasParsedPartyToParticipant = decide (some .participants ∈ ts.map (·.kind))
  rows : t.hasParsedPartyToParticipant = false →
    t.review.pairs = some [] ∧ t.found = List.replicate 4 false
  found : t.hasParsedPartyToParticipant = true → t.found = List.replicate 4 true

variable {ts : List TopologyTransaction} {first second : Bytes}

/-- A mapping of a new kind is accepted. -/
theorem Awaiting.accepts {m : TopologyMapping} (hlen : key.length = 32) (h : Awaiting key ts t)
    (hchecked : MappingChecked d key first second m) (hnew : some m.kind ∉ ts.map (·.kind))
    (hdec : d.decodeTopologyTransaction buf = some (adds m)) :
    ∃ t', parseTopologyTransactionForDisplay d t buf = .ok t' ∧ t'.txHashes = t.txHashes ∧
      Awaiting key (ts ++ [adds m]) t' := by
  obtain rfl := h.signature
  unfold parseTopologyTransactionForDisplay
  rw [hdec]
  simp only [adds, ne_eq, not_true_eq_false, if_false]
  cases hchecked with
  | delegation hm =>
    have hflag : t.hasParsedNamespaceDelegation = false := h.delegation.trans (decide_eq_false hnew)
    refine ⟨_, processNamespaceDelegation_of_checked hlen hflag hm, rfl, rfl, ?_, ?_, ?_, h.rows,
      h.found⟩
    · simp [TopologyTransaction.kind, TopologyMapping.kind]
    · simpa [TopologyTransaction.kind, TopologyMapping.kind] using h.keyMapping
    · simpa [TopologyTransaction.kind, TopologyMapping.kind] using h.participants
  | keyMapping hm =>
    have hflag : t.hasParsedPartyToKeyMapping = false := h.keyMapping.trans (decide_eq_false hnew)
    refine ⟨_, processPartyToKeyMapping_of_checked hlen hflag hm, rfl, rfl, ?_, ?_, ?_, h.rows,
      h.found⟩
    · simpa [TopologyTransaction.kind, TopologyMapping.kind] using h.delegation
    · simp [TopologyTransaction.kind, TopologyMapping.kind]
    · simpa [TopologyTransaction.kind, TopologyMapping.kind] using h.participants
  | participants hm =>
    have hflag : t.hasParsedPartyToParticipant = false :=
      h.participants.trans (decide_eq_false hnew)
    obtain ⟨hpairs, hfound⟩ := h.rows hflag
    refine ⟨_, processPartyToParticipant_of_checked hflag hpairs hfound hm, rfl, rfl, ?_, ?_, ?_,
      fun h => by simp at h, fun _ => rfl⟩
    · simpa [TopologyTransaction.kind, TopologyMapping.kind] using h.delegation
    · simpa [TopologyTransaction.kind, TopologyMapping.kind] using h.keyMapping
    · simp [TopologyTransaction.kind, TopologyMapping.kind]

/-! ## A whole flow -/

theorem signChallenge_kept (t : Topology) :
    (signChallenge d t).toTopologyState.found = t.found ∧
      (signChallenge d t).review = t.review ∧
      (signChallenge d t).hasParsedNamespaceDelegation = t.hasParsedNamespaceDelegation ∧
      (signChallenge d t).hasParsedPartyToKeyMapping = t.hasParsedPartyToKeyMapping ∧
      (signChallenge d t).hasParsedPartyToParticipant = t.hasParsedPartyToParticipant := by
  unfold signChallenge
  split <;> exact ⟨rfl, rfl, rfl, rfl, rfl⟩

/-- The review that the last message of an onboarding releases. -/
def releasedReview (review : Review) : Review :=
  { review with
    clearSigningAvailable := true
    reviewTitle := some onboardingReviewTitle
    reviewFinish := some onboardingReviewFinish }

/-- The last message releases the rows if all mappings have come and every row is set. -/
theorem finishTopology_of_all (hashes : List Bytes) (hd : t.hasParsedNamespaceDelegation = true)
    (hk : t.hasParsedPartyToKeyMapping = true) (hp : t.hasParsedPartyToParticipant = true)
    (hfound : t.found = List.replicate 4 true) :
    ∃ t', finishTopology d t hashes = .ok t' ∧ t'.review = releasedReview t.review := by
  obtain ⟨hf, hreview, hd', hk', hp'⟩ := signChallenge_kept (d := d)
    (cleanupHashStorage { t with mHash := multiHash d hashes, mHashLen := 34 })
  have hall : (t.hasParsedNamespaceDelegation && t.hasParsedPartyToKeyMapping &&
      t.hasParsedPartyToParticipant) = true := by rw [hd, hk, hp]; rfl
  have hset : ¬ ((onboardingMandatory.zip t.found).any fun p => p.1 && !p.2) = true := by
    rw [hfound]
    decide
  unfold finishTopology
  dsimp only
  rw [hd', hk', hp', hf]
  refine ⟨_, (if_pos hall).trans (if_neg hset), ?_⟩
  show releasedReview (signChallenge d _).review = _
  rw [hreview]
  rfl

/-- Otherwise it leaves them as they were. -/
theorem finishTopology_review {hashes : List Bytes} (h : finishTopology d t hashes = .ok t') :
    t'.review = releasedReview t.review ∨ t'.review = t.review := by
  obtain ⟨-, hreview, -⟩ := signChallenge_kept (d := d)
    (cleanupHashStorage { t with mHash := multiHash d hashes, mHashLen := 34 })
  unfold finishTopology at h
  dsimp only at h
  split at h
  · split at h
    · cases h
    · cases h
      left
      show releasedReview (signChallenge d _).review = _
      rw [hreview]
      rfl
  · cases h
    exact .inr hreview

/-- The onboarding flow of a device key on its own: the messages that are accepted, each
marked when it is the last one. -/
def onboarding (d : Device) (key : Bytes) : Machine Topology (Bool × Bytes) where
  init t := ∃ challenge, t = .start key challenge
  step t m :=
    match processUntypedVersionedMsgTx d m.1 t m.2 with
    | .ok t' => some t'
    | _ => none

/-- The state after these messages of an onboarding, if all are accepted. -/
def onboarded (d : Device) (key : Bytes) (t : Topology) (ms : List Bytes) : Option Topology :=
  (onboarding d key).run (fun _ _ => true) t (marked ms)

/-- The messages add the three mappings of an onboarding, in some order. -/
def AddsMappings (d : Device) (key : Bytes) (ms : List Bytes) (first second : Bytes) : Prop :=
  ∃ ts delegation keyMapping participants,
    List.Forall₂ (fun m tt => d.decodeTopologyTransaction m = some tt) ms ts ∧
    ts.Perm [adds (.namespaceDelegation delegation), adds (.partyToKeyMapping keyMapping),
      adds (.partyToParticipant participants)] ∧
    DelegationChecked key delegation ∧ KeyMappingChecked d key keyMapping ∧
    ParticipantsChecked d key participants first second

/-- The three mappings are accepted, whatever their order. -/
theorem onboarded_of_mappings {three : List TopologyTransaction} (hlen : key.length = 32)
    (hthree : three.length = 3) (hkinds : (three.map (·.kind)).Perm
      [some .delegation, some .keyMapping, some .participants])
    (hchecked : ∀ tt ∈ three, ∃ m, tt = adds m ∧ MappingChecked d key first second m) :
    ∀ (ms : List Bytes) (ts rest : List TopologyTransaction) (t : Topology), ms ≠ [] →
      List.Forall₂ (fun m tt => d.decodeTopologyTransaction m = some tt) ms rest →
      ts ++ rest = three → Awaiting key ts t →
      (∃ hashes, t.txHashes = some hashes ∧ hashes.length = ts.length) →
      ∃ t', onboarded d key t ms = some t' ∧ t'.review.clearSigningAvailable = true := by
  intro ms
  induction ms with
  | nil => exact fun ts rest t hne => absurd rfl hne
  | cons m ms ih =>
    rintro ts rest t - hdec hsplit hawaits ⟨hashes, hhashes, hcount⟩
    obtain ⟨tt, rest, hm, hms, rfl⟩ := List.forall₂_cons_left_iff.mp hdec
    obtain ⟨mapping, rfl, hmapping⟩ := hchecked tt (by simp [← hsplit])
    -- The kinds of the mappings are distinct, so this one is new.
    have hnew : some mapping.kind ∉ ts.map (·.kind) := by
      have hnodup : (three.map (·.kind)).Nodup := hkinds.symm.nodup (by decide)
      rw [← hsplit, List.map_append, List.nodup_append] at hnodup
      exact fun hmem => hnodup.2.2 _ hmem _ (List.mem_cons_self ..) rfl
    have hroom : ts.length < 3 := by
      rw [← hthree, ← hsplit]
      simp
    obtain ⟨t₁, hparse, hkept, hawaits₁⟩ := Awaiting.accepts
      (t := { t with txHashes := some (hashes ++ [cantonHash d 11 m]) }) hlen
      ⟨hawaits.signature, hawaits.delegation, hawaits.keyMapping, hawaits.participants,
        hawaits.rows, hawaits.found⟩ hmapping hnew hm
    have hprocess : ∀ parsed, processUntypedVersionedMsgTx d parsed t m =
        if parsed then finishTopology d t₁ (hashes ++ [cantonHash d 11 m]) else .ok t₁ := by
      intro parsed
      unfold processUntypedVersionedMsgTx
      rw [hhashes]
      dsimp only
      rw [if_neg (by simp only [maxHashes]; omega), hparse]
    unfold onboarded at ih ⊢
    rw [marked, Machine.run, if_pos rfl]
    cases ms with
    | nil =>
      -- All three kinds are among the mappings by now.
      cases hms
      obtain ⟨hd, hk, hp⟩ : t₁.hasParsedNamespaceDelegation = true ∧
          t₁.hasParsedPartyToKeyMapping = true ∧ t₁.hasParsedPartyToParticipant = true := by
        rw [hawaits₁.delegation, hawaits₁.keyMapping, hawaits₁.participants, hsplit]
        simp [hkinds.mem_iff]
      obtain ⟨t', hfinish, hreview⟩ := finishTopology_of_all (d := d)
        (hashes ++ [cantonHash d 11 m]) hd hk hp (hawaits₁.found hp)
      refine ⟨t', ?_, by rw [hreview]; rfl⟩
      simp only [onboarding, List.isEmpty_nil, hprocess, if_true, hfinish]
      rfl
    | cons m' ms =>
      simp only [onboarding, List.isEmpty_cons, hprocess, Bool.false_eq_true, if_false]
      exact ih (ts ++ [adds mapping]) rest t₁ (by simp) hms (by simpa using hsplit) hawaits₁
        ⟨_, hkept, by simp [hcount]⟩

/-! ## In the app -/

/-- The flow accepts these messages and releases the rows. -/
def Releases (d : Device) (key : Bytes) (t : Topology) (ms : List Bytes) (t' : Topology) : Prop :=
  (∀ m ∈ ms, m.length ≤ d.maxTransactionLen) ∧ onboarded d key t ms = some t' ∧
    t'.review.clearSigningAvailable = true

/-- The clear review of released rows. -/
def Review.clearScreen (review : Review) : Screen :=
  .clearReview review.reviewTitle review.reviewFinish (review.pairs.getD [])

variable {a : App}

/-- A message that is accepted, in an open topology flow. -/
theorem processAndAnswer_topology_ok (raw : Bytes) {parsed : Bool}
    (htype : a.signingType = .untypedVersionedMessage)
    (h : processUntypedVersionedMsgTx d parsed a.topology buf = .ok t') :
    processAndAnswer d (a.atMessage raw parsed) buf =
      if parsed then startReview ((a.atMessage raw parsed).setTopology t')
      else ((a.atMessage raw parsed).setTopology t', .sw Sw.ok) := by
  have hmsg := processMessage_topology (d := d) raw buf parsed htype
  rw [h] at hmsg
  rw [processAndAnswer_eq (headerOverwritten_of_type (by simp [App.atMessage, htype])), hmsg]
  cases parsed <;> rfl

/-- One that is not. -/
theorem processAndAnswer_topology_refused (raw : Bytes) {parsed : Bool}
    (htype : a.signingType = .untypedVersionedMessage)
    (h : ∀ t', processUntypedVersionedMsgTx d parsed a.topology buf ≠ .ok t') :
    (processAndAnswer d (a.atMessage raw parsed) buf).2 ≠ .sw Sw.ok ∧
      (processAndAnswer d (a.atMessage raw parsed) buf).2.isClearReview = false := by
  have hmsg := processMessage_topology (d := d) raw buf parsed htype
  rw [processAndAnswer_eq (headerOverwritten_of_type (by simp [App.atMessage, htype]))]
  cases hout : processUntypedVersionedMsgTx d parsed a.topology buf with
  | ok t' => exact absurd hout (h t')
  | assertion =>
    rw [hout] at hmsg
    rw [hmsg]
    exact ⟨by simp [answerMessage, assertFailed], rfl⟩
  | refused t sw =>
    have hword : processMessage d (a.atMessage raw parsed) buf =
        some ((a.atMessage raw parsed).setTopology t, sw) := by rw [hmsg, hout]
    rw [hword, answerMessage, if_pos (processUntypedVersionedMsgTx_nonzero hout)]
    refine ⟨fun heq => ?_, rfl⟩
    exact absurd (Output.sw.inj heq) (processMessage_sw hword).1

theorem releases_nil {t t' : Topology} :
    Releases d key t [] t' ↔ t = t' ∧ t'.review.clearSigningAvailable = true := by
  simp [Releases, onboarded, marked, Machine.run]

theorem releases_cons {t t' : Topology} {m : Bytes} {ms : List Bytes}
    (hfits : m.length ≤ d.maxTransactionLen) : Releases d key t (m :: ms) t' ↔
      ∃ t₁, processUntypedVersionedMsgTx d ms.isEmpty t m = .ok t₁ ∧ Releases d key t₁ ms t' := by
  unfold Releases onboarded
  rw [marked, Machine.run, if_pos rfl, List.forall_mem_cons, and_iff_right hfits]
  simp only [onboarding]
  split
  · rename_i t₁ hok
    simp only [hok, Outcome.ok.injEq, exists_eq_left', Option.bind_some]
  · rename_i hnot
    simp only [Option.bind_none, reduceCtorEq, false_and, and_false, false_iff]
    rintro ⟨t₁, hok, -⟩
    exact hnot t₁ hok

/-- The last message of a topology flow. -/
theorem deliver_topology_last {m : Bytes} {t₁ : Topology}
    (hbetween : BetweenMessages .untypedVersionedMessage a)
    (hfits : ¬ d.maxTransactionLen < m.length)
    (h : processUntypedVersionedMsgTx d true a.topology m = .ok t₁) :
    (∃ t', Releases d key t₁ [] t' ∧
      deliver d a [m] = ⟨marked [m], .shown t'.review.clearScreen, t'.toTxInfo⟩) ∨
    (¬ ∃ t', Releases d key t₁ [] t') ∧ (deliver d a [m]).answer.isClearReview = false := by
  have hanswer := processAndAnswer_topology_ok m hbetween.signingType h
  have hclear := startReview_isClear (a := (a.atMessage m true).setTopology t₁)
    hbetween.reqType rfl
  simp only [if_true] at hanswer
  rw [deliver, if_neg hfits]
  simp only [releases_nil, List.isEmpty_nil, if_true, hanswer]
  rcases startReview_cases (a := (a.atMessage m true).setTopology t₁) hbetween.reqType rfl with
    ⟨hreleased, hstart⟩ | ⟨hkept, -⟩ | ⟨hkept, -⟩
  · rw [hstart]
    exact .inl ⟨t₁, ⟨rfl, hreleased⟩, rfl⟩
  all_goals
    refine .inr ⟨?_, ?_⟩
    · rintro ⟨t', rfl, hreleased⟩
      exact absurd (hkept.symm.trans hreleased) (by decide)
    · split
      · rfl
      · exact hclear.trans hkept

/-- A topology flow ends in a clear review exactly if the flow accepts its messages and releases
the rows. -/
theorem deliver_topology : ∀ (ms : List Bytes) (a : App), ms ≠ [] →
    BetweenMessages .untypedVersionedMessage a →
    (∃ t', Releases d key a.topology ms t' ∧
      deliver d a ms = ⟨marked ms, .shown t'.review.clearScreen, t'.toTxInfo⟩) ∨
    (¬ ∃ t', Releases d key a.topology ms t') ∧ (deliver d a ms).answer.isClearReview = false := by
  intro ms
  induction ms with
  | nil => exact fun a hne => absurd rfl hne
  | cons m ms ih =>
    rintro a - hbetween
    by_cases hfits : d.maxTransactionLen < m.length
    · rw [deliver, if_pos hfits]
      refine .inr ⟨?_, rfl⟩
      rintro ⟨t', hlen, -⟩
      exact absurd (hlen m (List.mem_cons_self ..)) (Nat.not_le.mpr hfits)
    have hstep := fun t' =>
      @releases_cons d key a.topology t' m ms (Nat.not_lt.mp hfits)
    by_cases hok : ∃ t₁, processUntypedVersionedMsgTx d ms.isEmpty a.topology m = .ok t₁
    swap
    · obtain ⟨hne, hclear⟩ := processAndAnswer_topology_refused
        (if ms.isEmpty then m else []) hbetween.signingType (not_exists.mp hok)
      rw [deliver, if_neg hfits]
      dsimp only
      rw [if_neg hne]
      refine .inr ⟨?_, hclear⟩
      rintro ⟨t', hrel⟩
      obtain ⟨t₁, h₁, -⟩ := (hstep t').mp hrel
      exact hok ⟨t₁, h₁⟩
    obtain ⟨t₁, h₁⟩ := hok
    simp only [hstep, h₁, Outcome.ok.injEq, exists_eq_left']
    cases ms with
    | nil => exact deliver_topology_last hbetween hfits h₁
    -- with more to come, the next message finds the state that this one left
    | cons m' ms =>
      have hanswer := processAndAnswer_topology_ok [] hbetween.signingType h₁
      rw [deliver, if_neg hfits]
      simp only [List.isEmpty_cons, Bool.false_eq_true, if_false] at hanswer ⊢
      have hnext := betweenMessages_of_ok (m := m) hbetween (by rw [hanswer])
      rw [hanswer] at hnext ⊢
      rw [if_pos rfl]
      rcases ih _ (by simp) hnext with ⟨t', hrel, hdeliver⟩ | ⟨hnot, hclear⟩
      · exact .inl ⟨t', hrel, by rw [hdeliver]; rfl⟩
      · exact .inr ⟨hnot, hclear⟩

/-! ## Both directions -/

/-- Released rows have the texts of an onboarding around them. -/
def RowsTitled (t : Topology) : Prop :=
  t.review.clearSigningAvailable = true →
    t.review.reviewTitle = some onboardingReviewTitle ∧
      t.review.reviewFinish = some onboardingReviewFinish

theorem rowsTitled_step {parsed : Bool} {bufs : List Bytes} (h : OnboardState d key bufs t)
    (hstep : processUntypedVersionedMsgTx d parsed t buf = .ok t') : RowsTitled t' := by
  unfold processUntypedVersionedMsgTx at hstep
  rcases h with ⟨ts, hinv, hhashes, -⟩ | ⟨hnone, -⟩
  · rw [hhashes] at hstep
    dsimp only at hstep
    split at hstep
    · cases hstep
    · split at hstep
      · cases hstep
      · cases hstep
      · rename_i t₁ hparse
        have hinv₁ : OnboardInv d key bufs ts
            { t with txHashes := some (bufs.map (cantonHash d 11) ++ [cantonHash d 11 buf]) } :=
          { hinv with }
        obtain ⟨tt, hinv', -⟩ := onboardInv_parse hinv₁ hparse
        have hhidden : t₁.review.clearSigningAvailable = false := hinv'.clear
        split at hstep
        · rcases finishTopology_review hstep with hreview | hreview
          · intro _
            rw [hreview]
            exact ⟨rfl, rfl⟩
          · intro hclear
            rw [hreview, hhidden] at hclear
            cases hclear
        · cases hstep
          intro hclear
          rw [hhidden] at hclear
          cases hclear
  · rw [hnone] at hstep
    cases hstep

/-- What released rows say. -/
theorem released_shown {challenge : Option Bytes} {ms : List Bytes} (hlen : key.length = 32)
    (h : Releases d key (.start key challenge) ms t') :
    ∃ first second, AddsMappings d key ms first second ∧
      t'.review.clearScreen = .clearReview (some onboardingReviewTitle)
        (some onboardingReviewFinish) (onboardingRows (partyIdFromPubkey d key) first second) ∧
      t'.mHash.take t'.mHashLen = multiHash d (ms.map (cantonHash d 11)) := by
  obtain ⟨-, hrun, hclear⟩ := h
  have h₀ : (onboarding d key).init (.start key challenge) := ⟨challenge, rfl⟩
  -- the messages as a run of the onboarding machine
  have hreach : (onboarding d key).Reach (fun _ _ => True) (marked ms) t' :=
    ((Machine.Reach.start h₀).append_run hrun).mono fun _ _ _ => trivial
  obtain ⟨hstate, htitled⟩ : OnboardState d key ((marked ms).map Prod.snd) t' ∧ RowsTitled t' := by
    refine hreach.invariant (P := fun ms t => OnboardState d key (ms.map Prod.snd) t ∧ RowsTitled t)
      ?_ ?_
    · rintro _ ⟨challenge, rfl⟩
      exact ⟨onboardState_start hlen challenge, nofun⟩
    · rintro ms t m t' ⟨hstate, -⟩ - hstep
      simp only [onboarding] at hstep
      split at hstep
      · rename_i t₁ hok
        cases hstep
        rw [List.map_append]
        exact ⟨onboardState_step hstate hok, rowsTitled_step hstate hok⟩
      · cases hstep
  rcases hstate with ⟨ts, hinv, -⟩ | ⟨-, hshown⟩
  · exact absurd (hinv.clear.symm.trans hclear) (by decide)
  · obtain ⟨delegation, keyMapping, participants, first, second, hs⟩ := hshown hclear
    rw [map_snd_marked] at hs
    obtain ⟨ts, hdec, hperm⟩ := hs.messages
    obtain ⟨htitle, hfinish⟩ := htitled hclear
    refine ⟨first, second, ⟨ts, delegation, keyMapping, participants, hdec, hperm,
      hs.delegationChecked, hs.keyMappingChecked, hs.participantsChecked⟩, ?_, ?_⟩
    · rw [Review.clearScreen, htitle, hfinish, hs.rows]
      rfl
    · rw [hs.hash, hs.hashLen]
      exact List.take_of_length_le (by simp [multiHash, cantonHash, d.length_sha])

/-- The three mappings release the rows. -/
theorem releases_of_mappings {challenge : Option Bytes} {ms : List Bytes} {first second : Bytes}
    (hlen : key.length = 32) (hfits : ∀ m ∈ ms, m.length ≤ d.maxTransactionLen)
    (h : AddsMappings d key ms first second) :
    ∃ t', Releases d key (.start key challenge) ms t' := by
  obtain ⟨ts, delegation, keyMapping, participants, hdec, hperm, hd, hk, hp⟩ := h
  have hne : ms ≠ [] := by
    rintro rfl
    cases hdec
    simpa using hperm.length_eq
  have hchecked : ∀ tt ∈ ts, ∃ m, tt = adds m ∧ MappingChecked d key first second m := by
    intro tt htt
    have hmem := hperm.mem_iff.mp htt
    simp only [List.mem_cons, List.not_mem_nil, or_false] at hmem
    rcases hmem with rfl | rfl | rfl
    · exact ⟨_, rfl, .delegation hd⟩
    · exact ⟨_, rfl, .keyMapping hk⟩
    · exact ⟨_, rfl, .participants hp⟩
  obtain ⟨t', hrun, hclear⟩ := onboarded_of_mappings hlen hperm.length_eq
    (hperm.map (·.kind)) hchecked ms [] ts (.start key challenge) hne hdec rfl
    ⟨rfl, rfl, rfl, rfl, fun _ => ⟨rfl, rfl⟩, nofun⟩ ⟨[], rfl, rfl⟩
  exact ⟨t', hfits, hrun, hclear⟩

/-- The first command of a topology flow leaves the key of its path, and nothing else. -/
theorem topology_of_first {a₀ : App} {e : Event} {data : Bytes}
    (h : request a₀ e = .first .untypedVersionedMessage data)
    (hok : step d a₀ e = (a, .sw Sw.ok)) :
    ∃ path rest key challenge, readBip32Path data = some (path, rest) ∧
      derivePublicKey d path = .ok key ∧ a.topology = .start key.1 challenge := by
  rw [step_first h] at hok
  unfold startFlow processFirstChunk at hok
  dsimp only at hok
  cases hpath : readBip32Path data with
  | none => simp [hpath, refuseTx, Sw.wrongDataLength, Sw.ok] at hok
  | some r =>
    obtain ⟨path, rest⟩ := r
    rw [hpath] at hok
    dsimp only [processUntypedVersionedMsgTxInit] at hok
    cases hkey : derivePublicKey d path with
    | error e => simp [hkey, assertFailed] at hok
    | ok key =>
      rw [hkey] at hok
      dsimp only at hok
      cases hread : (readChallengeAndDeadline rest).isSome with
      | false => simp [hread, refuseTx, Sw.wrongDataLength, Sw.ok] at hok
      | true =>
        rw [hread] at hok
        cases hok
        exact ⟨path, rest, key, _, rfl, hkey, rfl⟩

/-- **An onboarding is clear signed exactly if it is one**: after any first command and in any
cutting, the messages end in a clear review if and only if they fit and add the three checked
mappings, in whatever order; the review then shows the device party with its two validators, and
what is to be signed is the multi-hash of the messages. -/
theorem onboarding_shown_iff (hpoint : ∀ path point chainCode,
      d.derivePoint path = .ok (point, chainCode) → point.length = 65)
    {a₀ : App} {e : Event} {data : Bytes}
    (hfirst : request a₀ e = .first .untypedVersionedMessage data)
    (hok : step d a₀ e = (a, .sw Sw.ok)) {cs : List CutMessage} (hcs : cs ≠ []) :
    ∃ path rest key, readBip32Path data = some (path, rest) ∧ derivePublicKey d path = .ok key ∧
      let ms := cs.map CutMessage.whole
      let r := session d a (cutEvents .untypedVersionedMessage cs)
      (r.answer.isClearReview = true ↔ (∀ m ∈ ms, m.length ≤ d.maxTransactionLen) ∧
        ∃ first second, AddsMappings d key.1 ms first second) ∧
      (r.answer.isClearReview = true → ∃ first second, AddsMappings d key.1 ms first second ∧
        r.answer = .shown (.clearReview (some onboardingReviewTitle) (some onboardingReviewFinish)
          (onboardingRows (partyIdFromPubkey d key.1) first second)) ∧
        r.delivered = marked ms ∧
        r.tx.mHash.take r.tx.mHashLen = multiHash d (ms.map (cantonHash d 11))) := by
  obtain ⟨path, rest, key, challenge, hpath, hkey, htopo⟩ := topology_of_first hfirst hok
  refine ⟨path, rest, key, hpath, hkey, ?_⟩
  have hbetween := betweenMessages_of_first hfirst hok
  have hlen := length_derivePublicKey hpoint hkey
  have hne : cs.map CutMessage.whole ≠ [] := by simpa using hcs
  rw [session_cutEvents cs a hbetween]
  rcases deliver_topology (d := d) _ a hne hbetween with ⟨t', hrel, hdeliver⟩ | ⟨hnot, hclear⟩
  · rw [htopo] at hrel
    obtain ⟨first, second, hadds, hscreen, hhash⟩ := released_shown hlen hrel
    rw [hdeliver]
    exact ⟨iff_of_true rfl ⟨hrel.1, first, second, hadds⟩, fun _ =>
      ⟨first, second, hadds, congrArg Output.shown hscreen, rfl, hhash⟩⟩
  · have hclear' : ¬ (deliver d a (cs.map CutMessage.whole)).answer.isClearReview = true := by
      rw [hclear]
      decide
    refine ⟨iff_of_false hclear' ?_, fun h => absurd h hclear'⟩
    rintro ⟨hfits, first, second, hadds⟩
    exact hnot (htopo ▸ releases_of_mappings hlen hfits hadds)

/-- The onboarding on the development network is clear signed. -/
theorem onboarding_shown_iff_devnet : ∃ a cs,
    step testDevice (App.powerUp true) topologyFirst = (a, .sw Sw.ok) ∧
      cs.map CutMessage.whole = (devnetOnboarding testKey).map Prod.snd ∧
      ∃ first second,
        (session testDevice a (cutEvents .untypedVersionedMessage cs)).answer =
          .shown (.clearReview (some onboardingReviewTitle) (some onboardingReviewFinish)
            (onboardingRows (partyIdFromPubkey testDevice testKey) first second)) := by
  have hfirst : request (App.powerUp true) topologyFirst =
      .first .untypedVersionedMessage [1, 0x80, 0, 0, 44] := rfl
  let a := (step testDevice (App.powerUp true) topologyFirst).1
  have hok : step testDevice (App.powerUp true) topologyFirst = (a, .sw Sw.ok) := rfl
  have hsent : ∀ m ∈ (devnetOnboarding testKey).map Prod.snd, m ≠ [] := by decide +kernel
  obtain ⟨cs, hwhole⟩ := exists_cutMessages hsent
  have hcs : cs ≠ [] := by
    rintro rfl
    cases hwhole
  obtain ⟨path, rest, key, hpath, hkey, -, hshown⟩ :=
    onboarding_shown_iff testDevice_point hfirst hok hcs
  obtain rfl : key = (testKey, List.replicate 32 9) := by
    have htest : derivePublicKey testDevice path = .ok (testKey, List.replicate 32 9) := rfl
    exact Except.ok.inj (hkey.symm.trans htest)
  have hanswer : (session testDevice a
      (cutEvents .untypedVersionedMessage cs)).answer.isClearReview = true := by
    rw [session_cutEvents cs a (betweenMessages_of_first hfirst hok), hwhole]
    decide +kernel
  obtain ⟨first, second, -, hscreen, -⟩ := hshown hanswer
  exact ⟨a, cs, hok, hwhole, first, second, hscreen⟩

end CantonSigner
