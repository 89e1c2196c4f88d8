import CantonSigner.Lib.Run
import CantonSigner.Model.Host
import CantonSigner.Model.SignTx
import CantonSigner.Model.TestDevice

/-!
# Clear-signed onboarding

An onboarding flow is a sequence of topology messages. Each message is hashed,
and a message that carries a mapping is also checked; a message without one is
hashed and shown nowhere. `OnboardingShown` says what a clear review at the end of
such a flow stands for: exactly the three checked mappings.

The argument is a count. At most three messages are accepted, and a clear review
needs all three `has_parsed_…` flags; each flag is set by a message with a mapping
of its own, so the three messages are these three. `OnboardInv` keeps what the
flags say about the messages so far, and `onboardState_step` carries it to the end.
-/

namespace CantonSigner

open ByteCodec

/-- What `process_untyped_versioned_msg_tx_init` leaves for the device key `key`. -/
def Topology.start (key : Bytes) (challenge : Option Bytes) : Topology :=
  ⟨{ TxInfo.zero with review := { TxInfo.zero.review with pairs := some [] }, signature := key },
    ⟨some [], false, false, false, List.replicate 4 false, challenge⟩⟩

theorem length_derivePublicKey {d : Device} {path : List Nat} {key : Bytes × Bytes}
    (hpoint : ∀ path point chainCode, d.derivePoint path = .ok (point, chainCode) →
      point.length = 65) (h : derivePublicKey d path = .ok key) : key.1.length = 32 := by
  unfold derivePublicKey at h
  split at h
  · cases h
  · rename_i point chainCode hderive
    cases h
    have hlen := hpoint path point chainCode hderive
    dsimp only
    split <;> simp [hlen]

/-! ## What the checked mappings say -/

/-- The key is the device's, raw or in DER form. -/
def IsDeviceKey (key : Bytes) (k : SigningPublicKey) : Prop :=
  (k.format = cryptoKeyFormatRaw ∧ k.publicKey = key) ∨
    (k.format = cryptoKeyFormatDerX509 ∧ k.publicKey = ed25519DerPrefix ++ key)

/-- A delegation to the device key. -/
structure DelegationChecked (key : Bytes) (m : NamespaceDelegation) : Prop where
  target : ∃ k, m.targetKey = some k ∧ IsDeviceKey key k

/-- The device key as the only signing key of the device party. -/
structure KeyMappingChecked (d : Device) (key : Bytes) (m : PartyToKeyMapping) : Prop where
  party : m.party = some (partyIdFromPubkey d key)
  threshold : m.threshold = 1
  keys : ∃ k, m.signingKeys = [k] ∧ IsDeviceKey key k

/-- The device party hosted by the two validators of one network: `first` and
`second` are their names in the order of the message. -/
structure ParticipantsChecked (d : Device) (key : Bytes) (m : PartyToParticipant)
    (first second : Bytes) : Prop where
  party : m.party = some (partyIdFromPubkey d key)
  threshold : m.threshold = 2
  noSigningKeys : m.hasPartySigningKeys = false
  validators : ∃ x y, [x, y] ∈ validParticipantsConfigs ∧
    ((m.participants = [some x.participantId, some y.participantId] ∧
        first = x.participantName ∧ second = y.participantName) ∨
      (m.participants = [some y.participantId, some x.participantId] ∧
        first = y.participantName ∧ second = x.participantName))

/-- The rows of the onboarding review. -/
def onboardingRows (party first second : Bytes) : List Pair := [
  (str "Add account", party),
  (str "Associate to validator 1", first),
  (str "Associate to validator 2", second),
  (str "Validators threshold", str "2 out of 2")]

/-- A message that adds a mapping. -/
def adds (m : TopologyMapping) : TopologyTransaction := ⟨topologyChangeOpAddReplace, some m⟩

/-! ## The checks -/

variable {d : Device} {key : Bytes} {t t' : Topology}

/-- The party of a key depends on its first 32 bytes. -/
@[simp] theorem partyIdFromPubkey_take (b : Bytes) :
    partyIdFromPubkey d (b.take 32) = partyIdFromPubkey d b := by
  simp [partyIdFromPubkey, List.take_take]

theorem checkPartyKeyValue_zero {k : SigningPublicKey} (h : checkPartyKeyValue t k = 0) :
    IsDeviceKey (t.signature.take 32) k := by
  unfold checkPartyKeyValue at h
  by_cases hraw : k.format = cryptoKeyFormatRaw
  · left
    refine ⟨hraw, ?_⟩
    grind [Sw.topologyMissingPartyKey, Sw.topologyPartyKeyWrongFormat,
      Sw.topologyPartyKeyMismatch]
  · have hder : k.format = cryptoKeyFormatDerX509 ∧ k.publicKey.take 12 = ed25519DerPrefix ∧
        k.publicKey.drop 12 = t.signature.take 32 := by
      grind [Sw.topologyMissingPartyKey, Sw.topologyPartyKeyWrongFormat,
        Sw.topologyPartyKeyMismatch]
    right
    refine ⟨hder.1, ?_⟩
    rw [← hder.2.1, ← hder.2.2, List.take_append_drop]

theorem processNamespaceDelegation_ok {m : NamespaceDelegation}
    (h : processNamespaceDelegation t m = .ok t') :
    t' = { t with hasParsedNamespaceDelegation := true } ∧
      DelegationChecked (t.signature.take 32) m := by
  unfold processNamespaceDelegation at h
  split at h
  · cases h
  · cases hk : m.targetKey with
    | none =>
      simp [hk, Sw.topologyMissingTargetKey] at h
    | some k =>
      simp only [hk] at h
      split at h
      · rename_i hzero
        cases h
        exact ⟨rfl, k, hk, checkPartyKeyValue_zero hzero⟩
      · cases h

theorem processPartyToKeyMapping_ok {m : PartyToKeyMapping}
    (h : processPartyToKeyMapping d t m = .ok t') :
    t' = { t with hasParsedPartyToKeyMapping := true } ∧
      KeyMappingChecked d (t.signature.take 32) m := by
  unfold processPartyToKeyMapping refuseMapping at h
  split at h
  · cases h
  · split at h
    · cases h
    · rename_i hparty
      split at h
      · cases h
      · rename_i hthreshold
        split at h
        · rename_i k hkeys
          dsimp only at h
          split at h
          · rename_i hzero
            cases h
            refine ⟨rfl, ?_, ?_, k, hkeys, checkPartyKeyValue_zero hzero⟩
            · simpa [checkPartyIdValue] using hparty
            · simpa [hkeys] using hthreshold
          · cases h
        · cases h

/-- Where two participants stand in a pair of validators. -/
def InOrderOf (x y : ParticipantName) (uids : List (Option Bytes)) (names : List Bytes) : Prop :=
  (uids = [some x.participantId, some y.participantId] ∧
      names = [x.participantName, y.participantName]) ∨
    (uids = [some y.participantId, some x.participantId] ∧
      names = [y.participantName, x.participantName])

/-- One participant against a pair of validators. -/
theorem findIdx_pair {x y : ParticipantName} {uid : Bytes} {k : Nat}
    (h : [x, y].findIdx? (·.participantId == uid) = some k) :
    (k = 0 ∧ uid = x.participantId) ∨ (k = 1 ∧ uid = y.participantId) := by
  rw [List.findIdx?_cons] at h
  split at h
  · rename_i hx
    left
    exact ⟨(Option.some.inj h).symm, (eq_of_beq hx).symm⟩
  · rw [List.findIdx?_cons] at h
    split at h
    · rename_i hy
      right
      exact ⟨(Option.some.inj h).symm, (eq_of_beq hy).symm⟩
    · simp at h

/-- Both participants are found in the pair, at different places. -/
theorem matchParticipants_pair {x y : ParticipantName} {u v : Option Bytes}
    {names : List (Option Bytes)} (h : matchParticipants [x, y] [u, v] [] [] = .ok names)
    (hall : names.all Option.isSome = true) : InOrderOf x y [u, v] (names.filterMap id) := by
  -- The first participant is one of the validators, otherwise its name is missing.
  unfold matchParticipants at h
  split at h
  · cases h
  · cases h
  · rename_i uid hne
    split at h
    · unfold matchParticipants at h
      grind [matchParticipants]
    · rename_i k hk
      split at h
      · cases h
      · unfold matchParticipants at h
        split at h
        · cases h
        · cases h
        · rename_i vid hne'
          split at h
          · unfold matchParticipants at h
            grind
          · rename_i l hl
            split at h
            · cases h
            · rename_i hdiff
              unfold matchParticipants at h
              cases h
              rcases findIdx_pair hk with ⟨rfl, rfl⟩ | ⟨rfl, rfl⟩ <;>
                rcases findIdx_pair hl with ⟨rfl, rfl⟩ | ⟨rfl, rfl⟩
              · simp at hdiff
              · exact .inl ⟨rfl, rfl⟩
              · exact .inr ⟨rfl, rfl⟩
              · simp at hdiff

theorem findParticipants_ok {u v : Option Bytes} {names : List Bytes}
    {configs : List (List ParticipantName)}
    (hconfigs : ∀ c ∈ configs, ∃ x y, c = [x, y])
    (h : findParticipants [u, v] configs = .ok names) :
    ∃ x y, [x, y] ∈ configs ∧ InOrderOf x y [u, v] names := by
  induction configs with
  | nil => cases h
  | cons c configs ih =>
    obtain ⟨x, y, rfl⟩ := hconfigs c List.mem_cons_self
    have hrest : findParticipants [u, v] configs = .ok names →
        ∃ x' y', [x', y'] ∈ [x, y] :: configs ∧ InOrderOf x' y' [u, v] names := fun hr => by
      obtain ⟨x', y', hmem, hin⟩ := ih (fun c hc => hconfigs c (List.mem_cons_of_mem _ hc)) hr
      exact ⟨x', y', List.mem_cons_of_mem _ hmem, hin⟩
    unfold findParticipants at h
    simp only [List.length_cons, List.length_nil, ↓reduceIte] at h
    split at h
    · cases h
    · rename_i ns hmatch
      split at h
      · rename_i hall
        cases h
        exact ⟨x, y, List.mem_cons_self, matchParticipants_pair hmatch hall⟩
      · exact hrest h

theorem validConfigs_pairs : ∀ c ∈ validParticipantsConfigs, ∃ x y, c = [x, y] := by
  intro c hc
  simp only [validParticipantsConfigs, List.mem_cons, List.not_mem_nil, or_false] at hc
  rcases hc with rfl | rfl | rfl <;> exact ⟨_, _, rfl⟩

/-- The rows of two validators, on an empty array. -/
theorem setParticipantRows_two {t t₁ t₂ : Topology} {party first second : Bytes}
    (hpairs : t.review.pairs = some []) (h₀ : setFieldValue t 0 party = some t₁)
    (h₁ : setParticipantRows t₁ [first, second] 2 2 = some t₂) :
    t₂ = { t with
      review := { t.review with pairs := some (onboardingRows party first second) }
      found := t₂.found } := by
  simp only [setFieldValue, hpairs, onboardingFlowDisplayFieldsNb] at h₀
  cases h₀
  simp [setParticipantRows, setFieldValue, onboardingFlowDisplayFieldsNb, List.zipIdx] at h₁
  cases h₁
  rfl

/-- The mapping passes every check before its first row is set. -/
structure SetsRows (d : Device) (t : Topology) (m : PartyToParticipant) (party : Bytes) : Prop where
  first : t.hasParsedPartyToParticipant = false
  named : m.party = some party
  device : checkPartyIdValue d t (some party) = true
  participants : m.participants.length = expectedParticipantsNb
  threshold : m.threshold = m.participants.length
  signingKeys : m.hasPartySigningKeys = false

/-- The rest of `process_party_to_participant`, from its first row on. -/
def setMappingRows (t : Topology) (m : PartyToParticipant) (party : Bytes) : Outcome :=
  match setFieldValue t 0 party with
  | none => .assertion
  | some t =>
    match findParticipants m.participants validParticipantsConfigs with
    | .error sw => refuseMapping t sw
    | .ok names =>
      match setParticipantRows t names m.threshold m.participants.length with
      | none => .assertion
      | some t => .ok { t with hasParsedPartyToParticipant := true }

/-- A mapping is refused by the checks, or its rows are set. -/
theorem processPartyToParticipant_cases (t : Topology) (m : PartyToParticipant) :
    ((∀ party, ¬ SetsRows d t m party) ∧
      ∃ t' sw, processPartyToParticipant d t m = .refused t' sw) ∨
    ∃ party, SetsRows d t m party ∧ processPartyToParticipant d t m = setMappingRows t m party := by
  unfold processPartyToParticipant
  by_cases hflag : t.hasParsedPartyToParticipant = true
  · refine .inl ⟨fun party h => ?_, t, Sw.topologyMultiplePartyToParticipants, if_pos hflag⟩
    exact absurd (hflag.symm.trans h.first) (by decide)
  rw [if_neg hflag]
  cases hparty : m.party with
  | none =>
    refine .inl ⟨fun party h => ?_, _, _, rfl⟩
    exact nomatch hparty.symm.trans h.named
  | some party =>
    dsimp only
    have hsame {party'} (h : SetsRows d t m party') : party' = party :=
      Option.some.inj (h.named.symm.trans hparty)
    by_cases hid : checkPartyIdValue d t (some party) = true
    swap
    · refine .inl ⟨fun party' h => hid (hsame h ▸ h.device), _, _, if_pos (by simp [hid])⟩
    rw [if_neg (by simp [hid])]
    by_cases hcount : m.participants.length = expectedParticipantsNb
    swap
    · exact .inl ⟨fun _ h => hcount h.participants, _, _, if_pos hcount⟩
    rw [if_neg (by simp [hcount])]
    by_cases hthr : m.threshold = m.participants.length
    swap
    · exact .inl ⟨fun _ h => hthr h.threshold, _, _, if_pos hthr⟩
    rw [if_neg (by simp [hthr])]
    by_cases hkeys : m.hasPartySigningKeys = true
    · refine .inl ⟨fun _ h => ?_, _, _, if_pos hkeys⟩
      exact absurd (hkeys.symm.trans h.signingKeys) (by decide)
    rw [if_neg hkeys]
    exact .inr ⟨party, ⟨by simpa using hflag, hparty, hid, hcount, hthr, by simpa using hkeys⟩, rfl⟩

/-- Two validators of one network, in the order of the message. -/
theorem SetsRows.names {m : PartyToParticipant} {party : Bytes} {names : List Bytes}
    (h : SetsRows d t m party)
    (hnames : findParticipants m.participants validParticipantsConfigs = .ok names) :
    m.threshold = 2 ∧ m.participants.length = 2 ∧
      ∃ x y, [x, y] ∈ validParticipantsConfigs ∧ InOrderOf x y m.participants names := by
  have hlen : m.participants.length = 2 := h.participants
  obtain ⟨u, v, huv⟩ := List.length_eq_two.mp hlen
  refine ⟨h.threshold.trans hlen, hlen, ?_⟩
  rw [huv] at hnames ⊢
  exact findParticipants_ok validConfigs_pairs hnames

theorem processPartyToParticipant_ok {m : PartyToParticipant} (hpairs : t.review.pairs = some [])
    (h : processPartyToParticipant d t m = .ok t') :
    ∃ first second, ParticipantsChecked d (t.signature.take 32) m first second ∧
      t' = { t with
        review := { t.review with
          pairs := some (onboardingRows (partyIdFromPubkey d t.signature) first second) }
        found := t'.found
        hasParsedPartyToParticipant := true } := by
  rcases processPartyToParticipant_cases (d := d) t m with ⟨-, t₁, sw, heq⟩ | ⟨party, hsets, heq⟩
  · rw [heq] at h
    cases h
  rw [heq, setMappingRows] at h
  split at h
  · cases h
  rename_i t₁ hfield
  split at h
  · cases h
  rename_i names hnames
  split at h
  · cases h
  rename_i t₂ hrows
  cases h
  -- the names were set, so the two participants are those of one network, in either order
  obtain ⟨hthr, hlen, x, y, hmem, hin⟩ := hsets.names hnames
  have hid : party = partyIdFromPubkey d t.signature := by
    simpa [checkPartyIdValue] using hsets.device
  have hparty : m.party = some (partyIdFromPubkey d (t.signature.take 32)) := by
    rw [hsets.named, hid, partyIdFromPubkey_take]
  rw [hthr, hlen] at hrows
  rw [← hid]
  rcases hin with ⟨hp, rfl⟩ | ⟨hp, rfl⟩
  · refine ⟨x.participantName, y.participantName,
      ⟨hparty, hthr, hsets.signingKeys, x, y, hmem, .inl ⟨hp, rfl, rfl⟩⟩, ?_⟩
    rw [setParticipantRows_two hpairs hfield hrows]
  · refine ⟨y.participantName, x.participantName,
      ⟨hparty, hthr, hsets.signingKeys, x, y, hmem, .inr ⟨hp, rfl, rfl⟩⟩, ?_⟩
    rw [setParticipantRows_two hpairs hfield hrows]

/-! ## The invariant of a flow -/

/-- What the flags say about the messages `bufs` and their decodings `ts`. -/
structure OnboardInv (d : Device) (key : Bytes) (bufs : List Bytes)
    (ts : List TopologyTransaction) (t : Topology) : Prop where
  decoded : List.Forall₂ (fun b tt => d.decodeTopologyTransaction b = some tt) bufs ts
  signature : t.signature.take 32 = key
  clear : t.review.clearSigningAvailable = false
  delegation : t.hasParsedNamespaceDelegation = true →
    ∃ m, adds (.namespaceDelegation m) ∈ ts ∧ DelegationChecked key m
  keyMapping : t.hasParsedPartyToKeyMapping = true →
    ∃ m, adds (.partyToKeyMapping m) ∈ ts ∧ KeyMappingChecked d key m
  participants : t.hasParsedPartyToParticipant = true →
    ∃ m first second, adds (.partyToParticipant m) ∈ ts ∧
      ParticipantsChecked d key m first second ∧
      t.review.pairs = some (onboardingRows (partyIdFromPubkey d key) first second)
  noRows : t.hasParsedPartyToParticipant = false → t.review.pairs = some []

variable {bufs : List Bytes} {ts : List TopologyTransaction} {buf : Bytes}

/-- A message that leaves the flags alone. -/
theorem OnboardInv.skip {tt : TopologyTransaction} (h : OnboardInv d key bufs ts t)
    (hdec : d.decodeTopologyTransaction buf = some tt) :
    OnboardInv d key (bufs ++ [buf]) (ts ++ [tt]) t where
  decoded := List.rel_append h.decoded (.cons hdec .nil)
  signature := h.signature
  clear := h.clear
  delegation hf := by
    obtain ⟨m, hm, hc⟩ := h.delegation hf
    exact ⟨m, List.mem_append_left _ hm, hc⟩
  keyMapping hf := by
    obtain ⟨m, hm, hc⟩ := h.keyMapping hf
    exact ⟨m, List.mem_append_left _ hm, hc⟩
  participants hf := by
    obtain ⟨m, first, second, hm, hc⟩ := h.participants hf
    exact ⟨m, first, second, List.mem_append_left _ hm, hc⟩
  noRows := h.noRows

/-- One parsed message keeps the invariant. -/
theorem onboardInv_parse (h : OnboardInv d key bufs ts t)
    (hparse : parseTopologyTransactionForDisplay d t buf = .ok t') :
    ∃ tt, OnboardInv d key (bufs ++ [buf]) (ts ++ [tt]) t' ∧ t'.txHashes = t.txHashes := by
  unfold parseTopologyTransactionForDisplay at hparse
  split at hparse
  · cases hparse
  · rename_i tt hdec
    -- the message as one that sets no flag, to which the checked mapping is added
    have hskip := h.skip hdec
    refine ⟨tt, ?_⟩
    split at hparse
    · cases hparse
      exact ⟨hskip, rfl⟩
    · rename_i mapping hmapping
      split at hparse
      · cases hparse
      · rename_i hop
        have hadds : tt = adds mapping := by
          cases tt
          simp only [adds] at hmapping hop ⊢
          simp_all
        -- the mapping stands in the message that came last
        have hmem : adds mapping ∈ ts ++ [tt] := by simp [hadds]
        split at hparse
        · rename_i m
          obtain ⟨rfl, hchecked⟩ := processNamespaceDelegation_ok hparse
          refine ⟨{ hskip with delegation := fun _ => ⟨m, hmem, ?_⟩ }, rfl⟩
          exact h.signature ▸ hchecked
        · rename_i m
          -- a second party-to-participant mapping is refused
          by_cases hflag : t.hasParsedPartyToParticipant = true
          · simp [processPartyToParticipant, hflag] at hparse
          · obtain ⟨first, second, hchecked, ht'⟩ :=
              processPartyToParticipant_ok (h.noRows (by simpa using hflag)) hparse
            rw [← partyIdFromPubkey_take, h.signature] at ht'
            rw [h.signature] at hchecked
            rw [ht']
            exact ⟨{ hskip with
              signature := h.signature
              participants := fun _ => ⟨m, first, second, hmem, hchecked, rfl⟩
              noRows := fun hf => by cases hf }, rfl⟩
        · rename_i m
          obtain ⟨rfl, hchecked⟩ := processPartyToKeyMapping_ok hparse
          refine ⟨{ hskip with keyMapping := fun _ => ⟨m, hmem, ?_⟩ }, rfl⟩
          exact h.signature ▸ hchecked
        · cases hparse

/-- What a clear onboarding review stands for. -/
structure OnboardingShown (d : Device) (key : Bytes) (bufs : List Bytes) (t : Topology)
    (delegation : NamespaceDelegation) (keyMapping : PartyToKeyMapping)
    (participants : PartyToParticipant) (first second : Bytes) : Prop where
  messages : ∃ ts, List.Forall₂ (fun b tt => d.decodeTopologyTransaction b = some tt) bufs ts ∧
    ts.Perm [adds (.namespaceDelegation delegation), adds (.partyToKeyMapping keyMapping),
      adds (.partyToParticipant participants)]
  delegationChecked : DelegationChecked key delegation
  keyMappingChecked : KeyMappingChecked d key keyMapping
  participantsChecked : ParticipantsChecked d key participants first second
  rows : t.review.pairs = some (onboardingRows (partyIdFromPubkey d key) first second)
  hash : t.mHash = multiHash d (bufs.map (cantonHash d 11))
  hashLen : t.mHashLen = 34

/-- Three messages of three kinds among at most three are all there is. -/
theorem messages_perm {delegation : NamespaceDelegation} {keyMapping : PartyToKeyMapping}
    {participants : PartyToParticipant} (hlen : ts.length ≤ 3)
    (h₁ : adds (.namespaceDelegation delegation) ∈ ts)
    (h₂ : adds (.partyToKeyMapping keyMapping) ∈ ts)
    (h₃ : adds (.partyToParticipant participants) ∈ ts) :
    ts.Perm [adds (.namespaceDelegation delegation), adds (.partyToKeyMapping keyMapping),
      adds (.partyToParticipant participants)] := by
  have hnodup : [adds (.namespaceDelegation delegation), adds (.partyToKeyMapping keyMapping),
      adds (.partyToParticipant participants)].Nodup := by simp [adds]
  have hsub := List.subperm_of_subset hnodup (by simp [h₁, h₂, h₃] : _ ⊆ ts)
  exact (hsub.perm_of_length_le hlen).symm

/-- The last message of a flow. -/
theorem finishTopology_shown (h : OnboardInv d key bufs ts t) (hlen : bufs.length ≤ 3)
    (hfin : finishTopology d t (bufs.map (cantonHash d 11)) = .ok t') :
    t'.txHashes = none ∧ (t'.review.clearSigningAvailable = true →
      ∃ delegation keyMapping participants first second,
        OnboardingShown d key bufs t' delegation keyMapping participants first second) := by
  -- signing the challenge changes the signature alone
  have hsign : ∀ s : Topology, (signChallenge d s).review = s.review ∧
      (signChallenge d s).mHash = s.mHash ∧ (signChallenge d s).mHashLen = s.mHashLen ∧
      (signChallenge d s).txHashes = s.txHashes ∧
      (signChallenge d s).hasParsedNamespaceDelegation = s.hasParsedNamespaceDelegation ∧
      (signChallenge d s).hasParsedPartyToKeyMapping = s.hasParsedPartyToKeyMapping ∧
      (signChallenge d s).hasParsedPartyToParticipant = s.hasParsedPartyToParticipant := by
    intro s
    unfold signChallenge
    split <;> exact ⟨rfl, rfl, rfl, rfl, rfl, rfl, rfl⟩
  obtain ⟨hreview, hhash, hlen34, hstore, hf₁, hf₂, hf₃⟩ := hsign
    (cleanupHashStorage
      { t with mHash := multiHash d (bufs.map (cantonHash d 11)), mHashLen := 34 })
  unfold finishTopology at hfin
  dsimp only at hfin
  split at hfin
  · rename_i hflags
    split at hfin
    · cases hfin
    · cases hfin
      rw [hf₁, hf₂, hf₃] at hflags
      simp only [Bool.and_eq_true] at hflags
      obtain ⟨⟨hd, hk⟩, hp⟩ := hflags
      obtain ⟨m₁, hm₁, hc₁⟩ := h.delegation hd
      obtain ⟨m₂, hm₂, hc₂⟩ := h.keyMapping hk
      obtain ⟨m₃, first, second, hm₃, hc₃, hrows⟩ := h.participants hp
      have hts : ts.length ≤ 3 := h.decoded.length_eq ▸ hlen
      refine ⟨hstore, fun _ => ⟨m₁, m₂, m₃, first, second, ⟨ts, h.decoded, ?_⟩, hc₁, hc₂, hc₃, ?_,
        hhash, hlen34⟩⟩
      · -- three messages with one mapping each are the three mappings
        exact messages_perm hts hm₁ hm₂ hm₃
      · show (signChallenge d _).review.pairs = _
        rw [hreview]
        exact hrows
  · cases hfin
    refine ⟨hstore, fun hclear => ?_⟩
    rw [hreview] at hclear
    exact absurd (h.clear.symm.trans hclear) (by decide)

/-- A flow that waits for messages, or has been finished. -/
def OnboardState (d : Device) (key : Bytes) (bufs : List Bytes) (t : Topology) : Prop :=
  (∃ ts, OnboardInv d key bufs ts t ∧ t.txHashes = some (bufs.map (cantonHash d 11)) ∧
    bufs.length ≤ 3) ∨
  (t.txHashes = none ∧ (t.review.clearSigningAvailable = true →
    ∃ delegation keyMapping participants first second,
      OnboardingShown d key bufs t delegation keyMapping participants first second))

theorem onboardState_step {parsed : Bool} (h : OnboardState d key bufs t)
    (hstep : processUntypedVersionedMsgTx d parsed t buf = .ok t') :
    OnboardState d key (bufs ++ [buf]) t' := by
  unfold processUntypedVersionedMsgTx at hstep
  rcases h with ⟨ts, hinv, hhashes, -⟩ | ⟨hnone, -⟩
  · rw [hhashes] at hstep
    dsimp only at hstep
    split at hstep
    · cases hstep
    · rename_i hroom
      have hlen : (bufs ++ [buf]).length ≤ 3 := by
        simp only [maxHashes, List.length_map] at hroom
        simp
        omega
      have hmap : bufs.map (cantonHash d 11) ++ [cantonHash d 11 buf] =
          (bufs ++ [buf]).map (cantonHash d 11) := by simp
      rw [hmap] at hstep
      split at hstep
      · cases hstep
      · cases hstep
      · rename_i t₁ hparse
        have hinv₁ : OnboardInv d key bufs ts
            { t with txHashes := some ((bufs ++ [buf]).map (cantonHash d 11)) } :=
          { hinv with }
        obtain ⟨tt, hinv', hhashes'⟩ := onboardInv_parse hinv₁ hparse
        split at hstep
        · exact .inr (finishTopology_shown hinv' hlen hstep)
        · cases hstep
          exact .inl ⟨ts ++ [tt], hinv', hhashes', hlen⟩
  · rw [hnone] at hstep
    cases hstep

theorem onboardState_start (hlen : key.length = 32) (challenge : Option Bytes) :
    OnboardState d key [] (.start key challenge) :=
  .inl ⟨[], ⟨.nil, List.take_of_length_le hlen.le, rfl, nofun, nofun, nofun, fun _ => rfl⟩, rfl,
    Nat.zero_le _⟩

end CantonSigner
