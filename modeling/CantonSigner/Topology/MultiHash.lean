import CantonSigner.Topology.ClearReview

/-!
# The multi-hash of a topology flow

The hashes of the messages are sorted before they are hashed together. The order is `strcmp` on
their hexadecimal rendering, which is the order of the bytes (`compareHashesHex_iff`), and the
buffer they are written to has exactly their size (`concatHashes_eq`), so that the multi-hash
depends on which messages came and how often, but not on their order (`multi_hash_ascending`).
-/

namespace CantonSigner

open ByteCodec

/-! ## The order -/

/-- One lowercase hex digit. -/
def hexDigit (n : Nat) : UInt8 := UInt8.ofNat (if n < 10 then 48 + n else 87 + n)

theorem hexLower_cons (c : UInt8) (cs : Bytes) :
    hexLower (c :: cs) = hexDigit (c.toNat / 16) :: hexDigit (c.toNat % 16) :: hexLower cs := rfl

/-- Digits are ordered as the numbers they stand for. -/
theorem hexDigit_lt_iff {m n : Nat} (hm : m < 16) (hn : n < 16) :
    hexDigit m < hexDigit n ↔ m < n := by
  have htoNat : ∀ k < 16, (hexDigit k).toNat = if k < 10 then 48 + k else 87 + k := by decide
  rw [UInt8.lt_iff_toNat_lt, htoNat m hm, htoNat n hn]
  split <;> split <;> omega

theorem hexDigit_inj {m n : Nat} (hm : m < 16) (hn : n < 16) :
    hexDigit m = hexDigit n ↔ m = n := by
  constructor
  · intro h
    have hmn := hexDigit_lt_iff hm hn
    have hnm := hexDigit_lt_iff hn hm
    rw [h, iff_false_left (UInt8.lt_irrefl _)] at hmn
    rw [h, iff_false_left (UInt8.lt_irrefl _)] at hnm
    omega
  · rintro rfl
    rfl

/-- Ordering by `compare_hashes_hex` is ordering by bytes. -/
theorem compareHashesHex_iff : ∀ a b : Bytes, compareHashesHex a b ↔ a ≤ b
  | [], b => iff_of_true rfl (List.nil_le b)
  | _ :: _, [] => iff_of_false (by simp [compareHashesHex, strcmpLe, hexLower]) (by simp)
  | x :: a, y :: b => by
    have hx : x.toNat / 16 < 16 ∧ x.toNat % 16 < 16 := by have := x.toNat_lt; omega
    have hy : y.toNat / 16 < 16 ∧ y.toNat % 16 < 16 := by have := y.toNat_lt; omega
    have ih : strcmpLe (hexLower a) (hexLower b) = true ↔ a ≤ b := compareHashesHex_iff a b
    rw [List.cons_le_cons_iff, UInt8.lt_iff_toNat_lt, ← UInt8.toNat_inj, ← ih]
    unfold compareHashesHex
    simp only [hexLower_cons, strcmpLe, Bool.or_eq_true, Bool.and_eq_true, decide_eq_true_eq,
      beq_iff_eq, hexDigit_lt_iff hx.1 hy.1, hexDigit_lt_iff hx.2 hy.2, hexDigit_inj hx.1 hy.1,
      hexDigit_inj hx.2 hy.2]
    -- A byte is its two digits.
    constructor
    · rintro (h | ⟨h₁, h | ⟨h₂, h⟩⟩)
      · left; omega
      · left; omega
      · exact .inr ⟨by omega, h⟩
    · rintro (h | ⟨h₁, h⟩)
      · by_cases hhigh : x.toNat / 16 < y.toNat / 16
        · exact .inl hhigh
        · exact .inr ⟨by omega, .inl (by omega)⟩
      · exact .inr ⟨by omega, .inr ⟨by omega, h⟩⟩

/-! ## The buffer -/

/-- What fits is written. -/
theorem bwPut_of_room {bw : ByteWriter} {p : Bytes} (hrun : bw.overflow = false)
    (hroom : bw.written.length + p.length ≤ bw.cap) :
    bwPut bw p = { bw with written := bw.written ++ p } := by
  unfold bwPut
  rw [if_neg (by simpa [hrun] using hroom)]

/-- The entries of the buffer, where there is room for all of them. -/
theorem foldl_entries {hashes : List Bytes} (hlen : ∀ h ∈ hashes, h.length = 34) (bw : ByteWriter)
    (hrun : bw.overflow = false) (hroom : bw.written.length + 38 * hashes.length ≤ bw.cap) :
    hashes.foldl (fun bw h => bwPut (bwPutU32Be bw 34) h) bw =
      { bw with written := bw.written ++ hashes.flatMap fun h => beBytes 4 34 ++ h } := by
  induction hashes generalizing bw with
  | nil => simp
  | cons h hashes ih =>
    have hh := hlen h List.mem_cons_self
    rw [List.length_cons] at hroom
    have hstart : bwPutU32Be bw 34 = { bw with written := bw.written ++ beBytes 4 34 } :=
      bwPut_of_room hrun (by rw [length_beBytes]; omega)
    have hentry : bwPut (bwPutU32Be bw 34) h =
        { bw with written := bw.written ++ (beBytes 4 34 ++ h) } := by
      rw [hstart, bwPut_of_room, List.append_assoc]
      · exact hrun
      · simp only [List.length_append, length_beBytes]
        omega
    rw [List.foldl_cons, hentry, ih fun g hg => hlen g (List.mem_cons_of_mem _ hg)]
    · simp
    · exact hrun
    · simp only [List.length_append, length_beBytes]
      omega

/-- The writer fills the buffer to its last byte, and never runs over it. -/
theorem concatHashes_eq {hashes : List Bytes} (hlen : ∀ h ∈ hashes, h.length = 34) :
    concatHashes hashes = ⟨hashes.length * 34 + hashes.length * 4 + 4,
      beBytes 4 hashes.length ++
        (hashes.insertionSort compareHashesHex).flatMap fun h => beBytes 4 34 ++ h, false⟩ := by
  have hperm := List.perm_insertionSort compareHashesHex hashes
  unfold concatHashes
  dsimp only
  have hcount : bwPutU32Be (bwInit (hashes.length * 34 + hashes.length * 4 + 4)) hashes.length =
      ⟨hashes.length * 34 + hashes.length * 4 + 4, beBytes 4 hashes.length, false⟩ :=
    bwPut_of_room rfl (by simp [bwInit])
  rw [hcount, foldl_entries (fun h hmem => hlen h (hperm.mem_iff.mp hmem)) _ rfl]
  simp only [length_beBytes, hperm.length_eq]
  omega

theorem length_entries {hashes : List Bytes} (hlen : ∀ h ∈ hashes, h.length = 34) :
    (hashes.flatMap fun h => beBytes 4 34 ++ h).length = 38 * hashes.length := by
  induction hashes with
  | nil => rfl
  | cons h hashes ih =>
    rw [List.flatMap_cons, List.length_append, List.length_append, length_beBytes,
      hlen h List.mem_cons_self, ih fun g hg => hlen g (List.mem_cons_of_mem _ hg),
      List.length_cons]
    omega

/-! ## The hash of a finished flow -/

/-- The hashes of these messages, in ascending order. -/
def ascendingHashes (d : Device) (msgs : List Bytes) : List Bytes :=
  (msgs.map (cantonHash d 11)).insertionSort (· ≤ ·)

/-- Any list of these hashes that is in the order of `compare_hashes_hex` is in ascending order of
their bytes. -/
theorem eq_ascendingHashes {d : Device} {msgs sorted : List Bytes}
    (hperm : sorted.Perm (msgs.map (cantonHash d 11)))
    (hsorted : sorted.Pairwise compareHashesHex) : sorted = ascendingHashes d msgs := by
  have hbytes : sorted.Pairwise (· ≤ ·) := hsorted.imp fun {a b} h =>
    (compareHashesHex_iff a b).mp h
  exact List.Perm.eq_of_pairwise (fun _ _ _ _ => List.le_antisymm) hbytes
    (List.pairwise_insertionSort _ _) (hperm.trans (List.perm_insertionSort _ _).symm)

variable {d : Device} {t t' : Topology} {a a' : App} {log log' : List PartEvent}

theorem length_cantonHash (purpose : UInt8) (data : Bytes) :
    (cantonHash d purpose data).length = 34 := by
  simp [cantonHash, d.length_sha]

theorem length_of_hashed {msgs : List Bytes} {h : Bytes} (hmem : h ∈ msgs.map (cantonHash d 11)) :
    h.length = 34 := by
  obtain ⟨m, -, rfl⟩ := List.mem_map.mp hmem
  exact length_cantonHash 11 m

/-- The multi-hash of messages: no byte of the heap comes into it. -/
theorem multiHash_eq (d : Device) (msgs : List Bytes) : multiHash d (msgs.map (cantonHash d 11)) =
    cantonHash d 55 (beBytes 4 msgs.length ++
      (ascendingHashes d msgs).flatMap fun h => beBytes 4 34 ++ h) := by
  have hsort : (msgs.map (cantonHash d 11)).insertionSort compareHashesHex =
      ascendingHashes d msgs := by
    have htotal : Std.Total compareHashesHex :=
      ⟨fun a b => by rw [compareHashesHex_iff, compareHashesHex_iff]; exact List.le_total a b⟩
    have htrans : IsTrans Bytes compareHashesHex :=
      ⟨fun a b c => by simp only [compareHashesHex_iff]; exact List.le_trans⟩
    exact eq_ascendingHashes (List.perm_insertionSort _ _) (List.pairwise_insertionSort _ _)
  have hsorted : ∀ h ∈ ascendingHashes d msgs, h.length = 34 := fun h hmem =>
    length_of_hashed ((List.perm_insertionSort _ _).mem_iff.mp hmem)
  have hcount : (ascendingHashes d msgs).length = msgs.length := by simp [ascendingHashes]
  unfold multiHash
  rw [concatHashes_eq fun h => length_of_hashed, hsort, List.length_map]
  dsimp only
  rw [List.take_left']
  rw [List.length_append, length_beBytes, length_entries hsorted, hcount]
  omega

/-- The last message stores the multi-hash and drops the hashes. -/
theorem finishTopology_hash {hashes : List Bytes} (h : finishTopology d t hashes = .ok t') :
    t'.mHash = multiHash d hashes ∧ t'.mHashLen = 34 := by
  have hsign : ∀ s : Topology,
      (signChallenge d s).mHash = s.mHash ∧ (signChallenge d s).mHashLen = s.mHashLen := by
    intro s
    unfold signChallenge
    split <;> exact ⟨rfl, rfl⟩
  unfold finishTopology at h
  dsimp only at h
  split at h
  · split at h
    · cases h
    · cases h
      exact hsign _
  · cases h
    exact hsign _

/-- The hashes of an open topology flow are those of its messages, and its rows are not set
before the mapping. -/
def HashesOf (d : Device) (t : Topology) (log : List PartEvent) : Prop :=
  ∀ hashes, t.txHashes = some hashes → hashes = (partBuffers log).map (cantonHash d 11) ∧
    ¬ Finished log ∧ (t.hasParsedPartyToParticipant = false → NoRows t)

theorem hashesOf_part {parsed : Bool} {buf : Bytes} (h : HashesOf d t log)
    (hok : processUntypedVersionedMsgTx d parsed t buf = .ok t') :
    HashesOf d t' (log ++ [.part parsed buf]) := by
  obtain ⟨hashes, t₁, hhashes, hparse, hend⟩ := processUntypedVersionedMsgTx_ok hok
  obtain ⟨rfl, hopen, hrows⟩ := h hashes hhashes
  intro hashes' hhashes'
  cases parsed with
  | true => exact nomatch hend.symm.trans hhashes'
  | false =>
    simp only [Bool.false_eq_true, if_false] at hend
    subst hend
    obtain ⟨hkept, -, hrows'⟩ := parseTopologyTransactionForDisplay_ok
      (t := { t with
        txHashes := some ((partBuffers log).map (cantonHash d 11) ++ [cantonHash d 11 buf]) })
      hrows hparse
    refine ⟨?_, ?_, hrows'⟩
    · rw [partBuffers_append, List.map_append]
      exact (Option.some.inj (hkept.symm.trans hhashes')).symm
    · simpa [finished_append, Finished] using hopen

theorem topologyRelation_hashes : TopologyRelation d fun _ t log => HashesOf d t log := by
  refine ⟨fun _ key challenge _ hashes h => ?_, fun _ t log parsed buf t' => hashesOf_part, ?_⟩
  · cases h
    exact ⟨rfl, not_finished_nil, fun _ => .inr rfl⟩
  · intro _ t log pairs signature h hpairs hashes hhashes
    obtain ⟨hsame, hopen, -⟩ := h hashes hhashes
    refine ⟨?_, ?_, fun _ => .inl (hpairs hopen)⟩
    · simpa [partBuffers_append, partBuffers] using hsame
    · simpa [finished_append, Finished] using hopen

/-- The last message of a topology flow stores the hash of them all. -/
theorem multiHash_of_last {buf : Bytes} (h : HashesOf d t log)
    (hok : processUntypedVersionedMsgTx d true t buf = .ok t') :
    t'.mHash = multiHash d ((partBuffers log ++ [buf]).map (cantonHash d 11)) ∧
      t'.mHashLen = 34 := by
  obtain ⟨hashes, hhashes⟩ : ∃ hashes, t.txHashes = some hashes :=
    (processUntypedVersionedMsgTx_ok hok).imp fun _ h => h.choose_spec.1
  obtain ⟨rfl, -, -⟩ := h hashes hhashes
  unfold processUntypedVersionedMsgTx at hok
  rw [hhashes] at hok
  dsimp only at hok
  split at hok
  · cases hok
  · split at hok
    · cases hok
    · cases hok
    · have hfinish : finishTopology d _ _ = .ok t' := hok
      rw [List.map_append]
      exact finishTopology_hash hfinish

/-- A flow keeps the hashes of its messages until the last one, and their multi-hash after it. -/
def HashedUpTo (d : Device) (t : Topology) (log : List PartEvent) : Prop :=
  HashesOf d t log ∧ (Finished log →
    t.mHash = multiHash d ((partBuffers log).map (cantonHash d 11)) ∧ t.mHashLen = 34)

theorem topologyRelation_hashed : TopologyRelation d fun _ t log => HashedUpTo d t log := by
  have hrel := @topologyRelation_hashes d
  refine ⟨fun path key challenge hkey => ⟨hrel.started path key challenge hkey, fun h => ?_⟩, ?_,
    ?_⟩
  · exact absurd h not_finished_nil
  · rintro path t log parsed buf t' ⟨h, -⟩ hok
    refine ⟨hrel.part path t log parsed buf t' h hok, fun hfin => ?_⟩
    cases parsed with
    | true =>
      rw [partBuffers_append]
      exact multiHash_of_last h hok
    | false =>
      obtain ⟨hashes, -, hhashes, -⟩ := processUntypedVersionedMsgTx_ok hok
      obtain ⟨-, hopen, -⟩ := h hashes hhashes
      exact absurd hfin (by simpa [finished_append, Finished] using hopen)
  · rintro path t log pairs signature ⟨h, hdone⟩ hpairs
    refine ⟨hrel.rows path t log pairs signature h hpairs, fun hfin => ?_⟩
    have hbufs : partBuffers (log ++ [.rows pairs signature]) = partBuffers log := by
      simp [partBuffers_append, partBuffers]
    rw [hbufs]
    exact hdone (by simpa [finished_append, Finished] using hfin)

/-- A topology flow that was accepted to the end holds the multi-hash of its messages. -/
theorem multiHash_of_reach {es : List Event} (h : (loggedApp d).Reach anyEvent es (a, log))
    (hr : a.ReceivingTopology) (hfin : Finished log) :
    a.tx.mHash = multiHash d ((partBuffers log).map (cantonHash d 11)) ∧ a.tx.mHashLen = 34 :=
  (topologyRelation_hashed.of_reach h hr).2 hfin

/-- **The multi-hash does not depend on the order of messages**: a flow that was accepted to the
end holds the hash of its messages' hashes in ascending order, written without an overflow and
however they are sorted by `compare_hashes_hex`; every other order of the same messages leads to
the same. -/
theorem multi_hash_ascending {es : List Event} (h : (loggedApp d).Reach anyEvent es (a, log))
    (hr : a.ReceivingTopology) (hfin : Finished log) :
    a.tx.mHash = cantonHash d 55 (beBytes 4 (partBuffers log).length ++
      (ascendingHashes d (partBuffers log)).flatMap fun h => beBytes 4 34 ++ h) ∧
    (concatHashes ((partBuffers log).map (cantonHash d 11))).overflow = false ∧
    (∀ a b : Bytes, compareHashesHex a b ↔ a ≤ b) ∧
    (∀ sorted : List Bytes, sorted.Perm ((partBuffers log).map (cantonHash d 11)) →
      sorted.Pairwise compareHashesHex → sorted = ascendingHashes d (partBuffers log)) ∧
    ∀ es' a' log', (loggedApp d).Reach anyEvent es' (a', log') → a'.ReceivingTopology →
      Finished log' → (partBuffers log').Perm (partBuffers log) → a'.tx.mHash = a.tx.mHash := by
  refine ⟨?_, ?_, compareHashesHex_iff, fun sorted => eq_ascendingHashes, ?_⟩
  · rw [(multiHash_of_reach h hr hfin).1, multiHash_eq]
  · rw [concatHashes_eq fun h => length_of_hashed]
  intro es' a' log' h' hr' hfin' hperm
  have hsame : ascendingHashes d (partBuffers log') = ascendingHashes d (partBuffers log) := by
    refine eq_ascendingHashes ((List.perm_insertionSort _ _).trans (hperm.map _)) ?_
    exact (List.pairwise_insertionSort _ _).imp fun {a b} hab => (compareHashesHex_iff a b).mpr hab
  rw [(multiHash_of_reach h' hr' hfin').1, (multiHash_of_reach h hr hfin).1, multiHash_eq,
    multiHash_eq, hsame, hperm.length_eq]

/-- The onboarding of the development network holds the hash of its three messages. -/
theorem multi_hash_ascending_devnet : ∃ a log,
    (loggedApp testDevice).Reach anyEvent (topologyFlow (devnetOnboarding testKey)) (a, log) ∧
      partBuffers log = (devnetOnboarding testKey).map Prod.snd ∧
      a.tx.mHash = cantonHash testDevice 55 (beBytes 4 3 ++ (ascendingHashes testDevice
        ((devnetOnboarding testKey).map Prod.snd)).flatMap fun h => beBytes 4 34 ++ h) := by
  obtain ⟨a, log, hreach, hp⟩ := exists_reach_loggedApp testDevice
    (topologyFlow (devnetOnboarding testKey)) (fun s => decide s.1.ReceivingTopology &&
      decide (partBuffers s.2 = (devnetOnboarding testKey).map Prod.snd) &&
      decide (Finished s.2)) (by decide +kernel)
  simp only [Bool.and_eq_true, decide_eq_true_eq] at hp
  obtain ⟨⟨hr, hbufs⟩, hfin⟩ := hp
  have hhash := (multi_hash_ascending hreach hr hfin).1
  rw [hbufs] at hhash
  exact ⟨a, log, hreach, hbufs, hhash⟩

end CantonSigner
