import CantonSigner.Hash.Encoding
import CantonSigner.Model.Host
import CantonSigner.Model.SignTx
import CantonSigner.Model.TestDevice
import CantonSigner.Tree.Parts

/-!
# Hexadecimal fields

`encode_hex_string` refuses a string of odd length and writes a byte for every pair of the
characters of the others. `hex_val` gives a value to every character, so a string of even
length with a character that is no digit is encoded too, as some other string may be.

- `hashed_kinds`: every node of a part that is hashed without an error is;
- `hex_faithful_iff`: the strings that are decoded faithfully or refused.
-/

namespace CantonSigner

open ByteCodec HashingParser

/-! ## Parts without a hash error -/

section Parts

variable {d : Device} {lookup : Bytes → Option Bytes} {tx : DamlTransaction}
  {ctx ctx' : HashingParser.Ctx}

theorem nodeDecodeCallback_extends {k : NodeKind}
    (h : nodeDecodeCallback d lookup tx ctx k = some ctx') : ctx.v.hw.Extends ctx'.v.hw := by
  cases k with
  | create c =>
    obtain ⟨-, h⟩ := Option.ite_none_left_eq_some.mp h
    obtain ⟨seed, -, h⟩ := Option.bind_eq_some_iff.mp h
    obtain ⟨v, hv, heq⟩ := Option.bind_eq_some_iff.mp h
    cases heq
    exact hashCreate_extends hv
  | exercise e =>
    obtain ⟨-, h⟩ := Option.ite_none_left_eq_some.mp h
    split at h
    · cases h
    · cases h
    · obtain ⟨v, hv, rfl⟩ := Option.map_eq_some_iff.mp h
      have hext := (hashExercise_extends hv).1
      rwa [(claimChildren_frame _ _).2.2] at hext
  | fetch f =>
    obtain ⟨-, h⟩ := Option.ite_none_left_eq_some.mp h
    cases h
    exact encodes_encodeFetch f _
  | rollback r =>
    cases h
    have hput := Hw.extends_put ctx.v.hw [nodeEncodingVersion, 0x03]
    rw [← (claimChildren_frame ctx r.children).2.2] at hput ⊢
    exact hput.trans (encodeChildren_extends lookup r.children _).1
  | queryByKey => cases h

/-- An item of a part does not make a hash error go away. -/
theorem decodeNodeItem_extends {item : NodeItem}
    (h : decodeNodeItem d lookup tx ctx item = some ctx') : ctx.v.hw.Extends ctx'.v.hw := by
  cases item with
  | nodeId s =>
    obtain ⟨-, h⟩ := Option.ite_none_left_eq_some.mp h
    cases h
    exact .refl _
  | v1 kinds =>
    refine List.foldlM_invariant (P := fun c => ctx.v.hw.Extends c.v.hw) kinds ?_ (.refl _) h
    intro k _ c c' hc hk
    exact hc.trans (nodeDecodeCallback_extends hk)

/-- Every node of a part that is hashed without an error is hashed without one. -/
theorem hashed_kinds {tree : TreeCheck} {values : ValuesStore} {err : HashError} {part : NodePart}
    (h : decodeNodePart d lookup tx tree values err part = some ctx') (hok : ctx'.v.hw.err = .ok) :
    ∀ k ∈ nodeKinds part, ∃ c c', nodeDecodeCallback d lookup tx c k = some c' ∧
      c'.v.hw.err = .ok := by
  obtain ⟨-, hitems⟩ := List.foldlM_backward (P := fun c : HashingParser.Ctx => c.v.hw.err = .ok)
    (fun _ _ _ hstep hc => (decodeNodeItem_extends hstep).err_ok hc) h hok
  intro k hk
  obtain ⟨kinds, hmem, hkinds⟩ : ∃ kinds, .v1 kinds ∈ part ∧ k ∈ kinds := by
    clear h hitems
    induction part with
    | nil => cases hk
    | cons item part ih =>
      cases item with
      | nodeId s =>
        obtain ⟨kinds, hmem, hkinds⟩ := ih hk
        exact ⟨kinds, List.mem_cons_of_mem _ hmem, hkinds⟩
      | v1 ks =>
        rcases List.mem_append.mp hk with hk | hk
        · exact ⟨ks, List.mem_cons_self, hk⟩
        · obtain ⟨kinds, hmem, hkinds⟩ := ih hk
          exact ⟨kinds, List.mem_cons_of_mem _ hmem, hkinds⟩
  obtain ⟨c, c', hitem, hc'⟩ := hitems _ hmem
  exact (List.foldlM_backward (P := fun c : HashingParser.Ctx => c.v.hw.err = .ok)
    (fun _ _ _ hstep hc => (nodeDecodeCallback_extends hstep).err_ok hc) hitem hc').2 k hkinds

end Parts

/-! ## Digits -/

/-- A hexadecimal digit in lower case. -/
def lowerHex (c : UInt8) : UInt8 := if 65 ≤ c && c ≤ 70 then c + 32 else c

/-- The lower-case digit of a value. -/
def hexDigitOf (n : Nat) : UInt8 := UInt8.ofNat (if n < 10 then 48 + n else 87 + n)

theorem hexDigit_cases {c : UInt8} (h : isHexChar c = true) :
    hexDigitValue c < 16 ∧ lowerHex c = hexDigitOf (hexDigitValue c) := by
  have hcode : ∀ n : Fin 256, isHexChar (UInt8.ofNat n) = true →
      hexDigitValue (UInt8.ofNat n) < 16 ∧
        lowerHex (UInt8.ofNat n) = hexDigitOf (hexDigitValue (UInt8.ofNat n)) := by decide +kernel
  have hc := hcode ⟨c.toNat, c.toNat_lt⟩
  simp only [UInt8.ofNat_toNat] at hc
  exact hc h

/-- Digits of the same value differ at most in letter case. -/
theorem lowerHex_of_pair {hi lo hi' lo' : UInt8} (hhi : isHexChar hi = true)
    (hlo : isHexChar lo = true) (hhi' : isHexChar hi' = true) (hlo' : isHexChar lo' = true)
    (h : UInt8.ofNat (16 * hexDigitValue hi + hexDigitValue lo) =
      UInt8.ofNat (16 * hexDigitValue hi' + hexDigitValue lo')) :
    lowerHex hi = lowerHex hi' ∧ lowerHex lo = lowerHex lo' := by
  obtain ⟨h₁, e₁⟩ := hexDigit_cases hhi
  obtain ⟨h₂, e₂⟩ := hexDigit_cases hlo
  obtain ⟨h₃, e₃⟩ := hexDigit_cases hhi'
  obtain ⟨h₄, e₄⟩ := hexDigit_cases hlo'
  have hnat := congrArg UInt8.toNat h
  rw [UInt8.toNat_ofNat', UInt8.toNat_ofNat', Nat.mod_eq_of_lt (by omega),
    Nat.mod_eq_of_lt (by omega)] at hnat
  have hhigh : hexDigitValue hi = hexDigitValue hi' := by omega
  have hlow : hexDigitValue lo = hexDigitValue lo' := by omega
  rw [e₁, e₂, e₃, e₄, hhigh, hlow]
  exact ⟨rfl, rfl⟩

/-- Hexadecimal strings of even length that stand for the same bytes. -/
theorem lower_of_unhex : ∀ (s t : Bytes), s.all isHexChar = true → t.all isHexChar = true →
    s.length % 2 = 0 → t.length % 2 = 0 → unhex s = unhex t → s.map lowerHex = t.map lowerHex
  | [], [], _, _, _, _, _ => rfl
  | [_], _, _, _, hs, _, _ => by cases hs
  | _, [_], _, _, _, ht, _ => by cases ht
  | [], _ :: _ :: _, _, _, _, _, h => by cases h
  | _ :: _ :: _, [], _, _, _, _, h => by cases h
  | hi :: lo :: s, hi' :: lo' :: t, hs, ht, hsl, htl, h => by
    simp only [List.all_cons, Bool.and_eq_true] at hs ht
    rw [unhex, unhex, List.cons.injEq] at h
    obtain ⟨hhigh, hlow⟩ := lowerHex_of_pair hs.1 hs.2.1 ht.1 ht.2.1 h.1
    have hsl' : s.length % 2 = 0 := by
      simp only [List.length_cons] at hsl
      omega
    have htl' : t.length % 2 = 0 := by
      simp only [List.length_cons] at htl
      omega
    rw [List.map_cons, List.map_cons, List.map_cons, List.map_cons, hhigh, hlow,
      lower_of_unhex s t hs.2.2 ht.2.2 hsl' htl' h.2]

/-! ## Fields -/

/-- What a hexadecimal field promises: an error, or an even number of digits whose
decoding is written with its length. -/
def HexFaithful (s : Bytes) : Prop :=
  ∀ w : Hw, w.err = .ok → (encodeHexString w (some s)).err ≠ .ok ∨
    (s.length % 2 = 0 ∧ s.all isHexChar = true ∧
      encodeHexString w (some s) = w.put (int32Bytes (s.length / 2 : Nat) ++ unhex s))

/-- The code only looks at the length. -/
theorem encodeHexString_err (w : Hw) (h : w.err = .ok) (s : Bytes) :
    (encodeHexString w (some s)).err = .ok ↔ s.length % 2 = 0 := by
  unfold encodeHexString
  dsimp only
  by_cases hodd : s.length % 2 ≠ 0
  · rw [if_pos hodd]
    exact iff_of_false (Hw.setHashError_err_ok (by decide)) hodd
  · rw [if_neg hodd]
    exact iff_of_true h (not_not.mp hodd)

theorem encodeHexString_even (w : Hw) {s : Bytes} (h : s.length % 2 = 0) :
    encodeHexString w (some s) = w.put (int32Bytes (s.length / 2 : Nat) ++ hexBytes s) := by
  unfold encodeHexString
  dsimp only
  rw [if_neg (not_not.mpr h)]
  simp [encodeInt32]

theorem hexFaithful_iff (s : Bytes) :
    HexFaithful s ↔ s.length % 2 = 1 ∨ s.all isHexChar = true := by
  constructor
  · intro h
    by_cases hodd : s.length % 2 = 1
    · exact .inl hodd
    · rcases h ⟨[], .ok⟩ rfl with herr | ⟨-, hall, -⟩
      · exact absurd ((encodeHexString_err _ rfl s).mpr (by omega)) herr
      · exact .inr hall
  · rintro (hodd | hall) w hw
    · left
      rw [ne_eq, encodeHexString_err w hw]
      omega
    · by_cases heven : s.length % 2 = 0
      · right
        refine ⟨heven, hall, ?_⟩
        rw [encodeHexString_even w heven, hexBytes_eq_unhex s hall]
      · left
        rwa [ne_eq, encodeHexString_err w hw]

/-! ## Contract ids -/

/-- A hexadecimal field that was written without an error is of even length. -/
theorem even_of_extends {w w' : Hw} {id : Option Bytes} (hext : (encodeHexString w id).Extends w')
    (hok : w'.err = .ok) : ∀ s, id = some s → s.length % 2 = 0 := by
  rintro s rfl
  have herr := hext.err_ok hok
  exact (encodeHexString_err w ((encodes_encodeHexString (some s) w).err_ok herr) s).mp herr

section Nodes

variable {d : Device}

/-- The encoder of the plain fields goes through the contract id. -/
theorem createStart_hex (w : Hw) (c : Create) (seed : Option Bytes) :
    ∃ w₀, (encodeHexString w₀ c.contractId).Extends (encodeCreateStart w c seed) :=
  ⟨_, (encodes_encodeString c.packageName _).trans (encodes_encodeIdentifier _ _)⟩

theorem exerciseStart_hex (w : Hw) (e : Exercise) (seed : Option Bytes) :
    ∃ w₀, (encodeHexString w₀ e.contractId).Extends (encodeExerciseStart w e seed) :=
  ⟨_, ((((((encodes_encodeString e.packageName _).trans (encodes_encodeIdentifier _ _)).trans
    (encodes_strings e.signatories _)).trans (encodes_strings e.stakeholders _)).trans
    (encodes_strings e.actingParties _)).trans
    (encodes_encodeOptional encodes_encodeIdentifier e.interfaceId _)).trans
    (encodes_encodeString e.choiceId _)⟩

theorem fetch_hex (w : Hw) (f : Fetch) :
    ∃ w₀, (encodeHexString w₀ f.contractId).Extends (encodeFetch w f) :=
  ⟨_, (((((encodes_encodeString f.packageName _).trans (encodes_encodeIdentifier _ _)).trans
    (encodes_strings f.signatories _)).trans (encodes_strings f.stakeholders _)).trans
    (encodes_encodeOptional encodes_encodeIdentifier f.interfaceId _)).trans
    (encodes_strings f.actingParties _)⟩

theorem even_of_hashCreate {field : Frame} {s s' : VState} {c : Create} {seed : Option Bytes}
    (h : hashCreate d field s c seed = some s') (hok : s'.hw.err = .ok) :
    ∀ id, c.contractId = some id → id.length % 2 = 0 := by
  obtain ⟨s₁, h₁, heq⟩ := Option.bind_eq_some_iff.mp h
  cases heq
  obtain ⟨w₀, hstart⟩ := createStart_hex s.hw c seed
  have hafter : (encodeCreateStart s.hw c seed).Extends (encodeCreateEnd s₁.hw c) :=
    (decodeValueFields_extends _ h₁).trans (encodes_encodeCreateEnd c s₁.hw)
  exact even_of_extends (hstart.trans hafter) hok

theorem even_of_hashExercise {lookup : Bytes → Option Bytes} {s s' : VState} {e : Exercise}
    {seed : Bytes} (h : hashExercise d lookup s e seed = some s') (hok : s'.hw.err = .ok) :
    ∀ id, e.contractId = some id → id.length % 2 = 0 := by
  obtain ⟨s₁, h₁, hrest⟩ := Option.bind_eq_some_iff.mp h
  obtain ⟨s₂, h₂, heq⟩ := Option.bind_eq_some_iff.mp hrest
  cases heq
  obtain ⟨w₀, hstart⟩ := exerciseStart_hex s.hw e (some seed)
  have hargument : (encodeExerciseStart s.hw e (some seed)).Extends s₁.hw :=
    decodeValueFields_extends _ h₁
  have hresult : s₁.hw.Extends s₂.hw :=
    (((encodes_put _).after (encodes_put [0x01])) s₁.hw).trans (decodeValueFields_extends _ h₂)
  have hend : s₂.hw.Extends (encodeExerciseEnd lookup s₂.hw e) :=
    (encodes_strings e.choiceObservers s₂.hw).trans (encodeChildren_extends lookup e.children _).1
  exact even_of_extends (hstart.trans (hargument.trans (hresult.trans hend))) hok

/-- The contract a node acts on. -/
def nodeContractId : NodeKind → Option Bytes
  | .create c => c.contractId
  | .exercise e => e.contractId
  | .fetch f => f.contractId
  | .rollback _ | .queryByKey => none

theorem even_of_callback {lookup : Bytes → Option Bytes} {tx : DamlTransaction}
    {ctx ctx' : HashingParser.Ctx} {k : NodeKind}
    (h : nodeDecodeCallback d lookup tx ctx k = some ctx') (hok : ctx'.v.hw.err = .ok) :
    ∀ id, nodeContractId k = some id → id.length % 2 = 0 := by
  cases k with
  | create c =>
    obtain ⟨-, h⟩ := Option.ite_none_left_eq_some.mp h
    obtain ⟨seed, -, h⟩ := Option.bind_eq_some_iff.mp h
    obtain ⟨v, hv, heq⟩ := Option.bind_eq_some_iff.mp h
    cases heq
    exact even_of_hashCreate hv hok
  | exercise e =>
    obtain ⟨-, h⟩ := Option.ite_none_left_eq_some.mp h
    split at h
    · cases h
    · cases h
    · obtain ⟨v, hv, rfl⟩ := Option.map_eq_some_iff.mp h
      exact even_of_hashExercise hv hok
  | fetch f =>
    obtain ⟨-, h⟩ := Option.ite_none_left_eq_some.mp h
    cases h
    obtain ⟨w₀, hfetch⟩ := fetch_hex ctx.v.hw f
    exact even_of_extends hfetch hok
  | rollback r => nofun
  | queryByKey => cases h

/-- A node part in which a node has a contract id of odd length is refused. -/
theorem odd_refused {st : Prepared} {part : NodePart} {k : NodeKind} {id : Bytes}
    (hk : k ∈ nodeKinds part) (hid : nodeContractId k = some id) (hodd : id.length % 2 = 1) :
    (receiveNode d st part).2 ≠ 0 := by
  unfold receiveNode
  cases hhash : hashNodePart d st part with
  | none =>
    show Sw.txParsingFail ≠ 0
    decide
  | some ctx =>
    have herr : ctx.v.hw.err ≠ .ok := by
      intro hok
      obtain ⟨c, c', hc, hc'⟩ := hashed_kinds hhash hok k hk
      have := even_of_callback hc hc' id hid
      omega
    have hrecord : (recordNode d st ctx).hashErr = ctx.v.hw.err := by
      unfold recordNode
      dsimp only
      split <;> rfl
    dsimp only
    rw [hrecord, if_pos herr]
    show Sw.txHashFail ≠ 0
    decide

/-- An input contract with an id of odd length is refused. -/
theorem odd_contract_refused {parsed : Bool} {st : Prepared} {ic : InputContract} {c : Create}
    {id : Bytes} (hc : c ∈ ic.v1) (hid : c.contractId = some id) (hodd : id.length % 2 = 1) :
    (receiveInputContract d parsed st ic).2 ≠ 0 := by
  unfold receiveInputContract
  cases hhash : decodeInputContractPart d st.values st.hashErr ic with
  | none =>
    show Sw.txParsingFail ≠ 0
    decide
  | some r =>
    have herr : r.1.hw.err ≠ .ok := by
      intro hok
      have hback : ∀ c (s s' : VState × ValuesStore), decodeContract d s c = some s' →
          s'.1.hw.err = .ok → s.1.hw.err = .ok := by
        intro c s s' h hs'
        obtain ⟨-, h⟩ := Option.ite_none_left_eq_some.mp h
        obtain ⟨v, hv, rfl⟩ := Option.map_eq_some_iff.mp h
        exact (hashCreate_extends hv).err_ok hs'
      obtain ⟨s, s', h, hs'⟩ := (List.foldlM_backward
        (P := fun s : VState × ValuesStore => s.1.hw.err = .ok) hback hhash hok).2 c hc
      obtain ⟨-, h⟩ := Option.ite_none_left_eq_some.mp h
      obtain ⟨v, hv, rfl⟩ := Option.map_eq_some_iff.mp h
      have := even_of_hashCreate hv hs' id hid
      omega
    dsimp only
    rw [if_pos herr]
    show Sw.txHashFail ≠ 0
    decide

end Nodes

/-- Every node part and every input contract that names this contract is refused. -/
structure IdRefused (id : Bytes) : Prop where
  node : ∀ (d : Device) (st : Prepared) (part : NodePart) (k : NodeKind), k ∈ nodeKinds part →
    nodeContractId k = some id → (receiveNode d st part).2 ≠ 0
  contract : ∀ (d : Device) (parsed : Bool) (st : Prepared) (ic : InputContract) (c : Create),
    c ∈ ic.v1 → c.contractId = some id → (receiveInputContract d parsed st ic).2 ≠ 0

/-- A fetch of this contract. -/
def fetchOf (id : Bytes) : Fetch :=
  ⟨some (str "2.1"), some id, some (str "app"), some (Host.ident "M" "T"), [], [], [], none⟩

/-- The receiving state of the only node part of a transaction. -/
def oneNodeState : Prepared :=
  ⟨TxInfo.zero, { PreparedState.powerUp.clean with
    txState := .damlNodes
    header := ⟨some (str "2.1"), [str "0"], 1, []⟩ }⟩

/-- The only node part of a transaction: a fetch of this contract. -/
def fetchPart (id : Bytes) : NodePart := [.nodeId (str "0"), .v1 [.fetch (fetchOf id)]]

theorem fetch_accepted {id : Bytes} (heven : id.length % 2 = 0) :
    (receiveNode testDevice oneNodeState (fetchPart id)).2 = 0 := by
  have herr : ∀ w : Hw, w.err = .ok → (encodeFetch w (fetchOf id)).err = .ok := by
    intro w hw
    simp [encodeFetch, fetchOf, encodeString, encodeHexString_even _ heven, encodeBytes,
      encodeInt32,
      encodeIdentifier, splitDotAndEncode, encodeRepeated, encodeOptional, Host.ident,
      foldl_put encodeBytes_eq, hw]
  -- A fetch has nothing to show.
  have hdisplay : ∀ st, (displayNodePart testDevice st (fetchPart id)).isSome = true := by
    intro st
    unfold displayNodePart DisplayParser.parseNodeForDisplay
    split
    · split <;> rfl
    · rfl
  obtain ⟨ctx, hctx, hhw⟩ : ∃ ctx, hashNodePart testDevice oneNodeState (fetchPart id) = some ctx ∧
      ctx.v.hw = encodeFetch ⟨[], .ok⟩ (fetchOf id) := ⟨_, rfl, rfl⟩
  have hrecord : (recordNode testDevice oneNodeState ctx).hashErr = .ok := by
    have hok := herr ⟨[], .ok⟩ rfl
    rw [← hhw] at hok
    unfold recordNode
    dsimp only
    split <;> exact hok
  unfold receiveNode
  rw [hctx]
  dsimp only
  rw [if_neg (not_not.mpr hrecord)]
  obtain ⟨st, hst⟩ := Option.isSome_iff_exists.mp
    (hdisplay { recordNode testDevice oneNodeState ctx with
    values := HoldingParser.valuesCollectFromNode testDevice
      (recordNode testDevice oneNodeState ctx).values (fetchPart id) })
  rw [hst]

theorem idRefused_iff (id : Bytes) : IdRefused id ↔ id.length % 2 = 1 := by
  constructor
  · intro h
    by_contra heven
    refine h.node testDevice oneNodeState (fetchPart id) (.fetch (fetchOf id))
      (List.mem_singleton_self _) rfl (fetch_accepted ?_)
    omega
  · intro hodd
    exact ⟨fun d st part k hk hid => odd_refused hk hid hodd,
      fun d parsed st ic c hc hid => odd_contract_refused hc hid hodd⟩

/-! ## The field and its consequences -/

/-- What is written without an error. -/
def hexWritten (s : Bytes) : Bytes := int32Bytes (s.length / 2 : Nat) ++ hexBytes s

/-- **Hexadecimal fields** are decoded faithfully or refused exactly if their length is odd
or every character is a digit. Accepted strings of digits that write the same bytes differ
at most in letter case, and a contract id with another character is refused exactly if its
length is odd. -/
theorem hex_faithful_iff (s : Bytes) :
    (HexFaithful s ↔ s.length % 2 = 1 ∨ s.all isHexChar = true) ∧
    (∀ t : Bytes, s.length % 2 = 0 → t.length % 2 = 0 → s.all isHexChar = true →
      t.all isHexChar = true → hexWritten s = hexWritten t → s.map lowerHex = t.map lowerHex) ∧
    (s.all isHexChar = false → (IdRefused s ↔ s.length % 2 = 1)) := by
  refine ⟨hexFaithful_iff s, ?_, fun _ => idRefused_iff s⟩
  intro t hs ht hshex hthex heq
  have hbytes : hexBytes s = hexBytes t :=
    (List.append_inj heq (by rw [length_int32Bytes, length_int32Bytes])).2
  rw [hexBytes_eq_unhex s hshex, hexBytes_eq_unhex t hthex] at hbytes
  exact lower_of_unhex s t hshex hthex hs ht hbytes

/-- A colon is taken for the digit 3: a fetch of the contract `0:` is accepted, and it is
hashed as a fetch of the contract `03`. -/
theorem colon_read_as_three :
    ¬ HexFaithful (str "0:") ∧
    (receiveNode testDevice oneNodeState (fetchPart (str "0:"))).2 = 0 ∧
    hexWritten (str "0:") = hexWritten (str "03") ∧
    (str "0:").map lowerHex ≠ (str "03").map lowerHex := by
  refine ⟨?_, fetch_accepted (by decide), by decide, by decide⟩
  rw [hexFaithful_iff]
  decide

end CantonSigner
