import CantonSigner.Hash.OptionalParts
import CantonSigner.Hash.Injective
import CantonSigner.Lib.HashTree

/-!
# The pieces of a transaction hash

The hash to sign is the digest of one tree: below the final hash stand the hash of the header
with those of its root nodes, and the hash of the metadata with those of the disclosed
contracts; below a node stand its children. `Piece` is a label of this tree and `Piece.text`
what is hashed for it.

`piece_readable` is the separation of the four kinds: what is hashed for a piece tells its kind,
the piece, and the hashes below it.
-/

namespace CantonSigner

open ByteCodec HashingParser

/-! ## Nodes with hashes for their children -/

namespace NodeVal

variable {V : Type}

/-- The node with these hashes for its children; a create or a fetch has none. -/
def withChildren (n : NodeVal V) (hashes : List Bytes) : NodeVal V :=
  match n with
  | .exercise f e seed chosenValue result _ => .exercise f e seed chosenValue result hashes
  | .rollback _ => .rollback hashes
  | .create f seed argument => .create f seed argument
  | .fetch f actingParties interfaceId => .fetch f actingParties interfaceId

@[simp] theorem withChildren_kind (n : NodeVal V) (hashes : List Bytes) (msg : V → Value)
    (ids : List Bytes) : (n.withChildren hashes).kind msg ids = n.kind msg ids := by
  cases n <;> rfl

@[simp] theorem withChildren_fields (n : NodeVal V) (hashes : List Bytes) :
    (n.withChildren hashes).fields = n.fields := by cases n <;> rfl

@[simp] theorem withChildren_vals (n : NodeVal V) (hashes : List Bytes) :
    (n.withChildren hashes).vals = n.vals := by cases n <;> rfl

@[simp] theorem withChildren_seed (n : NodeVal V) (hashes : List Bytes) :
    (n.withChildren hashes).seed = n.seed := by cases n <;> rfl

@[simp] theorem withChildren_interfaceId (n : NodeVal V) (hashes : List Bytes) :
    (n.withChildren hashes).interfaceId = n.interfaceId := by cases n <;> rfl

/-- The hashes of the children can be taken off again. -/
theorem withChildren_bare {n : NodeVal V} (h : n.children = []) (hashes : List Bytes) :
    (n.withChildren hashes).withChildren [] = n := by
  cases n with
  | create | fetch => rfl
  | exercise f e seed v r children =>
    obtain rfl : children = [] := h
    rfl
  | rollback children =>
    obtain rfl : children = [] := h
    rfl

theorem withChildren_inj {n m : NodeVal V} {hs ks : List Bytes} (hn : n.children = [])
    (hm : m.children = []) (h : n.withChildren hs = m.withChildren ks) : n = m := by
  rw [← withChildren_bare hn hs, h, withChildren_bare hm]

end NodeVal

/-! ## Pieces -/

/-- What the tree of a transaction is labelled with. -/
inductive Piece where
  /-- The final hash, over the hashes of header and metadata. -/
  | transaction
  | header (version : Bytes) (roots : Nat)
  | metadata (md : Metadata) (createdAt : List Nat)
  /-- A node, or a disclosed contract. -/
  | node (n : NodeVal Val)

/-- An input contract in the metadata hash: its time and its hash. -/
def contractEntry (c : Nat × Bytes) : Bytes := int64Bytes c.1 ++ c.2

/-- What is hashed for a piece, with the hashes below it. -/
def Piece.text : Piece → List Bytes → Bytes
  | .transaction, hashes => preparedTransactionHashPurpose ++ [hashingSchemeVersion] ++
      hashes.flatten
  | .header version roots, hashes =>
    preparedTransactionHashPurpose ++ strBytes version ++ int32Bytes roots ++ hashes.flatten
  | .metadata md createdAt, hashes =>
    metadataBytes md ++ (createdAt.zip hashes).flatMap contractEntry
  | .node n, hashes => (n.withChildren hashes).written

/-- Every hash is one of SHA-256. -/
abbrev Hashes (hashes : List Bytes) : Prop := ∀ h ∈ hashes, h.length = 32

/-- Metadata that can be read off what is written for it: its strings are there, its integers
fit their types. -/
structure Metadata.Readable (md : Metadata) : Prop where
  commandId : md.commandId.isSome = true
  transactionUuid : md.transactionUuid.isSome = true
  synchronizerId : md.synchronizerId.isSome = true
  mediatorGroup : md.mediatorGroup < 2 ^ 32
  preparationTime : md.preparationTime < 2 ^ 64
  inputContractsCount : -2 ^ 31 ≤ md.inputContractsCount ∧ md.inputContractsCount < 2 ^ 31
  minLedgerEffectiveTime : ∀ t ∈ md.minLedgerEffectiveTime, t < 2 ^ 64
  maxLedgerEffectiveTime : ∀ t ∈ md.maxLedgerEffectiveTime, t < 2 ^ 64
  short : (metadataBytes md).length < 2 ^ 32

/-- A piece that can be read off its text, with the hashes below it. -/
def Piece.Readable : Piece → List Bytes → Prop
  | .transaction, hashes => Hashes hashes
  | .header version roots, hashes => version.length < 2 ^ 24 ∧ roots < 2 ^ 32 ∧ Hashes hashes
  | .metadata md createdAt, hashes => md.Readable ∧ createdAt.length = hashes.length ∧
      (∀ t ∈ createdAt, t < 2 ^ 64) ∧ Hashes hashes
  | .node n, hashes => n.children = [] ∧ (n.withChildren hashes).children = hashes ∧
      (n.withChildren hashes).Readable ∧ ∀ a ∈ n.seed, a.length = 32

/-! ## Reading a text -/

theorem flatten_inj {hs ks : List Bytes} (hh : Hashes hs) (hk : Hashes ks)
    (h : hs.flatten = ks.flatten) : hs = ks := by
  have hcode : PrefixCode (fun h : Bytes => h.length = 32) id :=
    PrefixCode.of_length 32 (fun _ h => h) fun _ _ _ _ h => h
  refine hcode.flatMap_inj (fun a ha hnil => ?_) hh hk (by rwa [List.flatMap_id, List.flatMap_id])
  rw [show a = [] from hnil] at ha
  cases ha

theorem timeBytes_prefixCode : PrefixCode (fun t : Nat => t < 2 ^ 64) fun t => int64Bytes t := by
  refine ⟨fun {a b} ha hb s t h => ?_⟩
  obtain ⟨hmod, hrest⟩ := int64Bytes_append h
  have hmod' : (a : Int) % 2 ^ 64 = (b : Int) % 2 ^ 64 := hmod
  exact ⟨by omega, hrest⟩

theorem optTimeBytes_prefixCode :
    PrefixCode (fun o : Option Nat => ∀ t ∈ o, t < 2 ^ 64) optTimeBytes := by
  have hcode := timeBytes_prefixCode.option (show (0x00 : UInt8) ≠ 0x01 by decide)
    (Q := fun o : Option Nat => ∀ t ∈ o, t < 2 ^ 64) fun t h => h t rfl
  have heq : (fun o : Option Nat => o.elim [0x00] fun t => 0x01 :: int64Bytes t) =
      optTimeBytes := by
    funext o
    cases o <;> rfl
  rwa [heq] at hcode

theorem contractEntry_prefixCode :
    PrefixCode (fun c : Nat × Bytes => c.1 < 2 ^ 64 ∧ c.2.length = 32) contractEntry := by
  refine ⟨fun {a b} ha hb s t h => ?_⟩
  rw [contractEntry, contractEntry, List.append_assoc, List.append_assoc] at h
  obtain ⟨htime, hrest⟩ := timeBytes_prefixCode.read ha.1 hb.1 h
  obtain ⟨hhash, hst⟩ := List.append_inj hrest (ha.2.trans hb.2.symm)
  exact ⟨Prod.ext htime hhash, hst⟩

/-- Times and hashes can be read off the entries of the contracts. -/
theorem contractEntries_inj {ts us : List Nat} {hs ks : List Bytes} (hlen : ts.length = hs.length)
    (hlen' : us.length = ks.length) (ht : ∀ t ∈ ts, t < 2 ^ 64) (hu : ∀ t ∈ us, t < 2 ^ 64)
    (hh : Hashes hs) (hk : Hashes ks)
    (h : (ts.zip hs).flatMap contractEntry = (us.zip ks).flatMap contractEntry) :
    ts = us ∧ hs = ks := by
  have hzip : ts.zip hs = us.zip ks := by
    refine contractEntry_prefixCode.flatMap_inj (fun a ha hnil => ?_) ?_ ?_ h
    · have hlen := congrArg List.length hnil
      rw [contractEntry, List.length_append, ha.2, List.length_nil] at hlen
      omega
    · intro c hc
      obtain ⟨htime, hhash⟩ := List.of_mem_zip hc
      exact ⟨ht _ htime, hh _ hhash⟩
    · intro c hc
      obtain ⟨htime, hhash⟩ := List.of_mem_zip hc
      exact ⟨hu _ htime, hk _ hhash⟩
  have hfst := congrArg (List.map Prod.fst) hzip
  have hsnd := congrArg (List.map Prod.snd) hzip
  rw [List.map_fst_zip (by omega), List.map_fst_zip (by omega)] at hfst
  rw [List.map_snd_zip (by omega), List.map_snd_zip (by omega)] at hsnd
  exact ⟨hfst, hsnd⟩

/-- A string that is there. -/
theorem optStr_read {a b : Option Bytes} (ha : a.isSome = true) (hb : b.isSome = true)
    (has : (optStrBytes a).length < 2 ^ 32) (hbs : (optStrBytes b).length < 2 ^ 32) {s t : Bytes}
    (h : optStrBytes a ++ s = optStrBytes b ++ t) : a = b ∧ s = t := by
  obtain ⟨x, rfl⟩ := Option.isSome_iff_exists.mp ha
  obtain ⟨y, rfl⟩ := Option.isSome_iff_exists.mp hb
  obtain ⟨rfl, hrest⟩ := str_read (a := x) (b := y) has hbs h
  exact ⟨rfl, hrest⟩

/-- **The metadata is a prefix code.** -/
theorem metadataBytes_read {m n : Metadata} (hm : m.Readable) (hn : n.Readable) {s t : Bytes}
    (h : metadataBytes m ++ s = metadataBytes n ++ t) : m = n ∧ s = t := by
  have hms := hm.short
  have hns := hn.short
  simp only [metadataBytes, List.length_append] at hms hns
  simp only [metadataBytes, List.append_assoc] at h
  obtain ⟨hact, h₁⟩ := strs_read (by omega) (by omega) (List.append_cancel_left
    (List.append_cancel_left h))
  obtain ⟨hcmd, h₂⟩ := optStr_read hm.commandId hn.commandId (by omega) (by omega) h₁
  obtain ⟨huuid, h₃⟩ := optStr_read hm.transactionUuid hn.transactionUuid (by omega) (by omega) h₂
  obtain ⟨hmed, h₄⟩ := lengthBytes_prefixCode.read hm.mediatorGroup hn.mediatorGroup h₃
  obtain ⟨hsync, h₅⟩ := optStr_read hm.synchronizerId hn.synchronizerId (by omega) (by omega) h₄
  obtain ⟨hmin, h₆⟩ := optTimeBytes_prefixCode.read hm.minLedgerEffectiveTime
    hn.minLedgerEffectiveTime h₅
  obtain ⟨hmax, h₇⟩ := optTimeBytes_prefixCode.read hm.maxLedgerEffectiveTime
    hn.maxLedgerEffectiveTime h₆
  obtain ⟨hprep, h₈⟩ := timeBytes_prefixCode.read hm.preparationTime hn.preparationTime h₇
  obtain ⟨hmod, hrest⟩ := int32Bytes_append h₈
  have hcount := int32_eq_of_modEq hm.inputContractsCount hn.inputContractsCount hmod
  refine ⟨?_, hrest⟩
  cases m
  cases n
  simp_all

/-! ## The four kinds -/

/-- What the text of a piece starts with. -/
def Piece.start : Piece → Bytes
  | .transaction => [0x00, 0x00, 0x00, 0x30, 0x02]
  | .header .. => [0x00, 0x00, 0x00, 0x30, 0x00]
  | .metadata .. => [0x00, 0x00, 0x00, 0x30, 0x01]
  | .node _ => [0x01]

theorem Piece.text_begins {p : Piece} {hashes : List Bytes} (h : p.Readable hashes) :
    p.start <+: p.text hashes := by
  cases p with
  | transaction => exact ⟨hashes.flatten, rfl⟩
  | header version roots =>
    obtain ⟨rest, hstr⟩ := strBytes_head h.1
    refine ⟨rest ++ int32Bytes roots ++ hashes.flatten, ?_⟩
    rw [text, hstr]
    simp [start, preparedTransactionHashPurpose]
  | metadata md createdAt =>
    rw [text, metadataBytes]
    simp only [List.append_assoc]
    exact ⟨_, rfl⟩
  | node n =>
    show [0x01] <+: (n.withChildren hashes).written
    cases hf : (n.withChildren hashes).fields with
    | some f =>
      obtain ⟨rest, hwritten⟩ := written_fields hf
      exact ⟨_, hwritten.symm⟩
    | none =>
      cases hn : n.withChildren hashes with
      | rollback hs => exact ⟨_, rfl⟩
      | create | exercise | fetch =>
        rw [hn] at hf
        cases hf

/-- Pieces with one text are of one kind: their starts are prefixes of it. -/
theorem Piece.starts_agree {p q : Piece} {hs ks : List Bytes} (hp : p.Readable hs)
    (hq : q.Readable ks) (h : p.text hs = q.text ks) :
    p.start <+: q.start ∨ q.start <+: p.start :=
  List.prefix_or_prefix_of_prefix (h ▸ text_begins hp) (text_begins hq)

/-- **A text tells the piece and the hashes below it.** -/
theorem piece_readable : HashTree.Readable Piece.text Piece.Readable := by
  intro p q hs ks hp hq h
  -- Texts of different kinds begin differently.
  have hstart := Piece.starts_agree hp hq h
  cases p with
  | transaction =>
    cases q with
    | transaction => exact ⟨rfl, flatten_inj hp hq (List.append_cancel_left h)⟩
    | header | metadata | node => simp [Piece.start] at hstart
  | header version roots =>
    cases q with
    | header version' roots' =>
      obtain ⟨hversion, hroots, hhs⟩ := hp
      obtain ⟨hversion', hroots', hks⟩ := hq
      simp only [Piece.text, List.append_assoc] at h
      obtain ⟨rfl, h₁⟩ := strBytes_prefixCode.read (show version.length < 2 ^ 32 by omega)
        (show version'.length < 2 ^ 32 by omega) (List.append_cancel_left h)
      obtain ⟨rfl, h₂⟩ := lengthBytes_prefixCode.read hroots hroots' h₁
      exact ⟨rfl, flatten_inj hhs hks h₂⟩
    | transaction | metadata | node => simp [Piece.start] at hstart
  | metadata md createdAt =>
    cases q with
    | metadata md' createdAt' =>
      obtain ⟨hmd, hlen, htimes, hhs⟩ := hp
      obtain ⟨hmd', hlen', htimes', hks⟩ := hq
      obtain ⟨rfl, hentries⟩ := metadataBytes_read hmd hmd' h
      obtain ⟨rfl, rfl⟩ := contractEntries_inj hlen hlen' htimes htimes' hhs hks hentries
      exact ⟨rfl, rfl⟩
    | transaction | header | node => simp [Piece.start] at hstart
  | node n =>
    cases q with
    | node m =>
      obtain ⟨hbare, hchildren, hread, hseed⟩ := hp
      obtain ⟨hbare', hchildren', hread', hseed'⟩ := hq
      have heq : n.withChildren hs = m.withChildren ks := by
        refine (nodeBytes_read (s := []) (t := []) hread hread' ?_ ?_).1
        · intro a ha b hb
          rw [NodeVal.withChildren_seed] at ha hb
          rw [hseed a ha, hseed' b hb]
        · rw [List.append_nil, List.append_nil]
          exact h
      refine ⟨congrArg Piece.node (NodeVal.withChildren_inj hbare hbare' heq), ?_⟩
      rw [← hchildren, heq, hchildren']
    | transaction | header | metadata => simp [Piece.start] at hstart

end CantonSigner
