import CantonSigner.Flow.AlignedApps
import CantonSigner.Tree.Check

/-!
# Flows after different pasts

Two histories and the heaps they leave make no difference to a sequence of commands that opens
a flow (`flows_isolated`), unless it makes the node hash store or the heap tell: a node part
that names a child which is stored under two hashes finds the one that stands first in the
slots, and where the flow starts to write depends on the past (`rotated_store_changes_hash`);
a Timestamp kept in a field that is read as text shows what follows it on the heap.
-/

namespace CantonSigner

open ByteCodec

variable {d : Device} {a a' : App}

/-! ## Histories -/

/-- What the heap holds at each step of a run, by the block that it follows. -/
abbrev Heaps := Nat → Bytes → Bytes

/-- The heaps after the first step. -/
def Heaps.next (heaps : Heaps) : Heaps := fun n => heaps (n + 1)

/-- The app after a history of commands, decisions and changes of the setting. -/
def appAfter (d : Device) (heaps : Heaps) (a : App) : List Event → App
  | [] => a
  | e :: es => appAfter d heaps.next (step (d.withHeap (heaps 0)) a e).1 es

/-- The app after a sequence of commands, and the answers to them. -/
def answers (d : Device) (heaps : Heaps) (a : App) : List Command → App × List Output
  | [] => (a, [])
  | c :: cs =>
    let r := step (d.withHeap (heaps 0)) a (.apdu c)
    let rest := answers d heaps.next r.1 cs
    (rest.1, r.2 :: rest.2)

/-- No command of a sequence completes a node part that names an ambiguous child, or a part that
keeps a Timestamp in a field that is read as text. -/
def CommandsIsolated (d : Device) (heaps : Heaps) (a : App) : List Command → Prop
  | [] => True
  | c :: cs => CommandUnique d a c ∧ CommandTyped d a c ∧
      CommandsIsolated d heaps.next (step (d.withHeap (heaps 0)) a (.apdu c)).1 cs

theorem regular_appAfter {heaps : Heaps} (h : a.Regular d) (es : List Event) :
    (appAfter d heaps a es).Regular d := by
  induction es generalizing heaps a with
  | nil => exact h
  | cons e es ih => exact ih (regular_step h e)

/-- A `SIGN_TX` command with `P2_FIRST` that the dispatcher passes on. -/
def OpensFlow (c : Command) : Prop :=
  c.ins = 0x06 ∧ (signingTypeOfP1 c.p1).isSome ∧ (signFlags c.p2).any (·.1) ∧ c.data ≠ []

instance (c : Command) : Decidable (OpensFlow c) := inferInstanceAs (Decidable (_ ∧ _))

/-- It starts a flow in any state of the app. -/
theorem request_of_opensFlow {c : Command} (h : OpensFlow c) (a : App) :
    ∃ type, request a (.apdu c) = .first type c.data := by
  obtain ⟨hins, htype, hflags, hdata⟩ := h
  obtain ⟨type, htype⟩ := Option.isSome_iff_exists.mp htype
  obtain ⟨⟨first, more, msgEnd⟩, hflags, hfirst⟩ := (Option.any_eq_true _ _).mp hflags
  refine ⟨type, ?_⟩
  have hne : c.ins ≠ 0x05 := by
    rw [hins]
    decide
  simp only [request, requestOfCommand, htype, hflags]
  rw [if_neg hne, if_pos hins, if_neg (by simpa using hdata), if_pos hfirst]

/-- The run of a sequence of commands, after two pasts and on two heaps. -/
theorem alignedAnswers {heaps heaps' : Heaps} (h : AlignedApp a a') (hr : a.Regular d)
    (hr' : a'.Regular d) {cs : List Command} (hisolated : CommandsIsolated d heaps a cs) :
    (answers d heaps' a' cs).2 = (answers d heaps a cs).2 ∧
      AlignedApp (answers d heaps a cs).1 (answers d heaps' a' cs).1 := by
  induction cs generalizing a a' heaps heaps' with
  | nil => exact ⟨rfl, h⟩
  | cons c cs ih =>
    obtain ⟨hunique, htyped, hcs⟩ := hisolated
    obtain ⟨houtput, happ⟩ :=
      @alignedAnswer_heaps d a a' (heaps 0) (heaps' 0) h hr hr' c hunique htyped
    obtain ⟨houtputs, hlast⟩ := ih happ (regular_step hr _) (regular_step hr' _) hcs
    refine ⟨?_, hlast⟩
    show _ :: _ = _ :: _
    rw [houtput, houtputs]

/-- **Flows are isolated** from each other as long as no node part names a child that the
store holds under two different hashes, and no part keeps a Timestamp in a field that is read
as text: after any two histories with one blind-signing setting, and whatever the heap holds
in the one run and in the other, a sequence of commands that opens a flow gets the same answers
and screens and leaves the same hash, rows and signature. With a device whose attestation
signature is its input this includes the input of the challenge signature. -/
theorem flows_isolated {past₁ past₂ heaps₁ heaps₂ : Heaps} {allow₁ allow₂ : Bool}
    {es₁ es₂ : List Event} {c : Command} {cs : List Command}
    (hset : (appAfter d past₂ (.powerUp allow₂) es₂).allowBlindSign =
      (appAfter d past₁ (.powerUp allow₁) es₁).allowBlindSign)
    (hopens : OpensFlow c)
    (hisolated : CommandsIsolated d heaps₁ (appAfter d past₁ (.powerUp allow₁) es₁) (c :: cs)) :
    (answers d heaps₂ (appAfter d past₂ (.powerUp allow₂) es₂) (c :: cs)).2 =
        (answers d heaps₁ (appAfter d past₁ (.powerUp allow₁) es₁) (c :: cs)).2 ∧
      (answers d heaps₂ (appAfter d past₂ (.powerUp allow₂) es₂) (c :: cs)).1.tx =
        (answers d heaps₁ (appAfter d past₁ (.powerUp allow₁) es₁) (c :: cs)).1.tx := by
  have hr : (appAfter d past₁ (.powerUp allow₁) es₁).Regular d :=
    regular_appAfter (regular_powerUp allow₁) es₁
  have hr' : (appAfter d past₂ (.powerUp allow₂) es₂).Regular d :=
    regular_appAfter (regular_powerUp allow₂) es₂
  generalize appAfter d past₁ (.powerUp allow₁) es₁ = a at *
  generalize appAfter d past₂ (.powerUp allow₂) es₂ = a' at *
  obtain ⟨type, hfirst⟩ := request_of_opensFlow hopens a
  obtain ⟨type', hfirst'⟩ := request_of_opensFlow hopens a'
  obtain rfl : type = type' := by
    simp only [request, requestOfCommand] at hfirst hfirst'
    grind
  -- The first command cleans what the pasts have left, the others keep it so.
  have hstart : AlignedAnswer (step (d.withHeap (heaps₁ 0)) a (.apdu c))
      (step (d.withHeap (heaps₂ 0)) a' (.apdu c)) := by
    rw [step_first hfirst, step_first hfirst']
    exact alignedAnswer_first a a' hset type c.data
  obtain ⟨houtputs, hlast⟩ :=
    alignedAnswers hstart.2 (regular_step hr _) (regular_step hr' _) hisolated.2.2
  refine ⟨?_, hlast.tx_eq⟩
  show _ :: _ = _ :: _
  rw [hstart.1, houtputs]

/-! ## Two histories -/

instance (callback : Option FormatCallback) : DecidablePred (DisplayParser.Expected callback) :=
  fun w => by
    unfold DisplayParser.Expected
    split <;> infer_instance

instance (found : List DisplayParser.Found) (c : DisplayConfig) :
    Decidable (DisplayParser.FirstExpected found c) :=
  decidable_of_iff (∀ f ∈ DisplayParser.screenFields c, f.matched = false →
    ∀ w ∈ (DisplayParser.foundAt found f.config.path).find? DisplayParser.stores,
      (DisplayParser.storedBlock w).isSome = true →
        DisplayParser.Expected f.config.formatCallback w) Iff.rfl

instance (d : Device) (st : Prepared) (buf : Bytes) : Decidable (PartTyped d st buf) :=
  decidable_of_iff (∀ w ∈ partWalk d st buf, ∀ c ∈ w.2.conf, DisplayParser.FirstExpected w.1 c)
    Iff.rfl

instance (d : Device) (a : App) (c : Command) : Decidable (CommandTyped d a c) :=
  decidable_of_iff (∀ m ∈ messageOf d a (.apdu c),
    a.signingType = .preparedTransaction → PartTyped d a.prepared m.2)
    ⟨fun h parsed buf hm => h (parsed, buf) hm, fun h m hm => h m.1 m.2 hm⟩

instance (s : NodeHashStore) (child : Bytes) : Decidable (UniqueHash s child) :=
  inferInstanceAs (Decidable (∀ x ∈ s.slots, ∀ y ∈ s.slots, x.1 = _ → y.1 = _ → x.2 = y.2))

instance (st : Prepared) (buf : Bytes) : Decidable (LookupsUnique st buf) :=
  decidable_of_iff (st.txState = .damlNodes → ∀ part ∈ decodeNode buf,
    ∀ child ∈ partChildren part, UniqueHash st.nodeHashes child) Iff.rfl

instance (d : Device) (a : App) (c : Command) : Decidable (CommandUnique d a c) :=
  decidable_of_iff (∀ m ∈ messageOf d a (.apdu c),
    a.signingType = .preparedTransaction → LookupsUnique a.prepared m.2)
    ⟨fun h parsed buf hm => h (parsed, buf) hm, fun h m hm => h m.1 m.2 hm⟩

instance CommandsIsolated.decide (d : Device) : ∀ (heaps : Heaps) (a : App) (cs : List Command),
    Decidable (CommandsIsolated d heaps a cs)
  | _, _, [] => .isTrue trivial
  | heaps, a, c :: cs =>
    have := CommandsIsolated.decide d heaps.next (step (d.withHeap (heaps 0)) a (.apdu c)).1 cs
    inferInstanceAs (Decidable (CommandUnique d a c ∧ CommandTyped d a c ∧
      CommandsIsolated d heaps.next _ cs))

/-- The commands of a prepared transaction, one message each. -/
def preparedCommands (parts : List Bytes) (last : Bytes) : List Command :=
  ⟨0x06, 2, 0x03, [1, 0x80, 0, 0, 44]⟩ :: parts.map (fun buf => ⟨0x06, 2, 0x06, buf⟩) ++
    [⟨0x06, 2, 0x04, last⟩]

/-- A history that leaves the write index of the store at its last slot. -/
def manyNodes : List Event :=
  preparedFlow (Host.headerOf ["0"] 32 [] :: List.replicate 31 (Host.node (rollbackPart "1" [[]])))

/-- A heap of zeros. -/
def zeros : Heaps := fun _ _ => []

/-- A heap that holds text, and more of it at each step. -/
def leftovers : Heaps := fun n block => str "left" ++ block.take n

/-- An accepted offer, reviewed on a fresh device and after a flow of 31 stored nodes. -/
theorem flows_isolated_acceptance :
    (answers testDevice leftovers (appAfter testDevice leftovers (.powerUp true) manyNodes)
        (preparedCommands acceptance acceptedOffer)).2 =
        (answers testDevice zeros (appAfter testDevice zeros (.powerUp true) [])
          (preparedCommands acceptance acceptedOffer)).2 ∧
      (answers testDevice leftovers (appAfter testDevice leftovers (.powerUp true) manyNodes)
        (preparedCommands acceptance acceptedOffer)).1.tx =
        (answers testDevice zeros (appAfter testDevice zeros (.powerUp true) [])
          (preparedCommands acceptance acceptedOffer)).1.tx :=
  flows_isolated (by decide +kernel) (by decide +kernel) (by decide +kernel)

/-- A node id under which two different nodes are stored before it is named. With two roots
in the header the tree check refuses nothing. -/
def childTwice : List Command :=
  preparedCommands (Host.headerOf ["0", "9"] 3 [] ::
    [rollbackPart "1" [[]], rollbackPart "1" [["1"]], rollbackPart "0" [["1"]]].map Host.node)
    (Host.metadataOf 0)

/-- An ambiguous child is looked up in slot order, and the slots depend on the past: after a
flow of 31 stored nodes another hash is shown for the same commands, with zeros on the heap. -/
theorem rotated_store_changes_hash :
    ¬ ∀ (d : Device) (past₁ past₂ heaps₁ heaps₂ : Heaps) (allow₁ allow₂ : Bool)
      (es₁ es₂ : List Event) (c : Command) (cs : List Command),
      (appAfter d past₂ (.powerUp allow₂) es₂).allowBlindSign =
        (appAfter d past₁ (.powerUp allow₁) es₁).allowBlindSign →
      c.ins = 0x06 → c.p2 &&& 0x01 ≠ 0 →
      (answers d heaps₂ (appAfter d past₂ (.powerUp allow₂) es₂) (c :: cs)).2 =
        (answers d heaps₁ (appAfter d past₁ (.powerUp allow₁) es₁) (c :: cs)).2 := by
  intro h
  have hsame := h testDevice zeros zeros zeros zeros true true [] manyNodes
    ⟨0x06, 2, 0x03, [1, 0x80, 0, 0, 44]⟩ childTwice.tail (by decide +kernel) rfl (by decide)
  revert hsame
  decide +kernel

end CantonSigner
