import CantonSigner.Flow.AppRuns

/-!
# What a flow has received

The receiving machine keeps counters and hashers, not the parts themselves. `recorded`
runs it with a history: every accepted message as it was decoded, in the order of
arrival. The history is never read by a step; it is what the results about screens and
holdings speak of.
-/

namespace CantonSigner

open ByteCodec

/-- An accepted message, decoded as the receiving state says. -/
inductive Received where
  | header (tx : DamlTransaction)
  | node (part : NodePart)
  | metadata (md : Metadata)
  | contract (ic : InputContract)

/-- How a message is read in a receiving state. -/
def readAs (st : Prepared) (buf : Bytes) : Option Received :=
  match st.txState with
  | .damlTxPart => (decodeDamlTransaction buf).map .header
  | .damlNodes => (decodeNode buf).map .node
  | .metadata => (decodeMetadata buf).map .metadata
  | .metadataInputContracts => (decodeInputContract buf).map .contract

/-- The history after an event. -/
def nextHistory (st : Prepared) (hist : List Received) : PartEvent → List Received
  | .part _ buf => hist ++ (readAs st buf).toList
  | .rows .. => hist

/-- The receiving machine with its history. -/
def recorded (d : Device) : Machine (Prepared × List Received) PartEvent where
  init s := s.1.Fresh ∧ s.2 = []
  step s e := ((receiving d).step s.1 e).map fun st' => (st', nextHistory s.1 s.2 e)

/-- The node parts of a history. -/
def nodesOf (hist : List Received) : List NodePart :=
  hist.filterMap fun
    | .node part => some part
    | _ => none

/-- The input contracts of a history. -/
def contractsOf (hist : List Received) : List InputContract :=
  hist.filterMap fun
    | .contract ic => some ic
    | _ => none

@[simp] theorem nodesOf_append (h₁ h₂ : List Received) :
    nodesOf (h₁ ++ h₂) = nodesOf h₁ ++ nodesOf h₂ := List.filterMap_append

@[simp] theorem contractsOf_append (h₁ h₂ : List Received) :
    contractsOf (h₁ ++ h₂) = contractsOf h₁ ++ contractsOf h₂ := List.filterMap_append

variable {d : Device} {st st' : Prepared} {hist hist' new : List Received} {e : PartEvent}

theorem mem_nodesOf {part : NodePart} : part ∈ nodesOf hist ↔ .node part ∈ hist := by
  rw [nodesOf, List.mem_filterMap]
  constructor
  · rintro ⟨r, hr, h⟩
    cases r <;> cases h
    exact hr
  · exact fun h => ⟨_, h, rfl⟩

theorem mem_contractsOf {ic : InputContract} : ic ∈ contractsOf hist ↔ .contract ic ∈ hist := by
  rw [contractsOf, List.mem_filterMap]
  constructor
  · rintro ⟨r, hr, h⟩
    cases r <;> cases h
    exact hr
  · exact fun h => ⟨_, h, rfl⟩

/-- What an event adds to the history, with what it does to the state. -/
inductive RecordedStep (d : Device) (st : Prepared) : PartEvent → Prepared → List Received → Prop
  where
  | header {parsed : Bool} {buf : Bytes} {st' : Prepared} {tx : DamlTransaction} :
      HeaderStep st buf st' tx → RecordedStep d st (.part parsed buf) st' [.header tx]
  | node {parsed : Bool} {buf : Bytes} {st' : Prepared} {part : NodePart}
      {ctx : HashingParser.Ctx} : NodeStep d st buf st' part ctx →
      RecordedStep d st (.part parsed buf) st' [.node part]
  | metadata {parsed : Bool} {buf : Bytes} {st' : Prepared} {md : Metadata} :
      MetadataStep d st parsed buf st' md →
      RecordedStep d st (.part parsed buf) st' [.metadata md]
  | contract {parsed : Bool} {buf : Bytes} {st' : Prepared} {ic : InputContract}
      {v : HashingParser.VState} {values : ValuesStore}
      {shown : DisplayParser.Globals × Review × ValuesStore} :
      ContractStep d st parsed buf st' ic v values shown →
      RecordedStep d st (.part parsed buf) st' [.contract ic]
  | rows {pairs : Option (List Pair)} {signature : Bytes} :
      RecordedStep d st (.rows pairs signature) (st.setRows pairs signature) []

theorem recorded_step_cases (h : (recorded d).step (st, hist) e = some (st', hist')) :
    ∃ new, hist' = hist ++ new ∧ RecordedStep d st e st' new := by
  obtain ⟨st₁, hstep, heq⟩ := Option.map_eq_some_iff.mp h
  obtain ⟨rfl, rfl⟩ := Prod.mk.inj heq
  rcases receiving_step_cases hstep with ⟨parsed, buf, rfl, hacc⟩ | ⟨pairs, signature, rfl, rfl⟩
  · refine ⟨(readAs st buf).toList, rfl, ?_⟩
    rcases accepted_cases hacc with ⟨tx, hs⟩ | ⟨part, ctx, hs⟩ | ⟨md, hs⟩ |
      ⟨ic, v, values, shown, hs⟩
    · rw [readAs, hs.state, hs.decoded]
      exact .header hs
    · rw [readAs, hs.state, hs.decoded]
      exact .node hs
    · rw [readAs, hs.state, hs.decoded]
      exact .metadata hs
    · rw [readAs, hs.state, hs.decoded]
      exact .contract hs
  · exact ⟨[], by simp [nextHistory], .rows⟩

/-- The induction over recorded runs. -/
theorem recorded_invariant {ok : Prepared × List Received → PartEvent → Prop}
    {es : List PartEvent} {P : Prepared → List Received → Prop}
    (h : (recorded d).Reach ok es (st, hist)) (h₀ : ∀ st : Prepared, st.Fresh → P st [])
    (hs : ∀ st hist e st' new, P st hist → ok (st, hist) e → RecordedStep d st e st' new →
      P st' (hist ++ new)) : P st hist := by
  refine h.invariant (P := fun _ s => P s.1 s.2) ?_ ?_
  · rintro ⟨st, hist⟩ ⟨hfresh, hnil⟩
    have hnil : hist = [] := hnil
    subst hnil
    exact h₀ st hfresh
  · rintro es ⟨st, hist⟩ e ⟨st', hist'⟩ hinv hok hstep
    obtain ⟨new, rfl, hcases⟩ := recorded_step_cases hstep
    exact hs st hist e st' new hinv hok hcases

/-- What a message decodes to. -/
def Decodes (buf : Bytes) : Received → Prop
  | .header tx => decodeDamlTransaction buf = some tx
  | .node part => decodeNode buf = some part
  | .metadata md => decodeMetadata buf = some md
  | .contract ic => decodeInputContract buf = some ic

theorem RecordedStep.decodes (h : RecordedStep d st e st' new) {r : Received} (hr : r ∈ new) :
    ∃ parsed buf, e = .part parsed buf ∧ Decodes buf r := by
  cases h with
  | header hs => exact ⟨_, _, rfl, List.mem_singleton.mp hr ▸ hs.decoded⟩
  | node hs => exact ⟨_, _, rfl, List.mem_singleton.mp hr ▸ hs.decoded⟩
  | metadata hs => exact ⟨_, _, rfl, List.mem_singleton.mp hr ▸ hs.decoded⟩
  | contract hs => exact ⟨_, _, rfl, List.mem_singleton.mp hr ▸ hs.decoded⟩
  | rows => cases hr

/-- A part of the flow is what one of its messages decodes to. -/
theorem decoded_of_reach {ok : Prepared × List Received → PartEvent → Prop} {es : List PartEvent}
    (h : (recorded d).Reach ok es (st, hist)) {r : Received} (hr : r ∈ hist) :
    ∃ parsed buf, .part parsed buf ∈ es ∧ Decodes buf r := by
  refine h.invariant (P := fun es s => ∀ r ∈ s.2, ∃ parsed buf,
    PartEvent.part parsed buf ∈ es ∧ Decodes buf r) ?_ ?_ r hr
  · rintro ⟨st, hist⟩ ⟨-, hnil⟩
    have hnil : hist = [] := hnil
    rw [hnil]
    exact List.forall_mem_nil _
  · rintro es ⟨st, hist⟩ e ⟨st', hist'⟩ hinv - hstep r hr
    obtain ⟨new, rfl, hs⟩ := recorded_step_cases hstep
    rcases List.mem_append.mp hr with hr | hr
    · obtain ⟨parsed, buf, hmem, hdec⟩ := hinv r hr
      exact ⟨parsed, buf, List.mem_append_left _ hmem, hdec⟩
    · obtain ⟨parsed, buf, rfl, hdec⟩ := hs.decodes hr
      exact ⟨parsed, buf, List.mem_append_right _ (List.mem_singleton_self _), hdec⟩

/-- Every run has a history. -/
theorem recorded_of_reach {ok : Prepared → PartEvent → Prop} {es : List PartEvent}
    (h : (receiving d).Reach ok es st) :
    ∃ hist, (recorded d).Reach (fun s e => ok s.1 e) es (st, hist) := by
  induction h with
  | start h => exact ⟨[], .start ⟨h, rfl⟩⟩
  | @step es st st' e _ hok hstep ih =>
    obtain ⟨hist, hreach⟩ := ih
    refine ⟨nextHistory st hist e, .step hreach hok ?_⟩
    simp [recorded, hstep]

/-- The app refines the machine with its history. -/
theorem recorded_of_loggedApp {okp : Prepared → Bool → Bytes → Prop} {es : List Event} {a : App}
    {log : List PartEvent}
    (h : (loggedApp d).Reach (onMessages d fun st _ parsed buf => okp st parsed buf) es (a, log))
    (hr : a.Receiving) :
    ∃ hist, (recorded d).Reach (fun s e => onParts okp s.1 e) log (a.prepared, hist) :=
  recorded_of_reach (prepared_reach_of_loggedApp h hr)

end CantonSigner
