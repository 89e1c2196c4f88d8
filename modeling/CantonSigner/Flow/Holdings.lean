import CantonSigner.Flow.Rows

/-!
# What the value check counts

`collects_of_reach` ties the holdings of the store to the create nodes of the flow, and
`countsAll_of_reach` says what that means while the check has not given up: every create is
read, and each holding that is found counts.
-/

namespace CantonSigner

open ByteCodec DisplayParser HoldingParser

variable {d : Device} {st st' : Prepared} {hist new : List Received} {e : PartEvent}

/-! ## Holdings -/

/-- The create nodes of a history. -/
def createsOf (hist : List Received) : List Create :=
  (nodesOf hist).flatMap fun part => createNodes (nodeKinds part)

@[simp] theorem createsOf_append (h₁ h₂ : List Received) :
    createsOf (h₁ ++ h₂) = createsOf h₁ ++ createsOf h₂ := by
  simp [createsOf]

/-- A parse for display binds the screen or leaves the store alone. -/
theorem finishParsing_collected {values values' : ValuesStore} {s : DisplayParser.Ctx}
    {g' : Globals}
    {r' : Review} (h : finishParsing d values s = some (g', r', values')) :
    values'.collected = values.collected ∧ values'.ok = values.ok := by
  rcases finishParsing_cases h with ⟨fs, c, -, -, -, -, rfl⟩ | ⟨-, -, rfl⟩
  · exact ⟨rfl, rfl⟩
  · exact ⟨rfl, rfl⟩

theorem collects_kept {cs : List Create} {s s' s'' : ValuesStore} (h : Collects d s cs s')
    (hkept : UseKept s' s'') : Collects d s cs s'' :=
  h.congr hkept.collected hkept.ok

/-- An input contract brings no holding. -/
theorem collects_contract {s : ValuesStore} {cs : List Create} {parsed : Bool} {buf : Bytes}
    {ic : InputContract} {v : HashingParser.VState} {values : ValuesStore}
    {shown : Globals × Review × ValuesStore} (h : Collects d s cs st.values)
    (hs : ContractStep d st parsed buf st' ic v values shown) :
    Collects d s cs (st.withContract d ic v shown).values := by
  obtain ⟨g', r', values'⟩ := shown
  have hchecked := collects_kept h (HashingParser.decodeInputContractPart_values hs.hashed)
  show Collects d s cs values'
  rcases parseInputContractForDisplay_cases hs.displayed with ⟨-, -, rfl⟩ |
    ⟨-, m, -, w, -, hfinish⟩
  · exact hchecked
  · obtain ⟨hsame, hok⟩ := finishParsing_collected hfinish
    exact hchecked.congr hsame (by simp [hok])

/-- One step of a recorded run. -/
theorem collects_step {s : ValuesStore} (h : Collects d s (createsOf hist) st.values)
    (hs : RecordedStep d st e st' new) : Collects d s (createsOf (hist ++ new)) st'.values := by
  rw [createsOf_append]
  cases hs with
  | header hs =>
    have hnew (tx : DamlTransaction) : createsOf [.header tx] = [] := rfl
    rw [hnew, List.append_nil, hs.result]
    exact h
  | @node _ _ _ part ctx hs =>
    have hnew : createsOf [.node part] = createNodes (nodeKinds part) := by
      simp [createsOf, nodesOf]
    rw [hnew]
    -- The hashing pass records contracts, then the holding pass reads the creates.
    have hcollected : Collects d s (createsOf hist ++ createNodes (nodeKinds part))
        (st.withNode d ctx part).values := by
      rw [withNode_values]
      exact (collects_kept h (HashingParser.decodeNodePart_values hs.hashed)).trans
        (valuesCollectFromNode_collects _ _)
    obtain ⟨shown, hdisplay, rfl⟩ := hs.result
    rcases displayNodePart_cases hdisplay with ⟨-, rfl⟩ | ⟨-, ⟨g', r', values'⟩, hparse, rfl⟩
    · exact hcollected
    · show Collects d s _ values'
      rcases parseNodeForDisplay_cases hparse with ⟨-, -, rfl⟩ | ⟨-, -, w, -, hfinish⟩
      · exact hcollected
      · obtain ⟨hsame, hok⟩ := finishParsing_collected hfinish
        exact hcollected.congr hsame (by simp [hok])
  | @metadata _ _ _ md hs =>
    have hnew : createsOf [.metadata md] = [] := rfl
    have hvalues : (applyNodeTreeVerdict st).1.values = st.values := by
      rw [applyNodeTreeVerdict_accepted hs.verdict]
    have hcollected : Collects d s (createsOf hist)
        ((applyNodeTreeVerdict st).1.withMetadata d md).values := by
      show Collects d s (createsOf hist) (applyNodeTreeVerdict st).1.values
      rw [hvalues]
      exact h
    rw [hnew, List.append_nil]
    rcases hs.result with ⟨-, -, rfl⟩ | ⟨-, rfl⟩
    · exact collects_kept hcollected (useKept_finalized _)
    · exact hcollected
  | @contract _ _ _ ic v values shown hs =>
    have hnew : createsOf [.contract ic] = [] := rfl
    rw [hnew, List.append_nil]
    have hcollected := collects_contract h hs
    rcases hs.result with ⟨-, -, rfl⟩ | ⟨-, rfl⟩
    · exact collects_kept hcollected (useKept_finalized _)
    · exact hcollected
  | rows =>
    rw [show createsOf [] = [] from rfl, List.append_nil]
    exact h

theorem collects_of_reach {ok : Prepared × List Received → PartEvent → Prop} {es : List PartEvent}
    (h : (recorded d).Reach ok es (st, hist)) :
    Collects d valuesCheckReset (createsOf hist) st.values := by
  refine recorded_invariant (P := fun st hist =>
    Collects d valuesCheckReset (createsOf hist) st.values) h ?_ ?_
  · rintro _ ⟨p, rfl⟩
    exact .refl _
  · intro st hist e st' new hinv _ hs
    exact collects_step hinv hs

/-- The holdings of the store are those of all create nodes of the flow, in the order of
arrival and each read from its own node. -/
structure CountsAll (d : Device) (hist : List Received) (s : ValuesStore) : Prop where
  readable : ∀ c ∈ createsOf hist, (readCreate d c).isSome = true
  holdings : s.holdings = (createsOf hist).filterMap (createHolding d)

theorem countsAll_of_reach {ok : Prepared × List Received → PartEvent → Prop}
    {es : List PartEvent} (h : (recorded d).Reach ok es (st, hist)) (hok : st.values.ok = true) :
    CountsAll d hist st.values :=
  ⟨(collects_of_reach h).readable hok, (collects_of_reach h).holdings hok⟩

end CantonSigner
