import Mathlib.Data.List.Dedup
import CantonSigner.Display.Agreement
import CantonSigner.Display.Shown
import CantonSigner.Flow.Holdings

/-!
# Where the compared texts come from

The value check compares digests of texts. A text that a screen binds stands in the argument of
one part of the flow, at the path of its role (`BoundTo.texts`), and the texts of the holdings
stand in the create nodes. So a run compares no text that its messages do not carry
(`shown_sent`, `created_sent`), and whether digests tell its texts apart can be computed from the
messages alone.
-/

namespace CantonSigner

open ByteCodec DisplayParser HoldingParser

variable {d : Device} {st st' : Prepared} {hist : List Received} {s : DisplayParser.Ctx}
  {c : DisplayConfig} {fs : List TxField} {es : List PartEvent}
  {ok : Prepared × List Received → PartEvent → Prop}

/-! ## The argument of a screen -/

/-- The arguments of the parts of a transaction. -/
def argumentsOf (parts : List NodePart) (ics : List InputContract) : List (List Value) :=
  parts.map (fun part => (nodeKinds part).flatMap nodeArguments) ++
    ics.map fun ic => ic.v1.flatMap (·.argument)

/-- A screen is read from the argument as it stands. -/
structure Legible (c : DisplayConfig) (vs : List Value) : Prop where
  ids : IdsFirst (vs.flatMap outerValue)
  labels : NoBackslash vs
  types : TypesFit c vs

instance (c : DisplayConfig) (vs : List Value) : Decidable (Legible c vs) :=
  decidable_of_iff (IdsFirst (vs.flatMap outerValue) ∧ NoBackslash vs ∧ TypesFit c vs)
    ⟨fun h => ⟨h.1, h.2.1, h.2.2⟩, fun h => ⟨h.ids, h.labels, h.types⟩⟩

theorem WalkOf.walked (h : WalkOf d hist s) :
    ∃ vs ∈ argumentsOf (nodesOf hist) (contractsOf hist), Walked d vs s := by
  rcases h with ⟨part, hpart, r, hwalk⟩ | ⟨ic, hic, m, r, hwalk⟩
  · exact ⟨_, List.mem_append_left _ (List.mem_map_of_mem hpart), .node hwalk⟩
  · exact ⟨_, List.mem_append_right _ (List.mem_map_of_mem hic), .inputContract hwalk⟩

/-- **The texts of a screen** stand in the argument of one part of the flow. -/
theorem BoundTo.texts (h : BoundTo d st hist s c fs)
    (hlegible : ∀ vs ∈ argumentsOf (nodesOf hist) (contractsOf hist), Legible c vs) :
    ∃ vs ∈ argumentsOf (nodesOf hist) (contractsOf hist), ∀ role, role ≠ .other →
      shownText d fs role = boundText c vs role := by
  obtain ⟨vs, hvs, hwalked⟩ := h.walk.walked
  obtain ⟨hids, hlabels, htypes⟩ := hlegible vs hvs
  obtain ⟨fs₁, r, hfs₁, hpop, hclear, -, -⟩ := h.shows.populated
  have hc : c ∈ displayConfigs := (h.inv.1 c h.shows.conf).1
  have hfinish : finishParsing d valuesCheckReset s = some (none, r,
      valuesBindFromDisplay d valuesCheckReset fs₁ c.destination c.amountCheck) := by
    simp [finishParsing, hfs₁, h.shows.conf, hpop]
  obtain ⟨fs₂, hfs₂, hholds⟩ := hwalked.holds hc h.shows.conf hids hlabels hfinish hclear
  obtain rfl : fs = fs₂ := Option.some.inj (h.fields.symm.trans hfs₂)
  exact ⟨vs, hvs, fun role hrole => hholds.bound hc htypes hrole⟩

/-! ## The messages of a flow -/

/-- The node parts that the messages decode to. -/
def sentNodes (es : List PartEvent) : List NodePart := (partBuffers es).filterMap decodeNode

/-- The input contracts that the messages decode to. -/
def sentContracts (es : List PartEvent) : List InputContract :=
  (partBuffers es).filterMap decodeInputContract

theorem mem_partBuffers {parsed : Bool} {buf : Bytes} (h : .part parsed buf ∈ es) :
    buf ∈ partBuffers es := by
  obtain ⟨before, after, rfl⟩ := List.append_of_mem h
  rw [partBuffers_append]
  exact List.mem_append_right _ List.mem_cons_self

theorem nodesOf_subset_sent (h : (recorded d).Reach ok es (st, hist)) :
    nodesOf hist ⊆ sentNodes es := by
  intro part hpart
  obtain ⟨parsed, buf, hmem, hdec⟩ := decoded_of_reach h (mem_nodesOf.mp hpart)
  exact List.mem_filterMap.mpr ⟨buf, mem_partBuffers hmem, hdec⟩

theorem contractsOf_subset_sent (h : (recorded d).Reach ok es (st, hist)) :
    contractsOf hist ⊆ sentContracts es := by
  intro ic hic
  obtain ⟨parsed, buf, hmem, hdec⟩ := decoded_of_reach h (mem_contractsOf.mp hic)
  exact List.mem_filterMap.mpr ⟨buf, mem_partBuffers hmem, hdec⟩

theorem argumentsOf_subset_sent (h : (recorded d).Reach ok es (st, hist)) :
    argumentsOf (nodesOf hist) (contractsOf hist) ⊆
      argumentsOf (sentNodes es) (sentContracts es) := by
  refine List.append_subset.mpr ⟨?_, ?_⟩
  · exact List.subset_append_of_subset_left _ (List.map_subset _ (nodesOf_subset_sent h))
  · exact List.subset_append_of_subset_right _ (List.map_subset _ (contractsOf_subset_sent h))

/-- The roles that a screen binds a text in. -/
def boundRoles : List ShownAs := [.sender, .receiver, .amount, .admin, .instrument]

/-- The slots of a holding that hold a text. -/
def textSlots : List Slot := [.owner, .amount, .admin, .instrument]

/-- The texts that the messages have for some screen of the table, and for their holdings. -/
def sentTexts (es : List PartEvent) : List Bytes :=
  (displayConfigs.flatMap fun c => (argumentsOf (sentNodes es) (sentContracts es)).flatMap
    fun vs => boundRoles.filterMap (boundText c vs)) ++
  (sentNodes es).flatMap fun part => (createNodes (nodeKinds part)).flatMap
    fun c => textSlots.filterMap (createString · c)

/-- A screen binds no text that the messages do not carry. -/
theorem shown_sent (h : (recorded d).Reach ok es (st', hist)) (hbound : BoundTo d st hist s c fs)
    (hlegible : ∀ vs ∈ argumentsOf (sentNodes es) (sentContracts es), Legible c vs)
    {role : ShownAs} (hrole : role ≠ .other) {t : Bytes} (ht : shownText d fs role = some t) :
    t ∈ sentTexts es := by
  have hsub := argumentsOf_subset_sent h
  obtain ⟨vs, hvs, htexts⟩ := hbound.texts fun vs hvs => hlegible vs (hsub hvs)
  have hc : c ∈ displayConfigs := (hbound.inv.1 c hbound.shows.conf).1
  have hin : role ∈ boundRoles := by
    cases role <;> simp [boundRoles] at hrole ⊢
  rw [htexts role hrole] at ht
  refine List.mem_append_left _ (List.mem_flatMap.mpr ⟨c, hc, List.mem_flatMap.mpr ⟨vs, hsub hvs,
    ?_⟩⟩)
  exact List.mem_filterMap.mpr ⟨role, hin, ht⟩

/-- A holding has no text that the messages do not carry. -/
theorem created_sent (h : (recorded d).Reach ok es (st, hist)) {cr : Create}
    (hcr : cr ∈ createsOf hist) {slot : Slot} {t : Bytes} (ht : createString slot cr = some t) :
    t ∈ sentTexts es := by
  obtain ⟨part, hpart, hcr⟩ := List.mem_flatMap.mp hcr
  have hin : slot ∈ textSlots := by
    cases slot <;> simp [textSlots]
  refine List.mem_append_right _ (List.mem_flatMap.mpr ⟨part, nodesOf_subset_sent h hpart, ?_⟩)
  exact List.mem_flatMap.mpr ⟨cr, hcr, List.mem_filterMap.mpr ⟨slot, hin, ht⟩⟩

/-- Every screen is read from the messages as they stand, and digests tell their texts apart. -/
structure TextsApart (d : Device) (es : List PartEvent) : Prop where
  legible : ∀ c ∈ displayConfigs, ∀ vs ∈ argumentsOf (sentNodes es) (sentContracts es), Legible c vs
  digests : ((sentTexts es).dedup.map d.sha).Nodup

instance (d : Device) (es : List PartEvent) : Decidable (TextsApart d es) :=
  decidable_of_iff ((∀ c ∈ displayConfigs, ∀ vs ∈ argumentsOf (sentNodes es) (sentContracts es),
      Legible c vs) ∧ ((sentTexts es).dedup.map d.sha).Nodup)
    ⟨fun h => ⟨h.1, h.2⟩, fun h => ⟨h.legible, h.digests⟩⟩

theorem TextsApart.injOn (h : TextsApart d es) : Set.InjOn d.sha {t | t ∈ sentTexts es} :=
  fun _ ht _ ht' heq =>
    List.inj_on_of_nodup_map h.digests (List.mem_dedup.mpr ht) (List.mem_dedup.mpr ht') heq

/-- The messages of an acceptance, with its last part. -/
def acceptanceParts : List PartEvent :=
  acceptance.map (.part false) ++ [.part true acceptedOffer]

theorem textsApart_acceptance : TextsApart testDevice acceptanceParts := by
  decide +kernel

end CantonSigner
