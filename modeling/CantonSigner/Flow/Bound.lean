import CantonSigner.Display.Rows
import CantonSigner.Flow.Screens

/-!
# The screen on display and the values bound from it

A clear review is of a screen that the walk of one part selected and filled, and the value
store is bound to the fields of the same walk. `BoundTo` names the walk, the screen and the
fields, and `screenBound_of_reach` finds them in every run. A screen that is filled from an
input contract was deferred by the walk of an earlier part (`ReadFrom`).
-/

namespace CantonSigner

open ByteCodec DisplayParser

variable {d : Device} {st st' : Prepared} {hist new : List Received} {e : PartEvent}

/-- The walk of a part of the flow. -/
def WalkOf (d : Device) (hist : List Received) (s : DisplayParser.Ctx) : Prop :=
  (∃ part ∈ nodesOf hist, ∃ r, walkNode d (.start none r) part = some s) ∨
    (∃ ic ∈ contractsOf hist, ∃ m r, walkInputContract d (.start (some m) r) ic = some s)

theorem WalkOf.append {s : DisplayParser.Ctx} (h : WalkOf d hist s) (new : List Received) :
    WalkOf d (hist ++ new) s := by
  rcases h with ⟨part, hpart, hwalk⟩ | ⟨ic, hic, hwalk⟩
  · exact .inl ⟨part, mem_nodesOf_append new hpart, hwalk⟩
  · refine .inr ⟨ic, ?_, hwalk⟩
    rw [contractsOf_append]
    exact List.mem_append_left _ hic

/-- A walk names the screen it selected. -/
theorem WalkOf.titled {s : DisplayParser.Ctx} (h : WalkOf d hist s) : Titled s := by
  rcases h with ⟨part, -, r, hwalk⟩ | ⟨ic, -, m, r, hwalk⟩
  · exact titled_walk.node (fun _ _ _ _ h => h) part (titled_start none r) hwalk
  · exact titled_walk.inputContract (fun _ _ _ _ h => h) ic (titled_start (some m) r) hwalk

/-- The walk was of a part of the flow. An input contract is walked for a screen that the walk
of an earlier part deferred. -/
inductive ReadFrom (d : Device) (hist : List Received) : DisplayParser.Ctx → Prop
  | node {part : NodePart} {r : Review} {s : DisplayParser.Ctx} :
      part ∈ nodesOf hist → walkNode d (.start none r) part = some s → ReadFrom d hist s
  | contract {ic : InputContract} {m : Deferred} {r : Review} {s s₀ : DisplayParser.Ctx} :
      ic ∈ contractsOf hist → ReadFrom d hist s₀ → s₀.globals = some m →
      walkInputContract d (.start (some m) r) ic = some s → ReadFrom d hist s

theorem ReadFrom.append {s : DisplayParser.Ctx} (h : ReadFrom d hist s) (new : List Received) :
    ReadFrom d (hist ++ new) s := by
  induction h with
  | node hpart hwalk => exact .node (mem_nodesOf_append new hpart) hwalk
  | contract hic _ hm hwalk ih =>
    refine .contract ?_ ih hm hwalk
    rw [contractsOf_append]
    exact List.mem_append_left _ hic

theorem ReadFrom.walkOf {s : DisplayParser.Ctx} (h : ReadFrom d hist s) : WalkOf d hist s := by
  cases h with
  | node hpart hwalk => exact .inl ⟨_, hpart, _, hwalk⟩
  | contract hic _ _ hwalk => exact .inr ⟨_, hic, _, _, hwalk⟩

/-- What is bound from the fields of a screen. -/
def boundScreen (d : Device) (fs : List TxField) (c : DisplayConfig) :=
  (valuesBindFromDisplay d valuesCheckReset fs c.destination c.amountCheck).screen

/-- The walk `s` of a part of the flow selected the screen `c` on display and found its
fields, and the store is bound to them. -/
structure BoundTo (d : Device) (st : Prepared) (hist : List Received) (s : DisplayParser.Ctx)
    (c : DisplayConfig) (fs : List TxField) : Prop where
  walk : WalkOf d hist s
  inv : FieldsInv s
  fields : s.fields = some fs
  shows : Shows d s c st.review
  screen : st.values.screen = boundScreen d fs c

/-- A step that keeps the screen and the bound values. -/
theorem BoundTo.kept {s : DisplayParser.Ctx} {c : DisplayConfig} {fs : List TxField}
    (h : BoundTo d st hist s c fs) (new : List Received)
    (hvalues : st'.values.screen = st.values.screen)
    (htitle : st'.review.reviewTitle = st.review.reviewTitle)
    (hfinish : st'.review.reviewFinish = st.review.reviewFinish) :
    BoundTo d st' (hist ++ new) s c fs :=
  ⟨h.walk.append new, h.inv, h.fields, h.shows.congr htitle hfinish, hvalues.trans h.screen⟩

/-- What a finished walk leaves on display. -/
theorem boundTo_walked {s : DisplayParser.Ctx} (hinv : FieldsInv s) (hwalk : WalkOf d hist s)
    (hfinish : WalkFinished d s st') (hclear : st'.review.clearSigningAvailable = true) :
    ∃ c fs, BoundTo d st' hist s c fs ∧ formatAndPopulate d s fs = some st'.review := by
  obtain ⟨c, hshows⟩ := hfinish.shows hclear
  obtain ⟨values, g', r', values', hparse, -, hreview, hkept⟩ := hfinish
  have hr := hreview hclear
  rcases finishParsing_cases hparse with ⟨fs, c', hfs, hc', hpop, -, rfl⟩ | ⟨-, hoff, -⟩
  · obtain rfl : c' = c := Option.some.inj (hc'.symm.trans hshows.conf)
    exact ⟨c', fs, ⟨hwalk, hinv, hfs, hshows, hkept.screen⟩, hr ▸ hpop⟩
  · rw [hr, hoff] at hclear
    cases hclear

/-- The walk of a node part keeps the fields of the screens in the table. -/
theorem fieldsInv_node {part : NodePart} {r : Review} {s : DisplayParser.Ctx}
    (hwalk : walkNode d (.start none r) part = some s) : FieldsInv s :=
  fieldsInv_walk.node (fun _ _ _ _ h => h) part (fieldsInv_start _ (fun _ hm => by cases hm)) hwalk

/-- So does the walk of an input contract for a screen of the table. -/
theorem fieldsInv_contract {ic : InputContract} {m : Deferred} {r : Review}
    {s : DisplayParser.Ctx} (hm : m.conf ∈ displayConfigs)
    (hwalk : walkInputContract d (.start (some m) r) ic = some s) : FieldsInv s := by
  refine fieldsInv_walk.inputContract (fun _ _ _ _ h => h) ic (fieldsInv_start _ ?_) hwalk
  rintro m' ⟨⟩
  exact hm

/-- The screen of every reachable state. -/
structure ScreenBound (d : Device) (st : Prepared) (hist : List Received) : Prop where
  deferred : ∀ m, st.globals = some m →
    m.conf ∈ displayConfigs ∧ ∃ s, ReadFrom d hist s ∧ s.globals = some m
  bound : st.review.clearSigningAvailable = true →
    ∃ s c fs, ReadFrom d hist s ∧ BoundTo d st hist s c fs

theorem screenBound_walked {s : DisplayParser.Ctx} (hinv : FieldsInv s) (hwalk : ReadFrom d hist s)
    (hfinish : WalkFinished d s st') : ScreenBound d st' hist := by
  constructor
  · intro m hm
    have hs := hfinish.globals m hm
    exact ⟨hinv.2 m hs, s, hwalk, hs⟩
  · intro hclear
    obtain ⟨c, fs, hbound, -⟩ := boundTo_walked hinv hwalk.walkOf hfinish hclear
    exact ⟨s, c, fs, hwalk, hbound⟩

theorem screenBound_step (h : ScreenBound d st hist) (hs : RecordedStep d st e st' new) :
    ScreenBound d st' (hist ++ new) := by
  rcases displayStep_of_recorded hs with hkept | hwalk | hwalk
  · constructor
    · intro m hm
      obtain ⟨htable, s, hwalk, hs⟩ := h.deferred m (hkept.globals m hm)
      exact ⟨htable, s, hwalk.append new, hs⟩
    · intro hclear
      obtain ⟨s, c, fs, hwalk, hbound⟩ := h.bound (hkept.review hclear).1
      obtain ⟨htitle, hfinish⟩ := hkept.title hclear
      exact ⟨s, c, fs, hwalk.append new, hbound.kept new hkept.values htitle hfinish⟩
  · obtain ⟨_, _, part, s, -, rfl, -, -, -, -, -, hwalk, hfinish⟩ := hwalk
    exact screenBound_walked (fieldsInv_node hwalk) (.node (by simp [nodesOf]) hwalk) hfinish
  · obtain ⟨_, _, ic, m, s, -, rfl, -, -, -, hm, hwalk, hfinish⟩ := hwalk
    obtain ⟨htable, s₀, hwalk₀, hs₀⟩ := h.deferred m hm
    exact screenBound_walked (fieldsInv_contract htable hwalk)
      (.contract (by simp [contractsOf]) (hwalk₀.append _) hs₀ hwalk) hfinish

theorem screenBound_of_reach {ok : Prepared × List Received → PartEvent → Prop}
    {es : List PartEvent} (h : (recorded d).Reach ok es (st, hist)) : ScreenBound d st hist := by
  refine recorded_invariant h ?_ ?_
  · rintro _ ⟨p, rfl⟩
    exact ⟨fun m hm => (by cases hm), fun hclear => (by cases hclear)⟩
  · intro st hist e st' new hinv _ hs
    exact screenBound_step hinv hs

end CantonSigner
