import Mathlib.Data.List.Basic

/-!
# Runs of a machine

A machine has initial states and a partial step function; a step that the
machine refuses is `none`. `Machine.Reach ok es s` says that the events `es`
lead from an initial state to `s`, each accepted by the machine and each
allowed by `ok` in the state it meets.

- `Reach.invariant`: the induction every safety result of a machine goes
  through, with the events so far at hand;
- `Reach.mono`: a weaker condition allows more runs;
- `run`, `exists_reach_of_run`: the run of a list of events, computed;
- `List.foldlM_invariant`, `List.foldlM_history`, `List.foldlM_view`: the same
  induction for a fold that may fail, also with the elements so far at hand, and
  the congruence of such folds (`List.foldlM_congr` for their steps);
- `List.foldlM_backward`: what a step never brings about held at every step of a fold
  that ends with it;
- `List.foldlM_collected`: a fold over elements that another fold collected;
- `listAlong`, `listAlong_rel`: what such a fold lists on its way, and how it relates the
  states.
-/

/-- What every step of a fold that may fail keeps holds of its result. -/
theorem List.foldlM_invariant {σ α : Type} {f : σ → α → Option σ} {P : σ → Prop} (l : List α)
    (hstep : ∀ a ∈ l, ∀ s s', P s → f s a = some s' → P s') {s s' : σ} (hs : P s)
    (h : l.foldlM f s = some s') : P s' := by
  induction l generalizing s with
  | nil =>
    cases h
    exact hs
  | cons a l ih =>
    rw [List.foldlM_cons] at h
    obtain ⟨s₁, h₁, h₂⟩ := Option.bind_eq_some_iff.mp h
    have hs₁ : P s₁ := hstep a List.mem_cons_self s s₁ hs h₁
    exact ih (fun b hb => hstep b (List.mem_cons_of_mem a hb)) hs₁ h₂

/-- The same, for a property of the state and the elements consumed so far. -/
theorem List.foldlM_history {σ α : Type} {f : σ → α → Option σ} {P : List α → σ → Prop} {l : List α}
    {s s' : σ} (h₀ : P [] s) (hstep : ∀ l a s s', P l s → f s a = some s' → P (l ++ [a]) s')
    (h : l.foldlM f s = some s') : P l s' := by
  suffices hgen : ∀ l l₀ s, P l₀ s → l.foldlM f s = some s' → P (l₀ ++ l) s' from hgen l [] s h₀ h
  intro l
  induction l with
  | nil =>
    rintro l₀ s hP ⟨⟩
    simpa using hP
  | cons a l ih =>
    intro l₀ s hP h
    rw [List.foldlM_cons] at h
    obtain ⟨s₁, h₁, h₂⟩ := Option.bind_eq_some_iff.mp h
    simpa using ih (l₀ ++ [a]) s₁ (hstep l₀ a s s₁ hP h₁) h₂

/-- One more step of a fold that may fail. -/
theorem List.foldlM_concat {σ α : Type} {f : σ → α → Option σ} {l : List α} {a : α} {s s₁ s₂ : σ}
    (h : l.foldlM f s = some s₁) (ha : f s₁ a = some s₂) : (l ++ [a]).foldlM f s = some s₂ := by
  rw [List.foldlM_append, h]
  simp [ha]

/-- A fold that may fail respects a view of the state that each of its steps
respects. -/
theorem List.foldlM_view {σ τ α : Type} {f : σ → α → Option σ} {g : σ → τ}
    (hstep : ∀ a s s', g s = g s' → (f s a).map g = (f s' a).map g) (l : List α) {s s' : σ}
    (h : g s = g s') : (l.foldlM f s).map g = (l.foldlM f s').map g := by
  induction l generalizing s s' with
  | nil =>
    show some (g s) = some (g s')
    rw [h]
  | cons a l ih =>
    have ha := hstep a s s' h
    rw [List.foldlM_cons, List.foldlM_cons]
    cases h₁ : f s a with
    | none =>
      rw [h₁] at ha
      rw [Option.map_eq_none_iff.mp ha.symm]
    | some s₁ =>
      rw [h₁] at ha
      obtain ⟨s₂, h₂, heq⟩ := Option.map_eq_some_iff.mp ha.symm
      rw [h₂]
      exact ih heq.symm

/-- Steps that agree on the elements of a list fold it alike. -/
theorem List.foldlM_congr {σ α : Type} {f g : σ → α → Option σ} (l : List α)
    (h : ∀ a ∈ l, ∀ s, f s a = g s a) (s : σ) : l.foldlM f s = l.foldlM g s := by
  induction l generalizing s with
  | nil => rfl
  | cons a l ih =>
    rw [List.foldlM_cons, List.foldlM_cons, h a List.mem_cons_self]
    cases g s a with
    | none => rfl
    | some s₁ => exact ih (fun b hb => h b (List.mem_cons_of_mem a hb)) s₁

/-- A property that no step brings about holds from the start of a fold that ends with it,
and after the step of every element. -/
theorem List.foldlM_backward {σ α : Type} {f : σ → α → Option σ} {P : σ → Prop}
    (hback : ∀ a s s', f s a = some s' → P s' → P s) {l : List α} {s s' : σ}
    (h : l.foldlM f s = some s') (hP : P s') :
    P s ∧ ∀ a ∈ l, ∃ s₁ s₂, f s₁ a = some s₂ ∧ P s₂ := by
  induction l generalizing s with
  | nil =>
    cases h
    exact ⟨hP, nofun⟩
  | cons a l ih =>
    rw [List.foldlM_cons] at h
    obtain ⟨s₁, h₁, h₂⟩ := Option.bind_eq_some_iff.mp h
    obtain ⟨hs₁, hall⟩ := ih h₂
    refine ⟨hback a s s₁ h₁ hs₁, ?_⟩
    intro b hb
    rcases List.mem_cons.mp hb with rfl | hb
    · exact ⟨s, s₁, h₁, hs₁⟩
    · exact hall b hb

/-- Elements that are collected first and folded afterwards may be folded as they come. -/
theorem List.foldlM_collected {σ φ ι : Type} {new : φ → Option (List ι)} {g : σ → ι → Option σ}
    (fs : List φ) (is : List ι) (s : σ) :
    ((fs.foldlM (fun is f => (new f).map fun l => is ++ l) is).bind fun is => is.foldlM g s) =
      (is.foldlM g s).bind fun s =>
        fs.foldlM (fun s f => (new f).bind fun l => l.foldlM g s) s := by
  induction fs generalizing is with
  | nil => exact (Option.bind_fun_some _).symm
  | cons f fs ih =>
    simp only [List.foldlM_cons]
    cases new f with
    | none => cases is.foldlM g s <;> rfl
    | some l =>
      refine (ih (is ++ l)).trans ?_
      rw [List.foldlM_append]
      exact Option.bind_assoc ..

/-- What is listed along a fold that may fail. -/
def listAlong {σ α β : Type} (f : σ → α → Option σ) (args : σ → α → List β) :
    σ → List α → List β
  | _, [] => []
  | s, a :: l =>
    args s a ++
      match f s a with
      | none => []
      | some s' => listAlong f args s' l

/-- A relation between two states and what was listed between them, kept by the fold. -/
theorem listAlong_rel {σ α β : Type} {f : σ → α → Option σ} {args : σ → α → List β}
    {R : σ → List β → σ → Prop} (hrefl : ∀ s, R s [] s)
    (htrans : ∀ s l s' l' s'', R s l s' → R s' l' s'' → R s (l ++ l') s'')
    (hstep : ∀ s a s', f s a = some s' → R s (args s a) s') {l : List α} {s s' : σ}
    (h : l.foldlM f s = some s') : R s (listAlong f args s l) s' := by
  induction l generalizing s with
  | nil =>
    cases h
    exact hrefl _
  | cons a l ih =>
    rw [List.foldlM_cons] at h
    obtain ⟨s₁, h₁, h₂⟩ := Option.bind_eq_some_iff.mp h
    rw [listAlong, h₁]
    exact htrans _ _ _ _ _ (hstep _ a s₁ h₁) (ih h₂)

/-- Initial states and what an event does in a state. -/
structure Machine (σ ε : Type) where
  init : σ → Prop
  step : σ → ε → Option σ

namespace Machine

variable {σ ε : Type}

/-- The states a run of allowed events ends in. -/
inductive Reach (m : Machine σ ε) (ok : σ → ε → Prop) : List ε → σ → Prop where
  | start {s : σ} : m.init s → Reach m ok [] s
  | step {es : List ε} {s s' : σ} {e : ε} :
      Reach m ok es s → ok s e → m.step s e = some s' → Reach m ok (es ++ [e]) s'

variable {m : Machine σ ε} {ok : σ → ε → Prop} {es : List ε} {s : σ}

/-- What holds initially and is kept by every allowed step holds in every
reached state. -/
theorem Reach.invariant {P : List ε → σ → Prop} (h : m.Reach ok es s)
    (h₀ : ∀ s, m.init s → P [] s)
    (hs : ∀ es s e s', P es s → ok s e → m.step s e = some s' → P (es ++ [e]) s') :
    P es s := by
  induction h with
  | start h => exact h₀ _ h
  | step _ hok hstep ih => exact hs _ _ _ _ ih hok hstep

theorem Reach.mono {ok' : σ → ε → Prop} (himp : ∀ s e, ok s e → ok' s e)
    (h : m.Reach ok es s) : m.Reach ok' es s := by
  induction h with
  | start h => exact .start h
  | step _ hok hstep ih => exact .step ih (himp _ _ hok) hstep

/-! ## Computed runs -/

/-- The state a list of events leads to, if all of them are allowed and
accepted. -/
def run (m : Machine σ ε) (ok : σ → ε → Bool) (s : σ) : List ε → Option σ
  | [] => some s
  | e :: es => if ok s e then (m.step s e).bind fun s' => run m ok s' es else none

theorem Reach.append_run {okb : σ → ε → Bool} {es' : List ε} {s' : σ}
    (hr : m.Reach (fun s e => okb s e = true) es s) (h : m.run okb s es' = some s') :
    m.Reach (fun s e => okb s e = true) (es ++ es') s' := by
  induction es' generalizing es s with
  | nil =>
    cases h
    simpa using hr
  | cons e es' ih =>
    simp only [run] at h
    split at h
    · rename_i hok
      obtain ⟨s₁, hs₁, hrest⟩ := Option.bind_eq_some_iff.mp h
      simpa using ih (.step hr hok hs₁) hrest
    · cases h

/-- A computed run reaches a state, and a test of that state can be computed
with it. -/
theorem exists_reach_of_run {okb : σ → ε → Bool} {p : σ → Bool} (h₀ : m.init s)
    (h : (m.run okb s es).any p = true) :
    ∃ s', m.Reach (fun s e => okb s e = true) es s' ∧ p s' = true := by
  obtain ⟨s', hrun, hp⟩ := (Option.any_eq_true p _).mp h
  exact ⟨s', by simpa using (Reach.start h₀).append_run hrun, hp⟩

end Machine

/-- A step after a step, where whether the second one succeeds does not depend on the first. -/
theorem Option.isSome_bind_iff {α β : Type} {o : Option α} {f : α → Option β} {P : Prop}
    (h : ∀ a, (f a).isSome = true ↔ P) : (o.bind f).isSome = true ↔ o.isSome = true ∧ P := by
  cases o with
  | none => simp
  | some a => simp [h a]
