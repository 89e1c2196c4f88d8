import CantonSigner.Lib.Run

/-!
# Simulation

A machine refines a transition system with labels: each step of the machine is observed as a
label, and matched by a step of the system under that label. `Machine.Reach.simulation` is the
induction over runs; what the system says of its labels then holds of what is observed of the
machine.
-/

/-- The runs of a transition system from a state, with their labels. -/
inductive LabelledRun {τ L : Type} (step : τ → L → τ → Prop) (t₀ : τ) : List L → τ → Prop where
  | start : LabelledRun step t₀ [] t₀
  | step {l : List L} {t t' : τ} {a : L} :
      LabelledRun step t₀ l t → step t a t' → LabelledRun step t₀ (l ++ [a]) t'

namespace Machine

variable {σ ε τ L : Type}

/-- A machine with the list of what was observed of its steps. -/
def observed (m : Machine σ ε) (obs : σ → ε → L) : Machine (σ × List L) ε where
  init s := m.init s.1 ∧ s.2 = []
  step s e := (m.step s.1 e).map fun s' => (s', s.2 ++ [obs s.1 e])

variable {m : Machine σ ε} {obs : σ → ε → L} {ok : σ → ε → Prop} {es : List ε} {s : σ}
  {l : List L}

/-- **Simulation**: if each step of the machine is matched by a step of the system, its runs are
runs of the system. -/
theorem Reach.simulation {step : τ → L → τ → Prop} {t₀ : τ} {R : σ → τ → Prop}
    (h : (m.observed obs).Reach (fun s e => ok s.1 e) es (s, l)) (hinit : ∀ s, m.init s → R s t₀)
    (hsim : ∀ s e s' t, R s t → ok s e → m.step s e = some s' →
      ∃ t', step t (obs s e) t' ∧ R s' t') :
    ∃ t, LabelledRun step t₀ l t ∧ R s t := by
  refine h.invariant (P := fun _ s => ∃ t, LabelledRun step t₀ s.2 t ∧ R s.1 t) ?_ ?_
  · rintro ⟨s, l⟩ ⟨hs, rfl⟩
    exact ⟨t₀, .start, hinit s hs⟩
  · rintro es ⟨s, l⟩ e s' ⟨t, hrun, hR⟩ hok hstep
    obtain ⟨s₁, hs₁, rfl⟩ := Option.map_eq_some_iff.mp hstep
    obtain ⟨t', hstep', hR'⟩ := hsim s e s₁ t hR hok hs₁
    exact ⟨t', .step hrun hstep', hR'⟩

end Machine
