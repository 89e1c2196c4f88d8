import Mathlib.Data.List.Forall2

/-!
# Lists that are related pointwise

`List.Forall₂ R l l'` relates two lists of one length element by element. The lemmas
here follow a list through changes of single elements: composing two such relations,
changing one element, and going from an element of one list to its partner.
-/

namespace List

variable {α β γ : Type} {R : α → β → Prop} {S : β → γ → Prop} {T : α → γ → Prop}

theorem Forall₂.comp {l₁ : List α} {l₂ : List β} {l₃ : List γ} (h : Forall₂ R l₁ l₂)
    (h' : Forall₂ S l₂ l₃) (hcomp : ∀ a b c, R a b → S b c → T a c) : Forall₂ T l₁ l₃ := by
  induction h generalizing l₃ with
  | nil =>
    cases h'
    exact .nil
  | cons hab _ ih =>
    cases h' with
    | cons hbc hrest => exact .cons (hcomp _ _ _ hab hbc) (ih hrest)

/-- The partner of an element, by its place. -/
theorem Forall₂.getElem? {l₁ : List α} {l₂ : List β} (h : Forall₂ R l₁ l₂) {i : Nat} {b : β}
    (hb : l₂[i]? = some b) : ∃ a, l₁[i]? = some a ∧ R a b := by
  induction h generalizing i with
  | nil => simp at hb
  | @cons a b' l₁ l₂ hab _ ih =>
    cases i with
    | zero =>
      obtain rfl : b' = b := by simpa using hb
      exact ⟨a, rfl, hab⟩
    | succ i => exact ih (by simpa using hb)

theorem Forall₂.getElem?_left {l₁ : List α} {l₂ : List β} (h : Forall₂ R l₁ l₂) {i : Nat} {a : α}
    (ha : l₁[i]? = some a) : ∃ b, l₂[i]? = some b ∧ R a b :=
  Forall₂.getElem? (R := fun b a => R a b) h.flip ha

/-- The partner of an element of the second list. -/
theorem Forall₂.exists_of_mem_right {l₁ : List α} {l₂ : List β} (h : Forall₂ R l₁ l₂) {b : β}
    (hb : b ∈ l₂) : ∃ a ∈ l₁, R a b := by
  obtain ⟨i, hi⟩ := List.mem_iff_getElem?.mp hb
  obtain ⟨a, ha, hab⟩ := h.getElem? hi
  exact ⟨a, List.mem_of_getElem? ha, hab⟩

/-- The partner of an element of the first list. -/
theorem Forall₂.exists_of_mem_left {l₁ : List α} {l₂ : List β} (h : Forall₂ R l₁ l₂) {a : α}
    (ha : a ∈ l₁) : ∃ b ∈ l₂, R a b :=
  Forall₂.exists_of_mem_right (R := fun b a => R a b) h.flip ha

/-- What related elements agree on. -/
theorem Forall₂.map_eq {δ : Type} {l₁ : List α} {l₂ : List β} {f : α → δ} {g : β → δ}
    (h : Forall₂ R l₁ l₂) (hR : ∀ a b, R a b → f a = g b) : l₁.map f = l₂.map g := by
  induction h with
  | nil => rfl
  | cons hab _ ih => rw [map_cons, map_cons, hR _ _ hab, ih]

/-- A list with one element changed. -/
theorem forall₂_modify {R : α → α → Prop} (hrefl : ∀ a, R a a) {f : α → α} (l : List α) (i : Nat)
    (hf : ∀ a, l[i]? = some a → R a (f a)) : Forall₂ R l (l.modify i f) := by
  induction l generalizing i with
  | nil => simp
  | cons a l ih =>
    cases i with
    | zero => exact .cons (hf a rfl) (forall₂_same.mpr fun a _ => hrefl a)
    | succ i => exact .cons (hrefl a) (ih i fun b hb => hf b hb)

end List
