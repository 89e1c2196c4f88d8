import Mathlib.Data.List.Basic

/-!
# Codes that can be read off the front

`PrefixCode P enc` says that what `enc` writes for an element of `P` is told from whatever
follows it. Codes are built from codes: by fields one after the other, by an optional mark,
by a number of elements. A prefix code is injective and no word of it is a prefix of another
(`PrefixCode.eq_of_prefix`).
-/

variable {A α β : Type} {P : α → Prop} {enc : α → List A}

/-- The words of the elements in `P` can be read off the front. -/
structure PrefixCode (P : α → Prop) (enc : α → List A) : Prop where
  read : ∀ {a b : α}, P a → P b → ∀ {s t : List A}, enc a ++ s = enc b ++ t → a = b ∧ s = t

namespace PrefixCode

theorem eq_of_prefix (h : PrefixCode P enc) {a b : α} (ha : P a) (hb : P b)
    (hab : enc a <+: enc b) : a = b := by
  obtain ⟨s, hs⟩ := hab
  exact (h.read ha hb (t := []) (by rw [hs, List.append_nil])).1

theorem mono {Q : α → Prop} (h : PrefixCode P enc) (hQ : ∀ a, Q a → P a) : PrefixCode Q enc :=
  ⟨fun ha hb _ _ => h.read (hQ _ ha) (hQ _ hb)⟩

/-- Words of one length. -/
theorem of_length (k : Nat) (hlen : ∀ a, P a → (enc a).length = k)
    (hinj : ∀ a b, P a → P b → enc a = enc b → a = b) : PrefixCode P enc := by
  refine ⟨fun {a b} ha hb s t h => ?_⟩
  obtain ⟨hword, hrest⟩ := List.append_inj h (by rw [hlen a ha, hlen b hb])
  exact ⟨hinj a b ha hb hword, hrest⟩

/-- A code after an injection. -/
theorem comp {Q : β → Prop} {f : β → α} (h : PrefixCode P enc) (hP : ∀ b, Q b → P (f b))
    (hinj : ∀ b c, Q b → Q c → f b = f c → b = c) : PrefixCode Q fun b => enc (f b) := by
  refine ⟨fun {b c} hb hc s t heq => ?_⟩
  obtain ⟨hword, hrest⟩ := h.read (hP b hb) (hP c hc) heq
  exact ⟨hinj b c hb hc hword, hrest⟩

/-- A header that says how long the body is. -/
theorem framed {len : Nat → List A} {body : α → List A}
    (hlen : PrefixCode (fun n => ∃ a, P a ∧ (body a).length = n) len)
    (hinj : ∀ a b, P a → P b → body a = body b → a = b) :
    PrefixCode P fun a => len (body a).length ++ body a := by
  refine ⟨fun {a b} ha hb s t h => ?_⟩
  simp only [List.append_assoc] at h
  obtain ⟨hsize, hbody⟩ := hlen.read ⟨a, ha, rfl⟩ ⟨b, hb, rfl⟩ h
  obtain ⟨hword, hrest⟩ := List.append_inj hbody hsize
  exact ⟨hinj a b ha hb hword, hrest⟩

/-- As many words as are announced. -/
theorem flatMap (h : PrefixCode P enc) : ∀ {as bs : List α}, as.length = bs.length →
    (∀ a ∈ as, P a) → (∀ b ∈ bs, P b) → ∀ {s t : List A},
    as.flatMap enc ++ s = bs.flatMap enc ++ t → as = bs ∧ s = t
  | [], [], _, _, _, _, _, heq => ⟨rfl, heq⟩
  | a :: as, b :: bs, hlen, ha, hb, s, t, heq => by
    rw [List.flatMap_cons, List.flatMap_cons, List.append_assoc, List.append_assoc] at heq
    obtain ⟨rfl, hrest⟩ := h.read (ha a List.mem_cons_self) (hb b List.mem_cons_self) heq
    obtain ⟨rfl, hst⟩ := flatMap h (Nat.succ.inj hlen)
      (fun c hc => ha c (List.mem_cons_of_mem _ hc))
      (fun c hc => hb c (List.mem_cons_of_mem _ hc)) hrest
    exact ⟨rfl, hst⟩

/-- Words that are not empty need not be counted at the end of a text. -/
theorem flatMap_inj (h : PrefixCode P enc) (hne : ∀ a, P a → enc a ≠ []) : ∀ {as bs : List α},
    (∀ a ∈ as, P a) → (∀ b ∈ bs, P b) → as.flatMap enc = bs.flatMap enc → as = bs
  | [], [], _, _, _ => rfl
  | [], b :: bs, _, hb, heq => by
    rw [List.flatMap_nil, List.flatMap_cons] at heq
    exact absurd (List.append_eq_nil_iff.mp heq.symm).1 (hne b (hb b List.mem_cons_self))
  | a :: as, [], ha, _, heq => by
    rw [List.flatMap_nil, List.flatMap_cons] at heq
    exact absurd (List.append_eq_nil_iff.mp heq).1 (hne a (ha a List.mem_cons_self))
  | a :: as, b :: bs, ha, hb, heq => by
    rw [List.flatMap_cons, List.flatMap_cons] at heq
    obtain ⟨rfl, hrest⟩ := h.read (ha a List.mem_cons_self) (hb b List.mem_cons_self) heq
    rw [flatMap_inj h hne (fun c hc => ha c (List.mem_cons_of_mem _ hc))
      (fun c hc => hb c (List.mem_cons_of_mem _ hc)) hrest]

/-- A list after its number of elements. -/
theorem counted {num : Nat → List A} (h : PrefixCode P enc) {Q : List α → Prop}
    (hnum : PrefixCode (fun n => ∃ as, Q as ∧ as.length = n) num)
    (hP : ∀ as, Q as → ∀ a ∈ as, P a) :
    PrefixCode Q fun as => num as.length ++ as.flatMap enc := by
  refine ⟨fun {as bs} has hbs s t heq => ?_⟩
  simp only [List.append_assoc] at heq
  obtain ⟨hlen, hwords⟩ := hnum.read ⟨as, has, rfl⟩ ⟨bs, hbs, rfl⟩ heq
  exact h.flatMap hlen (hP as has) (hP bs hbs) hwords

/-- An optional word after a mark. -/
theorem option {no yes : A} (hne : no ≠ yes) (h : PrefixCode P enc) {Q : Option α → Prop}
    (hP : ∀ a, Q (some a) → P a) :
    PrefixCode Q fun o => o.elim [no] fun a => yes :: enc a := by
  refine ⟨fun {o o'} ho ho' s t heq => ?_⟩
  cases o with
  | none =>
    cases o' with
    | none => exact ⟨rfl, (List.cons.inj heq).2⟩
    | some b => exact absurd (List.cons.inj heq).1 hne
  | some a =>
    cases o' with
    | none => exact absurd (List.cons.inj heq).1.symm hne
    | some b =>
      obtain ⟨rfl, hrest⟩ := h.read (hP a ho) (hP b ho') (List.cons.inj heq).2
      exact ⟨rfl, hrest⟩

end PrefixCode
