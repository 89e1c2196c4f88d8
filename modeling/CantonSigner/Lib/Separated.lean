import Mathlib.Data.List.Basic

/-!
# Lists joined with a separator

`[x].intercalate ls` joins lists with a separator that may occur inside them. What the
result determines are the pieces between two separators: `intercalate_eq_iff`. Lists without
the separator are their own pieces.
-/

namespace List

variable {α : Type} [DecidableEq α] {x : α} {ls ms : List (List α)}

theorem flatMap_splitOn_ne_nil (h : ls ≠ []) : ls.flatMap (splitOn x) ≠ [] := by
  cases ls with
  | nil => exact absurd rfl h
  | cons l ls =>
    rw [flatMap_cons]
    exact append_ne_nil_of_left_ne_nil (splitOn_ne_nil x l) _

omit [DecidableEq α] in
/-- Joining after joining. -/
theorem intercalate_append_of_ne_nil {sep : List α} :
    ∀ {ls : List (List α)} (_ : ls ≠ []) (_ : ms ≠ []),
      sep.intercalate (ls ++ ms) = sep.intercalate ls ++ sep ++ sep.intercalate ms
  | [l], _, hms => by
    rw [singleton_append, intercalate_cons_of_ne_nil hms, intercalate_singleton]
  | l :: l' :: ls, _, hms => by
    have ih : sep.intercalate (l' :: ls ++ ms) = _ :=
      intercalate_append_of_ne_nil (cons_ne_nil l' ls) hms
    rw [cons_append, intercalate_cons_of_ne_nil (by simp), ih,
      intercalate_cons_of_ne_nil (cons_ne_nil l' ls)]
    simp

/-- The pieces joined are the lists joined. -/
theorem intercalate_flatMap_splitOn (x : α) :
    ∀ ls : List (List α), [x].intercalate (ls.flatMap (splitOn x)) = [x].intercalate ls
  | [] => rfl
  | [l] => by rw [flatMap_singleton, intercalate_splitOn, intercalate_singleton]
  | l :: l' :: ls => by
    have ih := intercalate_flatMap_splitOn x (l' :: ls)
    rw [flatMap_cons, intercalate_append_of_ne_nil (splitOn_ne_nil x l)
      (flatMap_splitOn_ne_nil (cons_ne_nil l' ls)), ih, intercalate_splitOn,
      intercalate_cons_of_ne_nil (cons_ne_nil l' ls)]

/-- No piece contains the separator. -/
theorem not_mem_of_mem_splitOn {l piece : List α} (h : piece ∈ l.splitOn x) : x ∉ piece := by
  induction l generalizing piece with
  | nil =>
    rw [splitOn_nil] at h
    rw [mem_singleton.mp h]
    exact not_mem_nil
  | cons c l ih =>
    rw [splitOn_cons_eq_if_modifyHead] at h
    split at h
    · rcases mem_cons.mp h with rfl | h
      · exact not_mem_nil
      · exact ih h
    · rename_i hc
      obtain ⟨first, rest, hsplit⟩ := exists_cons_of_ne_nil (splitOn_ne_nil x l)
      rw [hsplit, modifyHead_cons] at h
      rcases mem_cons.mp h with rfl | h
      · have hfirst := ih (hsplit ▸ mem_cons_self)
        intro hmem
        rcases mem_cons.mp hmem with rfl | hmem
        · simp at hc
        · exact hfirst hmem
      · exact ih (hsplit ▸ mem_cons_of_mem _ h)

/-- **What joined lists determine**: their pieces. -/
theorem intercalate_eq_iff (hls : ls ≠ []) (hms : ms ≠ []) :
    [x].intercalate ls = [x].intercalate ms ↔
      ls.flatMap (splitOn x) = ms.flatMap (splitOn x) := by
  constructor
  · intro h
    rw [← intercalate_flatMap_splitOn, ← intercalate_flatMap_splitOn x ms] at h
    have hpieces (ns : List (List α)) : ∀ l ∈ ns.flatMap (splitOn x), x ∉ l := by
      intro l hl
      obtain ⟨n, -, hl⟩ := mem_flatMap.mp hl
      exact not_mem_of_mem_splitOn hl
    rw [← splitOn_intercalate x (hpieces ls) (flatMap_splitOn_ne_nil hls), h,
      splitOn_intercalate x (hpieces ms) (flatMap_splitOn_ne_nil hms)]
  · intro h
    rw [← intercalate_flatMap_splitOn, h, intercalate_flatMap_splitOn]

theorem flatMap_splitOn_of_not_mem (h : ∀ l ∈ ls, x ∉ l) : ls.flatMap (splitOn x) = ls := by
  induction ls with
  | nil => rfl
  | cons l ls ih =>
    rw [flatMap_cons, ih fun l hl => h l (mem_cons_of_mem _ hl),
      splitOn_eq_singleton (h l mem_cons_self), singleton_append]

end List
