import CantonSigner.Lib.Run

/-!
# Computations that record calls

`Traced κ α` is a value together with the arguments of the calls that were made for it, in their
order. A program in this monad makes a call by `Traced.call`; its `value` is what the same
program computes without the record, and `calls` lists what it called on.

- `Traced.fold`, `fold_value`, `fold_calls`: a fold that may fail.
-/

/-- A value with the arguments of the calls that were made for it. -/
structure Traced (κ α : Type) where
  value : α
  calls : List κ

namespace Traced

variable {κ α β σ : Type}

instance : Monad (Traced κ) where
  pure a := ⟨a, []⟩
  bind x f := ⟨(f x.value).value, x.calls ++ (f x.value).calls⟩

/-- A recorded call of a function. -/
def call (f : κ → α) (k : κ) : Traced κ α := ⟨f k, [k]⟩

/-- A value without a call. -/
@[simp] theorem pure_value (a : α) : (pure a : Traced κ α).value = a := rfl

@[simp] theorem pure_calls (a : α) : (pure a : Traced κ α).calls = [] := rfl

/-- The value is that of the plain functions. -/
@[simp] theorem bind_value (x : Traced κ α) (f : α → Traced κ β) :
    (x >>= f).value = (f x.value).value := rfl

/-- The calls of the second follow those of the first. -/
@[simp] theorem bind_calls (x : Traced κ α) (f : α → Traced κ β) :
    (x >>= f).calls = x.calls ++ (f x.value).calls := rfl

/-- A call has the value of its function. -/
@[simp] theorem call_value (f : κ → α) (k : κ) : (call f k).value = f k := rfl

/-- It is recorded with its argument. -/
@[simp] theorem call_calls (f : κ → α) (k : κ) : (call f k).calls = [k] := rfl

/-- Go on with a result that may have failed. -/
def andThen (x : Traced κ (Option α)) (f : α → Traced κ (Option β)) : Traced κ (Option β) := do
  match ← x with
  | none => pure none
  | some a => f a

/-- A computation that may fail, followed by another. -/
@[simp] theorem andThen_value (x : Traced κ (Option α)) (f : α → Traced κ (Option β)) :
    (x.andThen f).value = x.value.bind fun a => (f a).value := by
  unfold andThen
  rw [bind_value]
  cases x.value <;> rfl

/-- Nothing is called after a failure. -/
@[simp] theorem andThen_calls (x : Traced κ (Option α)) (f : α → Traced κ (Option β)) :
    (x.andThen f).calls = x.calls ++ x.value.elim [] fun a => (f a).calls := by
  unfold andThen
  rw [bind_calls]
  cases x.value <;> rfl

/-- A fold whose steps may fail. -/
def fold (f : σ → β → Traced κ (Option σ)) : σ → List β → Traced κ (Option σ)
  | s, [] => pure (some s)
  | s, b :: bs => (f s b).andThen fun s' => fold f s' bs

/-- A fold has the value of the plain fold. -/
theorem fold_value (f : σ → β → Traced κ (Option σ)) (s : σ) (bs : List β) :
    (fold f s bs).value = bs.foldlM (fun s b => (f s b).value) s := by
  induction bs generalizing s with
  | nil => rfl
  | cons b bs ih =>
    rw [fold, andThen_value, List.foldlM_cons]
    exact Option.bind_congr fun s' _ => ih s'

/-- Its calls are those of the steps that are reached. -/
theorem fold_calls (f : σ → β → Traced κ (Option σ)) (s : σ) (bs : List β) :
    (fold f s bs).calls = listAlong (fun s b => (f s b).value) (fun s b => (f s b).calls) s bs := by
  induction bs generalizing s with
  | nil => rfl
  | cons b bs ih =>
    rw [fold, andThen_calls, listAlong]
    cases (f s b).value with
    | none => rfl
    | some s' => exact congrArg _ (ih s')

end Traced
