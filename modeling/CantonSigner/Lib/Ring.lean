import Mathlib.Data.List.Basic
import Mathlib.Data.List.Rotate

/-!
# Overwriting rings

A fixed number of slots written in turn: `push` overwrites the slot at the
write index and moves the index on, wrapping at the end. The slot count and the
bound on the index are fields of the structure.

- `mem_push`: what a ring holds after a `push` is the new entry or an entry it
  held before, so a fact about every entry survives every push
  (`forall_push`);
- `exists_mem_of_find?`: a successful search names an entry of the ring;
- `contents`: the entries from the oldest on. A push takes the oldest off and adds
  the new one (`contents_push`), wherever the write index stands;
- `pushAll`: after many pushes, the last `n` entries are there (`mem_pushAll`) and nothing
  older is (`mem_of_mem_pushAll`).
-/

/-- A ring of `n` slots and the index the next write goes to. -/
structure SlotRing (α : Type) (n : Nat) where
  slots : List α
  length_slots : slots.length = n
  next : Nat
  next_lt : next < n

namespace SlotRing

variable {α : Type} {n : Nat}

/-- Overwrite the slot at the write index and advance it. -/
def push (r : SlotRing α n) (a : α) : SlotRing α n where
  slots := r.slots.set r.next a
  length_slots := by rw [List.length_set, r.length_slots]
  next := (r.next + 1) % n
  next_lt := Nat.mod_lt _ (Nat.lt_of_le_of_lt (Nat.zero_le _) r.next_lt)

/-- Fill every slot with one value, keeping the write index. -/
def fill (r : SlotRing α n) (a : α) : SlotRing α n where
  slots := List.replicate n a
  length_slots := List.length_replicate
  next := r.next
  next_lt := r.next_lt

/-- The ring with every slot filled and the write index at 0. -/
def init (a : α) (h : 0 < n) : SlotRing α n where
  slots := List.replicate n a
  length_slots := List.length_replicate
  next := 0
  next_lt := h

/-- The first entry that satisfies `p`, in slot order. -/
def find? (r : SlotRing α n) (p : α → Bool) : Option α := r.slots.find? p

theorem mem_push {r : SlotRing α n} {a b : α} (h : b ∈ (r.push a).slots) :
    b = a ∨ b ∈ r.slots := by
  have := List.mem_or_eq_of_mem_set h
  exact this.symm

/-- A fact about every entry survives a push that establishes it. -/
theorem forall_push {P : α → Prop} {r : SlotRing α n} {a : α} (ha : P a)
    (hr : ∀ b ∈ r.slots, P b) : ∀ b ∈ (r.push a).slots, P b := by
  intro b hb
  rcases mem_push hb with rfl | hb
  · exact ha
  · exact hr b hb

theorem forall_fill {P : α → Prop} (r : SlotRing α n) {a : α} (ha : P a) :
    ∀ b ∈ (r.fill a).slots, P b := by
  intro b hb
  rw [List.eq_of_mem_replicate hb]
  exact ha

theorem exists_mem_of_find? {r : SlotRing α n} {p : α → Bool} {a : α}
    (h : r.find? p = some a) : a ∈ r.slots ∧ p a = true :=
  ⟨List.mem_of_find?_eq_some h, List.find?_some h⟩

/-- The entries from the oldest on. -/
def contents (r : SlotRing α n) : List α := r.slots.rotate r.next

@[simp] theorem mem_contents {r : SlotRing α n} {a : α} : a ∈ r.contents ↔ a ∈ r.slots :=
  List.mem_rotate

theorem contents_fill (r : SlotRing α n) (a : α) : (r.fill a).contents = List.replicate n a := by
  unfold contents fill
  exact List.rotate_replicate ..

theorem contents_push (r : SlotRing α n) (a : α) : (r.push a).contents =
    r.contents.tail ++ [a] := by
  have hlen : r.next < r.slots.length := by
    rw [r.length_slots]
    exact r.next_lt
  have hn : (r.slots.set r.next a).length = n := (r.push a).length_slots
  have hpushed : (r.push a).contents = (r.slots.set r.next a).rotate (r.next + 1) := by
    show (r.slots.set r.next a).rotate ((r.next + 1) % n) = _
    rw [← List.rotate_mod _ (r.next + 1), hn]
  -- The new entry stands between the slots before the write index and those after it.
  have hset : r.slots.set r.next a =
      (r.slots.take r.next ++ [a]) ++ r.slots.drop (r.next + 1) := by
    rw [List.set_eq_take_append_cons_drop, if_pos hlen]
    simp
  have hnew : (r.slots.take r.next ++ [a]).length = r.next + 1 := by
    rw [List.length_append, List.length_take, List.length_singleton]
    omega
  rw [hpushed, hset, ← hnew, List.rotate_append_length_eq]
  unfold contents
  rw [List.rotate_eq_drop_append_take hlen.le, List.drop_eq_getElem_cons hlen, List.cons_append,
    List.tail_cons, hnew, List.append_assoc]

@[simp] theorem length_contents (r : SlotRing α n) : r.contents.length = n := by
  rw [contents, List.length_rotate, r.length_slots]

/-- Push these entries, one after the other. -/
def pushAll (r : SlotRing α n) (es : List α) : SlotRing α n := es.foldl push r

theorem pushAll_concat (r : SlotRing α n) (es : List α) (e : α) :
    r.pushAll (es ++ [e]) = (r.pushAll es).push e := List.foldl_concat ..

theorem contents_pushAll (r : SlotRing α n) (es : List α) :
    (r.pushAll es).contents = (r.contents ++ es).drop es.length := by
  induction es using List.reverseRecOn with
  | nil => simp [pushAll]
  | append_singleton es e ih =>
    have hlen : 0 < n := Nat.lt_of_le_of_lt (Nat.zero_le _) r.next_lt
    -- Dropping one more entry still leaves the new one.
    have hle : es.length + 1 ≤ (r.contents ++ es).length := by
      rw [List.length_append, length_contents]
      omega
    rw [pushAll_concat, contents_push, ih, List.tail_drop, List.length_append,
      List.length_singleton, ← List.append_assoc, List.drop_append_of_le_length hle]

/-- An entry stays while fewer than `n` entries follow it. -/
theorem mem_pushAll (r : SlotRing α n) {before after : List α} {e : α} (h : after.length < n) :
    e ∈ (r.pushAll (before ++ e :: after)).slots := by
  rw [← mem_contents, contents_pushAll, ← List.append_assoc]
  have hle : (before ++ e :: after).length ≤ (r.contents ++ before).length := by
    simp only [List.length_append, List.length_cons, length_contents]
    omega
  rw [List.drop_append_of_le_length hle]
  exact List.mem_append_right _ List.mem_cons_self

/-- Once `n` entries have come, only they are there. -/
theorem mem_of_mem_pushAll {r : SlotRing α n} {before after : List α} {x : α}
    (h : n ≤ after.length) (hx : x ∈ (r.pushAll (before ++ after)).slots) : x ∈ after := by
  rw [← mem_contents, contents_pushAll, ← List.append_assoc] at hx
  have hle : (r.contents ++ before).length ≤ (before ++ after).length := by
    simp only [List.length_append, length_contents]
    omega
  rw [List.drop_append, List.drop_eq_nil_of_le hle, List.nil_append] at hx
  exact List.mem_of_mem_drop hx

end SlotRing
