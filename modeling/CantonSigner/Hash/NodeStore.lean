import CantonSigner.Tree.Root
import CantonSigner.Lib.Ring

/-!
# The store of node hashes

The hashes of nodes are kept in a ring of `maxNodeChildren` slots. A new flow empties the
slots and leaves the write index where the last flow left it. Wherever it stands, a lookup
then answers from the last `maxNodeChildren` hashes that were stored (`store_lookup_iff`).
-/

namespace CantonSigner

open ByteCodec

/-- The store after `hash_transaction` and then these calls of `set_node_hash`. -/
def storeOf (s : NodeHashStore) (sets : List NodeHash) : NodeHashStore :=
  sets.foldl (fun s e => setNodeHash s e.1 e.2) (initNodeHashStore s)

/-- The last calls of `set_node_hash`, as many as there are slots. -/
def recentSets (sets : List NodeHash) : List NodeHash :=
  sets.drop (sets.length - maxNodeChildren)

theorem storeOf_eq_pushAll (s : NodeHashStore) (sets : List NodeHash) :
    storeOf s sets = SlotRing.pushAll (initNodeHashStore s) sets := rfl

/-- The slots hold the recent calls, and empty slots while there are few of them. -/
theorem mem_storeOf {s : NodeHashStore} {sets : List NodeHash} {e : NodeHash} (he : 0 ≤ e.1) :
    e ∈ (storeOf s sets).slots ↔ e ∈ recentSets sets := by
  have hempty : e ≠ emptySlot := by
    rintro rfl
    exact absurd he (by decide)
  have hnone : e ∉ (List.replicate maxNodeChildren emptySlot).drop sets.length := by
    rw [List.drop_replicate]
    exact fun hmem => hempty (List.mem_replicate.mp hmem).2
  rw [storeOf_eq_pushAll, ← SlotRing.mem_contents, SlotRing.contents_pushAll, initNodeHashStore,
    SlotRing.contents_fill, List.drop_append, List.length_replicate, List.mem_append]
  constructor
  · rintro (hmem | hmem)
    · exact absurd hmem hnone
    · exact hmem
  · exact .inr

theorem recentSets_sublist (sets : List NodeHash) : (recentSets sets).Sublist sets :=
  List.drop_sublist _ _

/-- Under distinct ids, a recent call is found by its id alone. -/
theorem recentSets_unique {sets : List NodeHash} (hids : (sets.map Prod.fst).Nodup)
    {e e' : NodeHash} (he : e ∈ recentSets sets) (he' : e' ∈ recentSets sets)
    (h : e.1 = e'.1) : e = e' :=
  List.inj_on_of_nodup_map hids ((recentSets_sublist sets).subset he)
    ((recentSets_sublist sets).subset he') h

/-- A lookup of the numeral of an id, after a new flow has begun and stored hashes under
distinct ids: it succeeds exactly if the id is among the recent ones, and gives the hash that
was stored for it. -/
theorem store_lookup_iff (s : NodeHashStore) (sets : List NodeHash)
    (hids : (sets.map Prod.fst).Nodup) {k : Nat} (hk : k < 2 ^ 31) :
    ((getNodeHash (storeOf s sets) (decimal k)).isSome = true ↔
      (k : Int) ∈ (recentSets sets).map Prod.fst) ∧
    ∀ hash, getNodeHash (storeOf s sets) (decimal k) = some hash ↔
      ((k : Int), hash) ∈ recentSets sets := by
  have hvalue : ∀ hash, getNodeHash (storeOf s sets) (decimal k) = some hash ↔
      ((k : Int), hash) ∈ recentSets sets := by
    intro hash
    unfold getNodeHash
    rw [atoint_decimal hk]
    constructor
    · intro h
      obtain ⟨⟨id, hash'⟩, hfind, rfl⟩ := Option.map_eq_some_iff.mp h
      obtain ⟨hmem, hid⟩ := SlotRing.exists_mem_of_find? hfind
      have hid : id = k := by simpa using hid
      subst hid
      exact (mem_storeOf (Int.natCast_nonneg k)).mp hmem
    · intro h
      have hmem := (mem_storeOf (s := s) (Int.natCast_nonneg k)).mpr h
      -- Some entry has the id, and it is this one.
      cases hfind : (storeOf s sets).find? fun e => e.1 == (k : Int) with
      | none =>
        have := List.find?_eq_none.mp hfind _ hmem
        exact absurd this (by simp)
      | some e =>
        obtain ⟨hmem', hid⟩ := SlotRing.exists_mem_of_find? hfind
        have hid : e.1 = k := by simpa using hid
        have he : e ∈ recentSets sets :=
          (mem_storeOf (by rw [hid]; exact Int.natCast_nonneg k)).mp hmem'
        rw [recentSets_unique hids he h hid]
        rfl
  refine ⟨?_, hvalue⟩
  rw [Option.isSome_iff_exists]
  constructor
  · rintro ⟨hash, h⟩
    exact List.mem_map.mpr ⟨_, (hvalue hash).mp h, rfl⟩
  · intro h
    obtain ⟨⟨id, hash⟩, hmem, rfl⟩ := List.mem_map.mp h
    exact ⟨hash, (hvalue hash).mpr hmem⟩

/-- A hash of an earlier flow is still in the ring when the flow begins; the lookups give the
new hash, and none for an id of the earlier flow. -/
theorem store_lookup_iff_leftover :
    let empty : NodeHashStore := SlotRing.init emptySlot (by decide)
    let leftover := (empty.push (1, [5])).push (3, [6])
    getNodeHash (storeOf leftover [(0, [7]), (1, [8])]) (decimal 1) = some [8] ∧
      getNodeHash (storeOf leftover [(0, [7]), (1, [8])]) (decimal 3) = none := by
  intro empty leftover
  have h := fun k => store_lookup_iff leftover [(0, [7]), (1, [8])] (by decide) (k := k)
  refine ⟨((h 1 (by decide)).2 [8]).mpr (by decide), ?_⟩
  cases hlookup : getNodeHash (storeOf leftover [(0, [7]), (1, [8])]) (decimal 3) with
  | none => rfl
  | some hash =>
    have hmem := (h 3 (by decide)).1.mp (by rw [hlookup]; rfl)
    exact absurd hmem (by decide)

end CantonSigner
