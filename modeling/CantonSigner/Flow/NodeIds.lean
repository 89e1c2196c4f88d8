import CantonSigner.Flow.Conversions
import CantonSigner.Flow.Isolation
import CantonSigner.Tree.Root

/-!
# The arithmetic of node ids

`atoint` accumulates a number in an `int`. The part's own id and the ids the tree check reads
are cut to three characters before they reach it, but `get_node_hash` hands it the children of
a node as they come. `atoint_safe_iff` says of the calls that a run makes (`Conversions.run`)
what the children that it looks up must be like for each call to stay in range.
-/

namespace CantonSigner

open ByteCodec HashingParser

/-! ## Checked arithmetic -/

/-- The numbers of an `int`. -/
def InInt (v : Int) : Prop := -2 ^ 31 ≤ v ∧ v ≤ 2 ^ 31 - 1

instance (v : Int) : Decidable (InInt v) := inferInstanceAs (Decidable (_ ∧ _))

/-- The loop of `atoint` with every operation of `res * 10 + str[i] - '0'` checked; `none` is an
overflow. -/
def atointChecked : Int → Bytes → Option Int
  | res, [] => some res
  | res, c :: cs =>
    if isDigit c then
      if InInt (res * 10) ∧ InInt (res * 10 + c.toNat) ∧ InInt (res * 10 + c.toNat - 48) then
        atointChecked (res * 10 + c.toNat - 48) cs
      else none
    else some 0

/-- The number that the digits at the start of a string stand for. -/
def leadingValue (s : Bytes) : Nat := digitsValue (s.takeWhile isDigit)

/-- The largest number that is read without an overflow: the code of the last digit is added
before `'0'` is taken off. -/
def maxAtoint : Nat := 2 ^ 31 - 1 - 48

/-- A string is safe to convert: it is no numeral of a number above the range of `int`, and no
operation overflows. -/
structure AtointSafe (s : Bytes) : Prop where
  inRange : ¬ (IsDigits s ∧ 2147483647 < digitsValue s)
  noOverflow : (atointChecked 0 s).isSome = true

theorem atointChecked_isSome_iff {s : Bytes} {v : Nat} (hv : v ≤ maxAtoint) :
    (atointChecked v s).isSome = true ↔
      (s.takeWhile isDigit).foldl (fun v c => 10 * v + (c.toNat - 48)) v ≤ maxAtoint := by
  induction s generalizing v with
  | nil => exact ⟨fun _ => hv, fun _ => rfl⟩
  | cons c s ih =>
    rw [atointChecked]
    by_cases hdigit : isDigit c = true
    · have hc := isDigit_iff.mp hdigit
      rw [if_pos hdigit, List.takeWhile_cons, if_pos hdigit, List.foldl_cons]
      have hnext : (v : Int) * 10 + c.toNat - 48 = (10 * v + (c.toNat - 48) : Nat) := by omega
      by_cases hle : 10 * v + (c.toNat - 48) ≤ maxAtoint
      · rw [if_pos, hnext]
        · exact ih hle
        · unfold InInt
          unfold maxAtoint at hle
          omega
      · rw [if_neg]
        · -- Once out of range, the number only grows.
          have hgrows : ∀ (s : Bytes) (v : Nat),
              v ≤ s.foldl (fun v c => 10 * v + (c.toNat - 48)) v := by
            intro s
            induction s with
            | nil => exact fun v => le_refl v
            | cons c s ih =>
              intro v
              exact Nat.le_trans (by omega) (ih (10 * v + (c.toNat - 48)))
          have := hgrows (s.takeWhile isDigit) (10 * v + (c.toNat - 48))
          constructor
          · exact fun h => by cases h
          · exact fun h => absurd (Nat.le_trans this h) hle
        · unfold InInt
          unfold maxAtoint at hle
          omega
    · rw [if_neg hdigit, List.takeWhile_cons, if_neg hdigit]
      exact ⟨fun _ => hv, fun _ => rfl⟩

theorem atointSafe_iff {s : Bytes} : AtointSafe s ↔ leadingValue s ≤ maxAtoint := by
  have hchecked : (atointChecked 0 s).isSome = true ↔ leadingValue s ≤ maxAtoint :=
    atointChecked_isSome_iff (v := 0) (Nat.zero_le _)
  constructor
  · exact fun h => hchecked.mp h.noOverflow
  · intro h
    refine ⟨?_, hchecked.mpr h⟩
    rintro ⟨hdigits, hlarge⟩
    have hall : s.takeWhile isDigit = s :=
      List.takeWhile_eq_self_iff.mpr fun c hc => isDigit_iff.mpr (hdigits c hc)
    unfold leadingValue maxAtoint at h
    rw [hall] at h
    omega

/-- Three characters are safe. -/
theorem atointSafe_of_short {s : Bytes} (h : s.length ≤ 3) : AtointSafe s := by
  have hdigits : IsDigits (s.takeWhile isDigit) :=
    fun c hc => isDigit_iff.mp (List.mem_takeWhile_imp hc)
  have hlength : (s.takeWhile isDigit).length ≤ 3 :=
    Nat.le_trans (List.takeWhile_sublist _).length_le h
  refine atointSafe_iff.mpr ?_
  calc leadingValue s
      ≤ 10 ^ (s.takeWhile isDigit).length := (digitsValue_lt hdigits).le
    _ ≤ 10 ^ 3 := Nat.pow_le_pow_right (by decide) hlength
    _ ≤ maxAtoint := by decide

/-! ## The children that are looked up -/

/-- The children whose hashes `encode_repeated_node_ids` looks up: up to the first one that is
not in the store. -/
def lookupsOfIds (lookup : Bytes → Option Bytes) : List Bytes → List Bytes
  | [] => []
  | id :: ids => id :: if (lookup id).isSome then lookupsOfIds lookup ids else []

/-- The lookups for the children list of a node; a list that is too long is not encoded. -/
def lookupsOfChildren (lookup : Bytes → Option Bytes) (ids : List Bytes) : List Bytes :=
  if maxNodeChildren < ids.length then [] else lookupsOfIds lookup ids

section Lookups

variable (d : Device) (lookup : Bytes → Option Bytes) (tx : DamlTransaction)

/-- The lookups of an exercise node, at the end of its encoding. -/
def exerciseLookups (ctx : Ctx) (e : Exercise) : List Bytes :=
  if (HashingParser.decodeExercise d lookup tx ctx e).isSome then
    lookupsOfChildren lookup e.children
  else []

/-- The lookups for a field of a v1 node. -/
def kindLookups (ctx : Ctx) (f : Wire.Field) : List Bytes :=
  match f.tag with
  | 3 => (f.payload.content.bind decodeExercise).elim [] (exerciseLookups d lookup tx ctx)
  | 4 => (f.payload.content.bind decodeRollback).elim [] fun r =>
      lookupsOfChildren lookup r.children
  | _ => []

/-- The lookups for a field of a node part. -/
def itemLookups (ctx : Ctx) (f : Wire.Field) : List Bytes :=
  match f.tag with
  | 1000 => f.payload.content.elim [] fun b =>
      listAlong (fun ctx f => (Conversions.kindsOfField f).bind
        (List.foldlM (nodeDecodeCallback d lookup tx) ctx)) (kindLookups d lookup tx) ctx
        (Wire.fieldsBefore b.length b)
  | _ => []

end Lookups

/-- The children whose hashes are looked up while a part is processed. -/
def partLookups (d : Device) (st : Prepared) (buf : Bytes) : List Bytes :=
  match st.txState with
  | .damlNodes =>
    let lookup := getNodeHash st.nodeHashes
    listAlong (fun ctx f => (Conversions.itemsOfField f).bind
      (List.foldlM (decodeNodeItem d lookup st.header) ctx)) (itemLookups d lookup st.header)
      ⟨-1, false, false, ⟨⟨[], st.hashErr⟩, -1⟩, st.tree, st.values⟩
      (Wire.fieldsBefore buf.length buf)
  | _ => []

/-- Those of one event, if it completes a message of a prepared transaction. -/
def eventLookups (d : Device) (a : App) (e : Event) : List Bytes :=
  match a.signingType, messageOf d a e with
  | .preparedTransaction, some (_, buf) => partLookups d a.prepared buf
  | _, _ => []

/-- Those of a run. -/
def lookedUpChildren (d : Device) : App → List Event → List Bytes
  | _, [] => []
  | a, e :: es => eventLookups d a e ++ lookedUpChildren d (step d a e).1 es

/-! ## Safe calls -/

/-- Calls and lookups: every call is safe exactly if the lookups are. -/
def SafeIff (calls lookups : List Bytes) : Prop :=
  (∀ s ∈ calls, AtointSafe s) ↔ ∀ s ∈ lookups, leadingValue s ≤ maxAtoint

theorem SafeIff.append {xs ys ls ms : List Bytes} (h : SafeIff xs ls) (h' : SafeIff ys ms) :
    SafeIff (xs ++ ys) (ls ++ ms) := by
  unfold SafeIff at *
  rw [List.forall_mem_append, List.forall_mem_append, h, h']

theorem safeIff_nil : SafeIff [] [] := iff_of_true (List.forall_mem_nil _) (List.forall_mem_nil _)

theorem safeIff_of_short {calls : List Bytes} (h : ∀ s ∈ calls, s.length ≤ 3) :
    SafeIff calls [] :=
  iff_of_true (fun s hs => atointSafe_of_short (h s hs)) (List.forall_mem_nil _)

/-- Calls that have no guard. -/
theorem safeIff_self (calls : List Bytes) : SafeIff calls calls := by
  unfold SafeIff
  simp only [atointSafe_iff]

theorem safeIff_listAlong {σ α : Type} {f g : σ → α → Option σ} {calls lookups : σ → α → List Bytes}
    (hvalue : ∀ s a, f s a = g s a) (h : ∀ s a, SafeIff (calls s a) (lookups s a)) (l : List α)
    (s : σ) : SafeIff (listAlong f calls s l) (listAlong g lookups s l) := by
  induction l generalizing s with
  | nil => exact safeIff_nil
  | cons a l ih =>
    rw [listAlong, listAlong, hvalue]
    refine (h s a).append ?_
    cases g s a with
    | none => exact safeIff_nil
    | some s' => exact ih s'

/-! ## The guards -/

theorem nodeIdFromStr_short {s x : Bytes} (h : x ∈ (Conversions.nodeIdFromStr s).calls) :
    x.length ≤ 3 := by
  unfold Conversions.nodeIdFromStr at h
  split at h
  · cases h
  · rename_i hguard
    rw [List.mem_singleton.mp h]
    simp only [Bool.or_eq_true, decide_eq_true_eq, not_or] at hguard
    omega

theorem treeCheckInit_short {roots : List Bytes} {n : Int} {x : Bytes}
    (h : x ∈ (Conversions.treeCheckInit roots n).calls) : x.length ≤ 3 := by
  unfold Conversions.treeCheckInit at h
  split at h
  · cases h
  · rcases roots with _ | ⟨root, _ | ⟨_, _⟩⟩
    · cases h
    · rw [Traced.bind_calls, Traced.pure_calls, List.append_nil] at h
      exact nodeIdFromStr_short h
    · cases h

theorem treeClaimChildren_short {t : TreeCheck} {parentId : Int} {children : List Bytes}
    {x : Bytes} (h : x ∈ (Conversions.treeClaimChildren t parentId children).calls) :
    x.length ≤ 3 := by
  induction children generalizing t with
  | nil => cases h
  | cons c cs ih =>
    rw [Conversions.treeClaimChildren, Traced.bind_calls] at h
    rcases List.mem_append.mp h with h | h
    · exact nodeIdFromStr_short h
    · rcases hclaim : claimChild t parentId (Conversions.nodeIdFromStr c).value with ⟨t', _ | _⟩
      · rw [hclaim] at h
        cases h
      · rw [hclaim] at h
        exact ih h

theorem claimChildren_short {ctx : Ctx} {children : List Bytes} {x : Bytes}
    (h : x ∈ (Conversions.claimChildren ctx children).calls) : x.length ≤ 3 := by
  unfold Conversions.claimChildren at h
  split at h
  · cases h
  · rw [Traced.bind_calls, Traced.pure_calls, List.append_nil] at h
    exact treeClaimChildren_short h

theorem decodeNodeIdField_short {tx : DamlTransaction} {ctx : Ctx} {s x : Bytes}
    (h : x ∈ (Conversions.decodeNodeIdField tx ctx s).calls) : x.length ≤ 3 := by
  unfold Conversions.decodeNodeIdField at h
  split at h
  · cases h
  · rename_i hlen
    rw [Traced.bind_calls, Traced.pure_calls, List.append_nil] at h
    rw [List.mem_singleton.mp h]
    have := (List.takeWhile_sublist (· != 0) (l := s)).length_le
    unfold cstr
    omega

/-! ## The lookups -/

section Calls

variable {d : Device} {store : NodeHashStore} {tx : DamlTransaction}

theorem encodeNodeIds_calls (w : Hw) (ids : List Bytes) :
    (Conversions.encodeNodeIds store w ids).calls = lookupsOfIds (getNodeHash store) ids := by
  induction ids generalizing w with
  | nil => rfl
  | cons id ids ih =>
    rw [Conversions.encodeNodeIds, Traced.bind_calls, Conversions.getNodeHash_value, lookupsOfIds]
    refine congrArg (id :: ·) ?_
    cases getNodeHash store id with
    | none => rfl
    | some h => exact ih _

theorem encodeChildren_calls (w : Hw) (ids : List Bytes) :
    (Conversions.encodeChildren store w ids).calls =
      lookupsOfChildren (getNodeHash store) ids := by
  unfold Conversions.encodeChildren lookupsOfChildren
  split
  · rfl
  · exact encodeNodeIds_calls ..

theorem hashExercise_calls (s : VState) (e : Exercise) (seed : Bytes) :
    (Conversions.hashExercise d store s e seed).calls =
      if (HashingParser.hashExercise d (getNodeHash store) s e seed).isSome then
        lookupsOfChildren (getNodeHash store) e.children
      else [] := by
  rw [← Conversions.hashExercise_value]
  unfold Conversions.hashExercise
  dsimp only
  generalize (HashingParser.decodeValueFields d .chosenValue _ e.chosenValue).bind _ = values
  cases values with
  | none => rfl
  | some s =>
    dsimp only
    rw [Traced.bind_calls, Traced.pure_calls, List.append_nil]
    exact encodeChildren_calls ..

/-- The claim of an exercise node is guarded; the lookups are not. -/
theorem safeIff_exercise (ctx : Ctx) (e : Exercise) :
    SafeIff (Conversions.decodeExercise d store tx ctx e).calls
      (exerciseLookups d (getNodeHash store) tx ctx e) := by
  unfold exerciseLookups
  rw [← Conversions.decodeExercise_value]
  unfold Conversions.decodeExercise
  split
  · exact safeIff_nil
  · dsimp only
    rw [Traced.bind_calls, Traced.bind_value]
    have hclaim {ctx : Ctx} := safeIff_of_short
      fun x (hx : x ∈ (Conversions.claimChildren ctx e.children).calls) => claimChildren_short hx
    refine hclaim.append ?_
    rcases findSeed tx _ with _ | _ | seed
    · exact safeIff_nil
    · exact safeIff_nil
    · rw [Traced.bind_calls, Traced.pure_calls, List.append_nil, hashExercise_calls,
        Traced.bind_value, Traced.pure_value, Option.isSome_map, Conversions.hashExercise_value]
      exact safeIff_self _

theorem safeIff_malformedExercise (ctx : Ctx) (b : Bytes) :
    SafeIff (Conversions.decodeMalformedExercise ctx b).calls [] := by
  unfold Conversions.decodeMalformedExercise
  split
  · exact safeIff_nil
  · split
    · exact safeIff_nil
    · refine safeIff_of_short fun x hx => ?_
      rw [Traced.bind_calls, Traced.pure_calls, List.append_nil] at hx
      exact claimChildren_short hx

theorem safeIff_kind (ctx : Ctx) (f : Wire.Field) :
    SafeIff (Conversions.nodeDecodeCallback d store tx ctx f).calls
      (kindLookups d (getNodeHash store) tx ctx f) := by
  unfold Conversions.nodeDecodeCallback
  split
  case h_3 htag =>
    simp only [kindLookups, htag]
    cases f.payload.content with
    | none => exact safeIff_nil
    | some b =>
      dsimp only [Option.bind_some]
      cases decodeExercise b with
      | none => exact safeIff_malformedExercise ctx b
      | some e => exact safeIff_exercise ctx e
  case h_4 htag =>
    simp only [kindLookups, htag]
    cases f.payload.content.bind decodeRollback with
    | none => exact safeIff_nil
    | some r =>
      have hclaim := safeIff_of_short
        fun x (hx : x ∈ (Conversions.claimChildren ctx r.children).calls) => claimChildren_short hx
      have hlookups := safeIff_self (lookupsOfChildren (getNodeHash store) r.children)
      simpa [Conversions.decodeRollback, Conversions.encodeRollback, encodeChildren_calls] using
        hclaim.append hlookups
  all_goals
    simp only [kindLookups, *]
    exact safeIff_nil

theorem safeIff_item (ctx : Ctx) (f : Wire.Field) :
    SafeIff (Conversions.decodeNodeField d store tx ctx f).calls
      (itemLookups d (getNodeHash store) tx ctx f) := by
  unfold Conversions.decodeNodeField
  split
  · rename_i htag
    simp only [itemLookups, htag]
    cases f.payload.callbackBytes with
    | none => exact safeIff_nil
    | some s => exact safeIff_of_short fun x hx => decodeNodeIdField_short hx
  · rename_i htag
    simp only [itemLookups, htag]
    cases f.payload.content with
    | none => exact safeIff_nil
    | some b =>
      dsimp only [Option.elim_some]
      rw [Conversions.streamed_calls]
      exact safeIff_listAlong (Conversions.nodeDecodeCallback_value d store tx) safeIff_kind _ _
  · simp only [itemLookups, *]
    exact safeIff_nil

end Calls

/-! ## Runs -/

theorem safeIff_part (d : Device) (parsed : Bool) (st : Prepared) (buf : Bytes) :
    SafeIff (Conversions.processPreparedTxPart d parsed st buf).calls (partLookups d st buf) := by
  unfold Conversions.processPreparedTxPart partLookups
  cases st.txState with
  | damlTxPart =>
    cases decodeDamlTransaction buf with
    | none => exact safeIff_nil
    | some tx =>
      refine safeIff_of_short fun x hx => ?_
      dsimp only [Conversions.receiveHeader] at hx
      rw [Traced.bind_calls, Traced.pure_calls, List.append_nil] at hx
      exact treeCheckInit_short hx
  | damlNodes =>
    dsimp only [Conversions.receiveNode]
    rw [Traced.bind_calls, Traced.pure_calls, List.append_nil, Conversions.hashNodePart,
      Conversions.streamed_calls]
    exact safeIff_listAlong (Conversions.decodeNodeField_value d st.nodeHashes st.header)
      safeIff_item _ _
  | metadata => exact safeIff_nil
  | metadataInputContracts => exact safeIff_nil

/-- A chunk changes nothing that the message processor reads of a prepared transaction. -/
theorem processNextChunk_frame (d : Device) (a : App) (more msgEnd : Bool) (data : Bytes) :
    (processNextChunk d a more msgEnd data).1.signingType = a.signingType ∧
      (processNextChunk d a more msgEnd data).1.prepared = a.prepared := by
  unfold processNextChunk
  split
  · exact ⟨rfl, rfl⟩
  · split
    · exact ⟨rfl, rfl⟩
    · dsimp only
      split <;> exact ⟨rfl, rfl⟩

theorem safeIff_answer (d : Device) (a : App) (buf : Bytes) :
    SafeIff (Conversions.processAndAnswer d a buf).calls
      (if a.signingType = .preparedTransaction then partLookups d a.prepared buf else []) := by
  unfold Conversions.processAndAnswer
  split
  · -- Metadata over which the session ends names no node.
    rename_i hover
    simp only [App.headerOverwritten, Bool.and_eq_true, decide_eq_true_eq] at hover
    have hstate : a.prepared.txState = .metadata := hover.1.2
    rw [if_pos hover.1.1, partLookups, hstate]
    exact safeIff_nil
  · rw [Traced.bind_calls, Traced.pure_calls, List.append_nil]
    unfold Conversions.processMessage
    cases htype : a.signingType with
    | preparedTransaction =>
      rw [if_pos rfl, Traced.bind_calls, Traced.pure_calls, List.append_nil]
      exact safeIff_part ..
    | hash => exact safeIff_nil
    | untypedVersionedMessage => exact safeIff_nil

theorem safeIff_step (d : Device) (a : App) (e : Event) :
    SafeIff (Conversions.step d a e).calls (eventLookups d a e) := by
  unfold Conversions.step eventLookups messageOf
  cases hreq : request a e with
  | next more msgEnd data =>
    obtain ⟨htype, hprep⟩ := processNextChunk_frame d a more msgEnd data
    dsimp only
    by_cases hsw : (processNextChunk d a more msgEnd data).2.1 = 0
    · rw [if_neg (not_not_intro hsw), if_pos hsw]
      cases (processNextChunk d a more msgEnd data).2.2 with
      | none => cases a.signingType <;> exact safeIff_nil
      | some buf =>
        have hanswer := safeIff_answer d (processNextChunk d a more msgEnd data).1 buf
        rw [htype, hprep] at hanswer
        cases h : a.signingType with
        | preparedTransaction => simpa [h] using hanswer
        | hash => simpa [h] using hanswer
        | untypedVersionedMessage => simpa [h] using hanswer
    · rw [if_pos hsw, if_neg hsw]
      cases a.signingType <;> exact safeIff_nil
  | untouched => cases a.signingType <;> exact safeIff_nil
  | getPublicKey => cases a.signingType <;> exact safeIff_nil
  | first => cases a.signingType <;> exact safeIff_nil
  | decide => cases a.signingType <;> exact safeIff_nil

theorem safeIff_run (d : Device) (a : App) (es : List Event) :
    SafeIff (Conversions.run d a es).calls (lookedUpChildren d a es) := by
  induction es generalizing a with
  | nil => exact safeIff_nil
  | cons e es ih =>
    rw [Conversions.run, Traced.bind_calls, lookedUpChildren, Conversions.step_value]
    exact (safeIff_step d a e).append (ih _)

/-- **Node id arithmetic**: in a run of the app, every call of `atoint` is safe exactly if every
child whose hash is looked up begins with digits of a number up to `maxAtoint`. -/
theorem atoint_safe_iff (d : Device) (allowBlindSign : Bool) (es : List Event) :
    (∀ s ∈ (Conversions.run d (App.powerUp allowBlindSign) es).calls, AtointSafe s) ↔
      ∀ s ∈ lookedUpChildren d (App.powerUp allowBlindSign) es, leadingValue s ≤ maxAtoint :=
  safeIff_run d _ es

/-- A rollback node with one child whose id is past the range of `int`. -/
def longChild : List Event :=
  (preparedCommands [Host.headerOf ["0"] 1 [], Host.node (rollbackPart "0" [["2147483648"]])]
    (Host.metadataOf 0)).map .apdu

/-- Its id reaches `atoint` in the hash lookup. -/
theorem atoint_overflows_longChild :
    ¬ ∀ (d : Device) (allowBlindSign : Bool) (es : List Event),
      ∀ s ∈ (Conversions.run d (App.powerUp allowBlindSign) es).calls,
        ¬ (IsDigits s ∧ 2147483647 < digitsValue s) ∧ (atointChecked 0 s).isSome = true := by
  intro h
  have hmem : str "2147483648" ∈
      (Conversions.run testDevice (App.powerUp true) longChild).calls := by decide +kernel
  have hnumeral : IsDigits (str "2147483648") := by decide
  exact (h testDevice true longChild _ hmem).1 ⟨hnumeral, by decide⟩

end CantonSigner
