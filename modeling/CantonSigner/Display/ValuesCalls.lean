import CantonSigner.Display.Agreement
import CantonSigner.Model.TestDevice
import Mathlib.Data.Finset.Card
import Mathlib.Data.Set.Function

/-!
# Calls into the value check

The value check is called in many orders while a transaction arrives. `Cleared` says of a
sequence of calls, without a store, what the verdict stands for: which holdings and contracts
were reported and what the last screen shows.

- `Fine`: what keeps the check from giving up, one clause for each kind of call;
- `BoundScreen.Allows`: what the last screen asks of the holdings;
- `fine_concat`: what the next call must meet.
-/

namespace CantonSigner

open ByteCodec

/-! ## Calls -/

/-- A call into the value check, with the texts that it keeps digests of. -/
inductive ValuesCall where
  | recordUsed (contractId : Option Bytes)
  | holding (owner amount admin : Bytes) (instrument : Option Bytes)
  | unknownTemplate
  | unreadableHolding
  | parseFailure
  | disclosed (contractId : Option Bytes)
  | bind (fields : List TxField) (destination : Destination) (amountCheck : AmountCheck)

/-- A call on the store. -/
def ValuesCall.run (d : Device) (s : ValuesStore) : ValuesCall → ValuesStore
  | .recordUsed id => valuesRecordUsedContract d s id
  | .holding owner amount admin instrument =>
    valuesReportHolding s ⟨d.sha owner, d.sha amount, d.sha admin⟩ (instrument.map d.sha)
  | .unknownTemplate | .unreadableHolding | .parseFailure => s.giveUp
  | .disclosed id => valuesCheckDisclosedContract d s id
  | .bind fields destination amountCheck => valuesBindFromDisplay d s fields destination amountCheck

/-- The store after these calls, from the reset. -/
def valuesAfter (d : Device) (calls : List ValuesCall) : ValuesStore :=
  calls.foldl (ValuesCall.run d) valuesCheckReset

/-! ## What the calls say -/

/-- A holding by its texts. -/
structure HoldingText where
  owner : Bytes
  amount : Bytes
  admin : Bytes
  instrument : Option Bytes
deriving Repr, DecidableEq

namespace ValuesCall

/-- The call reports a create node that cannot be accounted for. -/
def isFailure : ValuesCall → Bool
  | .unknownTemplate | .unreadableHolding | .parseFailure => true
  | _ => false

/-- The holding that is reported. -/
def holding? : ValuesCall → Option HoldingText
  | .holding owner amount admin instrument => some ⟨owner, amount, admin, instrument⟩
  | _ => none

/-- The contract that is recorded. -/
def recorded? : ValuesCall → Option Bytes
  | .recordUsed id => id
  | _ => none

end ValuesCall

/-- The holdings reported. -/
def holdingsOf (calls : List ValuesCall) : List HoldingText := calls.filterMap ValuesCall.holding?

/-- The instruments that the holdings name. -/
def instrumentsOf (calls : List ValuesCall) : List Bytes :=
  (holdingsOf calls).filterMap HoldingText.instrument

/-- The contracts recorded. -/
def recordedOf (calls : List ValuesCall) : List Bytes := calls.filterMap ValuesCall.recorded?

/-- What a screen shows in the roles that are compared. -/
structure BoundScreen where
  destination : Destination
  account : Option Bytes
  amount : Option Bytes
  admin : Option Bytes
  sender : Option Bytes
  instrument : Option Bytes
deriving Repr, DecidableEq

/-- The screen of a bind. -/
def ValuesCall.screen? (d : Device) : ValuesCall → Option BoundScreen
  | .bind fields destination amountCheck => some
    { destination := destination
      account := match destination with
        | .sender => shownText d fields .sender
        | .receiver => shownText d fields .receiver
        | .none => none
      amount := if amountCheck = .comparable then shownText d fields .amount else none
      admin := shownText d fields .admin
      sender := shownText d fields .sender
      instrument := shownText d fields .instrument }
  | _ => none

/-- The last screen bound. -/
def lastScreen (d : Device) (calls : List ValuesCall) : Option BoundScreen :=
  (calls.filterMap (ValuesCall.screen? d)).getLast?

/-- Nothing made the check give up: no create node was left unaccounted for, at most four
holdings of one instrument were reported, at most 32 contracts were recorded, and every
disclosed contract was among those recorded before its check. -/
structure Fine (calls : List ValuesCall) : Prop where
  accounted : ∀ c ∈ calls, c.isFailure = false
  few : (holdingsOf calls).length ≤ 4
  instrument : ∀ i ∈ instrumentsOf calls, ∀ j ∈ instrumentsOf calls, i = j
  contracts : (recordedOf calls).toFinset.card ≤ 32
  disclosed : ∀ before id after, calls = before ++ .disclosed (some id) :: after →
    id ∈ recordedOf before

/-- The value ends up with account `D`. -/
structure BoundScreen.PaidTo (s : BoundScreen) (D : Bytes) (hs : List HoldingText) : Prop where
  owners : ∀ h ∈ hs, h.owner = D ∨ s.sender = some h.owner
  owned : hs.countP (fun h => h.owner = D) = 1 ∨
    s.destination = .receiver ∧ s.sender = some D ∧ hs.countP (fun h => h.owner = D) ≤ 2
  amount : ∃ h ∈ hs, h.owner = D ∧ ∀ a ∈ s.amount, h.amount = a
  admin : ∀ a ∈ s.admin, ∀ h ∈ hs, h.admin = a
  instrument : ∀ h ∈ hs, ∀ i ∈ h.instrument, s.instrument = some i

/-- What a screen asks of the holdings: none, if it moves nothing, or else that its account
is paid. -/
def BoundScreen.Allows (s : BoundScreen) (hs : List HoldingText) : Prop :=
  s.destination = .none ∧ hs = [] ∨
    s.destination ≠ .none ∧ ∃ D, s.account = some D ∧ s.PaidTo D hs

/-- What the verdict stands for. -/
def Cleared (d : Device) (calls : List ValuesCall) : Prop :=
  Fine calls ∧ ∃ s, lastScreen d calls = some s ∧ s.Allows (holdingsOf calls)

/-! ## One more call -/

/-- What the next call must meet for the check not to give up. -/
def Admits (calls : List ValuesCall) : ValuesCall → Prop
  | .recordUsed id => (recordedOf calls ++ id.toList).toFinset.card ≤ 32
  | .holding _ _ _ instrument => (holdingsOf calls).length < 4 ∧
      ∀ i ∈ instrument, ∀ j ∈ instrumentsOf calls, i = j
  | .unknownTemplate | .unreadableHolding | .parseFailure => False
  | .disclosed id => ∀ i ∈ id, i ∈ recordedOf calls
  | .bind .. => True

variable {d : Device} {calls : List ValuesCall} {c : ValuesCall}

theorem holdingsOf_concat : holdingsOf (calls ++ [c]) = holdingsOf calls ++ c.holding?.toList := by
  rw [holdingsOf, List.filterMap_append]
  cases h : c.holding? <;> simp [holdingsOf, h]

theorem recordedOf_concat :
    recordedOf (calls ++ [c]) = recordedOf calls ++ c.recorded?.toList := by
  rw [recordedOf, List.filterMap_append]
  cases h : c.recorded? <;> simp [recordedOf, h]

theorem instrumentsOf_concat : instrumentsOf (calls ++ [c]) =
    instrumentsOf calls ++ (c.holding?.bind HoldingText.instrument).toList := by
  rw [instrumentsOf, holdingsOf_concat, List.filterMap_append]
  cases h : c.holding? with
  | none => simp [instrumentsOf]
  | some x => cases hi : x.instrument <;> simp [instrumentsOf, hi]

theorem lastScreen_concat :
    lastScreen d (calls ++ [c]) = (c.screen? d).or (lastScreen d calls) := by
  rw [lastScreen, List.filterMap_append]
  cases h : c.screen? d <;> simp [lastScreen, h]

/-- The disclosed contracts before the last call, and the last call. -/
theorem disclosed_concat :
    (∀ before id after, calls ++ [c] = before ++ .disclosed (some id) :: after →
      id ∈ recordedOf before) ↔
    (∀ before id after, calls = before ++ .disclosed (some id) :: after → id ∈ recordedOf before) ∧
      ∀ id, c = .disclosed (some id) → id ∈ recordedOf calls := by
  constructor
  · intro h
    refine ⟨fun before id after heq => ?_, fun id heq => ?_⟩
    · exact h before id (after ++ [c]) (by rw [heq]; simp)
    · exact h calls id [] (by rw [heq])
  · rintro ⟨hbefore, hlast⟩ before id after heq
    rcases List.eq_nil_or_concat after with rfl | ⟨after, x, rfl⟩
    · obtain ⟨rfl, hc⟩ := List.append_inj' heq rfl
      exact hlast id (List.singleton_inj.mp hc)
    · rw [List.concat_eq_append, ← List.cons_append, ← List.append_assoc] at heq
      exact hbefore before id after (List.append_inj' heq rfl).1

/-- Dropping the last call. -/
theorem Fine.init (h : Fine (calls ++ [c])) : Fine calls where
  accounted x hx := h.accounted x (List.mem_append_left _ hx)
  few := by
    have hfew := h.few
    rw [holdingsOf_concat, List.length_append] at hfew
    omega
  instrument i hi j hj := by
    refine h.instrument i ?_ j ?_ <;> rw [instrumentsOf_concat]
    · exact List.mem_append_left _ hi
    · exact List.mem_append_left _ hj
  contracts := by
    have hcontracts := h.contracts
    rw [recordedOf_concat, List.toFinset_append] at hcontracts
    exact Nat.le_trans (Finset.card_le_card Finset.subset_union_left) hcontracts
  disclosed := (disclosed_concat.mp h.disclosed).1

theorem fine_nil : Fine [] :=
  ⟨nofun, Nat.zero_le _, nofun, Nat.zero_le _, fun before _ _ heq => absurd heq (by simp)⟩

/-- A fine sequence goes on exactly with a call that it admits. -/
theorem fine_concat : Fine (calls ++ [c]) ↔ Fine calls ∧ Admits calls c := by
  constructor
  · intro h
    refine ⟨h.init, ?_⟩
    have hlast := h.accounted c (List.mem_append_right _ (List.mem_singleton_self c))
    cases c with
    | recordUsed id =>
      have hcontracts := h.contracts
      rwa [recordedOf_concat] at hcontracts
    | holding owner amount admin instrument =>
      have hfew := h.few
      rw [holdingsOf_concat] at hfew
      simp only [ValuesCall.holding?, Option.toList_some, List.length_append,
        List.length_singleton] at hfew
      refine ⟨hfew, fun i hi j hj => h.instrument i ?_ j ?_⟩ <;> rw [instrumentsOf_concat]
      · exact List.mem_append_right _ (Option.mem_toList.mpr hi)
      · exact List.mem_append_left _ hj
    | disclosed id =>
      intro i hi
      exact (disclosed_concat.mp h.disclosed).2 i (congrArg _ hi)
    | bind => trivial
    | unknownTemplate | unreadableHolding | parseFailure => cases hlast
  · rintro ⟨h, hc⟩
    refine ⟨?_, ?_, ?_, ?_, disclosed_concat.mpr ⟨h.disclosed, ?_⟩⟩
    · intro x hx
      rcases List.mem_append.mp hx with hx | hx
      · exact h.accounted x hx
      · rw [List.mem_singleton.mp hx]
        cases c <;> first | rfl | exact hc.elim
    · have hfew := h.few
      rw [holdingsOf_concat, List.length_append]
      cases c with
      | holding => exact hc.1
      | _ => exact hfew
    · intro i hi j hj
      rw [instrumentsOf_concat] at hi hj
      -- At most one of the two is new.
      have hnew : ∀ k ∈ (c.holding?.bind HoldingText.instrument).toList,
          ∀ j ∈ instrumentsOf calls, k = j := by
        cases c with
        | holding owner amount admin instrument =>
          exact fun k hk => hc.2 k (Option.mem_toList.mp hk)
        | _ => exact nofun
      rcases List.mem_append.mp hi with hi | hi <;> rcases List.mem_append.mp hj with hj | hj
      · exact h.instrument i hi j hj
      · exact (hnew j hj i hi).symm
      · exact hnew i hi j hj
      · rw [Option.mem_toList] at hi hj
        exact Option.some.inj (hi.symm.trans hj)
    · rw [recordedOf_concat]
      cases c with
      | recordUsed id => exact hc
      | _ => simpa [ValuesCall.recorded?] using h.contracts
    · rintro id rfl
      exact hc id rfl

end CantonSigner
