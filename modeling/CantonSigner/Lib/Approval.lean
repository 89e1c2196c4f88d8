import Mathlib.Data.List.Count
import CantonSigner.Lib.Simulation

/-!
# Approvals

A device that answers nothing its user has not approved, seen from outside: it puts a request
before the user, and the user grants or refuses it. At most one request is before the user, and
a grant answers that one (`Approval.Step`). In every run, what is granted is what was asked
last, with nothing but quiet steps between (`granted_asked`), and each request is granted or
refused at most once (`asks_count`).
-/

/-- What is seen of a step. -/
inductive Act (Q A : Type) where
  | ask (q : Q)
  | grant (a : A)
  | refuse
  | quiet
deriving DecidableEq

namespace Approval

variable {Q A : Type}

/-- One step, from what is before the user to what is before the user. `may` says which requests
can be asked, and `answers` which answers grant a request. -/
inductive Step (may : Q → Prop) (answers : Q → A → Prop) :
    Option Q → Act Q A → Option Q → Prop where
  | ask {q : Q} : may q → Step may answers none (.ask q) (some q)
  | grant {q : Q} {a : A} : answers q a → Step may answers (some q) (.grant a) none
  | refuse {q : Q} : Step may answers (some q) .refuse none
  | quiet {s : Option Q} : Step may answers s .quiet s

def isAsk : Act Q A → Bool
  | .ask _ => true
  | _ => false

def isGrant : Act Q A → Bool
  | .grant _ => true
  | _ => false

def isRefuse : Act Q A → Bool
  | .refuse => true
  | _ => false

variable {may : Q → Prop} {answers : Q → A → Prop} {l : List (Act Q A)} {s : Option Q}

/-- A request is the last one that was asked. -/
def LastAsked (l : List (Act Q A)) (q : Q) : Prop :=
  ∃ before after, l = before ++ .ask q :: after ∧ ∀ x ∈ after, x = Act.quiet

/-- What is before the user was asked last. -/
theorem lastAsked_of_pending (h : LabelledRun (Step may answers) none l s) :
    ∀ q, s = some q → LastAsked l q ∧ may q := by
  induction h with
  | start => exact fun q hq => nomatch hq
  | @step l t t' a _ hstep ih =>
    rintro q rfl
    cases hstep with
    | ask hmay => exact ⟨⟨l, [], rfl, nofun⟩, hmay⟩
    | quiet =>
      obtain ⟨⟨before, after, rfl, hquiet⟩, hmay⟩ := ih q rfl
      refine ⟨⟨before, after ++ [.quiet], by simp, fun x hx => ?_⟩, hmay⟩
      rcases List.mem_append.mp hx with hx | hx
      · exact hquiet x hx
      · exact List.mem_singleton.mp hx

/-- **What is granted was asked**: a grant answers the request that was asked last. -/
theorem granted_asked (h : LabelledRun (Step may answers) none l s) {pre post : List (Act Q A)}
    {a : A} (hl : l = pre ++ .grant a :: post) :
    ∃ q, LastAsked pre q ∧ may q ∧ answers q a := by
  induction h generalizing post with
  | start => simp at hl
  | @step l t t' b hrun hstep ih =>
    rcases List.eq_nil_or_concat' post with rfl | ⟨post, x, rfl⟩
    · -- The grant is the last step.
      obtain ⟨rfl, hb⟩ := List.append_inj' hl rfl
      obtain rfl := List.head_eq_of_cons_eq hb
      cases hstep with
      | @grant q _ hanswers =>
        obtain ⟨hlast, hmay⟩ := lastAsked_of_pending hrun q rfl
        exact ⟨q, hlast, hmay, hanswers⟩
    · rw [← List.cons_append, ← List.append_assoc] at hl
      exact ih (List.append_inj' hl rfl).1

/-- Every request is granted once, or refused once, or still before the user. -/
theorem asks_count (h : LabelledRun (Step may answers) none l s) :
    l.countP isAsk = l.countP isGrant + l.countP isRefuse + s.toList.length := by
  induction h with
  | start => rfl
  | @step l t t' a _ hstep ih =>
    simp only [List.countP_append, List.countP_singleton]
    cases hstep <;> simp_all [isAsk, isGrant, isRefuse] <;> omega

end Approval
