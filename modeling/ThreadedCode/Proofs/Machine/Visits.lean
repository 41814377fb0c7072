import ThreadedCode.Machine.Basic

/-!
The tree of a run. Every instruction that is invoked is a visit: it has the words that are in progress
and the state at its beginning, the end that it comes to, and the visits in the body of its word below
it.
-/

namespace ThreadedCode

structure Call where
  word : Word
  position : Int

/-- A fault that the boundary of an instruction held back, and the word that it was reported for. A
token that is no word has no name to report. -/
structure Failure where
  word : Option Text
  fault : Fault
deriving DecidableEq

/-- An instruction that was invoked. The words in progress begin with the innermost. The end is that
after the status of the task has been set. -/
structure Visit (σ : Type) where
  calls : List Call
  instruction : Instruction
  before : σ
  ending : Outcome σ (Except Failure Value)
  inner : List (Visit σ)

namespace Visit

variable {σ : Type}

def Returned (v : Visit σ) : Prop := ∃ r s, v.ending = .ok r s

def Stopped (v : Visit σ) : Prop := ∃ word s, v.ending = .halt (.malformed word) s

def failure? (v : Visit σ) : Option Failure :=
  match v.ending with
  | .ok (.error failure) _ => some failure
  | _ => none

theorem failure?_eq_some {v : Visit σ} {failure : Failure} (failed : v.failure? = some failure) :
    ∃ s, v.ending = .ok (.error failure) s := by
  unfold failure? at failed
  split at failed
  next s ended =>
    cases failed
    exact ⟨s, ended⟩
  next => cases failed

end Visit

mutual

def Visit.all {σ : Type} : Visit σ → List (Visit σ)
  | ⟨calls, i, before, ending, inner⟩ => ⟨calls, i, before, ending, inner⟩ :: allVisits inner

def allVisits {σ : Type} : List (Visit σ) → List (Visit σ)
  | [] => []
  | v :: rest => v.all ++ allVisits rest

end

mutual

/-- The failures of a tree in the order in which they happen: what fails in a body fails before the
word does. -/
def Visit.failures {σ : Type} : Visit σ → List Failure
  | ⟨calls, i, before, ending, inner⟩ =>
    allFailures inner ++ (Visit.failure? ⟨calls, i, before, ending, []⟩).toList

def allFailures {σ : Type} : List (Visit σ) → List Failure
  | [] => []
  | v :: rest => v.failures ++ allFailures rest

end

section Trees

variable {σ : Type}

theorem Visit.all_eq (v : Visit σ) : v.all = v :: allVisits v.inner := by
  cases v
  rfl

@[simp]
theorem allVisits_append (before after : List (Visit σ)) :
    allVisits (before ++ after) = allVisits before ++ allVisits after := by
  induction before with
  | nil => rfl
  | cons v rest ih => simp [allVisits, ih]

@[simp]
theorem allFailures_append (before after : List (Visit σ)) :
    allFailures (before ++ after) = allFailures before ++ allFailures after := by
  induction before with
  | nil => rfl
  | cons v rest ih => simp [allFailures, ih]

theorem allVisits_singleton (v : Visit σ) : allVisits [v] = v :: allVisits v.inner := by
  rw [← v.all_eq]
  exact List.append_nil _

theorem Visit.failures_eq (v : Visit σ) :
    v.failures = allFailures v.inner ++ v.failure?.toList := by
  cases v
  rfl

theorem allFailures_singleton (v : Visit σ) :
    allFailures [v] = allFailures v.inner ++ v.failure?.toList := by
  rw [← v.failures_eq]
  exact List.append_nil _

end Trees

mutual

theorem Visit.failures_perm {σ : Type} :
    (v : Visit σ) → v.failures.Perm (v.all.filterMap Visit.failure?)
  | ⟨calls, i, before, ending, inner⟩ => by
    have below := allFailures_perm inner
    have own : Visit.failure? ⟨calls, i, before, ending, []⟩ =
        Visit.failure? ⟨calls, i, before, ending, inner⟩ := rfl
    rw [Visit.failures, Visit.all, List.filterMap_cons, own]
    cases Visit.failure? ⟨calls, i, before, ending, inner⟩ with
    | none => rwa [Option.toList_none, List.append_nil]
    | some failure => exact List.perm_append_singleton failure _ |>.trans (below.cons failure)

theorem allFailures_perm {σ : Type} : (visits : List (Visit σ)) →
    (allFailures visits).Perm ((allVisits visits).filterMap Visit.failure?)
  | [] => .refl _
  | v :: rest => by
    rw [allFailures, allVisits, List.filterMap_append]
    exact (Visit.failures_perm v).append (allFailures_perm rest)

end

end ThreadedCode
