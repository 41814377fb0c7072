import ThreadedCode.Machine.Interpreter

/-!
More fuel never changes an answer: a run that comes to an end comes to the same end with any larger
fuel. Of the primitives of the embedding program this asks that they do not use a task's running out
of fuel for anything.
-/

namespace ThreadedCode

def Refines {σ α : Type} (x y : Action σ α) : Prop :=
  ∀ s, x s ≠ .exhausted → y s = x s

namespace Refines

variable {σ α β : Type}

theorem refl (x : Action σ α) : Refines x x := fun _ _ => rfl

theorem exhausted_left (y : Action σ α) : Refines Action.exhausted y :=
  fun _ h => absurd rfl h

theorem bind {x y : Action σ α} {f g : α → Action σ β} (h : Refines x y)
    (k : ∀ a, Refines (f a) (g a)) : Refines (x >>= f) (y >>= g) := by
  intro s hs
  simp only [Action.bind_apply] at hs ⊢
  have hx : x s ≠ .exhausted := by
    intro hx
    simp [hx] at hs
  rw [h s hx]
  cases hxs : x s with
  | ok a s =>
    simp only [hxs] at hs ⊢
    exact k a s hs
  | halt why s => rfl
  | exhausted => rfl

theorem ensuring {x y : Action σ α} (h : Refines x y) (after : σ → σ) :
    Refines (x.ensuring after) (y.ensuring after) := by
  intro s hs
  have hx : x s ≠ .exhausted := by
    intro hx
    simp [Action.ensuring, hx] at hs
  simp [Action.ensuring, h s hx]

theorem catchFault {x y : Action σ α} (h : Refines x y) (handler : Fault → Action σ α) :
    Refines (x.catchFault handler) (y.catchFault handler) := by
  intro s hs
  have hx : x s ≠ .exhausted := by
    intro hx
    simp [Action.catchFault, hx] at hs
  simp [Action.catchFault, h s hx]

end Refines

namespace Machine

/-- A host that ends as before when the tasks it runs end as before. -/
def Host.IsMonotone (host : Host) : Prop :=
  ∀ name i (run run' : TaskId → Action Machine Unit),
    (∀ id, Refines (run id) (run' id)) → Refines (host name run i) (host name run' i)

variable {v w : Invoker}

theorem invokeFor_refines (h : ∀ i, Refines (v i) (w i)) (id : TaskId) (i : Instruction) :
    Refines (invokeFor v id i) (invokeFor w id i) :=
  (h i).bind fun _ => .refl _

theorem invokeEach_refines (h : ∀ i, Refines (v i) (w i)) (id : TaskId)
    (body : List Instruction) : Refines (invokeEach v id body) (invokeEach w id body) := by
  induction body with
  | nil => exact .refl _
  | cons i rest ih => exact (invokeFor_refines h id i).bind fun _ => ih

theorem runByPosition_refines (h : ∀ i, Refines (v i) (w i)) (id : TaskId) (level : Int)
    (body : List Instruction) {n m : Nat} (hnm : n ≤ m) :
    Refines (runByPosition v id level body n) (runByPosition w id level body m) := by
  induction n generalizing m with
  | zero => exact .exhausted_left _
  | succ n ih =>
    obtain ⟨m, rfl⟩ : ∃ k, m = k + 1 := ⟨m - 1, by omega⟩
    refine Refines.bind (.refl _) fun position => ?_
    by_cases hp : position ≤ body.length
    · simp only [hp, if_true]
      exact (Refines.refl _).bind fun i => (invokeFor_refines h id i).bind fun _ =>
        (Refines.refl _).bind fun _ => (Refines.refl _).bind fun _ => ih (by omega)
    · simp only [hp, if_false]
      exact .refl _

theorem runTask_refines (h : ∀ i, Refines (v i) (w i)) (id : TaskId) :
    Refines (runTask v id) (runTask w id) := by
  refine Refines.bind (.refl _) fun m => ?_
  cases m.task? id with
  | none => exact .refl _
  | some t => exact (Refines.refl _).bind fun _ => (invokeFor_refines h id _).ensuring _

theorem executeWith_refines {host : Host} (hh : host.IsMonotone)
    (h : ∀ i, Refines (v i) (w i)) {n m : Nat} (hnm : n ≤ m) (word : Word) (i : Instruction) :
    Refines (executeWith host n v word i) (executeWith host m w word i) := by
  unfold executeWith
  cases word.kind with
  | primitive =>
    cases word.primitive with
    | none => exact .refl _
    | some p =>
      cases p with
      | builtin b => exact .refl _
      | foreign name => exact hh _ _ _ _ (runTask_refines h)
  | atomic =>
    exact (Refines.refl _).bind fun _ => (Refines.refl _).bind fun _ =>
      ((invokeEach_refines h _ _).ensuring _).bind fun _ => .refl _
  | composite =>
    exact (Refines.refl _).bind fun _ => (Refines.refl _).bind fun _ =>
      ((runByPosition_refines h _ _ _ hnm).ensuring _).bind fun _ => .refl _
  | other label => exact .refl _

/-- More fuel keeps a finished answer. -/
theorem invoke_refines {host : Host} (hh : host.IsMonotone) {n m : Nat} (hnm : n ≤ m)
    (i : Instruction) : Refines (invoke host n i) (invoke host m i) := by
  induction n generalizing m i with
  | zero => exact .exhausted_left _
  | succ n ih =>
    obtain ⟨m, rfl⟩ : ∃ k, m = k + 1 := ⟨m - 1, by omega⟩
    have hnm : n ≤ m := by omega
    refine Refines.bind (.refl _) fun d => ?_
    cases d.findToken? i.token with
    | none => exact .refl _
    | some word =>
      exact ((executeWith_refines hh (fun i => ih hnm i) hnm word i).bind
        fun _ => .refl _).catchFault _

end Machine

end ThreadedCode
