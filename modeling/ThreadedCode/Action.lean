import ThreadedCode.Fault

/-!
Computations on a state that may halt. A halted computation keeps the state that it had reached, so
what was done before the halt stays done. Running out of fuel is neither a result nor a halt and has
no state.
-/

namespace ThreadedCode

inductive Outcome (σ α : Type) where
  | ok (a : α) (s : σ)
  | halt (why : Halt) (s : σ)
  | exhausted
deriving DecidableEq

def Action (σ α : Type) : Type := σ → Outcome σ α

namespace Action

variable {σ τ α β : Type}

@[inline] protected def pure (a : α) : Action σ α := fun s => .ok a s

@[inline] protected def bind (x : Action σ α) (f : α → Action σ β) : Action σ β := fun s =>
  match x s with
  | .ok a s => f a s
  | .halt why s => .halt why s
  | .exhausted => .exhausted

instance : Monad (Action σ) where
  pure := Action.pure
  bind := Action.bind

theorem pure_apply (a : α) (s : σ) : (pure a : Action σ α) s = .ok a s := rfl

theorem bind_apply (x : Action σ α) (f : α → Action σ β) (s : σ) :
    (x >>= f) s =
      match x s with
      | .ok a s => f a s
      | .halt why s => .halt why s
      | .exhausted => .exhausted := rfl

theorem bind_of_eq {x : Action σ α} {f : α → Action σ β} {s s' : σ} {a : α} (h : x s = .ok a s') :
    (x >>= f) s = f a s' := by
  rw [bind_apply, h]

theorem bind_of_halt {x : Action σ α} {f : α → Action σ β} {s s' : σ} {why : Halt}
    (h : x s = .halt why s') : (x >>= f) s = .halt why s' := by
  rw [bind_apply, h]

instance : LawfulMonad (Action σ) :=
  .mk' (Action σ)
    (fun x => by
      funext s
      change (x >>= pure) s = x s
      rw [bind_apply]
      cases x s <;> rfl)
    (fun _ _ => rfl)
    (fun x f g => by
      funext s
      simp only [bind_apply]
      cases x s <;> rfl)

instance : Inhabited (Action σ α) := ⟨fun _ => .exhausted⟩

def get : Action σ σ := fun s => .ok s s

def modify (f : σ → σ) : Action σ Unit := fun s => .ok () (f s)

def halt (why : Halt) : Action σ α := fun s => .halt why s

def fail (fault : Fault) : Action σ α := halt (.fault fault)

def exhausted : Action σ α := fun _ => .exhausted

def ofExcept : Except Fault α → Action σ α
  | .ok a => pure a
  | .error fault => fail fault

/-- Runs `x`, and `after` on the state it ends in, whether it ends with a result or a halt. -/
def ensuring (x : Action σ α) (after : σ → σ) : Action σ α := fun s =>
  match x s with
  | .ok a s => .ok a (after s)
  | .halt why s => .halt why (after s)
  | .exhausted => .exhausted

def catchFault (x : Action σ α) (handler : Fault → Action σ α) : Action σ α := fun s =>
  match x s with
  | .halt (.fault fault) s => handler fault s
  | outcome => outcome

def within (part : σ → τ) (replace : σ → τ → σ) (x : Action τ α) : Action σ α := fun s =>
  match x (part s) with
  | .ok a t => .ok a (replace s t)
  | .halt why t => .halt why (replace s t)
  | .exhausted => .exhausted

end Action

end ThreadedCode
