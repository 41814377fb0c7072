import ThreadedCode.Action

/-!
Computations that keep a record of events, which they have also where they halt or run out of fuel.
-/

namespace ThreadedCode

structure Record (ε σ α : Type) where
  events : List ε
  outcome : Outcome σ α

def Recording (ε σ α : Type) : Type := σ → Record ε σ α

namespace Recording

variable {ε σ α β : Type}

protected def pure (a : α) : Recording ε σ α := fun s => ⟨[], .ok a s⟩

protected def bind (x : Recording ε σ α) (g : α → Recording ε σ β) : Recording ε σ β := fun s =>
  match x s with
  | ⟨events, .ok a s⟩ => ⟨events ++ (g a s).events, (g a s).outcome⟩
  | ⟨events, .halt why s⟩ => ⟨events, .halt why s⟩
  | ⟨events, .exhausted⟩ => ⟨events, .exhausted⟩

instance : Monad (Recording ε σ) where
  pure := Recording.pure
  bind := Recording.bind

theorem bind_apply (x : Recording ε σ α) (g : α → Recording ε σ β) (s : σ) :
    (x >>= g) s =
      match x s with
      | ⟨events, .ok a s⟩ => ⟨events ++ (g a s).events, (g a s).outcome⟩
      | ⟨events, .halt why s⟩ => ⟨events, .halt why s⟩
      | ⟨events, .exhausted⟩ => ⟨events, .exhausted⟩ := rfl

def silently (x : Action σ α) : Recording ε σ α := fun s => ⟨[], x s⟩

def erase (x : Recording ε σ α) : Action σ α := fun s => (x s).outcome

def ensuring (x : Recording ε σ α) (after : σ → σ) : Recording ε σ α := fun s =>
  ⟨(x s).events, x.erase.ensuring after s⟩

def catchFault (x : Recording ε σ α) (handler : Fault → Recording ε σ α) : Recording ε σ α :=
  fun s =>
    match x s with
    | ⟨events, .halt (.fault fault) s⟩ =>
      ⟨events ++ (handler fault s).events, (handler fault s).outcome⟩
    | record => record

/-- A computation whose record becomes a single event. -/
def gather (event : σ → List ε → Outcome σ α → ε) (x : Recording ε σ α) : Recording ε σ α :=
  fun s => ⟨[event s (x s).events (x s).outcome], (x s).outcome⟩

@[simp]
theorem erase_pure (a : α) : (pure a : Recording ε σ α).erase = pure a := rfl

@[simp]
theorem erase_silently (x : Action σ α) : (silently x : Recording ε σ α).erase = x := rfl

@[simp]
theorem erase_ensuring (x : Recording ε σ α) (after : σ → σ) :
    (x.ensuring after).erase = x.erase.ensuring after := rfl

@[simp]
theorem erase_gather (event : σ → List ε → Outcome σ α → ε) (x : Recording ε σ α) :
    (x.gather event).erase = x.erase := rfl

@[simp]
theorem erase_bind (x : Recording ε σ α) (g : α → Recording ε σ β) :
    (x >>= g).erase = x.erase >>= fun a => (g a).erase := by
  funext s
  rw [Action.bind_apply, erase, erase, bind_apply]
  rcases x s with ⟨events, _ | _ | _⟩ <;> rfl

end Recording

end ThreadedCode
