import ThreadedCode.Proofs.Machine.Focus

/-!
What passes the boundary of an instruction. Faults of all kinds stop there, so that only a malformed
word ever comes through and ends the bodies around it.
-/

namespace ThreadedCode

/-- A computation that is halted, if it is, for a reason of a kind. -/
def Outcome.HaltsBy {σ α : Type} (P : Halt → Prop) : Outcome σ α → Prop
  | halt why _ => P why
  | _ => True

namespace Outcome.HaltsBy

variable {σ α β : Type} {P Q : Halt → Prop} {x : Action σ α} {s : σ}

theorem mono {o : Outcome σ α} (h : o.HaltsBy P) (weaken : ∀ why, P why → Q why) :
    o.HaltsBy Q := by
  cases o with
  | ok a s => trivial
  | halt why s => exact weaken why h
  | exhausted => trivial

theorem of_halted {o : Outcome σ α} {why : Halt} (h : o.HaltsBy P) (halted : o = .halt why s) :
    P why := by
  rw [halted] at h
  exact h

theorem mapState {τ : Type} {o : Outcome σ α} (h : o.HaltsBy P) (g : σ → τ) :
    (o.mapState g).HaltsBy P := by
  cases o with
  | ok a s => trivial
  | halt why s => exact h
  | exhausted => trivial

theorem bind {g : α → Action σ β} (h : (x s).HaltsBy P) (next : ∀ a s, (g a s).HaltsBy P) :
    ((x >>= g) s).HaltsBy P := by
  rw [Action.bind_apply]
  cases hx : x s with
  | ok a s => exact next a s
  | halt why s =>
    rw [hx] at h
    exact h
  | exhausted => trivial

theorem ensuring (h : (x s).HaltsBy P) (after : σ → σ) : ((x.ensuring after) s).HaltsBy P := by
  rw [Action.ensuring]
  cases hx : x s with
  | ok a s => trivial
  | halt why s =>
    rw [hx] at h
    exact h
  | exhausted => trivial

theorem forM {ι : Type} {x : ι → Action σ Unit} {items : List ι}
    (each : ∀ b ∈ items, ∀ s, (x b s).HaltsBy P) : (forM items x s).HaltsBy P := by
  induction items generalizing s with
  | nil => trivial
  | cons b items ih =>
    rw [List.forM_cons]
    refine (each b List.mem_cons_self s).bind fun _ s => ?_
    exact ih fun c member => each c (List.mem_cons_of_mem b member)

end Outcome.HaltsBy

def Halt.Ordinary : Halt → Prop
  | quit => False
  | _ => True

def Halt.IsMalformed (why : Halt) : Prop := ∃ word, why = malformed word

def Halt.IsFault (why : Halt) : Prop := ∃ reason, why = fault reason

theorem Halt.IsMalformed.ordinary {why : Halt} (h : why.IsMalformed) : why.Ordinary := by
  obtain ⟨word, rfl⟩ := h
  trivial

theorem Outcome.HaltsBy.catchFault {σ α : Type} {x : Action σ α} {s : σ}
    {handler : Fault → Action σ α} (h : (x s).HaltsBy Halt.Ordinary)
    (handled : ∀ fault s, (handler fault s).HaltsBy Halt.IsMalformed) :
    ((x.catchFault handler) s).HaltsBy Halt.IsMalformed := by
  rw [Action.catchFault]
  cases hx : x s with
  | ok a s => trivial
  | halt why s =>
    rw [hx] at h
    cases why with
    | fault fault => exact handled fault s
    | malformed word => exact ⟨word, rfl⟩
    | quit => exact h.elim
  | exhausted => trivial

namespace Focus

variable {u : Invoker}

theorem ofExcept_halts {α : Type} {P : Halt → Prop} {r : Except Fault α}
    (h : ∀ fault, r = .error fault → P (.fault fault)) (f : Focus) :
    (Action.ofExcept r f).HaltsBy P := by
  cases r with
  | ok a => trivial
  | error fault => exact h fault rfl

theorem positionOf_halts {P : Halt → Prop} {level : Int} (h : P (.fault (.missingPosition level)))
    (f : Focus) : (positionOf level f).HaltsBy P := by
  unfold positionOf
  cases f.task.positions.get? level with
  | none => exact h
  | some position => trivial

theorem runBuiltin_halts {P : Halt → Prop} {strict : Strictness} {b : Builtin} {arg : Operand}
    {f : Focus} (unencodable : ∀ failure, P (.fault (.unencodable failure)))
    (failed : ∀ fault, (b.effect arg f.task f.globals).result = .error fault → P (.fault fault)) :
    (runBuiltin strict b arg f).HaltsBy P := by
  have written : ∀ t g, (write strict t g).HaltsBy P := by
    intro t g
    unfold write
    split
    · exact unencodable _
    · trivial
  exact (written _ _).bind fun _ g => ofExcept_halts failed g

theorem invokeFor_halts (h : ∀ i f, (u i f).HaltsBy Halt.IsMalformed) (i : Instruction)
    (f : Focus) : (invokeFor u i f).HaltsBy Halt.IsMalformed :=
  (h i f).bind fun _ _ => trivial

theorem invokeEach_halts (h : ∀ i f, (u i f).HaltsBy Halt.IsMalformed) (body : List Instruction)
    (f : Focus) : (invokeEach u body f).HaltsBy Halt.IsMalformed := by
  induction body generalizing f with
  | nil => trivial
  | cons i rest ih => exact (invokeFor_halts h i f).bind fun _ g => ih g

theorem runStraight_halts (h : ∀ i f, (u i f).HaltsBy Halt.IsMalformed)
    (body : List Instruction) (f : Focus) :
    (runStraight u body f).HaltsBy Halt.IsMalformed :=
  ((invokeEach_halts h body _).ensuring _).bind fun _ _ => trivial

theorem runByPosition_ordinary (h : ∀ i f, (u i f).HaltsBy Halt.IsMalformed) (level : Int)
    (body : List Instruction) (rounds : Nat) (f : Focus) :
    (runByPosition u level body rounds f).HaltsBy Halt.Ordinary := by
  induction rounds generalizing f with
  | zero => trivial
  | succ rounds ih =>
    refine (positionOf_halts trivial f).bind fun position g => ?_
    by_cases inside : position ≤ body.length
    · rw [if_pos inside]
      refine (ofExcept_halts (fun _ _ => trivial) g).bind fun i g => ?_
      refine ((invokeFor_halts h i g).mono fun _ => Halt.IsMalformed.ordinary).bind fun _ g => ?_
      exact (positionOf_halts trivial g).bind fun _ g => ih _
    · rw [if_neg inside]
      trivial

theorem executeWith_ordinary (h : ∀ i f, (u i f).HaltsBy Halt.IsMalformed) (strict : Strictness)
    (fuel : Nat) (w : Word) (i : Instruction) (f : Focus) :
    (executeWith strict fuel u w i f).HaltsBy Halt.Ordinary := by
  unfold executeWith
  cases w.kind with
  | primitive =>
    cases w.primitive with
    | none => trivial
    | some p =>
      cases p with
      | builtin b => exact runBuiltin_halts (fun _ => trivial) fun _ _ => trivial
      | foreign name => trivial
  | atomic => exact (runStraight_halts h w.body f).mono fun _ => Halt.IsMalformed.ordinary
  | composite =>
    exact ((runByPosition_ordinary h _ w.body fuel _).ensuring _).bind fun _ _ => trivial
  | other label => trivial

/-- An instruction is halted by malformed words only. -/
theorem invoke_halts (d : Dictionary) (strict : Strictness) (fuel : Nat) (i : Instruction) (f : Focus) :
    (invoke d strict fuel i f).HaltsBy Halt.IsMalformed := by
  induction fuel generalizing i f with
  | zero => trivial
  | succ fuel ih =>
    rw [invoke]
    cases d.findToken? i.token with
    | none => trivial
    | some w =>
      refine Outcome.HaltsBy.catchFault ?_ fun _ _ => trivial
      exact (executeWith_ordinary ih strict fuel w i f).bind fun _ _ => trivial

end Focus

end ThreadedCode
