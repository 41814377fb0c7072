import ThreadedCode.Proofs.Machine.Frame
import ThreadedCode.Proofs.Machine.Lifting

/-!
States that differ only in what steers the task: its entry word, levels, positions and the depth of
atomic words. What a run leaves for others to see is the same in both. Computations on two such
states are compared by `Outcome.Matched`: where the first comes to a value or is halted, so is the
second, by the same, in a state that is again related.
-/

namespace ThreadedCode

/-- What a run of a task leaves for others to see. -/
structure Results where
  stack : List Value
  returns : List Value
  locals : Variables
  status : Value
  globals : Variables
  output : Text
  diagnostics : Text

namespace Outcome

/-- Where the first computation comes to an end, the second comes to the same one. -/
def Matched {σ τ α : Type} (R : σ → τ → Prop) : Outcome σ α → Outcome τ α → Prop
  | ok a s, ok b t => a = b ∧ R s t
  | halt why s, halt other t => why = other ∧ R s t
  | exhausted, _ => True
  | _, _ => False

namespace Matched

variable {σ τ α β : Type} {R S : σ → τ → Prop} {s : σ} {t : τ}

theorem and_leaves {P : σ → Prop} {Q : τ → Prop} {o : Outcome σ α} {o' : Outcome τ α}
    (h : o.Matched R o') (left : o.Leaves P) (right : o'.Leaves Q) :
    o.Matched (fun s t => R s t ∧ P s ∧ Q t) o' := by
  cases o <;> cases o'
  case ok.ok => exact ⟨h.1, h.2, left, right⟩
  case halt.halt => exact ⟨h.1, h.2, left, right⟩
  all_goals exact h

theorem bind {x : Action σ α} {y : Action τ α} {g : α → Action σ β} {k : α → Action τ β}
    (h : (x s).Matched R (y t)) (halted : ∀ s t, R s t → S s t)
    (next : ∀ a s t, R s t → (g a s).Matched S (k a t)) :
    ((x >>= g) s).Matched S ((y >>= k) t) := by
  rw [Action.bind_apply, Action.bind_apply]
  cases hx : x s <;> cases hy : y t <;> rw [hx, hy] at h
  case ok.ok a s b t =>
    obtain ⟨rfl, related⟩ := h
    exact next a s t related
  case halt.halt => exact ⟨h.1, halted _ _ h.2⟩
  all_goals first | exact h.elim | trivial

theorem ensuring {x : Action σ α} {y : Action τ α} {after : σ → σ} {after' : τ → τ}
    (h : (x s).Matched R (y t)) (afterwards : ∀ s t, R s t → S (after s) (after' t)) :
    ((x.ensuring after) s).Matched S ((y.ensuring after') t) := by
  rw [Action.ensuring, Action.ensuring]
  cases hx : x s <;> cases hy : y t <;> rw [hx, hy] at h
  case ok.ok => exact ⟨h.1, afterwards _ _ h.2⟩
  case halt.halt => exact ⟨h.1, afterwards _ _ h.2⟩
  all_goals first | exact h.elim | trivial

theorem catchFault {x : Action σ α} {y : Action τ α} {handler : Fault → Action σ α}
    {handler' : Fault → Action τ α} (h : (x s).Matched R (y t))
    (handled : ∀ fault s t, R s t → (handler fault s).Matched R (handler' fault t)) :
    ((x.catchFault handler) s).Matched R ((y.catchFault handler') t) := by
  rw [Action.catchFault, Action.catchFault]
  cases hx : x s <;> cases hy : y t <;> rw [hx, hy] at h
  case ok.ok => exact h
  case halt.halt why s other t =>
    obtain ⟨rfl, related⟩ := h
    cases why with
    | fault fault => exact handled fault s t related
    | malformed word => exact ⟨rfl, related⟩
    | quit => exact ⟨rfl, related⟩
  all_goals first | exact h.elim | trivial

theorem mono {o : Outcome σ α} {o' : Outcome τ α} (h : o.Matched R o')
    (weaken : ∀ s t, R s t → S s t) : o.Matched S o' := by
  cases o <;> cases o'
  case ok.ok => exact ⟨h.1, weaken _ _ h.2⟩
  case halt.halt => exact ⟨h.1, weaken _ _ h.2⟩
  all_goals exact h

theorem and_right {Q : τ → Prop} {o : Outcome σ α} {o' : Outcome τ α} (h : o.Matched R o')
    (right : o'.Leaves Q) : o.Matched (fun s t => R s t ∧ Q t) o' := by
  cases o <;> cases o'
  case ok.ok => exact ⟨h.1, h.2, right⟩
  case halt.halt => exact ⟨h.1, h.2, right⟩
  all_goals exact h

theorem trans {ρ : Type} {T : τ → ρ → Prop} {o : Outcome σ α} {o' : Outcome τ α}
    {o'' : Outcome ρ α} (h : o.Matched R o') (k : o'.Matched T o'') :
    o.Matched (fun s u => ∃ t, R s t ∧ T t u) o'' := by
  cases o <;> cases o' <;> cases o''
  case ok.ok.ok => exact ⟨h.1.trans k.1, _, h.2, k.2⟩
  case halt.halt.halt => exact ⟨h.1.trans k.1, _, h.2, k.2⟩
  all_goals first | exact h.elim | exact k.elim | trivial

theorem of_ok {o : Outcome σ α} {o' : Outcome τ α} {a : α} (h : o.Matched R o')
    (ended : o = .ok a s) : ∃ t, o' = .ok a t ∧ R s t := by
  subst ended
  cases o' with
  | ok b t =>
    obtain ⟨rfl, related⟩ := h
    exact ⟨t, rfl, related⟩
  | halt why t => exact h.elim
  | exhausted => exact h.elim

theorem forM {ι : Type} {x : ι → Action σ Unit} {y : ι → Action τ Unit} {items : List ι}
    (each : ∀ b ∈ items, ∀ s t, R s t → (x b s).Matched R (y b t)) (related : R s t) :
    (forM items x s).Matched R (forM items y t) := by
  induction items generalizing s t with
  | nil => exact ⟨rfl, related⟩
  | cons b items ih =>
    rw [List.forM_cons, List.forM_cons]
    refine (each b List.mem_cons_self s t related).bind (fun _ _ related => related) ?_
    exact fun _ s t related => ih (fun c member => each c (List.mem_cons_of_mem b member)) related

end Matched

end Outcome

namespace Focus

variable {strict : Strictness} {c : Task.Control} {f g : Focus}

def withControl (c : Task.Control) (f : Focus) : Focus := f.onTask (Task.withControl · c)

def results (f : Focus) : Results :=
  ⟨f.task.stack, f.task.returns, f.task.locals, f.task.status, f.globals, f.output, f.diagnostics⟩

@[simp]
theorem results_withControl (c : Task.Control) (f : Focus) :
    (f.withControl c).results = f.results := rfl

def Like (f g : Focus) : Prop := ∃ c, g = f.withControl c

theorem Like.refl (f : Focus) : Like f f := ⟨f.task.control, rfl⟩

theorem Like.symm (h : Like f g) : Like g f := by
  obtain ⟨c, rfl⟩ := h
  exact ⟨f.task.control, rfl⟩

theorem Like.trans {e : Focus} (h : Like f g) (k : Like g e) : Like f e := by
  obtain ⟨c, rfl⟩ := h
  obtain ⟨c', rfl⟩ := k
  exact ⟨c', rfl⟩

theorem Like.results (h : Like f g) : g.results = f.results := by
  obtain ⟨c, rfl⟩ := h
  rfl

def Steers (change : Task → Task) : Prop := ∀ t, change t = t.withControl (change t).control

theorem Like.steered {change : Task → Task} (steers : Steers change) (f : Focus) :
    Like f (f.onTask change) := by
  refine ⟨(change f.task).control, ?_⟩
  rw [onTask, steers f.task]
  rfl

theorem Like.onTask_right {change : Task → Task} (h : Like f g) (steers : Steers change) :
    Like f (g.onTask change) := h.trans (steered steers g)

theorem Like.onTask {change change' : Task → Task} (h : Like f g) (steers : Steers change)
    (steers' : Steers change') : Like (f.onTask change) (g.onTask change') :=
  (steered steers f).symm.trans (h.onTask_right steers')

theorem write_onTask (change : Task → Task) (t : Text) (f : Focus) :
    write strict t (f.onTask change) = (write strict t f).mapState (onTask change) := by
  unfold write
  split <;> rfl

theorem runBuiltin_onTask {b : Builtin} {arg : Operand} {change change' : Task → Task}
    (effect : b.effect arg (change f.task) f.globals =
      (b.effect arg f.task f.globals).onTask change') :
    runBuiltin strict b arg (f.onTask change) =
      (runBuiltin strict b arg f).mapState (onTask change') := by
  have here : b.effect arg (f.onTask change).task (f.onTask change).globals =
      (b.effect arg f.task f.globals).onTask change' := effect
  simp only [runBuiltin, Action.get, Action.modify, Action.bind_apply, here]
  generalize b.effect arg f.task f.globals = e
  have done : ({ f.onTask change with
      task := (e.onTask change').task, globals := (e.onTask change').globals } : Focus) =
      onTask change' { f with task := e.task, globals := e.globals } := rfl
  have output : (e.onTask change').output = e.output := rfl
  have result : (e.onTask change').result = e.result := rfl
  rw [done, write_onTask, output, result]
  cases write strict e.output { f with task := e.task, globals := e.globals } with
  | ok a g => cases e.result <;> rfl
  | halt why g => rfl
  | exhausted => rfl

theorem runBuiltin_of_effect {b : Builtin} {arg : Operand} {c' : Task.Control}
    (effect : b.effect arg (f.withControl c).task (f.withControl c).globals =
      (b.effect arg f.task f.globals).withControl c') :
    runBuiltin strict b arg (f.withControl c) =
      (runBuiltin strict b arg f).mapState (withControl c') :=
  runBuiltin_onTask effect

end Focus

namespace Machine

def results? (m : Machine) (id : TaskId) : Option Results :=
  (m.task? id).map fun t => (Focus.of m t).results

theorem results?_put (m : Machine) (id : TaskId) (f : Focus) :
    (f.put m id).results? id = some f.results := by
  rw [results?, Focus.put_task?]
  rfl

theorem results?_settle (m : Machine) (id : TaskId) (name : Text) (f : Focus) :
    (settle m id name f).results? id = some f.results :=
  results?_put m.ready id f

end Machine

end ThreadedCode
