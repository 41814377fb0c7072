import ThreadedCode.Proofs.Machine.Lifting

/-!
What a run leaves of the active task and of the registry. The primitives of an embedding program may
make tasks and run them, also under the name of a task that is running, and the primitives of those
tasks may do so again. At the end of each run, however it has ended, the task from before is active
again and the registry does not have the task that was run.
-/

namespace ThreadedCode

instance {σ α : Type} {P : σ → Prop} [DecidablePred P] (o : Outcome σ α) :
    Decidable (o.Leaves P) :=
  match o with
  | .ok _ s => inferInstanceAs (Decidable (P s))
  | .halt _ s => inferInstanceAs (Decidable (P s))
  | .exhausted => .isTrue trivial

namespace Machine

theorem get?_released (registry : Table Text TaskId) (id : TaskId) (name : Text) :
    (released registry id name).get? name ≠ some id := by
  unfold released
  split
  next => simp [Table.get?_erase]
  next other => exact other

/-- The task that was active before is active again, and this one is off the registry, where it would
stand under the name that it has now. -/
def Withdrawn (id : TaskId) (before now : Machine) : Prop :=
  now.active = before.active ∧ ∀ t ∈ now.task? id, now.registry.get? t.name ≠ some id

instance (id : TaskId) (before : Machine) : DecidablePred (Withdrawn id before) := fun _ =>
  inferInstanceAs (Decidable (_ ∧ _))

theorem endRun_withdrawn (before : Machine) (id : TaskId) (now : Machine) :
    Withdrawn id before (endRun before id now) := by
  refine ⟨rfl, fun t known => ?_⟩
  have known : now.task? id = some t := known
  rw [endRun, known]
  exact get?_released now.registry id t.name

theorem runTask_withdrawn (v : Invoker) (id : TaskId) (m : Machine) :
    (runTask v id m).Leaves (Withdrawn id m) := by
  rw [runTask, Action.bind_apply]
  dsimp only [Action.get]
  cases known : m.task? id with
  | none =>
    refine ⟨rfl, fun t known' => ?_⟩
    rw [known] at known'
    cases known'
  | some t =>
    have anything : ∀ o : Outcome Machine Unit, o.Leaves fun _ => True := fun o => by
      cases o <;> trivial
    exact Outcome.Leaves.ensuring (anything _) fun now _ => endRun_withdrawn m id now

/-- Runs of tasks that are broken off where the task has not been withdrawn. -/
def audited (run : TaskId → Action Machine Unit) (id : TaskId) : Action Machine Unit := fun m =>
  if (run id m).Leaves (Withdrawn id m) then run id m else .exhausted

def Host.audited (host : Host) : Host := fun name run i => host name (Machine.audited run) i

theorem audited_runTask (v : Invoker) : audited (runTask v) = runTask v := by
  funext id m
  exact if_pos (runTask_withdrawn v id m)

theorem executeWith_audited (host : Host) (fuel : Nat) (v : Invoker) (w : Word) (i : Instruction) :
    executeWith host.audited fuel v w i = executeWith host fuel v w i := by
  unfold executeWith Host.audited
  rw [audited_runTask]

/-- No run fails the audit, at any depth of runs within runs. -/
theorem invoke_audited (host : Host) (fuel : Nat) : invoke host.audited fuel = invoke host fuel := by
  induction fuel with
  | zero => rfl
  | succ fuel ih =>
    funext i
    simp only [invoke, ih, executeWith_audited]

/-- A run restores the active task and the registry. Whatever the primitives of the embedding program
do, and whether the run has a result or is halted: the task that was active before is active again,
and the name of the task, which such a primitive may have changed, does not lead to it any more. The
same holds of every run that such a primitive starts, and of those within it. Without such primitives
the registry is as before but for the task itself. -/
theorem run_restores_registry {m : Machine} {id : TaskId} {t : Task} (known : m.task? id = some t)
    (host : Host) (fuel : Nat) :
    ((run host fuel id m).Leaves fun m' =>
        m'.active = m.active ∧ ∀ u, m'.task? id = some u → m'.registry.get? u.name ≠ some id) ∧
      run host.audited fuel id m = run host fuel id m ∧
      (m.dictionary.OnlyBuiltins → (run host fuel id m).Leaves fun m' =>
        m'.registry = released m.registry id t.name) := by
  refine ⟨?_, ?_, fun own => ?_⟩
  · exact runTask_withdrawn _ id m
  · rw [run, run, invoke_audited]
  · rw [run_eq known own]
    have settled : ∀ f, (settle m id t.name f).registry = released m.registry id t.name :=
      fun _ => rfl
    cases Focus.invokeFor (Focus.invoke m.dictionary m.strict fuel) { token := t.entry.token }
      (Focus.of m t) with
    | ok a f => exact settled f
    | halt why f => exact settled f
    | exhausted => trivial

/-- Each task runs another one under its own name, three deep, and the last leaves a task under that
name that nobody runs. Then a task that is halted by a malformed word, with a namesake. -/
theorem run_restores_registry_nested :
    let broken := Word.secondary "relay" 1 .primitive []
    let relay : Word := { broken with primitive := some (.foreign "relay") }
    let t : Task := { name := "main", entry := relay }
    let m : Machine :=
      { built := some { Dictionary.empty 2 with words := ⟨[(1, relay)]⟩ }
        tasks := ⟨[(0, t)]⟩, nextTask := 1, registry := ⟨[("main", 0)]⟩, active := some 7 }
    let host : Host := fun _ run _ => do
      let (_, t) ← activeTask
      let next ← spawn t.name t.entry
      if next < 3 then run next
      return .null
    let u : Task := { name := "main", entry := broken }
    let n : Machine :=
      { built := some { Dictionary.empty 2 with words := ⟨[(1, broken)]⟩ }
        tasks := ⟨[(0, u), (1, u)]⟩, nextTask := 2, registry := ⟨[("main", 1)]⟩ }
    m.task? 0 = some t ∧ n.task? 0 = some u ∧ n.dictionary.OnlyBuiltins ∧
      ((run host 9 0 m).mapState fun m' => (m'.active, m'.registry)) =
        .ok () (some 7, ⟨[("main", 3)]⟩) ∧
      run host.audited 9 0 m = run host 9 0 m ∧
      ((run host 9 0 n).mapState fun n' => (n'.active, n'.registry)) =
        .halt (.malformed (.missingPrimitive "relay")) (none, ⟨[("main", 1)]⟩) ∧
      (run host 9 0 n).Leaves fun n' => n'.registry = released n.registry 0 u.name := by
  intro broken relay t m host u n
  have knownM : m.task? 0 = some t := rfl
  have knownN : n.task? 0 = some u := rfl
  have own : n.dictionary.OnlyBuiltins := Dictionary.onlyBuiltins_of_values (by decide)
  have nested : ((run host 9 0 m).mapState fun m' => (m'.active, m'.registry)) =
      .ok () (some 7, ⟨[("main", 3)]⟩) := by decide +kernel
  have halted : ((run host 9 0 n).mapState fun n' => (n'.active, n'.registry)) =
      .halt (.malformed (.missingPrimitive "relay")) (none, ⟨[("main", 1)]⟩) := by decide +kernel
  have restoresM := run_restores_registry knownM host 9
  have restoresN := run_restores_registry knownN host 9
  exact ⟨knownM, knownN, own, nested, restoresM.2.1, halted, restoresN.2.2 own⟩

end Machine

end ThreadedCode
