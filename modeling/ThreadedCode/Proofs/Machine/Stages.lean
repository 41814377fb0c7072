import ThreadedCode.Proofs.Machine.Lifting
import ThreadedCode.Proofs.Machine.Recorder

/-!
The two stages of the recorder: the machine, and the part of it in focus. On both it is the interpreter
that it records, once the record is left out.
-/

namespace ThreadedCode

def Focus.stage (d : Dictionary) (strict : Strictness) : Stage Focus Unit where
  activeTask f := .ok ((), f.task) f
  update _ := onTask
  statusOf _ := status
  positionOf _ := positionOf
  wordOf i := pure (d.findToken? i.token)
  execute fuel := executeWith strict fuel (invoke d strict fuel)
  report := reportFault

/-- The machine as a stage. The runs that a primitive of the embedding program starts are runs of
their own. -/
def Machine.stage (host : Host) : Stage Machine TaskId where
  activeTask := activeTask
  update := updateTask
  statusOf := statusOf
  positionOf := positionOf
  wordOf i := do return (← useDictionary).findToken? i.token
  execute fuel := executeWith host fuel (invoke host fuel)
  report := reportFault

namespace Focus

variable {d : Dictionary} {strict : Strictness} {u : Invoker} {v : Visitor Focus}
  {inside : Int → List Call}

theorem stage_wordOf (i : Instruction) (f : Focus) :
    (stage d strict).wordOf i f = .ok (d.findToken? i.token) f := rfl

theorem erase_visitFor (h : Stage.Follows v u) (calls : List Call) (i : Instruction) :
    ((stage d strict).visitFor v calls () i).erase = invokeFor u i :=
  Stage.erase_visitFor h calls () i

theorem erase_visitEach (h : Stage.Follows v u) (p : Int) (body : List Instruction) :
    ((stage d strict).visitEach v inside () p body).erase = invokeEach u body := by
  induction body generalizing p with
  | nil => rfl
  | cons i rest ih => simp [Stage.visitEach, invokeEach, erase_visitFor h, ih]

theorem erase_visitStraight (h : Stage.Follows v u) (body : List Instruction) :
    ((stage d strict).visitStraight v inside body).erase = runStraight u body := by
  simp only [Stage.visitStraight, Recording.erase_bind, Recording.erase_silently,
    Recording.erase_ensuring, erase_visitEach h]
  rfl

theorem erase_visitByPosition (h : Stage.Follows v u) (level : Int) (body : List Instruction)
    (rounds : Nat) :
    ((stage d strict).visitByPosition v inside () level body rounds).erase =
      runByPosition u level body rounds := by
  induction rounds with
  | zero => rfl
  | succ rounds ih =>
    simp only [Stage.visitByPosition, runByPosition, Recording.erase_bind, Recording.erase_silently]
    refine congrArg (positionOf level >>= ·) (funext fun position => ?_)
    by_cases inside : position ≤ body.length
    · simp only [if_pos inside, Recording.erase_bind, Recording.erase_silently, erase_visitFor h, ih]
      rfl
    · simp only [if_neg inside, Recording.erase_pure]

theorem erase_visitAtLevel (h : Stage.Follows v u) (rounds : Nat) (body : List Instruction) :
    ((stage d strict).visitAtLevel v inside rounds body).erase = runAtLevel u rounds body := by
  simp only [Stage.visitAtLevel, Recording.erase_bind, Recording.erase_silently,
    Recording.erase_ensuring, erase_visitByPosition h]
  rfl

theorem erase_visitWith {fuel : Nat} (h : Stage.Follows v (invoke d strict fuel))
    (calls : List Call) (w : Word) (i : Instruction) :
    ((stage d strict).visitWith v calls fuel w i).erase =
      executeWith strict fuel (invoke d strict fuel) w i := by
  unfold Stage.visitWith
  cases kind : w.kind with
  | primitive | other => rfl
  | atomic => simp only [executeWith, kind, erase_visitStraight h]
  | composite => simp only [executeWith, kind, erase_visitAtLevel h]

theorem visit_follows (d : Dictionary) (strict : Strictness) (fuel : Nat) :
    Stage.Follows ((stage d strict).visit fuel) (invoke d strict fuel) := by
  induction fuel with
  | zero => exact fun _ _ => rfl
  | succ fuel ih =>
    intro calls i
    funext f
    rw [invoke]
    cases found : d.findToken? i.token with
    | none => exact Stage.value_visit_missing (found ▸ stage_wordOf i f) fuel
    | some w =>
      rw [Stage.value_visit_found (found ▸ stage_wordOf i f), erase_visitWith ih]
      rfl

theorem erase_record (d : Dictionary) (strict : Strictness) (fuel : Nat) (i : Instruction) :
    ((stage d strict).record fuel () i).erase = invokeFor (invoke d strict fuel) i :=
  erase_visitFor (visit_follows d strict fuel) [] i

end Focus

namespace Machine

variable {host : Host} {u : Invoker} {v : Visitor Machine} {inside : Int → List Call}

theorem stage_wordOf (i : Instruction) (m : Machine) :
    (stage host).wordOf i m = .ok (m.dictionary.findToken? i.token) m.ready := rfl

theorem erase_visitFor (h : Stage.Follows v u) (calls : List Call) (id : TaskId) (i : Instruction) :
    ((stage host).visitFor v calls id i).erase = invokeFor u id i :=
  Stage.erase_visitFor h calls id i

theorem erase_visitEach (h : Stage.Follows v u) (id : TaskId) (p : Int) (body : List Instruction) :
    ((stage host).visitEach v inside id p body).erase = invokeEach u id body := by
  induction body generalizing p with
  | nil => rfl
  | cons i rest ih => simp [Stage.visitEach, invokeEach, erase_visitFor h, ih]

theorem erase_visitStraight (h : Stage.Follows v u) (body : List Instruction) :
    ((stage host).visitStraight v inside body).erase = runStraight u body := by
  simp only [Stage.visitStraight, Recording.erase_bind, Recording.erase_silently,
    Recording.erase_ensuring, erase_visitEach h]
  rfl

theorem erase_visitByPosition (h : Stage.Follows v u) (id : TaskId) (level : Int)
    (body : List Instruction) (rounds : Nat) :
    ((stage host).visitByPosition v inside id level body rounds).erase =
      runByPosition u id level body rounds := by
  induction rounds with
  | zero => rfl
  | succ rounds ih =>
    simp only [Stage.visitByPosition, runByPosition, Recording.erase_bind, Recording.erase_silently]
    refine congrArg (positionOf id level >>= ·) (funext fun position => ?_)
    by_cases inside : position ≤ body.length
    · simp only [if_pos inside, Recording.erase_bind, Recording.erase_silently, erase_visitFor h, ih]
      rfl
    · simp only [if_neg inside, Recording.erase_pure]

theorem erase_visitAtLevel (h : Stage.Follows v u) (rounds : Nat) (body : List Instruction) :
    ((stage host).visitAtLevel v inside rounds body).erase = runAtLevel u rounds body := by
  simp only [Stage.visitAtLevel, Recording.erase_bind, Recording.erase_silently,
    Recording.erase_ensuring, erase_visitByPosition h]
  rfl

theorem erase_visitWith {fuel : Nat} (h : Stage.Follows v (invoke host fuel)) (calls : List Call)
    (w : Word) (i : Instruction) :
    ((stage host).visitWith v calls fuel w i).erase =
      executeWith host fuel (invoke host fuel) w i := by
  unfold Stage.visitWith
  cases kind : w.kind with
  | primitive | other => rfl
  | atomic => simp only [executeWith, kind, erase_visitStraight h]
  | composite => simp only [executeWith, kind, erase_visitAtLevel h]

theorem visit_follows (host : Host) (fuel : Nat) :
    Stage.Follows ((stage host).visit fuel) (invoke host fuel) := by
  induction fuel with
  | zero => exact fun _ _ => rfl
  | succ fuel ih =>
    intro calls i
    funext m
    rw [invoke, Action.bind_apply, useDictionary]
    dsimp only
    cases found : m.dictionary.findToken? i.token with
    | none => exact Stage.value_visit_missing (found ▸ stage_wordOf i m) fuel
    | some w =>
      rw [Stage.value_visit_found (found ▸ stage_wordOf i m), erase_visitWith ih]
      rfl

theorem erase_record (host : Host) (fuel : Nat) (id : TaskId) (i : Instruction) :
    ((stage host).record fuel id i).erase = invokeFor (invoke host fuel) id i :=
  erase_visitFor (visit_follows host fuel) [] id i

/-- A run and the record of it, also where the primitives of an embedding program take part. -/
theorem run_eq_record {m : Machine} {id : TaskId} {t : Task} (known : m.task? id = some t)
    (host : Host) (fuel : Nat) :
    run host fuel id m =
      ((stage host).record fuel id { token := t.entry.token }
        { m with active := some id }).outcome.mapState (endRun m id) := by
  have erased := congrFun (erase_record host fuel id { token := t.entry.token })
    { m with active := some id }
  rw [run, runTask, Action.bind_apply]
  simp only [Action.get, known, Action.bind_apply, Action.modify, Action.ensuring, ← erased]
  rw [Recording.erase]
  cases ((stage host).record fuel id { token := t.entry.token }
    { m with active := some id }).outcome <;> rfl

end Machine

theorem Machine.run_visits {m : Machine} {id : TaskId} {t : Task} (known : m.task? id = some t)
    (own : m.dictionary.OnlyBuiltins) (host : Host) (fuel : Nat) :
    let entry : Instruction := { token := t.entry.token }
    let record := (Focus.stage m.dictionary m.strict).record fuel () entry (Focus.of m t)
    run host fuel id m = record.outcome.mapState (settle m id t.name) ∧
      ∃ root, record.events = [root] ∧ root.instruction = entry := by
  intro entry record
  have erased : record.outcome =
      Focus.invokeFor (Focus.invoke m.dictionary m.strict fuel) entry (Focus.of m t) :=
    congrFun (Focus.erase_record m.dictionary m.strict fuel entry) _
  refine ⟨?_, Stage.record_events _ fuel () entry _⟩
  rw [erased, run_eq known own]

end ThreadedCode
