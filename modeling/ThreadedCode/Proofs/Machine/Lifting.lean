import ThreadedCode.Proofs.Machine.Holdings

/-!
The interpreter on the part in focus and the interpreter on the machine, function by function. The
dictionary has to be free of primitives of an embedding program. Once it is built, nothing outside
the focus changes any more.
-/

namespace ThreadedCode

namespace Machine

variable {m : Machine} {id : TaskId} {d : Dictionary}

theorem activeTask?_eq_some {t : Task} (h : m.activeTask? = some (id, t)) :
    m.active = some id ∧ m.task? id = some t := by
  obtain ⟨active, found, known⟩ := Option.bind_eq_some_iff.mp h
  obtain ⟨task, there, same⟩ := Option.map_eq_some_iff.mp known
  cases same
  exact ⟨found, there⟩

theorem activeTask?_put (active : m.active = some id) (f : Focus) :
    (f.put m id).activeTask? = some (id, f.task) := by
  have ha : (f.put m id).active = some id := active
  simp [activeTask?, ha]

theorem activeTask_put (active : m.active = some id) (f : Focus) :
    activeTask (f.put m id) = .ok (id, f.task) (f.put m id) := by
  rw [activeTask, activeTask?_put active]

theorem useDictionary_put (built : m.built = some d) (f : Focus) :
    useDictionary (f.put m id) = .ok d (f.put m id) := by
  have hd : (f.put m id).built = some d := built
  have same : { f.put m id with built := some d } = f.put m id := by rw [← hd]
  rw [useDictionary, dictionary, hd, Option.getD_some, same]

theorem write_lifts (t : Text) : Lifts m id (write t) (Focus.write m.strict t) := by
  intro f
  have strict : (f.put m id).strict = m.strict := rfl
  rw [write, Focus.write, strict]
  cases m.strict.refusal? t <;> rfl

theorem statusOf_lifts : Lifts m id (statusOf id) Focus.status := by
  intro f
  rw [statusOf, Focus.put_task?]
  rfl

theorem positionOf_lifts (level : Int) :
    Lifts m id (positionOf id level) (Focus.positionOf level) := by
  intro f
  rw [positionOf, Focus.positionOf, Focus.put_task?, Option.bind_some]
  cases f.task.positions.get? level <;> rfl

theorem reportFault_lifts (active : m.active = some id) (word : Option Text) (fault : Fault) :
    Lifts m id (reportFault word fault) (Focus.reportFault word fault) := by
  intro f
  simp only [reportFault, Action.get, Action.bind_apply, activeTask?_put active]
  rfl

theorem runBuiltin_lifts (active : m.active = some id) (b : Builtin) (arg : Operand) :
    Lifts m id (runBuiltin b arg) (Focus.runBuiltin m.strict b arg) := by
  intro f
  have effects : ∀ e : Effect,
      { (f.put m id).setTask id e.task with globals := e.globals } =
        Focus.put m id { f with task := e.task, globals := e.globals } := by
    intro e
    simp [Focus.put, setTask]
  have globals : (f.put m id).globals = f.globals := rfl
  simp only [runBuiltin, Focus.runBuiltin, Action.get, Action.modify, Action.bind_apply,
    activeTask?_put active, globals, effects]
  exact ((write_lifts _).bind fun _ => .ofExcept _) _

section Bodies

variable {v : Invoker} {u : Focus.Invoker}

theorem invokeFor_lifts (h : ∀ i, Lifts m id (v i) (u i)) (i : Instruction) :
    Lifts m id (invokeFor v id i) (Focus.invokeFor u i) :=
  (h i).bind fun _ => .updateTask _

theorem invokeEach_lifts (h : ∀ i, Lifts m id (v i) (u i)) (body : List Instruction) :
    Lifts m id (invokeEach v id body) (Focus.invokeEach u body) := by
  induction body with
  | nil => exact .pure ()
  | cons i rest ih => exact (invokeFor_lifts h i).bind fun _ => ih

theorem runByPosition_lifts (h : ∀ i, Lifts m id (v i) (u i)) (level : Int)
    (body : List Instruction) (fuel : Nat) :
    Lifts m id (runByPosition v id level body fuel) (Focus.runByPosition u level body fuel) := by
  induction fuel with
  | zero => exact .exhausted
  | succ fuel ih =>
    refine (positionOf_lifts level).bind fun position => ?_
    by_cases inside : position ≤ body.length
    · rw [if_pos inside, if_pos inside]
      exact (Lifts.ofExcept _).bind fun i => (invokeFor_lifts h i).bind fun _ =>
        (positionOf_lifts level).bind fun _ => (Lifts.updateTask _).bind fun _ => ih
    · rw [if_neg inside, if_neg inside]
      exact .pure ()

theorem runStraight_lifts (active : m.active = some id) (h : ∀ i, Lifts m id (v i) (u i))
    (body : List Instruction) :
    Lifts m id (runStraight v body) (Focus.runStraight u body) := by
  intro f
  rw [runStraight, Action.bind_apply, activeTask_put active]
  exact ((Lifts.updateTask enterAtomic).bind fun _ =>
    ((invokeEach_lifts h body).ensuring leaveAtomic).bind fun _ => statusOf_lifts) f

theorem runAtLevel_lifts (active : m.active = some id) (h : ∀ i, Lifts m id (v i) (u i))
    (fuel : Nat) (body : List Instruction) :
    Lifts m id (runAtLevel v fuel body) (Focus.runAtLevel u fuel body) := by
  intro f
  rw [runAtLevel, Action.bind_apply, activeTask_put active]
  exact ((Lifts.updateTask enterLevel).bind fun _ =>
    ((runByPosition_lifts h _ body fuel).ensuring (leaveLevel f.task)).bind fun _ =>
      statusOf_lifts) f

end Bodies

theorem executeWith_lifts (active : m.active = some id) (host : Host) {v : Invoker}
    {u : Focus.Invoker} (h : ∀ i, Lifts m id (v i) (u i)) (fuel : Nat) {w : Word}
    (own : w.isForeign = false) (i : Instruction) :
    Lifts m id (executeWith host fuel v w i) (Focus.executeWith m.strict fuel u w i) := by
  unfold executeWith Focus.executeWith
  cases hk : w.kind with
  | primitive =>
    cases hp : w.primitive with
    | none => exact .halt _
    | some p =>
      cases p with
      | builtin b => exact runBuiltin_lifts active b i.arg
      | foreign name => simp [Word.isForeign, hk, hp] at own
  | atomic => exact runStraight_lifts active h w.body
  | composite => exact runAtLevel_lifts active h fuel w.body
  | other label => exact .halt _

/-- Invoking an instruction touches only what is in focus. -/
theorem invoke_lifts (active : m.active = some id) (built : m.built = some d)
    (own : d.OnlyBuiltins) (host : Host) (fuel : Nat) (i : Instruction) :
    Lifts m id (invoke host fuel i) (Focus.invoke d m.strict fuel i) := by
  induction fuel generalizing i with
  | zero => exact .exhausted
  | succ fuel ih =>
    intro f
    rw [invoke, Action.bind_apply, useDictionary_put built, Focus.invoke]
    dsimp only
    cases hw : d.findToken? i.token with
    | none => exact reportFault_lifts active _ _ f
    | some w =>
      refine (Lifts.bind ?_ fun v => .pure (some v)).catchFault
        (reportFault_lifts active (some w.name)) f
      exact executeWith_lifts active host (fun i => ih i) fuel (own _ w hw) i

theorem dictionary_of_unbuilt (h : m.built = none) : m.dictionary = .initial := by
  rw [dictionary, h, Option.getD_none]

def ready (m : Machine) : Machine := { m with built := some m.dictionary }

theorem invoke_ready (host : Host) (fuel : Nat) (i : Instruction) (m : Machine) :
    invoke host fuel i m.ready = invoke host fuel i m := by
  cases fuel with
  | zero => rfl
  | succ fuel => rfl

theorem invoke_put (active : m.active = some id) (own : m.dictionary.OnlyBuiltins) (host : Host)
    (fuel : Nat) (i : Instruction) (f : Focus) :
    invoke host fuel i (f.put m id) =
      (Focus.invoke m.dictionary m.strict fuel i f).mapState (Focus.put m.ready id) := by
  rw [← invoke_ready]
  exact invoke_lifts (m := m.ready) active rfl own host fuel i f

theorem invokeFor_put (active : m.active = some id) (own : m.dictionary.OnlyBuiltins)
    (host : Host) (fuel : Nat) (i : Instruction) (f : Focus) :
    invokeFor (invoke host fuel) id i (f.put m id) =
      (Focus.invokeFor (Focus.invoke m.dictionary m.strict fuel) i f).mapState
        (Focus.put m.ready id) := by
  rw [invokeFor, Action.bind_apply, invoke_put active own, Focus.invokeFor, Action.bind_apply]
  cases Focus.invoke m.dictionary m.strict fuel i f with
  | ok v g => simp [Outcome.mapState, Action.modify, Focus.setStatus]
  | halt why g => rfl
  | exhausted => rfl

section Unbuilt

variable (active : m.active = some id) (own : m.dictionary.OnlyBuiltins) (host : Host)

include active own

theorem invokeEach_put (fuel : Nat) (body : List Instruction) (f : Focus) :
    ∃ m', invokeEach (invoke host fuel) id body (f.put m id) =
      (Focus.invokeEach (Focus.invoke m.dictionary m.strict fuel) body f).mapState
        (Focus.put m' id) := by
  cases body with
  | nil => exact ⟨m, rfl⟩
  | cons i rest =>
    refine ⟨m.ready, ?_⟩
    have lifts := invokeEach_lifts (invoke_lifts (m := m.ready) active rfl own host fuel) rest
    rw [invokeEach, Focus.invokeEach, Action.bind_apply, Action.bind_apply, invokeFor_put active own]
    cases Focus.invokeFor (Focus.invoke m.dictionary m.strict fuel) i f with
    | ok _ g => exact lifts g
    | halt why g => rfl
    | exhausted => rfl

theorem runByPosition_put (fuel : Nat) (level : Int) (body : List Instruction) (rounds : Nat)
    (f : Focus) :
    ∃ m', runByPosition (invoke host fuel) id level body rounds (f.put m id) =
      (Focus.runByPosition (Focus.invoke m.dictionary m.strict fuel) level body rounds f).mapState
        (Focus.put m' id) := by
  cases rounds with
  | zero => exact ⟨m, rfl⟩
  | succ rounds =>
    have lifts := invoke_lifts (m := m.ready) active rfl own host fuel
    rw [runByPosition, Focus.runByPosition, Action.bind_apply, Action.bind_apply,
      positionOf_lifts level f]
    cases Focus.positionOf level f with
    | ok position g =>
      dsimp only [Outcome.mapState]
      by_cases inside : position ≤ body.length
      · rw [if_pos inside, if_pos inside]
        cases instructionAt body (position - 1) with
        | error fault => exact ⟨m, rfl⟩
        | ok i =>
          refine ⟨m.ready, ?_⟩
          have position : Lifts m.ready id (positionOf id level) (Focus.positionOf level) :=
            positionOf_lifts level
          have rest := position.bind fun position =>
            (Lifts.updateTask (setPosition level (position + 1))).bind fun _ =>
              runByPosition_lifts lifts level body rounds
          simp only [Action.ofExcept, Action.bind_apply, Action.pure_apply,
            invokeFor_put active own]
          cases Focus.invokeFor (Focus.invoke m.dictionary m.strict fuel) i g with
          | ok _ g => exact rest g
          | halt why g => rfl
          | exhausted => rfl
      · rw [if_neg inside, if_neg inside]
        exact ⟨m, rfl⟩
    | halt why g => exact ⟨m, rfl⟩
    | exhausted => exact ⟨m, rfl⟩

theorem executeWith_put (fuel : Nat) {w : Word} (ours : w.isForeign = false) (i : Instruction)
    (f : Focus) :
    ∃ m', executeWith host fuel (invoke host fuel) w i (f.put m id) =
      (Focus.executeWith m.strict fuel (Focus.invoke m.dictionary m.strict fuel) w i f).mapState
        (Focus.put m' id) := by
  unfold executeWith Focus.executeWith
  cases hk : w.kind with
  | primitive =>
    cases hp : w.primitive with
    | none => exact ⟨m, rfl⟩
    | some p =>
      cases p with
      | builtin b => exact ⟨m, runBuiltin_lifts active b i.arg f⟩
      | foreign name => simp [Word.isForeign, hk, hp] at ours
  | atomic =>
    obtain ⟨m', run⟩ := invokeEach_put active own host fuel w.body (f.onTask enterAtomic)
    refine ⟨m', ?_⟩
    simp only [runStraight, Focus.runStraight, Action.bind_apply, activeTask_put active,
      Action.modify, Focus.put_updateTask, Action.ensuring, run]
    cases Focus.invokeEach (Focus.invoke m.dictionary m.strict fuel) w.body
        (f.onTask enterAtomic) with
    | ok _ g => simp [Outcome.mapState, statusOf, Focus.status]
    | halt why g => simp [Outcome.mapState]
    | exhausted => rfl
  | composite =>
    obtain ⟨m', run⟩ := runByPosition_put active own host fuel (f.task.level + 1) w.body fuel
      (f.onTask enterLevel)
    refine ⟨m', ?_⟩
    simp only [runAtLevel, Focus.runAtLevel, Action.bind_apply, activeTask_put active, Action.get,
      Action.modify, Focus.put_updateTask, Action.ensuring, run]
    cases Focus.runByPosition (Focus.invoke m.dictionary m.strict fuel) (f.task.level + 1) w.body
        fuel (f.onTask enterLevel) with
    | ok _ g => simp [Outcome.mapState, statusOf, Focus.status]
    | halt why g => simp [Outcome.mapState]
    | exhausted => rfl
  | other label => exact ⟨m, rfl⟩

end Unbuilt

/-- The machine after a run of a task, where the run left a part in focus. -/
def settle (m : Machine) (id : TaskId) (name : Text) (f : Focus) : Machine :=
  { f.put m.ready id with registry := released m.registry id name }

theorem settle_task? (m : Machine) (id : TaskId) (name : Text) (f : Focus) :
    (settle m id name f).task? id = some f.task :=
  Focus.put_task? m.ready id f

theorem endRun_put {name : Text} {f : Focus} (named : f.task.name = name) :
    endRun m id (f.put { m with active := some id }.ready id) = settle m id name f := by
  rw [endRun, Focus.put_task?]
  dsimp only
  rw [named]
  rfl

theorem run_eq {t : Task} (known : m.task? id = some t) (own : m.dictionary.OnlyBuiltins)
    (host : Host) (fuel : Nat) :
    run host fuel id m =
      (Focus.invokeFor (Focus.invoke m.dictionary m.strict fuel) { token := t.entry.token }
        (Focus.of m t)).mapState (settle m id t.name) := by
  let awake : Machine := { m with active := some id }
  have entry : invokeFor (invoke host fuel) id { token := t.entry.token } awake =
      (Focus.invokeFor (Focus.invoke m.dictionary m.strict fuel) { token := t.entry.token }
        (Focus.of m t)).mapState (Focus.put awake.ready id) := by
    have lifted := invokeFor_put (m := awake) rfl own host fuel { token := t.entry.token }
      (Focus.of m t)
    rwa [show (Focus.of m t).put awake id = awake from Focus.put_of (m := awake) known] at lifted
  have named := Focus.invokeFor_named m.dictionary m.strict fuel { token := t.entry.token }
    (Focus.of m t)
  rw [run, runTask, Action.bind_apply]
  simp only [Action.get, known, Action.bind_apply, Action.modify, Action.ensuring]
  rw [entry]
  cases ran : Focus.invokeFor (Focus.invoke m.dictionary m.strict fuel) { token := t.entry.token }
    (Focus.of m t) with
  | ok _ f =>
    rw [ran] at named
    exact congrArg (Outcome.ok ()) (endRun_put named)
  | halt why f =>
    rw [ran] at named
    exact congrArg (Outcome.halt why) (endRun_put named)
  | exhausted => rfl

end Machine

end ThreadedCode
