import ThreadedCode.Machine.Interpreter

/-!
The part of a machine that its own primitives work on: the active task, the global variables and the
two texts. The interpreter is repeated here on this part alone, where the active task is at hand and
need not be looked up. Without primitives of an embedding program it does the same as the machine,
and all else of the machine stays as it is: `invoke_lifts`.
-/

namespace ThreadedCode

structure Focus where
  task : Task
  globals : Variables
  output : Text
  diagnostics : Text

namespace Focus

def onTask (change : Task → Task) (f : Focus) : Focus := { f with task := change f.task }

def write (strict : Strictness) (t : Text) : Action Focus Unit := fun f =>
  match strict.refusal? t with
  | some failure => .halt (.fault (.unencodable failure)) f
  | none => .ok () { f with output := f.output ++ t }

def runBuiltin (strict : Strictness) (b : Builtin) (arg : Operand) : Action Focus Value := do
  let f ← Action.get
  let effect := b.effect arg f.task f.globals
  Action.modify fun f => { f with task := effect.task, globals := effect.globals }
  write strict effect.output
  Action.ofExcept effect.result

abbrev Invoker := Instruction → Action Focus (Option Value)

def setStatus (v : Option Value) : Focus → Focus :=
  onTask fun t => { t with status := v.getD .null }

def invokeFor (invoke : Invoker) (i : Instruction) : Action Focus Unit := do
  let v ← invoke i
  Action.modify (setStatus v)

def invokeEach (invoke : Invoker) : List Instruction → Action Focus Unit
  | [] => pure ()
  | i :: rest => do
    invokeFor invoke i
    invokeEach invoke rest

def status : Action Focus Value := fun f => .ok f.task.status f

def runStraight (invoke : Invoker) (body : List Instruction) : Action Focus Value := do
  Action.modify (onTask Machine.enterAtomic)
  (invokeEach invoke body).ensuring (onTask Machine.leaveAtomic)
  status

def positionOf (level : Int) : Action Focus Int := fun f =>
  match f.task.positions.get? level with
  | some position => .ok position f
  | none => .halt (.fault (.missingPosition level)) f

def runByPosition (invoke : Invoker) (level : Int) (body : List Instruction) :
    Nat → Action Focus Unit
  | 0 => Action.exhausted
  | fuel + 1 => do
    let position ← positionOf level
    if position ≤ body.length then
      let i ← Action.ofExcept (Machine.instructionAt body (position - 1))
      invokeFor invoke i
      let position ← positionOf level
      Action.modify (onTask (Machine.setPosition level (position + 1)))
      runByPosition invoke level body fuel

def runAtLevel (invoke : Invoker) (fuel : Nat) (body : List Instruction) : Action Focus Value := do
  let f ← Action.get
  Action.modify (onTask Machine.enterLevel)
  (runByPosition invoke (f.task.level + 1) body fuel).ensuring (onTask (Machine.leaveLevel f.task))
  status

def executeWith (strict : Strictness) (fuel : Nat) (invoke : Invoker) (w : Word) (i : Instruction) :
    Action Focus Value :=
  match w.kind with
  | .primitive =>
    match w.primitive with
    | some (.builtin b) => runBuiltin strict b i.arg
    | _ => Action.halt (.malformed (.missingPrimitive w.name))
  | .atomic => runStraight invoke w.body
  | .composite => runAtLevel invoke fuel w.body
  | .other label => Action.halt (.malformed (.badClass w.name label))

def reportFault (word : Option Text) (fault : Fault) : Action Focus (Option Value) := fun f =>
  let line := Machine.diagnosticLine (some f.task.name) word fault
  .ok none { f with diagnostics := f.diagnostics ++ line }

def invoke (d : Dictionary) (strict : Strictness) : Nat → Invoker
  | 0, _ => Action.exhausted
  | fuel + 1, i =>
    match d.findToken? i.token with
    | none => reportFault none (.ifWritable (Text.hasNumeral i.token) (.danglingToken i.token))
    | some w =>
      Action.catchFault
        (do return some (← executeWith strict fuel (invoke d strict fuel) w i))
        (reportFault (some w.name))

def of (m : Machine) (t : Task) : Focus := ⟨t, m.globals, m.output, m.diagnostics⟩

def put (m : Machine) (id : TaskId) (f : Focus) : Machine :=
  { m with
    tasks := m.tasks.insert id f.task
    globals := f.globals
    output := f.output
    diagnostics := f.diagnostics }

theorem put_of {m : Machine} {id : TaskId} {t : Task} (h : m.task? id = some t) :
    (of m t).put m id = m := by
  rw [put, of, Table.insert_of_get? h]

@[simp]
theorem put_task? (m : Machine) (id : TaskId) (f : Focus) :
    (f.put m id).task? id = some f.task := by
  simp [put, Machine.task?, Table.get?_insert]

@[simp]
theorem put_updateTask (m : Machine) (id : TaskId) (f : Focus) (change : Task → Task) :
    (f.put m id).updateTask id change = (f.onTask change).put m id := by
  rw [Machine.updateTask, put_task?]
  simp [Machine.setTask, put, onTask]

end Focus

def Outcome.mapState {σ τ α : Type} (g : σ → τ) : Outcome σ α → Outcome τ α
  | ok a s => ok a (g s)
  | halt why s => halt why (g s)
  | exhausted => exhausted

theorem Outcome.mapState_eq_ok {σ τ α : Type} {g : σ → τ} {o : Outcome σ α} {a : α} {t : τ} :
    o.mapState g = .ok a t ↔ ∃ s, o = .ok a s ∧ g s = t := by
  cases o <;> simp [mapState, and_assoc]

theorem Outcome.mapState_eq_halt {σ τ α : Type} {g : σ → τ} {o : Outcome σ α} {why : Halt} {t : τ} :
    o.mapState g = .halt why t ↔ ∃ s, o = .halt why s ∧ g s = t := by
  cases o <;> simp [mapState, and_assoc]

/-- `x` does on the machine what `y` does on the part in focus, and nothing else. -/
def Lifts {α : Type} (m : Machine) (id : TaskId) (x : Action Machine α) (y : Action Focus α) :
    Prop :=
  ∀ f : Focus, x (f.put m id) = (y f).mapState (Focus.put m id)

namespace Lifts

variable {α β : Type} {m : Machine} {id : TaskId}

theorem pure (a : α) : Lifts m id (pure a) (pure a) := fun _ => rfl

theorem halt (why : Halt) : Lifts (α := α) m id (Action.halt why) (Action.halt why) := fun _ => rfl

theorem exhausted : Lifts (α := α) m id Action.exhausted Action.exhausted := fun _ => rfl

theorem ofExcept (r : Except Fault α) : Lifts m id (Action.ofExcept r) (Action.ofExcept r) := by
  cases r with
  | ok a => exact pure a
  | error fault => exact halt (.fault fault)

theorem updateTask (change : Task → Task) :
    Lifts m id (Action.modify (Machine.updateTask id change))
      (Action.modify (Focus.onTask change)) := by
  intro f
  simp [Action.modify, Outcome.mapState]

theorem bind {x : Action Machine α} {y : Action Focus α} {g : α → Action Machine β}
    {k : α → Action Focus β} (h : Lifts m id x y) (hk : ∀ a, Lifts m id (g a) (k a)) :
    Lifts m id (x >>= g) (y >>= k) := by
  intro f
  rw [Action.bind_apply, Action.bind_apply, h f]
  cases y f with
  | ok a f => exact hk a f
  | halt why f => rfl
  | exhausted => rfl

theorem ensuring {x : Action Machine α} {y : Action Focus α} (h : Lifts m id x y)
    (change : Task → Task) :
    Lifts m id (x.ensuring (Machine.updateTask id change))
      (y.ensuring (Focus.onTask change)) := by
  intro f
  rw [Action.ensuring, Action.ensuring, h f]
  cases y f <;> simp [Outcome.mapState]

theorem catchFault {x : Action Machine α} {y : Action Focus α} {g : Fault → Action Machine α}
    {k : Fault → Action Focus α} (h : Lifts m id x y)
    (hk : ∀ fault, Lifts m id (g fault) (k fault)) :
    Lifts m id (x.catchFault g) (y.catchFault k) := by
  intro f
  rw [Action.catchFault, Action.catchFault, h f]
  cases y f with
  | ok a f => rfl
  | halt why f =>
    cases why with
    | fault fault => exact hk fault f
    | malformed word => rfl
    | quit => rfl
  | exhausted => rfl

end Lifts

end ThreadedCode
