import ThreadedCode.Machine.Basic

/-!
Execution. Every instruction is a boundary: its fault becomes one line of diagnostics and the null
status, and the body goes on with the next instruction. Only a malformed word passes all boundaries.
An atomic body runs straight through; a composite body runs at a level of its own by its position,
which jumps may move.

Calls nest, and composite bodies may loop, so the interpreter takes fuel: it bounds both the depth
of calls and the instructions of one composite body. A result does not depend on fuel that is left.
-/

namespace ThreadedCode

namespace Machine

/-- Invokes an instruction; no value means that it failed. -/
abbrev Invoker := Instruction → Action Machine (Option Value)

/-- The primitives of the embedding program by name. Each is given a way to run a task. -/
abbrev Host := Text → (TaskId → Action Machine Unit) → Instruction → Action Machine Value

def runBuiltin (b : Builtin) (arg : Operand) : Action Machine Value := do
  let m ← Action.get
  match m.activeTask?, b with
  | some (id, t), b =>
    let effect := b.effect arg t m.globals
    Action.modify fun m => { m.setTask id effect.task with globals := effect.globals }
    write effect.output
    Action.ofExcept effect.result
  | none, .newline =>
    write [.lineFeed]
    pure (.flag true)
  | none, _ => Action.fail .noActiveTask

def invokeFor (invoke : Invoker) (id : TaskId) (i : Instruction) : Action Machine Unit := do
  let v ← invoke i
  Action.modify (updateTask id fun t => { t with status := v.getD .null })

def statusOf (id : TaskId) : Action Machine Value := fun m =>
  .ok ((m.task? id).elim .null (·.status)) m

def invokeEach (invoke : Invoker) (id : TaskId) : List Instruction → Action Machine Unit
  | [] => pure ()
  | i :: rest => do
    invokeFor invoke id i
    invokeEach invoke id rest

def enterAtomic (t : Task) : Task := { t with atomicDepth := t.atomicDepth + 1 }

def leaveAtomic (t : Task) : Task := { t with atomicDepth := t.atomicDepth - 1 }

def runStraight (invoke : Invoker) (body : List Instruction) : Action Machine Value := do
  let (id, _) ← activeTask
  Action.modify (updateTask id enterAtomic)
  (invokeEach invoke id body).ensuring (updateTask id leaveAtomic)
  statusOf id

/-- The instruction at an index, which counts from zero or, below zero, back from the end. -/
def instructionAt (body : List Instruction) (index : Int) : Except Fault Instruction :=
  let index := if index < 0 then index + body.length else index
  match if index < 0 then none else body[index.toNat]? with
  | some i => .ok i
  | none => .error .missingInstruction

theorem instructionAt_eq {body : List Instruction} {p : Int} (inside : 1 ≤ p ∧ p ≤ body.length) :
    instructionAt body (p - 1) = .ok (body.get ⟨(p - 1).toNat, by omega⟩) := by
  have notBefore : ¬ p - 1 < 0 := by omega
  have bound : (p - 1).toNat < body.length := by omega
  unfold instructionAt
  simp only [if_neg notBefore, List.getElem?_eq_getElem bound]
  rfl

def positionOf (id : TaskId) (level : Int) : Action Machine Int := fun m =>
  match (m.task? id).bind (·.positions.get? level) with
  | some position => .ok position m
  | none => .halt (.fault (.missingPosition level)) m

def setPosition (level position : Int) (t : Task) : Task :=
  { t with positions := t.positions.insert level position }

/-- Runs the instructions of a body from the position of the level on until it leaves the body. -/
def runByPosition (invoke : Invoker) (id : TaskId) (level : Int) (body : List Instruction) :
    Nat → Action Machine Unit
  | 0 => Action.exhausted
  | fuel + 1 => do
    let position ← positionOf id level
    if position ≤ body.length then
      let i ← Action.ofExcept (instructionAt body (position - 1))
      invokeFor invoke id i
      let position ← positionOf id level
      Action.modify (updateTask id (setPosition level (position + 1)))
      runByPosition invoke id level body fuel

def enterLevel (t : Task) : Task :=
  { t with
    level := t.level + 1
    positions := t.positions.insert (t.level + 1) 1
    atomicDepth := 0 }

def leaveLevel (before t : Task) : Task :=
  { t with
    level := t.level - 1
    positions := t.positions.erase (before.level + 1)
    atomicDepth := before.atomicDepth }

def runAtLevel (invoke : Invoker) (fuel : Nat) (body : List Instruction) :
    Action Machine Value := do
  let (id, before) ← activeTask
  Action.modify (updateTask id enterLevel)
  (runByPosition invoke id (before.level + 1) body fuel).ensuring
    (updateTask id (leaveLevel before))
  statusOf id

/-- A registry without a task of a name. An entry of the name for another task stays. -/
def released (registry : Table Text TaskId) (id : TaskId) (name : Text) : Table Text TaskId :=
  if registry.get? name = some id then registry.erase name else registry

/-- The end of a run that began at `before`: the task that was active is active again, and this one
is off the registry, under the name that it has by now. -/
def endRun (before : Machine) (id : TaskId) (now : Machine) : Machine :=
  let registry :=
    match now.task? id with
    | some t => released now.registry id t.name
    | none => now.registry
  { now with active := before.active, registry }

def runTask (invoke : Invoker) (id : TaskId) : Action Machine Unit := do
  let m ← Action.get
  match m.task? id with
  | none => Action.fail .noActiveTask
  | some t =>
    Action.modify fun m => { m with active := some id }
    (invokeFor invoke id { token := t.entry.token }).ensuring (endRun m id)

def executeWith (host : Host) (fuel : Nat) (invoke : Invoker) (w : Word) (i : Instruction) :
    Action Machine Value :=
  match w.kind with
  | .primitive =>
    match w.primitive with
    | none => Action.halt (.malformed (.missingPrimitive w.name))
    | some (.builtin b) => runBuiltin b i.arg
    | some (.foreign name) => host name (runTask invoke) i
  | .atomic => runStraight invoke w.body
  | .composite => runAtLevel invoke fuel w.body
  | .other label => Action.halt (.malformed (.badClass w.name label))

def diagnosticLine (task word : Option Text) (fault : Fault) : Text :=
  Text.concat ["[", task.getD "?", "] ", word.getD "?", ": ", fault.kind, ": ", fault.message, "\n"]

def reportFault (word : Option Text) (fault : Fault) : Action Machine (Option Value) := do
  let m ← Action.get
  diagnose (diagnosticLine (m.activeTask?.map (·.2.name)) word fault)
  pure none

def invoke (host : Host) : Nat → Invoker
  | 0, _ => Action.exhausted
  | fuel + 1, i => do
    let d ← useDictionary
    match d.findToken? i.token with
    | none => reportFault none (.ifWritable (Text.hasNumeral i.token) (.danglingToken i.token))
    | some w =>
      Action.catchFault
        (do return some (← executeWith host fuel (invoke host fuel) w i))
        (reportFault (some w.name))

def execute (host : Host) (fuel : Nat) (w : Word) (i : Instruction) : Action Machine Value :=
  executeWith host fuel (invoke host fuel) w i

def run (host : Host) (fuel : Nat) (id : TaskId) : Action Machine Unit :=
  runTask (invoke host fuel) id

end Machine

end ThreadedCode
