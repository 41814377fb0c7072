import ThreadedCode.Action
import ThreadedCode.Dictionary.Compile
import ThreadedCode.Machine.Builtin

/-!
The machine: a dictionary, which is built when it is first used, all tasks ever made, the registry
of the tasks that wait or run, the global variables, the active task, and the two texts written so
far. Tasks are addressed by number, so the registry, the active task and the embedding program may
all speak of the same task.
-/

namespace ThreadedCode

abbrev TaskId := Nat

/-- What an output refuses: nothing, or text that has no bytes in its encoding. -/
inductive Strictness where
  | lenient
  | encoded (encoding : Encoding)
deriving DecidableEq

namespace Strictness

def refusal? : Strictness → Text → Option EncodeFailure
  | lenient, _ => none
  | encoded encoding, t => encoding.refusal? t

theorem refusal?_ascii (strict : Strictness) {t : Text} (ascii : ∀ c ∈ t, c.val < 0x80) :
    strict.refusal? t = none := by
  cases strict with
  | lenient => rfl
  | encoded encoding =>
    exact Encoding.refusalFrom_eq_none_iff.mpr fun c member => Encoding.lacks_ascii (ascii c member)

instance : Coe Bool Strictness := ⟨fun strict => if strict then encoded Utf8.encoding else lenient⟩

end Strictness

structure Machine where
  built : Option Dictionary := none
  tasks : Table TaskId Task := ∅
  nextTask : TaskId := 0
  registry : Table Text TaskId := ∅
  globals : Variables := ∅
  active : Option TaskId := none
  strict : Strictness := .lenient
  output : Text := []
  diagnostics : Text := []
  /-- What the primitives of the embedding program have put on record. -/
  records : List (Operand × Task) := []
deriving DecidableEq

namespace Machine

def dictionary (m : Machine) : Dictionary := m.built.getD .initial

/-- The dictionary; asking for it builds it. -/
def useDictionary : Action Machine Dictionary := fun m =>
  .ok m.dictionary { m with built := some m.dictionary }

def changeDictionary {α : Type} (f : Dictionary → Except Fault (α × Dictionary)) :
    Action Machine α := do
  let d ← useDictionary
  let (a, d) ← Action.ofExcept (f d)
  Action.modify fun m => { m with built := some d }
  pure a

/-- Writes to the output, which takes a text or refuses it as a whole. -/
def write (t : Text) : Action Machine Unit := fun m =>
  match m.strict.refusal? t with
  | some failure => .halt (.fault (.unencodable failure)) m
  | none => .ok () { m with output := m.output ++ t }

def diagnose (t : Text) : Action Machine Unit :=
  Action.modify fun m => { m with diagnostics := m.diagnostics ++ t }

def task? (m : Machine) (id : TaskId) : Option Task := m.tasks.get? id

def setTask (m : Machine) (id : TaskId) (t : Task) : Machine :=
  { m with tasks := m.tasks.insert id t }

def updateTask (id : TaskId) (f : Task → Task) (m : Machine) : Machine :=
  match m.task? id with
  | some t => m.setTask id (f t)
  | none => m

def activeTask? (m : Machine) : Option (TaskId × Task) :=
  m.active.bind fun id => (m.task? id).map fun t => (id, t)

def activeTask : Action Machine (TaskId × Task) := fun m =>
  match m.activeTask? with
  | some found => .ok found m
  | none => .halt (.fault .noActiveTask) m

/-- Makes a task for an entry word and registers it under its name. A name keeps its place in the
registry when a new task takes it over. -/
def spawn (name : Text) (entry : Word) : Action Machine TaskId := fun m =>
  .ok m.nextTask
    { m with
      tasks := m.tasks.insert m.nextTask { name, entry }
      nextTask := m.nextTask + 1
      registry := m.registry.insert name m.nextTask }

def spawnNamed (name entry : Text) : Action Machine TaskId := do
  let d ← useDictionary
  let w ← Action.ofExcept (d.find entry)
  spawn name w

def define (name : Text) (items : List (Text × Operand)) (composite : Option Bool) :
    Action Machine Word :=
  changeDictionary fun d => d.compile name items composite

end Machine

end ThreadedCode
