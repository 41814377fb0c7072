import ThreadedCode.Machine.Task

/-!
What the primitives of the machine do, as functions of the task, the global variables and the
operand. A variable is read in the task first and then among the globals. Writing goes to whichever
of the two has the name already; a name that neither has becomes a variable of the task.
-/

namespace ThreadedCode

abbrev Variables := Table Text Value

structure Effect where
  task : Task
  globals : Variables
  output : Text := []
  result : Except Fault Value

def Value.asName : Value → Except Fault Text
  | .text name => .ok name
  | v => .error (.ifWritable v.isWritable (.notAVariableName v))

namespace Task

def valueOf? (t : Task) (globals : Variables) (name : Text) : Option Value :=
  match t.locals.get? name with
  | some v => some v
  | none => globals.get? name

def assign (t : Task) (globals : Variables) (name : Text) (v : Value) : Task × Variables :=
  if t.locals.contains name then ({ t with locals := t.locals.insert name v }, globals)
  else if globals.contains name then (t, globals.insert name v)
  else ({ t with locals := t.locals.insert name v }, globals)

/-- Moves the position of the current level so that the instruction after it is `offset` away from
the jump itself. Only a composite body has a position to move. -/
def jump (t : Task) (arg : Operand) : Except Fault (Value × Task) :=
  if t.level = 0 || 0 < t.atomicDepth then .error .jumpOutsideComposite
  else
    match arg with
    | .value (.int offset) =>
      match t.positions.get? t.level with
      | none => .error (.missingPosition t.level)
      | some position =>
        let target := position + offset
        if target < 1 then
          .error (.ifWritable (Text.hasNumeral offset) (.jumpBeforeStart offset))
        else
          .ok (.int target, { t with positions := t.positions.insert t.level (target - 1) })
    | _ => .error (.ifWritable arg.isWritable (.badOffset arg))

def moveToReturn (t : Task) : Except Fault (Value × Task) := do
  let (v, t) ← t.pop
  .ok (v, t.pushReturn v)

def moveFromReturn (t : Task) : Except Fault (Value × Task) := do
  let (v, t) ← t.popReturn
  .ok (v, t.push v)

end Task

namespace Effect

def ofTask (t : Task) (globals : Variables) : Except Fault (Value × Task) → Effect
  | .ok (v, task) => { task, globals, result := .ok v }
  | .error fault => { task := t, globals, result := .error fault }

/-- The value on top is taken even when it cannot be printed. -/
def print (t : Task) (globals : Variables) : Effect :=
  match t.pop with
  | .error fault => { task := t, globals, result := .error fault }
  | .ok (v, t) =>
    if v.isWritable then
      { task := t, globals, output := v.display ++ [.space], result := .ok v }
    else { task := t, globals, result := .error .tooManyDigits }

/-- The name on top is taken even when it is none or nothing has it. -/
def fetch (t : Task) (globals : Variables) : Effect :=
  match t.pop with
  | .error fault => { task := t, globals, result := .error fault }
  | .ok (top, t) =>
    match top.asName with
    | .error fault => { task := t, globals, result := .error fault }
    | .ok name =>
      match t.valueOf? globals name with
      | none => { task := t, globals, result := .error (.undefinedVariable name) }
      | some v => { task := t.push v, globals, result := .ok v }

/-- Nothing is taken unless both the name and the value are there. -/
def store (t : Task) (globals : Variables) : Effect :=
  match t.stack with
  | [] => { task := t, globals, result := .error .stackUnderflow }
  | top :: below =>
    match top.asName with
    | .error fault => { task := t, globals, result := .error fault }
    | .ok name =>
      match below with
      | [] => { task := t, globals, result := .error .stackUnderflow }
      | v :: rest =>
        let (task, globals) := { t with stack := rest }.assign globals name v
        { task, globals, result := .ok v }

/-- The flag is taken even when the jump fails. -/
def zeroBranch (arg : Operand) (t : Task) (globals : Variables) : Effect :=
  match t.pop with
  | .error fault => { task := t, globals, result := .error fault }
  | .ok (flag, t) =>
    if flag.isZero then .ofTask t globals (t.jump arg)
    else { task := t, globals, result := .ok flag }

end Effect

def Builtin.effect (b : Builtin) (arg : Operand) (t : Task) (globals : Variables) : Effect :=
  match b with
  | .print => .print t globals
  | .newline => { task := t, globals, output := [.lineFeed], result := .ok (.flag true) }
  | .fetch => .fetch t globals
  | .store => .store t globals
  | .branch => .ofTask t globals (t.jump arg)
  | .zeroBranch => .zeroBranch arg t globals
  | .toReturn => .ofTask t globals t.moveToReturn
  | .fromReturn => .ofTask t globals t.moveFromReturn

end ThreadedCode
