import ThreadedCode.Lexer.Token
import ThreadedCode.Machine.Interpreter
import ThreadedCode.Source

/-!
The console: a machine at which one types. Literals wait on a pending stack. A word runs as a task
of its own, which is given the pending stack and the local variables of the task before it; what it
leaves of both is kept for the next one.
-/

namespace ThreadedCode

/-- What a console relies on: the primitives of the embedding program, the files, and the fuel of
one run. -/
structure Setting where
  host : Machine.Host
  disk : Disk
  fuel : Nat

structure Console where
  machine : Machine
  taskName : Text
  /-- Values that wait for the next task, top first. -/
  pending : List Value := []
  locals : Variables := ∅
deriving DecidableEq

namespace Console

def defaultTaskName : Text := "main"

def start (m : Machine) (taskName : Text) : Except Fault Console := do
  let d ← m.dictionary.use Dictionary.userVocabulary
  .ok { machine := { m with built := some d }, taskName }

def atMachine {α : Type} (x : Action Machine α) : Action Console α :=
  x.within Console.machine fun c m => { c with machine := m }

def printLine (t : Text) : Action Console Unit := do
  atMachine (Machine.write t)
  atMachine (Machine.write [.lineFeed])

def printLines : List Text → Action Console Unit
  | [] => pure ()
  | t :: rest => do
    printLine t
    printLines rest

def pushPending (v : Value) : Action Console Unit :=
  Action.modify fun c => { c with pending := v :: c.pending }

def dictionary : Action Console Dictionary := atMachine Machine.useDictionary

def spawnTask (w : Word) : Action Console TaskId := do
  let c ← Action.get
  let id ← atMachine (Machine.spawn c.taskName w)
  atMachine (Action.modify (Machine.updateTask id fun t =>
    { t with stack := c.pending, locals := c.locals }))
  pure id

def keepFrom (id : TaskId) : Action Console Unit :=
  Action.modify fun c =>
    match c.machine.task? id with
    | some t => { c with pending := t.stack, locals := t.locals }
    | none => c

def runWord (setting : Setting) (w : Word) : Action Console Unit := do
  let id ← spawnTask w
  atMachine (Machine.run setting.host setting.fuel id)
  keepFrom id

/-- A token is a complete string, or else an integer, or else the name of a word to run. -/
def enterToken (setting : Setting) (token : Text) : Action Console Unit :=
  if token.isString then pushPending (.text token.unquote)
  else
    match token.integer? with
    | some i => pushPending (.int i)
    | none => do
      let d ← dictionary
      match ← Action.ofExcept (d.find? token) with
      | some w => runWord setting w
      | none => printLine (Text.concat ["undefined word: ", token])

def enterTokens (setting : Setting) : List Text → Action Console Unit
  | [] => pure ()
  | token :: rest => do
    enterToken setting token
    enterTokens setting rest

/-- Interprets the tokens that a source gives before its end or its failure, and then fails if it
does. -/
def enterSource (setting : Setting) (source : Source) : Action Console Unit := do
  let (tokens, failure) := Lexer.sourceTokens source
  enterTokens setting tokens
  match failure with
  | none => pure ()
  | some fault => Action.fail fault

end Console

end ThreadedCode
