import ThreadedCode.Console.Basic
import ThreadedCode.Text.ShellWords

/-!
The commands of the console, each on a line of its own that begins with its name. They show or
change what the console, its machine and its dictionary hold. A fault of the dictionary is reported
in a line; every other fault goes through.
-/

namespace ThreadedCode

inductive Command where
  | help
  | stack
  | words
  | vocabularies
  | use
  | addVocabulary
  | forget
  | see
  | global
  | vars
  | tasks
  | readFrom
  | bye
deriving DecidableEq

namespace Command

def all : List Command :=
  [help, stack, words, vocabularies, use, addVocabulary, forget, see, global, vars, tasks,
    readFrom, bye]

def name : Command → Text
  | help => ".help"
  | stack => ".stack"
  | words => ".words"
  | vocabularies => ".vocs"
  | use => ".use"
  | addVocabulary => ".vocabulary"
  | forget => ".forget"
  | see => ".see"
  | global => ".global"
  | vars => ".vars"
  | tasks => ".tasks"
  | readFrom => ".read-from"
  | bye => ".bye"

def ofName? (t : Text) : Option Command := all.find? fun c => c.name = t

/-- Whether a line is for a command: its first word is the name of one. -/
def isCommandLine (line : Text) : Bool :=
  match line.firstWord? with
  | some w => (ofName? w).isSome
  | none => false

end Command

namespace Console

def helpLines : List Text :=
  ["Dot-commands:",
    "  .stack .words .vocs .vars .tasks",
    "  .use VOC  .vocabulary NAME  .forget WORD  .see WORD",
    "  .global NAME              - pop pending value into a global variable",
    "  .read-from \"file\"         - interpret a source file",
    "  .bye                      - exit REPL"]

def displayed (v : Value) : Except Fault Text :=
  if v.isWritable then .ok v.display else .error .tooManyDigits

def stackLine (pending : List Value) : Except Fault Text := do
  let texts ← pending.reverse.mapM displayed
  .ok (Text.concat ["<", Text.ofNat pending.length, "> ", Text.join " " texts])

def vocabularyLine (d : Dictionary) (v : Vocabulary) : Except Fault Text := do
  let searched ← d.contextVocabulary
  let current ← d.currentVocabulary
  let parent : Text :=
    match v.parent with
    | none => "-"
    | some [] => "-"
    | some parent => parent
  .ok (Text.concat
    [if v.name = searched then "S" else " ", if v.name = current then "C" else " ", " ",
      v.name.padRight 12, " prev=", parent])

def listVocabularies (d : Dictionary) : List Vocabulary → Action Console Unit
  | [] => pure ()
  | v :: rest => do
    printLine (← Action.ofExcept (vocabularyLine d v))
    listVocabularies d rest

def listVariables (kind : Text) : List (Text × Value) → Action Console Unit
  | [] => pure ()
  | (name, v) :: rest => do
    printLine (Text.concat [kind, " ", name, " = ", ← Action.ofExcept (displayed v)])
    listVariables kind rest

def sortedEntries (table : Variables) : List (Text × Value) :=
  Text.sortOn (·.1) table.entries

def taskLine (m : Machine) (name : Text) (id : TaskId) : Text :=
  match m.task? id with
  | none => name.padRight 12
  | some t =>
    Text.concat [name.padRight 12, " entry=", t.entry.name, " depth=", Text.ofNat t.depth]

def withArgument (command : Command) (args : List Text) (body : Text → Action Console Unit) :
    Action Console Unit :=
  match args with
  | [] => printLine (Text.concat ["usage: ", command.name, " NAME"])
  | arg :: _ => body arg

def changeDictionary (f : Dictionary → Except Fault Dictionary) : Action Console Unit :=
  atMachine (Machine.changeDictionary fun d => (f d).map fun d => ((), d))

def addVocabularyCommand (name : Text) : Action Console Unit := do
  changeDictionary (·.addVocabulary name)
  let d ← dictionary
  let v ← Action.ofExcept (d.vocabulary name)
  printLine (Text.concat
    ["NEW vocabulary ", name.quoted, " prev=", v.parent.elim "None" Text.quoted])

def seeCommand (name : Text) : Action Console Unit := do
  let d ← dictionary
  match ← Action.ofExcept (d.find? name.lower) with
  | none => printLine (Text.concat ["undefined word: ", name])
  | some w => printLine (d.listing w)

def globalCommand (name : Text) : Action Console Unit := do
  let c ← Action.get
  match c.pending with
  | [] => printLine ".global: stack underflow"
  | v :: rest =>
    Action.modify fun c =>
      { c with
        pending := rest
        machine := { c.machine with globals := c.machine.globals.insert name v } }

/-- Interprets a file. A file that cannot be opened is reported; its other faults go through. -/
def readFromCommand (setting : Setting) (path : Text) : Action Console Unit :=
  Action.catchFault (enterSource setting (.ofFile setting.disk path)) fun fault =>
    match fault with
    | .cannotOpen _ _ =>
      printLine (Text.concat ["read-from: cannot open ", path.quoted, ": ", fault.message])
    | _ => Action.fail fault

def runCommand (setting : Setting) (command : Command) (args : List Text) :
    Action Console Unit := do
  match command with
  | .help => printLines helpLines
  | .stack => printLine (← Action.ofExcept (stackLine (← Action.get).pending))
  | .words =>
    let visible ← Action.ofExcept (← dictionary).wordsInScope
    printLine (Text.join " " (visible.map (·.name)))
  | .vocabularies =>
    let d ← dictionary
    listVocabularies d d.vocabularies.values
  | .use => withArgument command args fun name => changeDictionary (·.use name)
  | .addVocabulary => withArgument command args addVocabularyCommand
  | .forget => withArgument command args fun name => changeDictionary (·.forget name.lower)
  | .see => withArgument command args seeCommand
  | .global => withArgument command args globalCommand
  | .vars =>
    let c ← Action.get
    listVariables "global" (sortedEntries c.machine.globals)
    listVariables "local " (sortedEntries c.locals)
  | .tasks =>
    let m := (← Action.get).machine
    if m.registry.isEmpty then printLine "(no tasks)"
    else printLines (m.registry.entries.map fun e => taskLine m e.1 e.2)
  | .readFrom => withArgument command args (readFromCommand setting)
  | .bye =>
    printLine "bye."
    Action.halt .quit

/-- Runs the command of a line, which is split as a shell does. -/
def commandLine (setting : Setting) (line : Text) : Action Console Unit :=
  match ShellWords.split line with
  | .error defect => printLine (Text.concat ["parse error in dot-command: ", defect.message])
  | .ok [] => Action.fail .emptyCommand
  | .ok (name :: args) =>
    match Command.ofName? name with
    | none => printLine (Text.concat ["unknown dot-command: ", name.quoted])
    | some command =>
      Action.catchFault (runCommand setting command args) fun fault =>
        if fault.ofDictionary then
          printLine (Text.concat [name, ": ", fault.kind, ": ", fault.message])
        else Action.fail fault

end Console

end ThreadedCode
