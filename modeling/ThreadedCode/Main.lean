import ThreadedCode.Console.Loop

/-!
The command line: a console on standard input and output. All that is decided is decided by the
console; here lines are read, files are fetched, and what the console has written is passed on.
-/

namespace ThreadedCode

namespace CommandLine

def openFailure : IO.Error → OpenFailure
  | .noFileOrDirectory .. => .missing
  | .inappropriateType _ code _ => if code = 21 then .isDirectory else .notDirectory
  | .invalidArgument _ code _ => if code = 36 then .nameTooLong else .missing
  | _ => .missing

def fetch (path : Text) : IO (Bytes × Except OpenFailure Bytes) := do
  let key := (Disk.pathBytes path).toOption.getD []
  try
    let content ← IO.FS.readBinFile path.toString
    return (key, .ok content.toList)
  catch failure => return (key, .error (openFailure failure))

/-- A disk with the files that a text may ask for. -/
def diskFor (t : Text) : IO Disk := do
  let found ← (Console.requestedPaths t).mapM fetch
  return fun path =>
    match found.find? fun e => e.1 = path with
    | some e => e.2
    | none => .error .missing

def passOn (c : Console) : IO Console := do
  let out ← IO.getStdout
  out.putStr c.machine.output.toString
  out.flush
  IO.eprint c.machine.diagnostics.toString
  return { c with machine := { c.machine with output := [], diagnostics := [] } }

def perform {α : Type} (x : Action Console α) (c : Console) : IO (Option (α × Console)) := do
  match x c with
  | .ok a c => return some (a, ← passOn c)
  | .halt why c =>
    let _ ← passOn c
    IO.eprintln (Text.concat [why.kind, ": ", why.message]).toString
    return none
  | .exhausted =>
    IO.eprintln "out of fuel"
    return none

def readEvent : IO Event := do
  let line ← (← IO.getStdin).getLine
  if line.isEmpty then return .endOfInput
  else return .line (Text.chomp line)

def fuel : Nat := 1000000000000

/-- One round after the other; the result is the exit code. -/
partial def converse (c : Console) : IO UInt32 := do
  match ← perform Console.prompt c with
  | none => return 1
  | some (p, c) =>
    IO.print p.toString
    (← IO.getStdout).flush
    let event ← readEvent
    let disk ← match event with
      | .line t => diskFor t
      | _ => diskFor []
    let host : Machine.Host := fun name _ _ => Action.halt (.malformed (.missingPrimitive name))
    match ← perform (Console.answer { host, disk, fuel } event) c with
    | none => return 1
    | some (false, _) => return 0
    | some (true, c) => converse c

end CommandLine

end ThreadedCode

open ThreadedCode in
def main : IO UInt32 := do
  match Console.start { strict := .encoded Utf8.encoding } Console.defaultTaskName with
  | .error fault =>
    IO.eprintln fault.message.toString
    return 1
  | .ok c =>
    match ← CommandLine.perform Console.greet c with
    | none => return 1
    | some (_, c) => CommandLine.converse c
