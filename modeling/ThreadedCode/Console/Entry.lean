import ThreadedCode.Console.Command

/-!
Text entered at the console. The lines between two command lines are one source: a string may run
over several of them, but not past a command line.
-/

namespace ThreadedCode

namespace Console

/-- Enters lines at the console while the lines of `source` wait to be lexed. -/
def enterLines (setting : Setting) (source : List Text) : List Text → Action Console Unit
  | [] => enterTokens setting (Lexer.tokens source)
  | line :: rest =>
    if Command.isCommandLine line then do
      enterTokens setting (Lexer.tokens source)
      commandLine setting line
      enterLines setting [] rest
    else enterLines setting (source ++ [line]) rest

def enterText (setting : Setting) (t : Text) : Action Console Unit :=
  enterLines setting [] (Text.lines t)

/-- The paths that the commands of a text name to be read. -/
def requestedPaths (t : Text) : List Text :=
  (Text.lines t).filterMap fun line =>
    match ShellWords.split line with
    | .ok (name :: path :: _) => if name = Command.readFrom.name then some path else none
    | _ => none

end Console

end ThreadedCode
