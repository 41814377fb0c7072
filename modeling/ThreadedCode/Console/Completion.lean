import ThreadedCode.Console.Command

/-!
Completion of the word before the cursor: by the names of commands where it is the first word of the
text and begins with a dot, and by the visible words whose names begin with it in lower case.
-/

namespace ThreadedCode

/-- A text to offer, which replaces `replaced` code points before the cursor. -/
structure Completion where
  text : Text
  replaced : Nat
deriving DecidableEq

namespace Console

def commandNames : List Text := Text.sortOn id (Command.all.map Command.name)

def commandCandidates (before partialWord : Text) : List Text :=
  if before.trimLeft = partialWord && partialWord.head? = some '.' then
    commandNames.filter fun name => partialWord.isPrefixOf name
  else []

def complete (d : Dictionary) (before : Text) : Except Fault (List Completion) := do
  let partialWord := before.lastRun
  if partialWord = [] then .ok []
  else
    let visible ← d.wordsInScope
    let names := (visible.map (·.name)).filter fun name => partialWord.lower.isPrefixOf name
    .ok ((commandCandidates before partialWord ++ names).map fun name =>
      { text := name, replaced := partialWord.length })

end Console

end ThreadedCode
