import ThreadedCode.Console.Entry

/-!
The interactive loop. It prompts with the vocabulary where a search begins and enters each line
at the console, until the input ends or a command quits.
-/

namespace ThreadedCode

inductive Event where
  | line (t : Text)
  | interrupt
  | endOfInput
deriving DecidableEq

namespace Console

def greet : Action Console Unit :=
  printLines ["thrforth REPL", "Type words to run them. Use .help for dot-commands."]

def prompt : Action Console Text := do
  let d ← dictionary
  Action.ofExcept (d.contextVocabulary.map fun name => Text.concat ["[", name, "] ok> "])

/-- Enters a line; the result tells whether to go on. -/
def enterOrQuit (setting : Setting) (t : Text) : Action Console Bool := fun c =>
  match enterText setting t c with
  | .ok () c => .ok true c
  | .halt .quit c => .ok false c
  | .halt why c => .halt why c
  | .exhausted => .exhausted

def answer (setting : Setting) : Event → Action Console Bool
  | .endOfInput => do
    printLine "\nEOF -> quitting."
    pure false
  | .interrupt => do
    printLine "\nKeyboardInterrupt (Ctrl-C). Use .bye to exit."
    pure true
  | .line t => if t.isBlank then pure true else enterOrQuit setting t

structure Interaction where
  prompts : List Text
  outcome : Outcome Console Unit

/-- One round for each event; the input ends after the last one. -/
def rounds (setting : Setting) (c : Console) (events : List Event) : Interaction :=
  match prompt c with
  | .halt why c => ⟨[], .halt why c⟩
  | .exhausted => ⟨[], .exhausted⟩
  | .ok p c =>
    match events with
    | [] =>
      match answer setting .endOfInput c with
      | .ok _ c => ⟨[p], .ok () c⟩
      | .halt why c => ⟨[p], .halt why c⟩
      | .exhausted => ⟨[p], .exhausted⟩
    | event :: rest =>
      match answer setting event c with
      | .ok true c =>
        let later := rounds setting c rest
        ⟨p :: later.prompts, later.outcome⟩
      | .ok false c => ⟨[p], .ok () c⟩
      | .halt why c => ⟨[p], .halt why c⟩
      | .exhausted => ⟨[p], .exhausted⟩

def interact (setting : Setting) (events : List Event) (c : Console) : Interaction :=
  match greet c with
  | .ok () c => rounds setting c events
  | .halt why c => ⟨[], .halt why c⟩
  | .exhausted => ⟨[], .exhausted⟩

end Console

end ThreadedCode
