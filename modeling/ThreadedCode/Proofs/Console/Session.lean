import ThreadedCode.Console.Loop
import ThreadedCode.Proofs.Console.Commands

/-!
A whole interactive session. Which event ends it, and how, can be read off the events and the files
without running anything: it is the first one with a fate.
-/

namespace ThreadedCode

namespace Console

def linesFate (disk : Disk) (lines : List Text) : Option Halt :=
  lines.findSome? fun line =>
    if Command.isCommandLine line then Command.lineFate disk line else none

theorem linesFate_cons (disk : Disk) (line : Text) (lines : List Text) :
    linesFate disk (line :: lines) =
      (if Command.isCommandLine line then Command.lineFate disk line else none).or
        (linesFate disk lines) := by
  rw [linesFate, List.findSome?_cons]
  split
  next why here => rw [here, Option.some_or]
  next none => rw [none, Option.none_or, linesFate]

end Console

/-- Why an event ends the session, if it does. -/
def Event.fate (disk : Disk) : Event → Option Halt
  | endOfInput => some .quit
  | interrupt => none
  | line t => if t.isBlank then none else Console.linesFate disk (Text.lines t)

theorem Event.fate_cases {disk : Disk} {event : Event} {why : Halt}
    (fate : event.fate disk = some why) :
    why = .quit ∨ ∃ fault, why = .fault fault ∧ fault.ofReading = true := by
  cases event with
  | line t =>
    rw [Event.fate] at fate
    split at fate
    · cases fate
    · obtain ⟨line, -, fate⟩ := List.exists_of_findSome?_eq_some fate
      split at fate
      · exact Command.lineFate_cases fate
      · cases fate
  | interrupt => cases fate
  | endOfInput =>
    cases fate
    exact .inl rfl

namespace Console

def onward : Option Halt → Console → Outcome Console Bool
  | none, c => .ok true c
  | some .quit, c => .ok false c
  | some why, c => .halt why c

def ending : Halt → Console → Outcome Console Unit
  | .quit, c => .ok () c
  | why, c => .halt why c

variable {c : Console} {setting : Setting}

theorem enterLines_ends (h : Sturdy c) (fuel : 0 < setting.fuel) (source lines : List Text) :
    (enterLines setting source lines c).EndsBy (linesFate setting.disk lines) Sturdy := by
  induction lines generalizing source c with
  | nil => exact enterTokens_succeeds h fuel _
  | cons line lines ih =>
    rw [enterLines, linesFate_cons]
    by_cases named : Command.isCommandLine line
    · rw [if_pos named, if_pos named]
      exact (enterTokens_succeeds h fuel _).bind fun _ _ h =>
        (commandLine_ends h fuel named).bind fun _ _ h => ih h []
    · rw [if_neg named, if_neg named, Option.none_or]
      exact ih h _

theorem enterOrQuit_eq (h : Sturdy c) (fuel : 0 < setting.fuel) (t : Text) :
    ∃ c', Sturdy c' ∧
      enterOrQuit setting t c = onward (linesFate setting.disk (Text.lines t)) c' := by
  have ended := enterLines_ends h fuel [] (Text.lines t)
  unfold enterOrQuit enterText
  cases ran : enterLines setting [] (Text.lines t) c with
  | ok u c =>
    rw [ran] at ended
    rw [← ended.1]
    exact ⟨c, ended.2, rfl⟩
  | halt why c =>
    rw [ran] at ended
    rw [← ended.1]
    exact ⟨c, ended.2, by cases why <;> rfl⟩
  | exhausted =>
    rw [ran] at ended
    exact ended.elim

theorem answer_eq (h : Sturdy c) (fuel : 0 < setting.fuel) (event : Event) :
    ∃ c', Sturdy c' ∧ answer setting event c = onward (event.fate setting.disk) c' := by
  cases event with
  | line t =>
    rw [answer, Event.fate]
    by_cases blank : t.isBlank
    · rw [if_pos blank, if_pos blank]
      exact ⟨c, h, rfl⟩
    · rw [if_neg blank, if_neg blank]
      exact enterOrQuit_eq h fuel t
  | interrupt =>
    obtain ⟨_, c', printed, h⟩ := Outcome.Succeeds.exists_ok (printLine_succeeds h _)
    exact ⟨c', h, Action.bind_of_eq printed⟩
  | endOfInput =>
    obtain ⟨_, c', printed, h⟩ := Outcome.Succeeds.exists_ok (printLine_succeeds h _)
    exact ⟨c', h, Action.bind_of_eq printed⟩

theorem prompt_succeeds (h : Sturdy c) : (prompt c).Succeeds Sturdy := by
  obtain ⟨n, _, context, -⟩ := h.ordered.context
  rw [prompt, Action.bind_of_eq (dictionary_eq c),
    Dictionary.contextVocabulary_eq_ok.mpr context]
  exact ⟨rfl, h.ready⟩

/-- The loop prompts up to the first event with a fate and ends as this event does; without one it
comes to the end of the input. -/
theorem rounds_end (h : Sturdy c) (fuel : 0 < setting.fuel) (events : List Event) :
    ∃ last, (rounds setting c events).outcome =
        ending ((events.findSome? (Event.fate setting.disk)).getD .quit) last ∧
      (rounds setting c events).prompts.length =
        events.findIdx (fun e => (e.fate setting.disk).isSome) + 1 := by
  induction events generalizing c with
  | nil =>
    obtain ⟨p, c', asked, h⟩ := Outcome.Succeeds.exists_ok (prompt_succeeds h)
    obtain ⟨last, -, answered⟩ := answer_eq h fuel .endOfInput
    rw [rounds, asked]
    dsimp only
    rw [answered]
    exact ⟨last, rfl, rfl⟩
  | cons event events ih =>
    obtain ⟨p, c', asked, h⟩ := Outcome.Succeeds.exists_ok (prompt_succeeds h)
    obtain ⟨c'', h, answered⟩ := answer_eq h fuel event
    rw [rounds, asked]
    dsimp only
    rw [answered, List.findSome?_cons, List.findIdx_cons]
    cases event.fate setting.disk with
    | none =>
      obtain ⟨last, outcome, prompts⟩ := ih h
      exact ⟨last, outcome, congrArg (· + 1) prompts⟩
    | some why => exact ⟨c'', by cases why <;> rfl, by cases why <;> rfl⟩

theorem start_sturdy {m : Machine} (lenient : m.strict = .lenient) (globals : m.globals = ∅)
    (ordered : m.dictionary.Ordered) (own : ∀ w ∈ m.dictionary.words.values, w.isOwn = true)
    (user : ∃ v, m.dictionary.vocabularies.get? Dictionary.userVocabulary = some v)
    (taskName : Text) : ∃ c, start m taskName = .ok c ∧ Sturdy c := by
  have used := Dictionary.use_eq_ok.mpr ⟨user, rfl⟩
  rw [start, used]
  refine ⟨_, rfl, lenient, ordered.use used, own, fun v member => ?_⟩
  rw [holdings, Holdings.values, globals] at member
  cases member

theorem start_initial : ∃ c, start {} defaultTaskName = .ok c ∧ Sturdy c := by
  have unbuilt : ({} : Machine).dictionary = Dictionary.initial := by
    rw [Machine.dictionary, Option.getD_none]
  refine start_sturdy rfl rfl ?_ ?_ ?_ _
  · rw [unbuilt]
    exact Dictionary.Layered.initial.ordered
  · rw [unbuilt]
    decide
  · rw [unbuilt]
    exact Option.isSome_iff_exists.mp (by decide)

/-- An interactive session ends by the first event with a fate, or by the end of the input. All that
breaks it off is a command to read a file that no path can name or whose bytes are no text; whatever
else is entered, the next prompt comes. -/
theorem session_ends_by_event (setting : Setting) (fuel : 0 < setting.fuel)
    (events : List Event) :
    ∃ c last, start {} defaultTaskName = .ok c ∧
      let why := (events.findSome? (Event.fate setting.disk)).getD .quit
      let session := interact setting events c
      session.outcome = ending why last ∧
        (why = .quit ∨ ∃ fault, why = .fault fault ∧ fault.ofReading = true) ∧
        session.prompts.length =
          events.findIdx (fun e => (e.fate setting.disk).isSome) + 1 := by
  obtain ⟨c, started, sturdy⟩ := start_initial
  obtain ⟨_, c', greeted, sturdy⟩ := Outcome.Succeeds.exists_ok (printLines_succeeds sturdy
    ["thrforth REPL", "Type words to run them. Use .help for dot-commands."])
  obtain ⟨last, outcome, prompts⟩ := rounds_end sturdy fuel events
  have session : interact setting events c = rounds setting c' events := by
    rw [interact, greet, greeted]
  refine ⟨c, last, started, ?_⟩
  dsimp only
  rw [session]
  refine ⟨outcome, ?_, prompts⟩
  cases found : events.findSome? (Event.fate setting.disk) with
  | none => exact .inl rfl
  | some why =>
    obtain ⟨event, -, fate⟩ := List.exists_of_findSome?_eq_some found
    exact Event.fate_cases fate

theorem session_ends_by_event_bye :
    let setting : Setting :=
      { host := fun _ _ _ => pure .null, disk := Disk.ofTree [], fuel := 1 }
    let events : List Event :=
      [.interrupt, .line "drop absent \"open", .line ".read-from absent\n.use absent\n.see '",
        .line ".bye", .line "cr"]
    0 < setting.fuel ∧
      ∃ c last, start {} defaultTaskName = .ok c ∧
        (interact setting events c).outcome = .ok () last ∧
        (interact setting events c).prompts.length = 4 := by
  intro setting events
  have fuel : 0 < setting.fuel := by decide
  have quits : (events.findSome? (Event.fate setting.disk)).getD .quit = .quit := by
    decide +kernel
  have fourth : events.findIdx (fun e => (e.fate setting.disk).isSome) = 3 := by decide +kernel
  obtain ⟨c, last, started, outcome, -, prompts⟩ := session_ends_by_event setting fuel events
  rw [quits] at outcome
  rw [fourth] at prompts
  exact ⟨fuel, c, last, started, outcome, prompts⟩

/-- A file with a byte that begins no character breaks a session off. -/
theorem session_broken_off :
    let setting : Setting :=
      { host := fun _ _ _ => pure .null
        disk := Disk.ofTree [([[0x62, 0x61, 0x64, 0x2E, 0x66, 0x73]], .file [0xFF])]
        fuel := 1 }
    (start {} defaultTaskName).map
        (fun c => (interact setting [.line ".read-from bad.fs"] c).outcome.why?) =
      .ok (some (.fault (.undecodable ⟨[0xFF], 0, .invalidStart⟩))) := by
  decide +kernel

end Console

end ThreadedCode
